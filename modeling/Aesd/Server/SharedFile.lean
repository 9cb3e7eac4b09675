import Aesd.Monitor.Exclusion

/-!
# One file for all threads

The threads that run `aesdsocket_write_line` append their lines to one file, a
piece at a time, and those that run `aesdsocket_read_line` read it, all under the
monitor. As long as each thread leaves its wait clear, no line is torn.
-/

namespace Aesd

open Transition

/-- The monitor with its threads, the file, and two variables of
`aesdsocket_write_line` for each thread that is in it. -/
structure SharedFile (ι : Type) where
  threads : Threads ι
  content : List UInt8
  line : ι → List UInt8
  bytesToWrite : ι → Nat

/-- What a thread does next: it calls `aesdsocket_write_line`, runs some other
section of the monitor than those at the beginning and the end of that function,
has some bytes written, or stops writing and returns. -/
inductive FileEvent (ι : Type)
  | calls (i : ι) (line : List UInt8)
  | other (i : ι) (act : Section)
  | writes (i : ι) (count : Nat)
  | returns (i : ι)

namespace SharedFile

variable {ι : Type} [DecidableEq ι]

/-- No thread has called the monitor yet. -/
def init (content : List UInt8) : SharedFile ι := ⟨Threads.init, content, fun _ => [], fun _ => 0⟩

/-- The part of its line that a thread has written. -/
def written (s : SharedFile ι) (i : ι) : List UInt8 :=
  (s.line i).take ((s.line i).length - s.bytesToWrite i)

/-- The bytes that a thread offers to `write`. -/
def offered (s : SharedFile ι) (i : ι) : List UInt8 :=
  (s.line i).drop ((s.line i).length - s.bytesToWrite i)

/-- A step of one thread. The file is open with `O_APPEND`, and a call takes some
bytes of those it is offered. A thread whose call fails takes no step any more. -/
inductive Step (s : SharedFile ι) : FileEvent ι → SharedFile ι → Prop
  | calls {i : ι} {line : List UInt8} {threads : Threads ι}
      (hstep : Threads.Step s.threads (i, .startWriting) threads) :
      Step s (.calls i line) { s with
        threads := threads
        line := Function.update s.line i line
        bytesToWrite := Function.update s.bytesToWrite i line.length }
  | other {i : ι} {act : Section} {threads : Threads ι} (hact : act ≠ .startWriting)
      (hreader : act = .stop → s.threads.place i = .active .reader)
      (hstep : Threads.Step s.threads (i, act) threads) :
      Step s (.other i act) { s with threads := threads }
  | writes {i : ι} {count : Nat} (hplace : s.threads.place i = .active .writer)
      (hpos : 0 < count) (hle : count ≤ s.bytesToWrite i) :
      Step s (.writes i count) { s with
        content := s.content ++ (s.offered i).take count
        bytesToWrite := Function.update s.bytesToWrite i (s.bytesToWrite i - count) }
  | returns {i : ι} {threads : Threads ι} (hplace : s.threads.place i = .active .writer)
      (hdone : s.bytesToWrite i = 0) (hstep : Threads.Step s.threads (i, .stop) threads) :
      Step s (.returns i) { s with threads := threads }

/-- A thread that leaves its wait would have passed the test. -/
def Clear (s : SharedFile ι) : FileEvent ι → Prop
  | .other i act => s.threads.LeavesClear (i, act)
  | _ => True

def ClearStep (s : SharedFile ι) (event : FileEvent ι) (s' : SharedFile ι) : Prop :=
  s.Clear event ∧ Step s event s'

/-- What the events so far say: the line of each thread's last call, and the lines
of the calls that have returned. -/
structure Calls (ι : Type) where
  line : ι → List UInt8
  completed : List (List UInt8)

def Calls.next (calls : Calls ι) : FileEvent ι → Calls ι
  | .calls i line => { calls with line := Function.update calls.line i line }
  | .returns i => { calls with completed := calls.completed ++ [calls.line i] }
  | _ => calls

def Calls.ofEvents (events : List (FileEvent ι)) : Calls ι :=
  events.foldl Calls.next ⟨fun _ => [], []⟩

/-! ## Who writes -/

section Moves

variable (threads : Threads ι) (i : ι) (place : Place) (monitor : Monitor)
  (signal : Option Condition)

theorem isWriting_of_ne {j : ι} (hne : j ≠ i) :
    ((threads.move i place monitor signal).place j).isWriting = (threads.place j).isWriting := by
  rw [Threads.move_place_of_ne threads hne, Place.isWriting_wakeBy]

theorem isWriting_self :
    ((threads.move i place monitor signal).place i).isWriting = place.isWriting := by
  rw [Threads.move_place_self, Place.isWriting_wakeBy]

theorem isWaiting_of_ne {j : ι} (hne : j ≠ i) (role : Role) :
    ((threads.move i place monitor signal).place j).isWaiting role =
      (threads.place j).isWaiting role := by
  rw [Threads.move_place_of_ne threads hne, Place.isWaiting_wakeBy]

theorem isWaiting_self (role : Role) :
    ((threads.move i place monitor signal).place i).isWaiting role = place.isWaiting role := by
  rw [Threads.move_place_self, Place.isWaiting_wakeBy]

/-- The same threads write when the one that moves does before and after, or neither. -/
theorem isWriting_move (hplace : place.isWriting = (threads.place i).isWriting) (j : ι) :
    ((threads.move i place monitor signal).place j).isWriting = (threads.place j).isWriting := by
  by_cases hne : j = i
  · rw [hne, isWriting_self, hplace]
  · exact isWriting_of_ne threads i place monitor signal hne

end Moves

theorem isWriting_iff {place : Place} : place.isWriting = true ↔ place = .active .writer := by
  constructor
  · intro h
    rcases place with _ | _ | _ | _ | ⟨_ | _⟩
    case active.writer => rfl
    all_goals cases h
  · rintro rfl
    rfl

/-- A thread that writes has written the front of its line to the end of the file,
and a thread that waits to write has its whole line to write. -/
structure Orderly (content : List UInt8) (calls : Calls ι) (s : SharedFile ι) : Prop where
  exclusive : s.threads.Exclusive
  line : s.line = calls.line
  within : ∀ i, s.bytesToWrite i ≤ (s.line i).length
  waiting : ∀ i, (s.threads.place i).isWaiting .writer = true →
    s.bytesToWrite i = (s.line i).length
  idle : (∀ i, (s.threads.place i).isWriting = false) →
    s.content = content ++ calls.completed.flatten
  busy : ∀ i, (s.threads.place i).isWriting = true →
    s.content = content ++ calls.completed.flatten ++ s.written i

theorem init_orderly (content : List UInt8) :
    Orderly content (Calls.ofEvents []) (init content : SharedFile ι) where
  exclusive i j _ hi := by cases hi
  line := rfl
  within i := Nat.le_refl 0
  waiting i hi := by cases hi
  idle _ := (List.append_nil content).symm
  busy i hi := by cases hi

variable {content : List UInt8} {calls : Calls ι} {s : SharedFile ι} {i : ι} {place : Place}
  {monitor : Monitor} {signal : Option Condition}

omit [DecidableEq ι] in
theorem written_of_whole (h : s.bytesToWrite i = (s.line i).length) : s.written i = [] := by
  rw [written, h, Nat.sub_self, List.take_zero]

omit [DecidableEq ι] in
theorem written_of_done (h : s.bytesToWrite i = 0) : s.written i = s.line i := by
  rw [written, h, Nat.sub_zero, List.take_length]

/-- Another thread than the writer moves, or the writer within its function. -/
theorem Orderly.move (h : Orderly content calls s)
    (hexclusive : (s.threads.move i place monitor signal).Exclusive)
    (hwriting : place.isWriting = (s.threads.place i).isWriting)
    (hwaiting : place.isWaiting .writer = true → s.bytesToWrite i = (s.line i).length) :
    Orderly content calls { s with threads := s.threads.move i place monitor signal } where
  exclusive := hexclusive
  line := h.line
  within := h.within
  waiting j hj := by
    by_cases hne : j = i
    · subst hne
      rw [isWaiting_self] at hj
      exact hwaiting hj
    · apply h.waiting
      rwa [isWaiting_of_ne _ _ _ _ _ hne] at hj
  idle hnone := by
    apply h.idle
    intro j
    rw [← isWriting_move s.threads i place monitor signal hwriting]
    exact hnone j
  busy j hj := by
    apply h.busy
    rwa [isWriting_move s.threads i place monitor signal hwriting] at hj

/-- The writer is alone. -/
theorem Orderly.nobody_else (hexclusive : (s.threads.move i place monitor signal).Exclusive)
    (hplace : place.isWriting = true) {j : ι} (hne : j ≠ i) :
    (s.threads.place j).isWriting = false := by
  have hself := isWriting_self s.threads i place monitor signal
  have hpair := hexclusive i j hne.symm (hself.trans hplace)
  rw [isWriting_of_ne _ _ _ _ _ hne] at hpair
  exact hpair.1

/-- A thread begins to write. -/
theorem Orderly.enter (h : Orderly content calls s)
    (hexclusive : (s.threads.move i place monitor signal).Exclusive)
    (hplace : place = .active .writer) (hold : (s.threads.place i).isWriting = false)
    (hwhole : s.bytesToWrite i = (s.line i).length) :
    Orderly content calls { s with threads := s.threads.move i place monitor signal } where
  exclusive := hexclusive
  line := h.line
  within := h.within
  waiting j hj := by
    by_cases hne : j = i
    · subst hne
      exact hwhole
    · apply h.waiting
      rwa [isWaiting_of_ne _ _ _ _ _ hne] at hj
  idle hnone := by
    have hi := hnone i
    rw [isWriting_self, hplace] at hi
    cases hi
  busy j hj := by
    have hnobody : ∀ k, (s.threads.place k).isWriting = false := by
      intro k
      by_cases hne : k = i
      · rwa [hne]
      · exact nobody_else hexclusive (by rw [hplace]; rfl) hne
    have hj' : j = i := by
      by_contra hne
      rw [isWriting_of_ne _ _ _ _ _ hne, hnobody j] at hj
      cases hj
    have hcontent := h.idle hnobody
    rw [← List.append_nil (_ ++ _), ← written_of_whole hwhole, ← hj'] at hcontent
    exact hcontent

/-- The writer returns with its whole line written. -/
theorem Orderly.leave (h : Orderly content calls s)
    (hexclusive : (s.threads.move i place monitor signal).Exclusive)
    (hplace : place = .outside) (hold : (s.threads.place i).isWriting = true)
    (hdone : s.bytesToWrite i = 0) :
    Orderly content { calls with completed := calls.completed ++ [calls.line i] }
      { s with threads := s.threads.move i place monitor signal } where
  exclusive := hexclusive
  line := h.line
  within := h.within
  waiting j hj := by
    apply h.waiting
    by_cases hne : j = i
    · subst hne
      rw [isWaiting_self, hplace] at hj
      cases hj
    · rwa [isWaiting_of_ne _ _ _ _ _ hne] at hj
  idle _ := by
    have hcontent := h.busy i hold
    rw [written_of_done hdone, h.line] at hcontent
    rw [List.flatten_append, List.flatten_singleton, ← List.append_assoc]
    exact hcontent
  busy j hj := by
    have hne : j ≠ i := by
      rintro rfl
      rw [isWriting_self, hplace] at hj
      cases hj
    rw [isWriting_of_ne _ _ _ _ _ hne, (h.exclusive i j hne.symm hold).1] at hj
    cases hj

/-- A thread calls `aesdsocket_write_line`. -/
theorem Orderly.call (h : Orderly content calls s) (hold : (s.threads.place i).isWriting = false)
    (hwaiting : (s.threads.place i).isWaiting .writer = false) (line : List UInt8) :
    Orderly content (calls.next (.calls i line)) { s with
      line := Function.update s.line i line
      bytesToWrite := Function.update s.bytesToWrite i line.length } where
  exclusive := h.exclusive
  line := congrArg (Function.update · i line) h.line
  within j := by
    by_cases hne : j = i
    · subst hne
      simp only [Function.update_self, Nat.le_refl]
    · simp only [Function.update_of_ne hne]
      exact h.within j
  waiting j hj := by
    have hne : j ≠ i := by
      rintro rfl
      rw [hwaiting] at hj
      cases hj
    simp only [Function.update_of_ne hne]
    exact h.waiting j hj
  idle := h.idle
  busy j hj := by
    have hne : j ≠ i := by
      rintro rfl
      rw [hold] at hj
      cases hj
    simp only [written, Function.update_of_ne hne]
    exact h.busy j hj

/-- The writer has a piece written. -/
theorem Orderly.write (h : Orderly content calls s) (hplace : s.threads.place i = .active .writer)
    {count : Nat} (hle : count ≤ s.bytesToWrite i) :
    Orderly content calls { s with
      content := s.content ++ (s.offered i).take count
      bytesToWrite := Function.update s.bytesToWrite i (s.bytesToWrite i - count) } where
  exclusive := h.exclusive
  line := h.line
  within j := by
    by_cases hne : j = i
    · subst hne
      simp only [Function.update_self]
      exact Nat.le_trans (Nat.sub_le _ _) (h.within j)
    · simp only [Function.update_of_ne hne]
      exact h.within j
  waiting j hj := by
    have hne : j ≠ i := by
      rintro rfl
      rw [hplace] at hj
      cases hj
    simp only [Function.update_of_ne hne]
    exact h.waiting j hj
  idle hnone := by
    have hi := hnone i
    rw [hplace] at hi
    cases hi
  busy j hj := by
    have hwriting : (s.threads.place i).isWriting = true := by
      rw [hplace]
      rfl
    have hj' : j = i := by
      by_contra hne
      rw [(h.exclusive i j (Ne.symm hne) hwriting).1] at hj
      cases hj
    have hwithin := h.within i
    have hsplit : (s.line i).length - (s.bytesToWrite i - count) =
        (s.line i).length - s.bytesToWrite i + count := by
      omega
    rw [hj', h.busy i hwriting, List.append_assoc]
    simp only [written, offered, Function.update_self, hsplit, List.take_add]

variable [Fintype ι]

theorem Orderly.step (h : Orderly content calls s) (hcounted : s.threads.Counted)
    {event : FileEvent ι} {s' : SharedFile ι} (hclear : s.Clear event) (hstep : Step s event s') :
    Orderly content (calls.next event) s' := by
  cases hstep with
  | @calls i line threads hstep =>
      have hexclusive := (h.exclusive.step_iff hcounted hstep).mpr fun heq => by cases heq
      obtain ⟨place, monitor, signal, rfl, hmoves⟩ := hstep.moves
      generalize hold : s.threads.place i = old at hmoves
      cases hmoves with
      | writeWaits =>
          have hcalled := h.call (by rw [hold]; rfl) (by rw [hold]; rfl) line
          refine hcalled.move hexclusive (by rw [hold]; rfl) fun _ => ?_
          simp only [Function.update_self]
      | writeEnters =>
          have hcalled := h.call (by rw [hold]; rfl) (by rw [hold]; rfl) line
          refine hcalled.enter hexclusive rfl (by rw [hold]; rfl) ?_
          simp only [Function.update_self]
  | @other i act threads hact hreader hstep =>
      have hexclusive := (h.exclusive.step_iff hcounted hstep).mpr hclear
      obtain ⟨place, monitor, signal, rfl, hmoves⟩ := hstep.moves
      generalize hold : s.threads.place i = old at hmoves
      cases hmoves with
      | writeWaits => exact absurd rfl hact
      | writeEnters => exact absurd rfl hact
      | writeStops => cases hold.symm.trans (hreader rfl)
      | writeResumes =>
          exact h.enter hexclusive rfl (by rw [hold]; rfl) (h.waiting i (by rw [hold]; rfl))
      | wakes role =>
          refine h.move hexclusive (by rw [hold]; rfl) fun hwaiting => h.waiting i ?_
          rw [hold]
          exact hwaiting
      | _ => exact h.move hexclusive (by rw [hold]; rfl) fun hwaiting => by cases hwaiting
  | writes hplace hpos hle => exact h.write hplace hle
  | @returns i threads hplace hdone hstep =>
      have hexclusive := (h.exclusive.step_iff hcounted hstep).mpr fun heq => by cases heq
      obtain ⟨place, monitor, signal, rfl, hmoves⟩ := hstep.moves
      rw [hplace] at hmoves
      cases hmoves
      exact h.leave hexclusive rfl (by rw [hplace]; rfl) hdone

theorem Step.counted (hcard : Fintype.card ι < 2 ^ 32) (h : s.threads.Counted)
    {event : FileEvent ι} {s' : SharedFile ι} (hstep : Step s event s') : s'.threads.Counted := by
  cases hstep with
  | calls hstep => exact h.step hcard hstep
  | other _ _ hstep => exact h.step hcard hstep
  | writes => exact h
  | returns _ _ hstep => exact h.step hcard hstep

theorem orderly_of_run (hcard : Fintype.card ι < 2 ^ 32) {events : List (FileEvent ι)}
    (hrun : Run ClearStep (init content) events s) :
    Orderly content (Calls.ofEvents events) s ∧ s.threads.Counted := by
  apply hrun.history_invariant fun events s =>
    Orderly content (Calls.ofEvents events) s ∧ s.threads.Counted
  · rintro events s event s' ⟨h, hcounted⟩ ⟨hclear, hstep⟩
    rw [Calls.ofEvents, List.foldl_append]
    exact ⟨h.step hcounted hclear hstep, hstep.counted hcard hcounted⟩
  · exact ⟨init_orderly content, Threads.counted_of_run hcard (.nil _)⟩

/-- In every run in which each thread leaves its wait clear, whatever pieces the calls
take and whichever threads fail and stay where they are, the file grows by the lines of
the calls that have returned, in the order in which they did, and by the front of the
line of the one thread that writes. While a thread reads, or nobody writes, the file
consists of whole lines. -/
theorem lines_whole (hcard : Fintype.card ι < 2 ^ 32) {events : List (FileEvent ι)}
    (hrun : Run ClearStep (init content) events s) :
    (∀ i, s.threads.place i = .active .writer →
      (∀ j, s.threads.place j = .active .writer → j = i) ∧
      ∃ front, front <+: (Calls.ofEvents events).line i ∧
        s.content = content ++ (Calls.ofEvents events).completed.flatten ++ front) ∧
    ((∃ i, (s.threads.place i).isReading = true) ∨ (∀ i, s.threads.place i ≠ .active .writer) →
      s.content = content ++ (Calls.ofEvents events).completed.flatten) := by
  obtain ⟨h, -⟩ := orderly_of_run hcard hrun
  constructor
  · intro i hi
    have hwriting := isWriting_iff.mpr hi
    refine ⟨fun j hj => ?_, s.written i, ?_, h.busy i hwriting⟩
    · by_contra hne
      have hpair := h.exclusive i j (Ne.symm hne) hwriting
      rw [hj] at hpair
      cases hpair.1
    · rw [← h.line]
      exact List.take_prefix _ _
  · intro hnobody
    apply h.idle
    intro j
    apply Bool.eq_false_iff.mpr
    intro hj
    have hwriter := isWriting_iff.mp hj
    rcases hnobody with ⟨i, hi⟩ | hnone
    · have hne : i ≠ j := by
        rintro rfl
        rw [hwriter] at hi
        cases hi
      rw [(h.exclusive j i hne.symm hj).2] at hi
      cases hi
    · exact hnone j hwriter

/-- Two threads write "a\n" and "b\n": the second one waits while the first line is written
in two pieces. -/
theorem lines_whole_two : ∃ s : SharedFile Bool, Run ClearStep (init [])
    [.calls false [97, 10], .writes false 1, .calls true [98, 10], .writes false 1, .returns false,
      .other true .resume, .writes true 1] s ∧ s.content = [97, 10, 98] ∧
    ∃ front, front <+: [98, 10] ∧ s.content = [97, 10] ++ front := by
  have hrun : Run ClearStep (init [] : SharedFile Bool) [] (init []) := .nil _
  have hcalls := hrun.snoc (show ClearStep _ (.calls false [97, 10]) _ from ⟨trivial, .calls rfl⟩)
  have hfirst := hcalls.snoc (show ClearStep _ (.writes false 1) _ from
    ⟨trivial, .writes rfl (by decide) (by decide)⟩)
  have hwaits := hfirst.snoc (show ClearStep _ (.calls true [98, 10]) _ from ⟨trivial, .calls rfl⟩)
  have hsecond := hwaits.snoc (show ClearStep _ (.writes false 1) _ from
    ⟨trivial, .writes rfl (by decide) (by decide)⟩)
  have hreturns := hsecond.snoc (show ClearStep _ (.returns false) _ from
    ⟨trivial, .returns rfl rfl rfl⟩)
  have hresumes := hreturns.snoc (show ClearStep _ (.other true .resume) _ from
    ⟨fun _ => ⟨rfl, rfl⟩, .other Section.noConfusion (fun heq => by cases heq) rfl⟩)
  have hlast := hresumes.snoc (show ClearStep _ (.writes true 1) _ from
    ⟨trivial, .writes rfl (by decide) (by decide)⟩)
  exact ⟨_, hlast, rfl, ((lines_whole (by decide) hlast).1 true rfl).2⟩

/-- Two writers that wait for a reader are let in by one broadcast, and tear each other's
lines. -/
theorem lines_torn : ∃ (s : SharedFile (Option Bool)) (events : List (FileEvent (Option Bool))),
    Run Step (init []) events s ∧ (∀ i, s.threads.place i = .outside) ∧
    s.content = [97, 98, 10, 10] := by
  have hrun : Run Step (init [] : SharedFile (Option Bool)) [] (init []) := .nil _
  have hreads := hrun.snoc (show Step _ (.other none .startReading) _ from
    .other Section.noConfusion (fun heq => by cases heq) rfl)
  have hannounces := hreads.snoc (show Step _ (.other none .announce) _ from
    .other Section.noConfusion (fun heq => by cases heq) rfl)
  have hwaits := hannounces.snoc (show Step _ (.calls (some false) [97, 10]) _ from .calls rfl)
  have hwait := hwaits.snoc (show Step _ (.calls (some true) [98, 10]) _ from .calls rfl)
  have hstops := hwait.snoc (show Step _ (.other none .stop) _ from
    .other Section.noConfusion (fun _ => rfl) rfl)
  have hresume := hstops.snoc (show Step _ (.other (some false) .resume) _ from
    .other Section.noConfusion (fun heq => by cases heq) rfl)
  have hresumes := hresume.snoc (show Step _ (.other (some true) .resume) _ from
    .other Section.noConfusion (fun heq => by cases heq) rfl)
  have hfirst := hresumes.snoc (show Step _ (.writes (some false) 1) _ from
    .writes rfl (by decide) (by decide))
  have hboth := hfirst.snoc (show Step _ (.writes (some true) 2) _ from
    .writes rfl (by decide) (by decide))
  have hlast := hboth.snoc (show Step _ (.writes (some false) 1) _ from
    .writes rfl (by decide) (by decide))
  have hreturn := hlast.snoc (show Step _ (.returns (some false)) _ from .returns rfl rfl rfl)
  have hreturns := hreturn.snoc (show Step _ (.returns (some true)) _ from .returns rfl rfl rfl)
  refine ⟨_, _, hreturns, fun i => ?_, rfl⟩
  rcases i with _ | _ | _ <;> rfl

end SharedFile

end Aesd

import Aesd.Server.Recognition

/-!
# Timestamps

`aesdsocket_take_timestamp` appends the formatted time to the file as a line of
its own. The text is made in a local array that has room for it and its NUL, and
the newline and a second NUL are stored behind it.
-/

namespace Aesd

open CSem

variable {σ τ : Type}

/-- What the C library knows about time: the local date of a time, which need not
exist, and the text of a date in the format of the timestamps. -/
structure Calendar (τ : Type) where
  localtime : Int → Option τ
  format : τ → List UInt8
  noNul : ∀ date, 0 ∉ format date

/-- The text for a time, when the clock gave one and it has a local date. -/
def Calendar.textAt (calendar : Calendar τ) (now : Option Int) : Option (List UInt8) :=
  (now.bind calendar.localtime).map calendar.format

/-- `strftime`: the text and its NUL are stored if the array has room for both, and
the result counts the text. -/
def strftime (buffer text : List UInt8) : List UInt8 × Nat :=
  if text.length < buffer.length then (text ++ 0 :: buffer.drop (text.length + 1), text.length)
  else (buffer, 0)

/-- The local array with the text, the newline and the NUL; nothing when the text
could not be made. -/
def timestampBuffer (text : List UInt8) : Exec (Option (List UInt8)) :=
  let (buffer, timestampSize) := strftime (List.replicate buffsize 0) text
  if timestampSize = 0 then .ok none
  else do
    let buffer ← storeLocal buffer timestampSize [terminatorCharacter]
    let buffer ← storeLocal buffer (timestampSize + 1) [0]
    .ok (some buffer)

variable (os : Os σ)

/-- The call of `aesdsocket_write_line`, for whose time the local array is a block. -/
def writeTimestamp (fuel fileFd : Nat) (proc : Process σ) (buffer : List UInt8) :
    Exec (Process σ × Bool) := do
  let (heap, p) := proc.heap.alloc (buffer.map some)
  let (proc, ok) ← aesdsocketWriteLine os fuel fileFd ⟨proc.state, heap⟩ (some p)
  let heap ← proc.heap.free p
  .ok (⟨proc.state, heap⟩, ok)

/-- `aesdsocket_take_timestamp`, when the clock gives this time or fails. -/
def aesdsocketTakeTimestamp (calendar : Calendar τ) (now : Option Int) (fuel : Nat)
    (proc : Process σ) : Exec (Process σ × Bool) := do
  let (state, opened) ← os.openFile proc.state true
  match opened with
  | .done fileFd => do
      let buffer ← match now.bind calendar.localtime with
        | none => .ok none
        | some date => timestampBuffer (calendar.format date)
      let (proc, ok) ← match buffer with
        | none => .ok (⟨state, proc.heap⟩, false)
        | some buffer => writeTimestamp os fuel fileFd ⟨state, proc.heap⟩ buffer
      let state ← os.closeFile proc.state fileFd
      .ok (⟨state, proc.heap⟩, ok)
  | _ => .ok (⟨state, proc.heap⟩, false)

/-! ## The local array -/

/-- The text of a timestamp, when it can be made. -/
def Calendar.stamp (calendar : Calendar τ) (now : Option Int) : Option (List UInt8) :=
  (calendar.textAt now).filter fun text => decide (text ≠ [] ∧ text.length < buffsize)

theorem Calendar.noNul_of_textAt {calendar : Calendar τ} {now : Option Int} {text : List UInt8}
    (htext : calendar.textAt now = some text) : 0 ∉ text := by
  obtain ⟨date, _, rfl⟩ := Option.map_eq_some_iff.mp htext
  exact calendar.noNul date

section

variable {text : List UInt8}

/-- No text, or one that does not fit, is an error. -/
theorem timestampBuffer_of_missing (h : text = [] ∨ buffsize ≤ text.length) :
    timestampBuffer text = .ok none := by
  unfold timestampBuffer strftime
  rw [List.length_replicate]
  rcases h with rfl | hge
  · rfl
  · rw [if_neg (Nat.not_lt.mpr hge)]
    rfl

/-- A store behind the front of a local array. -/
theorem storeLocal_behind (front back : List UInt8) (old byte : UInt8) :
    storeLocal (front ++ old :: back) front.length [byte] = .ok (front ++ byte :: back) := by
  apply storeLocal_eq_ok_iff.mpr
  refine ⟨by simp, ?_⟩
  rw [List.take_left, List.length_singleton, List.drop_append, List.drop_eq_nil_of_le (by omega),
    Nat.add_sub_cancel_left, List.drop_one]
  simp

/-- The text, the newline, and then the second NUL wherever it goes. -/
theorem timestampBuffer_of_lt (hne : text ≠ []) (hlt : text.length < buffsize) :
    timestampBuffer text =
      (storeLocal (text ++ newline :: List.replicate (buffsize - (text.length + 1)) 0)
        (text ++ [newline]).length [0] >>= fun buffer => .ok (some buffer)) := by
  have hsize : text.length ≠ 0 := fun hzero => hne (List.eq_nil_of_length_eq_zero hzero)
  unfold timestampBuffer strftime
  simp only [List.length_replicate, if_pos hlt, if_neg hsize, List.drop_replicate]
  rw [storeLocal_behind, Exec.ok_bind, List.length_append, List.length_singleton]
  rfl

/-- Only the NUL of the text has room behind it: the newline takes that room, and
the second NUL is stored behind the array. -/
theorem timestampBuffer_of_overrun (h : text.length + 1 = buffsize) :
    timestampBuffer text = .error .outOfBounds := by
  have hne : text ≠ [] := by
    rintro rfl
    rw [List.length_nil, buffsize] at h
    omega
  have hstore : storeLocal (text ++ newline :: List.replicate (buffsize - (text.length + 1)) 0)
      (text ++ [newline]).length [0] = .error .outOfBounds := by
    apply if_neg
    simp only [List.length_append, List.length_cons, List.length_replicate, List.length_nil]
    omega
  rw [timestampBuffer_of_lt hne (by omega), hstore]
  rfl

/-- With room for one byte more the array holds the text and the newline. -/
theorem timestampBuffer_of_fits (hne : text ≠ []) (h : text.length + 1 < buffsize) :
    ∃ back, timestampBuffer text = .ok (some (text ++ [newline] ++ 0 :: back)) := by
  obtain ⟨room, hroom⟩ : ∃ room, buffsize - (text.length + 1) = room + 1 :=
    ⟨buffsize - (text.length + 2), by omega⟩
  refine ⟨List.replicate room 0, ?_⟩
  rw [timestampBuffer_of_lt hne (by omega), hroom, List.replicate_succ, List.append_cons,
    storeLocal_behind]
  rfl

end

/-! ## The whole call -/

/-- Writing a line leaves the memory alone. -/
theorem writeLine_heap {os : Os σ} {fuel fd : Nat} {proc proc' : Process σ} {line : Option Ptr}
    {ok : Bool} (hreturns : aesdsocketWriteLine os fuel fd proc line = .ok (proc', ok)) :
    proc'.heap = proc.heap := by
  obtain ⟨cells, _, hreturns⟩ := Exec.bind_eq_ok.mp hreturns
  obtain ⟨length, _, hreturns⟩ := Exec.bind_eq_ok.mp hreturns
  obtain ⟨⟨last, done⟩, hloop, hreturns⟩ := Exec.bind_eq_ok.mp hreturns
  have hround : ∀ s round, writeLineRound os fuel fd line s = .ok round →
      s.1.heap = proc.heap →
        round.elim (fun s => s.1.heap) (fun result => result.1.heap) = proc.heap := by
    intro s round hround hs
    unfold writeLineRound at hround
    split at hround
    next =>
      cases hround
      exact hs
    next =>
      obtain ⟨bytes, _, hround⟩ := Exec.bind_eq_ok.mp hround
      obtain ⟨⟨state, result⟩, _, hround⟩ := Exec.bind_eq_ok.mp hround
      cases result with
      | none =>
          cases hround
          exact hs
      | some written =>
          cases hround
          exact hs
  have hlast : last.heap = proc.heap :=
    loop.sound (fun s => s.1.heap = proc.heap) (fun result => result.1.heap = proc.heap)
      (fun s _ hs hbody => hround s _ hbody hs) (fun s _ hs hbody => hround s _ hbody hs) rfl hloop
  cases done with
  | true =>
      cases hreturns
      exact hlast
  | false =>
      cases hreturns
      exact hlast

section

variable {os : Os σ} {fuel fd : Nat} {proc proc' : Process (Logged σ)} {ok : Bool}
  {calls : List SystemCall}

/-- A line was written if and only if no write failed. -/
theorem writeLine_ok_iff {line : Option Ptr}
    (hreturns : aesdsocketWriteLine os.logged fuel fd proc line = .ok (proc', ok))
    (hadds : Adds proc.state proc'.state calls) :
    ok = true ↔ ∀ call ∈ calls, call.isFailedWrite = false := by
  obtain ⟨writes, failed, hwrites, hadds', rfl⟩ := writeLine_adds hreturns
  obtain rfl := hadds.unique hadds'
  have hsame : ∀ call ∈ writes, call.isFailure = call.isFailedWrite := by
    intro call hmem
    have hkind := hwrites.kind call hmem
    cases call with
    | write _ _ result => cases result <;> rfl
    | _ => cases hkind
  have hfailed := hwrites.failed_eq
  cases failed with
  | true =>
      obtain ⟨call, hmem, hcall⟩ := List.any_eq_true.mp hfailed
      refine iff_of_false Bool.false_ne_true fun hnone => ?_
      have hfalse := hnone call (by simp [hmem])
      rw [← hsame call hmem, hcall] at hfalse
      cases hfalse
  | false =>
      refine iff_of_true rfl fun call hmem => ?_
      simp only [List.mem_append, List.mem_singleton] at hmem
      rcases hmem with (rfl | hmem) | hmem
      · rfl
      · rw [← hsame call hmem]
        exact Bool.eq_false_iff.mpr (List.any_eq_false.mp hfailed call hmem)
      · rw [List.mem_singleton.mp hmem]
        rfl

/-- What a timestamp does: the memory is left as it was, no seek is asked for, and
the file takes the line, or a first part of it and a write fails. -/
structure Stamped (line : List UInt8) (fd : Nat) (proc proc' : Process (Logged σ)) (ok : Bool)
    (calls : List SystemCall) : Prop where
  adds : Adds proc.state proc'.state calls
  block?_eq : ∀ p, proc'.heap.block? p = proc.heap.block? p
  noSeek : seeks calls = []
  part : written fd calls <+: line
  ok_iff : ok = true ↔ ∀ call ∈ calls, call.isFailedWrite = false
  whole : ok = true → written fd calls = line

/-- The local array as a block of its own. -/
theorem alloc_string (heap : Heap) {line : List UInt8} (hnul : 0 ∉ line) (back : List UInt8) :
    ∃ heap' p, heap.alloc ((line ++ 0 :: back).map some) = (heap', p) ∧ heap.block? p = none ∧
      heap'.HoldsString p line ∧ ∀ q, q ≠ p → heap'.block? q = heap.block? q := by
  have hblock := heap.block?_alloc ((line ++ 0 :: back).map some)
  refine ⟨_, _, rfl, heap.block?_fresh, ⟨⟨_, (hblock _).trans (if_pos rfl), by simp, ?_⟩, hnul⟩,
    fun q hne => (hblock q).trans (if_neg hne)⟩
  have hcells : (line ++ 0 :: back).map some = (line ++ [0]).map some ++ back.map some := by simp
  rw [List.drop_zero, hcells, ← List.length_map some, List.take_left]

/-- The block of the local array is there for the call only. -/
theorem writeTimestamp_returns (hanswers : os.Answers) {line : List UInt8} (hnul : 0 ∉ line)
    (hlt : line.length < 2 ^ 64) (back : List UInt8) (fd : Nat) (proc : Process (Logged σ)) :
    ∃ proc' ok calls, Settles (fun fuel =>
        writeTimestamp os.logged fuel fd proc (line ++ 0 :: back)) (.ok (proc', ok)) ∧
      Stamped line fd proc proc' ok calls := by
  obtain ⟨heap, p, halloc, hfresh, hstring, hblock⟩ := alloc_string proc.heap hnul back
  obtain ⟨last, ok, hwrite⟩ := @writeLine_returns σ os fd p line hanswers
    ⟨proc.state, heap⟩ hstring hlt
  obtain ⟨enough, hreturns⟩ := id hwrite
  have hreturned := hreturns enough (Nat.le_refl _)
  have hheap := writeLine_heap hreturned
  obtain ⟨calls, hadds, hseeks, hpart, hwhole⟩ := writeLine_written hanswers hstring hlt hreturned
  have hok := writeLine_ok_iff hreturned hadds
  have hlive : (last.heap.block? p).isSome := by
    rw [hheap]
    exact hstring.isSome
  obtain ⟨released, hfree, hdead, hothers⟩ := Heap.free_spec hlive
  refine ⟨⟨last.state, released⟩, ok, calls, ?_, hadds, fun q => ?_, hseeks, hpart, hok,
    fun htrue => hwhole (hok.mp htrue)⟩
  · unfold writeTimestamp
    simp only [halloc]
    refine hwrite.bind ?_
    simp only [hfree, Exec.ok_bind]
    exact Settles.const _
  · rcases eq_or_ne q p with rfl | hne
    · rw [hdead, hfresh]
    · rw [hothers q hne, hheap, hblock q hne]

end

/-- The line of a timestamp: its text, when that can be made, and a newline. -/
def Calendar.line (calendar : Calendar τ) (now : Option Int) : List UInt8 :=
  (calendar.stamp now).elim [] (· ++ [newline])

/-- The text takes all the room of the local array but that of its NUL. -/
def Calendar.Overruns (calendar : Calendar τ) (now : Option Int) : Prop :=
  ∃ text, calendar.textAt now = some text ∧ text.length + 1 = buffsize

theorem Calendar.line_of_missing {calendar : Calendar τ} {now : Option Int}
    (h : ∀ text, calendar.textAt now = some text → text = [] ∨ buffsize ≤ text.length) :
    calendar.line now = [] := by
  unfold line stamp
  cases htext : calendar.textAt now with
  | none => rfl
  | some text =>
      have hnot : ¬(text ≠ [] ∧ text.length < buffsize) := fun hfits =>
        (h text htext).elim hfits.1 (Nat.not_le.mpr hfits.2)
      rw [Option.filter_some, decide_eq_false hnot]
      rfl

theorem Calendar.line_of_fits {calendar : Calendar τ} {now : Option Int} {text : List UInt8}
    (htext : calendar.textAt now = some text) (hne : text ≠ []) (hlt : text.length < buffsize) :
    calendar.line now = text ++ [newline] := by
  unfold line stamp
  rw [htext, Option.filter_some, decide_eq_true ⟨hne, hlt⟩]
  rfl

/-- What is in the local array when the file was opened. -/
def Calendar.buffer (calendar : Calendar τ) (now : Option Int) : Exec (Option (List UInt8)) :=
  (calendar.textAt now).elim (.ok none) timestampBuffer

/-- No text, a text that goes too far, or a line for the file. -/
theorem Calendar.buffer_cases (calendar : Calendar τ) (now : Option Int) :
    (calendar.buffer now = .ok none ∧ calendar.line now = [] ∧ ¬ calendar.Overruns now) ∨
      (calendar.buffer now = .error .outOfBounds ∧ calendar.Overruns now) ∨
      ∃ text back, calendar.buffer now = .ok (some (text ++ [newline] ++ 0 :: back)) ∧
        calendar.line now = text ++ [newline] ∧ 0 ∉ text ∧ text.length + 1 < buffsize ∧
        ¬ calendar.Overruns now := by
  unfold buffer Overruns
  cases htext : calendar.textAt now with
  | none =>
      refine Or.inl ⟨rfl, line_of_missing fun text heq => ?_, fun ⟨_, heq, _⟩ => ?_⟩
      · cases htext.symm.trans heq
      · cases heq
  | some text =>
      rw [Option.elim_some]
      by_cases hmissing : text = [] ∨ buffsize ≤ text.length
      · refine Or.inl ⟨timestampBuffer_of_missing hmissing, line_of_missing fun other heq => ?_, ?_⟩
        · cases htext.symm.trans heq
          exact hmissing
        · rintro ⟨_, heq, hlength⟩
          cases heq
          rcases hmissing with rfl | hge
          · rw [List.length_nil, buffsize] at hlength
            omega
          · omega
      · obtain ⟨hne, hlt⟩ := not_or.mp hmissing
        rw [Nat.not_le] at hlt
        rcases Nat.lt_or_ge (text.length + 1) buffsize with hfits | hfull
        · obtain ⟨back, hbuffer⟩ := timestampBuffer_of_fits hne hfits
          refine Or.inr (Or.inr ⟨text, back, hbuffer, line_of_fits htext hne hlt,
            noNul_of_textAt htext, hfits, ?_⟩)
          rintro ⟨_, heq, hlength⟩
          cases heq
          omega
        · have hlength : text.length + 1 = buffsize := by omega
          exact Or.inr (Or.inl ⟨timestampBuffer_of_overrun hlength, text, rfl, hlength⟩)

/-- The parts of taking a timestamp once the file is open. -/
theorem takeTimestamp_eq {os : Os σ} {calendar : Calendar τ} {now : Option Int}
    {proc : Process σ} {state : σ} {fd : Nat}
    (hopen : os.openFile proc.state true = .ok (state, .done fd)) (fuel : Nat) :
    aesdsocketTakeTimestamp os calendar now fuel proc =
      (calendar.buffer now >>= fun buffer =>
        buffer.elim (.ok (⟨state, proc.heap⟩, false))
          (writeTimestamp os fuel fd ⟨state, proc.heap⟩) >>= fun result =>
            os.closeFile result.1.state fd >>= fun closed =>
              .ok (⟨closed, result.1.heap⟩, result.2)) := by
  unfold aesdsocketTakeTimestamp Calendar.buffer Calendar.textAt
  rw [hopen, Exec.ok_bind]
  cases now.bind calendar.localtime with
  | none => rfl
  | some date =>
      simp only [Option.map_some, Option.elim_some]
      cases timestampBuffer (calendar.format date) with
      | error fault => rfl
      | ok buffer =>
          cases buffer with
          | none => rfl
          | some buffer => rfl

/-- Around the write of the line the file is opened and closed. -/
theorem Stamped.surround {line : List UInt8} {fd : Nat} {proc last proc' : Process (Logged σ)}
    {ok : Bool} {calls : List SystemCall} (h : Stamped line fd last proc' ok calls)
    {closed : Logged σ} (hopen : Adds proc.state last.state [.openFile (.done fd)])
    (hheap : last.heap = proc.heap) (hclose : Adds proc'.state closed [.closeFile fd]) :
    Stamped line fd proc ⟨closed, proc'.heap⟩ ok
      ([.openFile (.done fd)] ++ calls ++ [.closeFile fd]) where
  adds := (hopen.trans h.adds).trans hclose
  block?_eq p := by rw [h.block?_eq, hheap]
  noSeek := by
    rw [seeks_append, seeks_append, h.noSeek]
    rfl
  part := by
    have hnone : written fd [.openFile (.done fd)] = [] ∧ written fd [.closeFile fd] = [] :=
      ⟨rfl, rfl⟩
    rw [written_append, written_append, hnone.1, hnone.2, List.nil_append, List.append_nil]
    exact h.part
  ok_iff := by
    rw [h.ok_iff]
    constructor
    · intro hnone call hmem
      simp only [List.mem_append, List.mem_singleton] at hmem
      rcases hmem with (rfl | hmem) | rfl
      · rfl
      · exact hnone call hmem
      · rfl
    · intro hnone call hmem
      exact hnone call (List.mem_append_left _ (List.mem_append_right _ hmem))
  whole htrue := by
    have hnone : written fd [.openFile (.done fd)] = [] ∧ written fd [.closeFile fd] = [] :=
      ⟨rfl, rfl⟩
    rw [written_append, written_append, hnone.1, hnone.2, List.nil_append, List.append_nil]
    exact h.whole htrue

/-- Taking a timestamp stores outside of the local array if and only if the text
of the date takes all the room but that of its NUL. Otherwise it comes back, with
the memory as it was and the file closed; the file takes a first part of the line
of the text, all of it if the result is true, and the result is true if and only
if there is a text that fits and no write failed. -/
theorem timestamp_contract {os : Os σ} (hanswers : os.Answers) (calendar : Calendar τ)
    (now : Option Int) {proc : Process (Logged σ)} {opened : Logged σ} {fd : Nat}
    (hopen : os.logged.openFile proc.state true = .ok (opened, .done fd)) :
    (Settles (fun fuel => aesdsocketTakeTimestamp os.logged calendar now fuel proc)
        (.error .outOfBounds) ↔ calendar.Overruns now) ∧
      (¬ calendar.Overruns now → ∃ proc' ok calls,
        Settles (fun fuel => aesdsocketTakeTimestamp os.logged calendar now fuel proc)
          (.ok (proc', ok)) ∧
        Adds proc.state proc'.state calls ∧ calls.getLast? = some (.closeFile fd) ∧
        (∀ p, proc'.heap.block? p = proc.heap.block? p) ∧ seeks calls = [] ∧
        written fd calls <+: calendar.line now ∧
        (ok = true ↔ calendar.line now ≠ [] ∧ ∀ call ∈ calls, call.isFailedWrite = false) ∧
        (ok = true → written fd calls = calendar.line now)) := by
  have hopened : Adds proc.state opened [.openFile (.done fd)] := by
    have hcall : logCall .openFile (fun state => os.openFile state true) proc.state =
      .ok (opened, .done fd) := hopen
    exact logCall_adds hcall
  have hclose : ∀ state : Logged σ, ∃ closed, os.logged.closeFile state fd = .ok closed := by
    intro state
    obtain ⟨closed, hclosed⟩ := hanswers.closes state.1 fd
    exact ⟨(closed, state.2 ++ [.closeFile fd]), by simp only [Os.logged, hclosed, Exec.ok_bind]⟩
  have hok : ∀ result, Settles (fun fuel =>
      aesdsocketTakeTimestamp os.logged calendar now fuel proc) (.ok result) →
      ¬ Settles (fun fuel => aesdsocketTakeTimestamp os.logged calendar now fuel proc)
        (.error .outOfBounds) := by
    intro result hsettles hfault
    cases hsettles.unique hfault
  simp only [takeTimestamp_eq hopen] at hok ⊢
  rcases calendar.buffer_cases now with ⟨hbuffer, hline, hnot⟩ | ⟨hbuffer, hover⟩ |
    ⟨text, back, hbuffer, hline, hnul, hfits, hnot⟩
  · obtain ⟨closed, hclosed⟩ := hclose opened
    have hsettles : Settles (fun _ : Nat => (.ok (⟨closed, proc.heap⟩, false) :
        Exec (Process (Logged σ) × Bool))) _ := Settles.const _
    simp only [hbuffer, Exec.ok_bind, Option.elim_none, hclosed] at hok ⊢
    refine ⟨iff_of_false (hok _ hsettles) hnot, fun _ => ?_⟩
    refine ⟨_, false, _, hsettles, hopened.trans (closeFile_adds hclosed), rfl, fun _ => rfl, rfl,
      List.nil_prefix, ?_, Bool.noConfusion⟩
    exact iff_of_false Bool.false_ne_true fun h => h.1 hline
  · simp only [hbuffer, Exec.error_bind] at hok ⊢
    exact ⟨iff_of_true (Settles.const _) hover, fun hnot => absurd hover hnot⟩
  · have hnul' : 0 ∉ text ++ [newline] := notMem_line hnul
    have hlt : (text ++ [newline]).length < 2 ^ 64 := by
      rw [List.length_append, List.length_singleton]
      unfold buffsize at hfits
      omega
    obtain ⟨last, ok, calls, hwrite, hstamped⟩ :=
      writeTimestamp_returns hanswers hnul' hlt back fd ⟨opened, proc.heap⟩
    obtain ⟨closed, hclosed⟩ := hclose last.state
    have hall := hstamped.surround hopened rfl (closeFile_adds hclosed)
    have hsettles : Settles (fun fuel =>
        writeTimestamp os.logged fuel fd ⟨opened, proc.heap⟩ (text ++ [newline] ++ 0 :: back) >>=
          fun result => os.logged.closeFile result.1.state fd >>= fun closed =>
            (.ok (⟨closed, result.1.heap⟩, result.2) : Exec (Process (Logged σ) × Bool)))
        (.ok (⟨closed, last.heap⟩, ok)) := by
      refine hwrite.bind ?_
      simp only [hclosed, Exec.ok_bind]
      exact Settles.const _
    simp only [hbuffer, Exec.ok_bind, Option.elim_some] at hok ⊢
    refine ⟨iff_of_false (hok _ hsettles) hnot, fun _ => ?_⟩
    refine ⟨_, ok, _, hsettles, hall.adds, List.getLast?_concat, hall.block?_eq, hall.noSeek,
      hline ▸ hall.part, ?_, hline ▸ hall.whole⟩
    rw [hall.ok_iff, hline]
    exact (and_iff_right (by simp)).symm

/-- A calendar whose text does not depend on the date. -/
def fixedCalendar (text : List UInt8) (hnul : 0 ∉ text) : Calendar Unit where
  localtime _ := some ()
  format _ := text
  noNul _ := hnul

/-- "a" is stamped, as long as writes do not fail. -/
theorem timestamp_contract_short : ∃ proc' ok calls,
    Settles (fun fuel => aesdsocketTakeTimestamp sinkOs.logged (fixedCalendar [97] (by decide))
      (some 0) fuel (sinkClient [])) (.ok (proc', ok)) ∧
    Adds (sinkClient []).state proc'.state calls ∧ written 0 calls <+: [97, 10] := by
  have hopen : sinkOs.logged.openFile (sinkClient []).state true =
    .ok (((sinkClient []).state.1, [.openFile (.done 0)]), .done 0) := rfl
  have hnot : ¬ (fixedCalendar [97] (by decide)).Overruns (some 0) := by
    rintro ⟨text, htext, hlength⟩
    cases htext
    cases hlength
  obtain ⟨proc', ok, calls, hsettles, hadds, _, _, _, hpart, _⟩ :=
    (timestamp_contract sinkOs_answers (fixedCalendar [97] (by decide)) (some 0) hopen).2 hnot
  exact ⟨proc', ok, calls, hsettles, hadds, hpart⟩

end Aesd

import Aesd.Monitor.Drain

/-!
# How long a thread sleeps

While a reader sleeps, every call of a start function goes to sleep too, and no
writer is woken by another writer. So the reader is woken after a bounded number
of sections, however often the others come back. For writers this fails: two
readers that wake each other keep a writer asleep as long as they like.
-/

namespace Aesd

open CSem Tally Transition

/-- A section in which nobody is woken without a broadcast. -/
def Section.isDue (act : Section) : Prop := act ≠ .spuriousWakeup

namespace Place

def isActiveReader : Place → Bool
  | .active .reader => true
  | _ => false

@[simp] theorem isActiveReader_wakeBy (signal : Option Condition) (place : Place) :
    (place.wakeBy signal).isActiveReader = place.isActiveReader := by
  rcases signal with _ | _ | _ <;> rcases place with _ | ⟨_ | _⟩ | ⟨_ | _⟩ | _ | ⟨_ | _⟩ <;> rfl

/-- How many sections a thread can take while a reader sleeps and no broadcast
is made. -/
def sectionsLeft : Place → Nat
  | .outside => 1
  | .asleep _ => 0
  | .woken .reader => 1
  | .woken .writer => 3
  | .announcing => 0
  | .active _ => 2

theorem sectionsLeft_le (place : Place) : place.sectionsLeft ≤ 3 := by
  rcases place with _ | _ | ⟨_ | _⟩ | _ | _ <;> simp [sectionsLeft]

end Place

namespace Threads

variable {ι : Type} [DecidableEq ι]

/-- A section while this thread sleeps. -/
def AsleepStep (i : ι) (role : Role) (s : Threads ι) (event : ι × Section) (s' : Threads ι) :
    Prop :=
  s.place i = .asleep role ∧ event.2.isDue ∧ Step s event s'

/-- Only a broadcast ends the sleep. -/
theorem AsleepStep.place_eq {i : ι} {role : Role} {s s' : Threads ι} {event : ι × Section}
    (hstep : AsleepStep i role s event s') :
    s'.place i = .asleep role ∨ s'.place i = .woken role := by
  obtain ⟨j, act⟩ := event
  obtain ⟨hasleep, hdue, hstep⟩ := hstep
  obtain ⟨place, monitor, signal, rfl, hmoves⟩ := hstep.moves
  have hne : i ≠ j := by
    rintro rfl
    rw [hasleep] at hmoves
    cases hmoves
    exact hdue rfl
  rw [move_place_of_ne s hne, hasleep]
  rcases signal with _ | _ | _ <;> cases role <;> simp [Place.wakeBy, Place.wake]

/-- As long as a reader waits, a writer that comes has to wait. -/
theorem startWriting_waits {i : ι} {s s' : Threads ι} (hplace : s.place i = .outside)
    (hstep : Step s (i, .startWriting) s') (hwaiting : s.monitor.waitingReaders ≠ 0) :
    ∃ monitor, s' = s.move i (.asleep .writer) monitor none := by
  have hwaits : s.monitor.startWriting =
      ({ s.monitor with waitingWriters := u32 (s.monitor.waitingWriters + 1) }, true) :=
    if_pos (Or.inr (Or.inr (Or.inl hwaiting)))
  simp only [Step, next?, hplace, hwaits, if_true] at hstep
  exact ⟨_, (Option.some.inj hstep).symm⟩

/-- As long as a reader waits, the last writer wakes readers and no writers. -/
theorem stopWriting_signal {m : Monitor} (hwaiting : m.waitingReaders ≠ 0) :
    m.stopWriting.2 = none ∨ m.stopWriting.2 = some .canRead := by
  unfold Monitor.stopWriting
  dsimp only
  rw [if_pos hwaiting]
  split
  next => exact Or.inr rfl
  next => exact Or.inl rfl

variable [Fintype ι]

/-- The sections that can still be taken while a reader sleeps. Only an active
reader that stops can wake the writers, and then all of them at once. -/
def sleepBound (s : Threads ι) : Nat :=
  load s.place Place.sectionsLeft +
    (3 * Fintype.card ι + 1) * tally s.place Place.isActiveReader

omit [DecidableEq ι] in
theorem sleepBound_lt (s : Threads ι) :
    s.sleepBound < (3 * Fintype.card ι + 1) * (Fintype.card ι + 1) := by
  have hload : load s.place Place.sectionsLeft ≤ 3 * Fintype.card ι :=
    load_le Place.sectionsLeft_le
  have htally := Nat.mul_le_mul_left (3 * Fintype.card ι + 1)
    (tally_le_card s.place Place.isActiveReader)
  rw [sleepBound, Nat.mul_succ]
  omega

/-- A section without a broadcast and without an active reader. -/
theorem sleepBound_move_lt {s : Threads ι} {i : ι} {place : Place} {monitor : Monitor}
    (hless : place.sectionsLeft < (s.place i).sectionsLeft)
    (hreader : place.isActiveReader = (s.place i).isActiveReader) :
    (s.move i place monitor none).sleepBound < s.sleepBound := by
  have htally := s.tally_move i place monitor none (p := Place.isActiveReader)
    fun x => x.isActiveReader_wakeBy none
  rw [hreader, Nat.add_right_cancel_iff] at htally
  have hload : load (s.move i place monitor none).place Place.sectionsLeft <
      load s.place Place.sectionsLeft := by
    apply load_lt i
    · rw [move_place_self]
      exact hless
    · intro j hji
      rw [move_place_of_ne s hji]
      exact Nat.le_refl _
  unfold sleepBound
  rw [htally]
  exact Nat.add_lt_add_right hload _

/-- An active reader that stops pays for everybody it wakes. -/
theorem sleepBound_readStops_lt {s : Threads ι} {i : ι} (hplace : s.place i = .active .reader)
    (monitor : Monitor) (signal : Option Condition) :
    (s.move i .outside monitor signal).sleepBound < s.sleepBound := by
  have htally := s.tally_move i .outside monitor signal (p := Place.isActiveReader)
    fun x => x.isActiveReader_wakeBy signal
  have hactive : Place.isActiveReader (.active .reader) = true := rfl
  have houtside : Place.isActiveReader .outside = false := rfl
  rw [hplace, hactive, houtside, Bool.toNat_true, Bool.toNat_false] at htally
  have hload : load (s.move i .outside monitor signal).place Place.sectionsLeft ≤
      3 * Fintype.card ι := load_le Place.sectionsLeft_le
  unfold sleepBound
  rw [← Nat.add_zero (tally s.place _), ← htally, Nat.mul_succ]
  omega

/-- What is left of the sleep of a reader: nothing once it was woken. -/
def sleepLeft (r : ι) (s : Threads ι) : Nat :=
  if s.place r = .asleep .reader then s.sleepBound + 1 else 0

theorem AsleepStep.sleepLeft_lt {r : ι} {s s' : Threads ι} {event : ι × Section}
    (hcounted : Counted s) (hwatched : Watched s) (hstep : AsleepStep r .reader s event s') :
    sleepLeft r s' < sleepLeft r s := by
  obtain ⟨i, act⟩ := event
  obtain ⟨hasleep, hdue, hstep⟩ := hstep
  rw [sleepLeft, sleepLeft, if_pos hasleep]
  by_cases hstill : s'.place r = .asleep .reader
  · rw [if_pos hstill]
    apply Nat.succ_lt_succ
    have hwaiting : s.monitor.waitingReaders ≠ 0 :=
      hcounted.waitingReaders_ne_zero (i := r) (by rw [hasleep]; rfl)
    have hbusy := hwatched.readers r hasleep
    obtain ⟨place, monitor, signal, rfl, hmoves⟩ := hstep.moves
    have hsignal := (asleep_of_move hstill).2
    generalize hold : s.place i = old at hmoves
    cases hmoves with
    | readWaits => exact sleepBound_move_lt (by rw [hold]; decide) (by rw [hold]; rfl)
    | readEnters hwriters hwaits => exact absurd hbusy (by simp [hwriters, hwaits])
    | writeWaits => exact sleepBound_move_lt (by rw [hold]; decide) (by rw [hold]; rfl)
    | writeEnters =>
        obtain ⟨monitor, heq⟩ := startWriting_waits hold hstep hwaiting
        rw [heq]
        exact sleepBound_move_lt (by rw [hold]; decide) (by rw [hold]; rfl)
    | wakes => exact absurd rfl hdue
    | readResumes => exact sleepBound_move_lt (by rw [hold]; decide) (by rw [hold]; rfl)
    | writeResumes => exact sleepBound_move_lt (by rw [hold]; decide) (by rw [hold]; rfl)
    | announces => exact absurd rfl hsignal
    | readStops => exact sleepBound_readStops_lt hold _ _
    | writeStops =>
        rcases stopWriting_signal hwaiting with hnone | hread
        · rw [hnone]
          exact sleepBound_move_lt (by rw [hold]; decide) (by rw [hold]; rfl)
        · exact absurd hread hsignal
  · rw [if_neg hstill]
    exact Nat.succ_pos _

/-- A sleeping reader is woken after a bounded number of sections, however the
others go on, and until then one of those inside can always move. -/
theorem reader_woken (hcard : Fintype.card ι < 2 ^ 32) {s : Threads ι} (hreach : Reachable s)
    {r : ι} (hasleep : s.place r = .asleep .reader) :
    Drains (AsleepStep r .reader) (fun _ event => event.2.isStart = false)
      (fun s => s.place r = .woken .reader)
      ((3 * Fintype.card ι + 1) * (Fintype.card ι + 1)) s := by
  obtain ⟨events, hrun⟩ := hreach
  refine Drains.of_measure
    (fun s => Counted s ∧ Watched s ∧ (s.place r = .asleep .reader ∨ s.place r = .woken .reader))
    (sleepLeft r) ?_ (fun _ _ _ hs hstep => hstep.sleepLeft_lt hs.1 hs.2.1) ?_
    ⟨counted_of_run hcard hrun, watched_of_run hcard hrun, Or.inl hasleep⟩ ?_
  · rintro s event s' ⟨hcounted, hwatched, _⟩ hstep
    have hcounted' := hcounted.step hcard hstep.2.2
    exact ⟨hcounted', ⟨hwatched.readers_step hcounted' hstep.2.2,
      hwatched.writers_step hcounted hcounted' hstep.2.2⟩, hstep.place_eq⟩
  · rintro s ⟨hcounted, hwatched, hplace⟩ hnot
    have hasleep := hplace.resolve_right hnot
    obtain ⟨j, hj⟩ := hwatched.stirring_of_asleep hcounted hasleep
    obtain ⟨event, s', hdue, hinside, hstep⟩ := exists_step_of_isStirring hj
    exact ⟨event, s', hinside, hasleep, hdue, hstep⟩
  · rw [sleepLeft, if_pos hasleep]
    exact s.sleepBound_lt

/-- A writer, and a reader asleep behind it. -/
def writerAndReader : Threads Bool :=
  (init.move false (.active .writer) ⟨0, 1, 0, 0⟩ none).move true (.asleep .reader) ⟨0, 1, 1, 0⟩
    none

theorem writerAndReader_reachable : Reachable writerAndReader :=
  ⟨[(false, .startWriting), (true, .startReading)], Run.of_foldlM rfl⟩

theorem reader_woken_writerAndReader :
    Drains (AsleepStep true .reader) (fun _ event => event.2.isStart = false)
      (fun s => s.place true = .woken .reader)
      ((3 * Fintype.card Bool + 1) * (Fintype.card Bool + 1)) writerAndReader :=
  reader_woken (by decide) writerAndReader_reachable rfl

end Threads

/-! ## A writer that starves -/

namespace Threads

variable {ι : Type} [DecidableEq ι]

/-- Two readers, and a writer that sleeps. -/
def crowd (w a b : ι) (monitor : Monitor) (first second : Place) : Threads ι :=
  ⟨monitor, fun i =>
    if i = w then .asleep .writer else if i = a then first else if i = b then second else .outside⟩

section Crowd

variable {w a b : ι} {monitor : Monitor} {first second : Place}

theorem crowd_place_writer : (crowd w a b monitor first second).place w = .asleep .writer :=
  if_pos rfl

theorem crowd_place_first (haw : a ≠ w) : (crowd w a b monitor first second).place a = first := by
  simp [crowd, haw]

theorem crowd_swap (hab : a ≠ b) :
    crowd w a b monitor first second = crowd w b a monitor second first := by
  unfold crowd
  congr 1
  funext i
  split
  next => rfl
  next =>
    by_cases hia : i = a
    · rw [if_pos hia, if_neg (hia ▸ hab), if_pos hia]
    · rw [if_neg hia, if_neg hia]

/-- The writer sleeps on when one of the readers moves. -/
theorem crowd_move (haw : a ≠ w) (hab : a ≠ b) (place : Place) (monitor' : Monitor)
    {signal : Option Condition} (hsignal : signal ≠ some .canWrite) :
    (crowd w a b monitor first second).move a place monitor' signal =
      crowd w a b monitor' (place.wakeBy signal) (second.wakeBy signal) := by
  have hwriter : (Place.asleep .writer).wakeBy signal = .asleep .writer := by
    rcases signal with _ | _ | _
    · rfl
    · rfl
    · exact absurd rfl hsignal
  unfold crowd move
  congr 1
  funext i
  by_cases hia : i = a
  · subst hia
    rw [Function.update_self, if_neg haw, if_pos rfl]
  · rw [Function.update_of_ne hia]
    dsimp only
    by_cases hiw : i = w
    · rw [if_pos hiw, if_pos hiw, hwriter]
    · rw [if_neg hiw, if_neg hiw, if_neg hia, if_neg hia]
      split
      next => rfl
      next => exact Place.wakeBy_outside signal

/-- One reader stops and comes back behind the writer; the other one lets it in
again before it stops itself. -/
theorem crowd_round (haw : a ≠ w) (hbw : b ≠ w) (hab : a ≠ b) :
    Run (AsleepStep w .writer) (crowd w a b ⟨2, 0, 0, 1⟩ (.active .reader) .announcing)
      [(a, .stop), (a, .startReading), (b, .announce), (a, .resume)]
      (crowd w b a ⟨2, 0, 0, 1⟩ (.active .reader) .announcing) := by
  have hnone : (none : Option Condition) ≠ some .canWrite := by decide
  have hstop : AsleepStep w .writer (crowd w a b ⟨2, 0, 0, 1⟩ (.active .reader) .announcing)
      (a, .stop) (crowd w a b ⟨1, 0, 0, 1⟩ .outside .announcing) := by
    refine ⟨crowd_place_writer, Section.noConfusion, ?_⟩
    simp only [Step, next?, crowd_place_first haw]
    exact congrArg some (crowd_move haw hab _ _ hnone)
  have hstart : AsleepStep w .writer (crowd w a b ⟨1, 0, 0, 1⟩ .outside .announcing)
      (a, .startReading) (crowd w a b ⟨1, 0, 1, 1⟩ (.asleep .reader) .announcing) := by
    refine ⟨crowd_place_writer, Section.noConfusion, ?_⟩
    simp only [Step, next?, crowd_place_first haw]
    exact congrArg some (crowd_move haw hab _ _ (by decide))
  have hannounce : AsleepStep w .writer (crowd w b a ⟨1, 0, 1, 1⟩ .announcing (.asleep .reader))
      (b, .announce) (crowd w b a ⟨1, 0, 1, 1⟩ (.active .reader) (.woken .reader)) := by
    refine ⟨crowd_place_writer, Section.noConfusion, ?_⟩
    simp only [Step, next?, crowd_place_first hbw]
    exact congrArg some (crowd_move hbw hab.symm _ _ (by decide))
  have hresume : AsleepStep w .writer (crowd w a b ⟨1, 0, 1, 1⟩ (.woken .reader) (.active .reader))
      (a, .resume) (crowd w a b ⟨2, 0, 0, 1⟩ .announcing (.active .reader)) := by
    refine ⟨crowd_place_writer, Section.noConfusion, ?_⟩
    simp only [Step, next?, crowd_place_first haw]
    exact congrArg some (crowd_move haw hab _ _ (by decide))
  have hswap := fun first second =>
    @crowd_swap _ _ w b a ⟨1, 0, 1, 1⟩ first second hab.symm
  rw [hswap, hswap] at hannounce
  rw [crowd_swap hab.symm]
  exact (((Run.single hstop).snoc hstart).snoc hannounce).snoc hresume

theorem crowd_rounds (haw : a ≠ w) (hbw : b ≠ w) (hab : a ≠ b) (n : Nat) :
    ∃ events s', Run (AsleepStep w .writer)
        (crowd w a b ⟨2, 0, 0, 1⟩ (.active .reader) .announcing) events s' ∧
      s'.place w = .asleep .writer ∧ n ≤ events.length := by
  induction n generalizing a b with
  | zero => exact ⟨[], _, .nil _, crowd_place_writer, Nat.le_refl 0⟩
  | succ n ih =>
      obtain ⟨events, s', hrun, hasleep, hle⟩ := ih hbw haw hab.symm
      refine ⟨_, s', (crowd_round haw hbw hab).append hrun, hasleep, ?_⟩
      rw [List.length_append, Nat.add_comm n 1]
      exact Nat.add_le_add (Nat.succ_le_succ (Nat.zero_le 3)) hle

theorem crowd_reachable (haw : a ≠ w) (hbw : b ≠ w) (hab : a ≠ b) :
    Reachable (crowd w a b ⟨2, 0, 0, 1⟩ (.active .reader) .announcing) := by
  have hreads : Step init (a, .startReading) ((init : Threads ι).move a .announcing ⟨1, 0, 0, 0⟩
      none) := rfl
  have hwrites : Step ((init : Threads ι).move a .announcing ⟨1, 0, 0, 0⟩ none) (w, .startWriting)
      (crowd w a b ⟨1, 0, 0, 1⟩ .announcing .outside) := by
    have houtside : ((init : Threads ι).move a .announcing ⟨1, 0, 0, 0⟩ none).place w = .outside :=
      move_place_of_ne _ haw.symm _ _ _
    simp only [Step, next?, houtside]
    refine congrArg some (congrArg (Threads.mk _) (funext fun i => ?_))
    simp only [Place.wakeBy, Function.update_apply, move, init]
    split
    next => rfl
    next => simp
  have hwaits : Step (crowd w b a ⟨1, 0, 0, 1⟩ .outside .announcing) (b, .startReading)
      (crowd w b a ⟨1, 0, 1, 1⟩ (.asleep .reader) .announcing) := by
    simp only [Step, next?, crowd_place_first hbw]
    exact congrArg some (crowd_move hbw hab.symm _ _ (by decide))
  have hannounces : Step (crowd w a b ⟨1, 0, 1, 1⟩ .announcing (.asleep .reader)) (a, .announce)
      (crowd w a b ⟨1, 0, 1, 1⟩ (.active .reader) (.woken .reader)) := by
    simp only [Step, next?, crowd_place_first haw]
    exact congrArg some (crowd_move haw hab _ _ (by decide))
  have hresumes : Step (crowd w b a ⟨1, 0, 1, 1⟩ (.woken .reader) (.active .reader)) (b, .resume)
      (crowd w b a ⟨2, 0, 0, 1⟩ .announcing (.active .reader)) := by
    simp only [Step, next?, crowd_place_first hbw]
    exact congrArg some (crowd_move hbw hab.symm _ _ (by decide))
  rw [crowd_swap hab.symm, crowd_swap hab.symm] at hwaits hresumes
  exact ⟨_, ((((Run.single hreads).snoc hwrites).snoc hwaits).snoc hannounces).snoc hresumes⟩

end Crowd

/-- With two readers beside it, a writer may sleep for any number of sections,
though each of them was due and no wake-up was spurious. -/
theorem writer_starves {w a b : ι} (haw : a ≠ w) (hbw : b ≠ w) (hab : a ≠ b) :
    ∃ s, Reachable s ∧ s.place w = .asleep .writer ∧
      ∀ n, ∃ events s', Run (AsleepStep w .writer) s events s' ∧
        s'.place w = .asleep .writer ∧ n ≤ events.length :=
  ⟨_, crowd_reachable haw hbw hab, crowd_place_writer, crowd_rounds haw hbw hab⟩

theorem writer_starves_three : ∃ s : Threads (Fin 3), Reachable s ∧ s.place 0 = .asleep .writer ∧
    ∀ n, ∃ events s', Run (AsleepStep (0 : Fin 3) .writer) s events s' ∧
      s'.place 0 = .asleep .writer ∧ n ≤ events.length :=
  writer_starves (a := 1) (b := 2) (by decide) (by decide) (by decide)

end Threads

end Aesd

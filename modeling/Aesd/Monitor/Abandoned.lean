import Aesd.Monitor.Waiting

/-!
# A writer that does not stop

`aesdsocket_write_line` does not stop writing when `write` fails. Unless readers
were inside at the time, the monitor comes to a standstill then: every thread
that calls it falls asleep, and nobody is left to wake one.
-/

namespace Aesd

open CSem Tally Transition

namespace Threads

variable {ι : Type} [DecidableEq ι]

/-- A section of another thread, without a spurious wake-up. -/
def OthersStep (i : ι) (s : Threads ι) (event : ι × Section) (s' : Threads ι) : Prop :=
  event.1 ≠ i ∧ event.2.isDue ∧ Step s event s'

/-- No reader is inside, nor on its way in. -/
def NoReader (s : Threads ι) : Prop :=
  ∀ j, (s.place j).isReading = false ∧ s.place j ≠ .woken .reader

/-- The other threads sleep, and none of them can go on. -/
structure Standstill (i : ι) (s : Threads ι) : Prop where
  asleep : ∀ j, j ≠ i → ∃ role, s.place j = .asleep role
  stuck : ∀ event s', ¬ OthersStep i s event s'

theorem standstill_of_asleep {i : ι} {s : Threads ι}
    (hasleep : ∀ j, j ≠ i → ∃ role, s.place j = .asleep role) : Standstill i s where
  asleep := hasleep
  stuck := by
    rintro ⟨j, act⟩ s' ⟨hne, hdue, hstep⟩
    obtain ⟨role, hplace⟩ := hasleep j hne
    obtain ⟨place, monitor, signal, _, hmoves⟩ := hstep.moves
    rw [hplace] at hmoves
    cases hmoves
    exact hdue rfl

variable [Fintype ι]

/-- The last writer to stop broadcasts, and any other one does not. -/
theorem stopWriting_signal_of_writing {s s' : Threads ι} (hcounted' : Counted s') {i j : ι}
    {place : Place} {signal : Option Condition}
    (heq : s' = s.move j place s.monitor.stopWriting.1 signal)
    (hi : s'.place i = .active .writer) : s.monitor.stopWriting.2 = none := by
  have hne : s.monitor.stopWriting.1.activeWriters ≠ 0 := by
    have hcount := hcounted'.activeWriters_ne_zero (i := i) (by rw [hi]; rfl)
    rwa [heq] at hcount
  unfold Monitor.stopWriting at hne ⊢
  exact if_neg hne

/-- With the writer inside and no reader, a section of another thread brings
nobody in but writers that were woken before. -/
theorem OthersStep.moves {i : ι} {s s' : Threads ι} {event : ι × Section} (hcounted : Counted s)
    (hcounted' : Counted s') (hi : s.place i = .active .writer) (hnone : s.NoReader)
    (hstep : OthersStep i s event s') :
    ∃ place monitor, s' = s.move event.1 place monitor none ∧
      place.isReading = false ∧ place ≠ .woken .reader ∧
      place.sectionsLeft < (s.place event.1).sectionsLeft := by
  obtain ⟨j, act⟩ := event
  obtain ⟨hne, hdue, hstep⟩ := hstep
  obtain ⟨place, monitor, signal, heq, hmoves⟩ := hstep.moves
  have hbusy := hcounted.activeWriters_ne_zero (i := i) (by rw [hi]; rfl)
  have hi' : s'.place i = .active .writer := by
    rw [heq, move_place_of_ne s (Ne.symm hne), hi]
    rcases signal with _ | _ | _ <;> rfl
  obtain ⟨hreading, hwoken⟩ := hnone j
  dsimp only
  generalize s.place j = old at hmoves hreading hwoken
  cases hmoves with
  | readWaits => exact ⟨_, _, heq, rfl, Place.noConfusion, Nat.zero_lt_one⟩
  | readEnters hwriters => exact absurd hwriters hbusy
  | writeWaits => exact ⟨_, _, heq, rfl, Place.noConfusion, Nat.zero_lt_one⟩
  | writeEnters hwriters => exact absurd hwriters hbusy
  | wakes => exact absurd rfl hdue
  | readResumes => exact absurd rfl hwoken
  | writeResumes => exact ⟨_, _, heq, rfl, Place.noConfusion, Nat.lt_succ_self 2⟩
  | announces => cases hreading
  | readStops => cases hreading
  | writeStops =>
      have hsignal := stopWriting_signal_of_writing hcounted' heq hi'
      rw [hsignal] at heq
      exact ⟨_, _, heq, rfl, Place.noConfusion, Nat.lt_succ_self 1⟩

/-- Counters, writer and absence of readers are kept. -/
theorem OthersStep.keeps (hcard : Fintype.card ι < 2 ^ 32) {i : ι} {s s' : Threads ι}
    {event : ι × Section}
    (hs : Counted s ∧ s.place i = .active .writer ∧ s.NoReader)
    (hstep : OthersStep i s event s') :
    Counted s' ∧ s'.place i = .active .writer ∧ s'.NoReader := by
  obtain ⟨hcounted, hi, hnone⟩ := hs
  have hcounted' := hcounted.step hcard hstep.2.2
  obtain ⟨place, monitor, rfl, hreading, hwoken, _⟩ :=
    hstep.moves hcounted hcounted' hi hnone
  refine ⟨hcounted', ?_, fun j => ?_⟩
  · rw [move_place_of_ne s hstep.1.symm, hi]
    rfl
  · by_cases hj : j = event.1
    · rw [hj, move_place_self]
      exact ⟨hreading, hwoken⟩
    · rw [move_place_of_ne s hj]
      exact hnone j

theorem OthersStep.load_lt (hcard : Fintype.card ι < 2 ^ 32) {i : ι} {s s' : Threads ι}
    {event : ι × Section}
    (hs : Counted s ∧ s.place i = .active .writer ∧ s.NoReader)
    (hstep : OthersStep i s event s') :
    load s'.place Place.sectionsLeft < load s.place Place.sectionsLeft := by
  obtain ⟨hcounted, hi, hnone⟩ := hs
  obtain ⟨place, monitor, rfl, _, _, hless⟩ :=
    hstep.moves hcounted (hcounted.step hcard hstep.2.2) hi hnone
  apply Tally.load_lt event.1
  · rw [move_place_self]
    exact hless
  · intro j hj
    rw [move_place_of_ne s hj]
    exact Nat.le_refl _

/-- With the writer inside and no reader, who sleeps goes on sleeping. -/
theorem OthersStep.asleep (hcard : Fintype.card ι < 2 ^ 32) {i j : ι} {s s' : Threads ι}
    {event : ι × Section} {role : Role}
    (hs : Counted s ∧ s.place i = .active .writer ∧ s.NoReader)
    (hstep : OthersStep i s event s') (hj : s.place j = .asleep role) :
    s'.place j = .asleep role := by
  obtain ⟨hcounted, hi, hnone⟩ := hs
  obtain ⟨place, monitor, rfl, _, _, hless⟩ :=
    hstep.moves hcounted (hcounted.step hcard hstep.2.2) hi hnone
  have hne : j ≠ event.1 := by
    rintro rfl
    rw [hj] at hless
    exact absurd hless (Nat.not_lt_zero _)
  rw [move_place_of_ne s hne, hj]
  rfl

omit [Fintype ι] in
/-- A thread that does not sleep can go on, or call. -/
theorem exists_othersStep {i j : ι} {s : Threads ι} (hne : j ≠ i)
    (hawake : ∀ role, s.place j ≠ .asleep role) : ∃ event s', OthersStep i s event s' := by
  by_cases hstirring : (s.place j).isStirring = true
  · obtain ⟨act, s', hdue, _, hstep⟩ := exists_due hstirring
    exact ⟨(j, act), s', hne, hdue, hstep⟩
  · cases hplace : s.place j with
    | outside =>
        have hcalls : (s.next? (j, .startReading)).isSome = true := by
          rw [next?, hplace]
          rfl
        obtain ⟨s', hstep⟩ := Option.isSome_iff_exists.mp hcalls
        exact ⟨(j, .startReading), s', hne, Section.noConfusion, hstep⟩
    | asleep role => exact absurd hplace (hawake role)
    | woken role => exact absurd (by rw [hplace]; rfl) hstirring
    | announcing => exact absurd (by rw [hplace]; rfl) hstirring
    | active role => exact absurd (by rw [hplace]; cases role <;> rfl) hstirring

/-- When a writer went without stopping and no reader was inside, nobody reads
any more, and after at most three sections of each thread all others sleep for
good. -/
theorem standstill_of_abandoned (hcard : Fintype.card ι < 2 ^ 32) {s : Threads ι}
    (hreach : Reachable s) {i : ι} (hi : s.place i = .active .writer) (hnone : s.NoReader) :
    Drains (OthersStep i) (fun _ _ => True) (Standstill i) (3 * Fintype.card ι) s ∧
      ∀ events s', Run (OthersStep i) s events s' → s'.NoReader := by
  obtain ⟨events, hrun⟩ := hreach
  have hstart : Counted s ∧ s.place i = .active .writer ∧ s.NoReader :=
    ⟨counted_of_run hcard hrun, hi, hnone⟩
  constructor
  · refine Drains.of_measure (fun s => Counted s ∧ s.place i = .active .writer ∧ s.NoReader)
      (fun s => load s.place Place.sectionsLeft) (fun _ _ _ hs hstep => hstep.keeps hcard hs)
      (fun _ _ _ hs hstep => hstep.load_lt hcard hs) ?_ hstart (load_le Place.sectionsLeft_le)
    rintro s ⟨_, _, hnone⟩ hnot
    obtain ⟨j, hj⟩ := not_forall.mp (mt standstill_of_asleep hnot)
    obtain ⟨hne, hawake⟩ := Classical.not_imp.mp hj
    obtain ⟨event, s', hstep⟩ := exists_othersStep hne (not_exists.mp hawake)
    exact ⟨event, s', trivial, hstep⟩
  · intro more s' hmore
    exact (hmore.invariant (fun s => Counted s ∧ s.place i = .active .writer ∧ s.NoReader)
      (fun _ _ _ hs hstep => hstep.keeps hcard hs) hstart).2.2

theorem writerAndReader_noReader : writerAndReader.NoReader := by
  intro j
  cases j with
  | false => exact ⟨rfl, Place.noConfusion⟩
  | true => exact ⟨rfl, Place.noConfusion⟩

theorem standstill_of_writerAndReader :
    Drains (OthersStep false) (fun _ _ => True) (Standstill false) (3 * Fintype.card Bool)
        writerAndReader ∧
      ∀ events s', Run (OthersStep false) writerAndReader events s' → s'.NoReader :=
  standstill_of_abandoned (by decide) writerAndReader_reachable rfl writerAndReader_noReader

end Threads

end Aesd

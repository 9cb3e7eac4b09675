import Aesd.Monitor.Counters

/-!
# Mutual exclusion

The waits of the monitor are guarded by `if`, so a thread that was woken enters
without a second look at the counters. Writers and readers exclude one another
exactly as long as each thread that leaves its wait would have passed the test.
-/

namespace Aesd

open CSem Tally Transition

namespace Threads

variable {ι : Type} [DecidableEq ι]

/-- While a thread writes, no other thread writes or reads. -/
def Exclusive (s : Threads ι) : Prop :=
  ∀ i j, i ≠ j → (s.place i).isWriting = true →
    (s.place j).isWriting = false ∧ (s.place j).isReading = false

/-- A reader that leaves its wait finds no active writer, and a writer nobody
active. -/
def LeavesClear (s : Threads ι) (event : ι × Section) : Prop :=
  event.2 = .resume →
    match s.place event.1 with
    | .woken .reader => s.monitor.activeWriters = 0
    | .woken .writer => s.monitor.activeWriters = 0 ∧ s.monitor.activeReaders = 0
    | _ => True

omit [DecidableEq ι] in
/-- Threads that stop or wait do not spoil exclusion. -/
theorem Exclusive.mono {s s' : Threads ι} (h : Exclusive s)
    (hwriting : ∀ j, (s'.place j).isWriting = true → (s.place j).isWriting = true)
    (hreading : ∀ j, (s'.place j).isReading = true → (s.place j).isReading = true) :
    Exclusive s' := by
  intro i j hne hi
  obtain ⟨hw, hr⟩ := h i j hne (hwriting i hi)
  refine ⟨?_, ?_⟩
  · exact Bool.eq_false_iff.mpr fun hj => by simp [hwriting j hj] at hw
  · exact Bool.eq_false_iff.mpr fun hj => by simp [hreading j hj] at hr

theorem Exclusive.move {s : Threads ι} (h : Exclusive s) {i : ι} {place : Place}
    {monitor : Monitor} {signal : Option Condition}
    (hwriting : place.isWriting = true → (s.place i).isWriting = true)
    (hreading : place.isReading = true → (s.place i).isReading = true) :
    Exclusive (s.move i place monitor signal) := by
  refine h.mono ?_ ?_
  · intro j hj
    by_cases hji : j = i
    · subst hji
      rw [move_place_self, Place.isWriting_wakeBy] at hj
      exact hwriting hj
    · rwa [move_place_of_ne s hji, Place.isWriting_wakeBy] at hj
  · intro j hj
    by_cases hji : j = i
    · subst hji
      rw [move_place_self, Place.isReading_wakeBy] at hj
      exact hreading hj
    · rwa [move_place_of_ne s hji, Place.isReading_wakeBy] at hj

/-- Letting in a reader keeps exclusion exactly when nobody writes. -/
theorem exclusive_announcing_iff {s : Threads ι} {i : ι}
    (hi : (s.place i).isWriting = false) (monitor : Monitor) :
    Exclusive (s.move i .announcing monitor none) ↔ ∀ j, (s.place j).isWriting = false := by
  have hself : (s.move i .announcing monitor none).place i = .announcing := move_place_self ..
  constructor
  · intro hexclusive j
    by_cases hji : j = i
    · rwa [hji]
    · refine Bool.eq_false_iff.mpr fun hj => ?_
      have hpair := hexclusive j i hji (by rwa [move_place_of_ne s hji])
      rw [hself] at hpair
      cases hpair.2
  · intro hnone j k hne hj
    by_cases hji : j = i
    · subst hji
      rw [hself] at hj
      cases hj
    · rw [move_place_of_ne s hji, Place.isWriting_wakeBy, hnone j] at hj
      cases hj

/-- Letting in a writer keeps exclusion exactly when nobody is active. -/
theorem exclusive_writing_iff {s : Threads ι} {i : ι}
    (hi : (s.place i).isWriting = false ∧ (s.place i).isReading = false) (monitor : Monitor) :
    Exclusive (s.move i (.active .writer) monitor none) ↔
      ∀ j, (s.place j).isWriting = false ∧ (s.place j).isReading = false := by
  have hself : (s.move i (.active .writer) monitor none).place i = .active .writer :=
    move_place_self ..
  constructor
  · intro hexclusive j
    by_cases hji : j = i
    · rwa [hji]
    · have hpair := hexclusive i j (Ne.symm hji) (by rw [hself]; rfl)
      rwa [move_place_of_ne s hji, Place.isWriting_wakeBy, Place.isReading_wakeBy] at hpair
  · intro hnone j k hne hj
    by_cases hji : j = i
    · subst hji
      rw [move_place_of_ne s (Ne.symm hne), Place.isWriting_wakeBy, Place.isReading_wakeBy]
      exact hnone k
    · rw [move_place_of_ne s hji, Place.isWriting_wakeBy, (hnone j).1] at hj
      cases hj

variable [Fintype ι]

omit [DecidableEq ι] in
theorem Counted.activeWriters_eq_zero_iff {s : Threads ι} (h : Counted s) :
    s.monitor.activeWriters = 0 ↔ ∀ j, (s.place j).isWriting = false := by
  rw [h.activeWriters, tally_eq_zero_iff]

omit [DecidableEq ι] in
theorem Counted.nobody_active_iff {s : Threads ι} (h : Counted s) :
    s.monitor.activeWriters = 0 ∧ s.monitor.activeReaders = 0 ↔
      ∀ j, (s.place j).isWriting = false ∧ (s.place j).isReading = false := by
  rw [h.activeWriters, h.activeReaders, tally_eq_zero_iff, tally_eq_zero_iff, forall_and]

/-- One section keeps exclusion exactly when it leaves no wait, or leaves it clear. -/
theorem Exclusive.step_iff {s s' : Threads ι} {event : ι × Section} (h : Exclusive s)
    (hcounted : Counted s) (hstep : Step s event s') :
    Exclusive s' ↔ LeavesClear s event := by
  obtain ⟨i, act⟩ := event
  obtain ⟨place, monitor, signal, rfl, hmoves⟩ := hstep.moves
  unfold LeavesClear
  dsimp only
  generalize hold : s.place i = old at hmoves
  cases hmoves with
  | readEnters hwriters =>
      refine iff_of_true ?_ (by simp)
      rw [exclusive_announcing_iff (by rw [hold]; rfl)]
      exact hcounted.activeWriters_eq_zero_iff.mp hwriters
  | writeEnters hwriters hreaders =>
      refine iff_of_true ?_ (by simp)
      rw [exclusive_writing_iff (by rw [hold]; exact ⟨rfl, rfl⟩)]
      exact hcounted.nobody_active_iff.mp ⟨hwriters, hreaders⟩
  | readResumes =>
      rw [exclusive_announcing_iff (by rw [hold]; rfl), ← hcounted.activeWriters_eq_zero_iff]
      simp
  | writeResumes =>
      rw [exclusive_writing_iff (by rw [hold]; exact ⟨rfl, rfl⟩), ← hcounted.nobody_active_iff]
      simp
  | announces =>
      exact iff_of_true (h.move (by simp [Place.isWriting]) (by simp [hold, Place.isReading]))
        (by simp)
  | readWaits =>
      exact iff_of_true (h.move (by simp [Place.isWriting]) (by simp [Place.isReading])) (by simp)
  | writeWaits =>
      exact iff_of_true (h.move (by simp [Place.isWriting]) (by simp [Place.isReading])) (by simp)
  | wakes role =>
      exact iff_of_true (h.move (by simp [Place.isWriting]) (by simp [Place.isReading])) (by simp)
  | readStops =>
      exact iff_of_true (h.move (by simp [Place.isWriting]) (by simp [Place.isReading])) (by simp)
  | writeStops =>
      exact iff_of_true (h.move (by simp [Place.isWriting]) (by simp [Place.isReading])) (by simp)

/-- A section after which a woken thread would have passed the test. -/
abbrev ClearStep (s : Threads ι) (event : ι × Section) (s' : Threads ι) : Prop :=
  LeavesClear s event ∧ Step s event s'

/-- Fewer threads than an `unsigned` counts exclude one another in every state
of a run in which each thread leaves its wait clear, and the next section keeps
it so exactly if it does the same. -/
theorem exclusive_of_clear_run (hcard : Fintype.card ι < 2 ^ 32) {events : List (ι × Section)}
    {s : Threads ι} (hrun : Run ClearStep init events s) :
    Exclusive s ∧ ∀ event s', Step s event s' → (Exclusive s' ↔ LeavesClear s event) := by
  have hcounted : ∀ {events s}, Run (ClearStep (ι := ι)) init events s → Counted s :=
    fun hrun => counted_of_run hcard (hrun.mono fun _ _ _ hstep => hstep.2)
  have hexclusive : Exclusive s := by
    induction hrun with
    | nil =>
        intro i j _ hi
        cases hi
    | snoc front last ih => exact (ih.step_iff (hcounted front) last.2).mpr last.1
  exact ⟨hexclusive, fun event s' hstep => hexclusive.step_iff (hcounted hrun) hstep⟩

/-- A writer waits for a reader, which stops before the writer enters. -/
theorem exclusive_of_clear_run_two : ∃ s : Threads (Fin 2),
    Run ClearStep init [(0, .startReading), (0, .announce), (1, .startWriting), (0, .stop),
      (1, .resume)] s ∧ s.place 1 = .active .writer ∧ Exclusive s := by
  have hrun : Run ClearStep (init : Threads (Fin 2)) [] init := .nil init
  have hreads := hrun.snoc (show ClearStep _ (0, .startReading) _ from ⟨nofun, rfl⟩)
  have hannounces := hreads.snoc (show ClearStep _ (0, .announce) _ from ⟨nofun, rfl⟩)
  have hwaits := hannounces.snoc (show ClearStep _ (1, .startWriting) _ from ⟨nofun, rfl⟩)
  have hstops := hwaits.snoc (show ClearStep _ (0, .stop) _ from ⟨nofun, rfl⟩)
  have hwrites := hstops.snoc (show ClearStep _ (1, .resume) _ from ⟨fun _ => ⟨rfl, rfl⟩, rfl⟩)
  exact ⟨_, hwrites, rfl, (exclusive_of_clear_run (by decide) hwrites).1⟩

/-- Two writers wait for a reader, and its broadcast lets both in. -/
theorem two_writers_enter : ∃ s : Threads (Fin 3), Reachable s ∧
    s.place 1 = .active .writer ∧ s.place 2 = .active .writer ∧ ¬ Exclusive s := by
  let events : List (Fin 3 × Section) :=
    [(0, .startReading), (0, .announce), (1, .startWriting), (2, .startWriting), (0, .stop),
      (1, .resume), (2, .resume)]
  obtain ⟨s, hfold⟩ : ∃ s, events.foldlM next? init = some s := ⟨_, rfl⟩
  have hfirst : s.place 1 = .active .writer := by
    cases hfold
    rfl
  have hsecond : s.place 2 = .active .writer := by
    cases hfold
    rfl
  refine ⟨s, ⟨events, Run.of_foldlM hfold⟩, hfirst, hsecond, fun hexclusive => ?_⟩
  have hpair := hexclusive 1 2 (by decide) (by rw [hfirst]; rfl)
  rw [hsecond] at hpair
  cases hpair.1

end Threads

end Aesd

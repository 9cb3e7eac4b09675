import Aesd.Monitor.Counters

/-!
# No lost wake-up

A thread that sleeps in a wait is never left alone: somebody is between the
start and the stop of its access, or was woken and is on its way in. Sleeping
readers are watched over by writers, and sleeping writers by whoever holds them
up.
-/

namespace Aesd

open CSem Tally Transition

/-- The condition that a thread of this role waits for. -/
def Role.condition : Role → Condition
  | .reader => .canRead
  | .writer => .canWrite

namespace Place

/-- Active, or woken and about to be. -/
def isStirring (place : Place) : Bool := place.isReading || place.isWriting || place.isWoken

variable {signal : Option Condition} {place : Place} {role : Role}

/-- Who still sleeps after a section slept before it, and its condition was not
broadcast. -/
theorem asleep_of_wakeBy (h : place.wakeBy signal = .asleep role) :
    place = .asleep role ∧ signal ≠ some role.condition := by
  rcases signal with _ | _ | _ <;> rcases place with _ | ⟨_ | _⟩ | ⟨_ | _⟩ | _ | ⟨_ | _⟩ <;>
    cases role <;> simp_all [wakeBy, wake, Role.condition]

theorem isStirring_wakeBy (h : place.isStirring = true) (signal : Option Condition) :
    (place.wakeBy signal).isStirring = true := by
  rcases signal with _ | _ | _ <;> rcases place with _ | ⟨_ | _⟩ | ⟨_ | _⟩ | _ | ⟨_ | _⟩ <;>
    first | rfl | exact h

theorem isStirring_of_isReading (h : place.isReading = true) : place.isStirring = true := by
  simp [isStirring, h]

theorem isStirring_of_isWriting (h : place.isWriting = true) : place.isStirring = true := by
  simp [isStirring, h]

/-- A thread in a wait sleeps or is stirring. -/
theorem asleep_or_stirring (h : place.isWaiting role = true) :
    place = .asleep role ∨ place.isStirring = true := by
  cases place with
  | asleep r =>
      left
      rw [of_decide_eq_true h]
  | woken r => exact Or.inr rfl
  | outside => cases h
  | announcing => cases h
  | active r => cases h

end Place

namespace Threads

variable {ι : Type}

/-- Some thread is active, or woken and about to be. -/
def Stirring (s : Threads ι) : Prop := ∃ j, (s.place j).isStirring = true

/-- Every sleeping reader has a writer that is active or waits, and every
sleeping writer has somebody who stirs. -/
structure Watched (s : Threads ι) : Prop where
  readers : ∀ i, s.place i = .asleep .reader →
    s.monitor.activeWriters ≠ 0 ∨ s.monitor.waitingWriters ≠ 0
  writers : ∀ i, s.place i = .asleep .writer → s.Stirring

theorem init_watched : Watched (init : Threads ι) where
  readers := fun _ h => by cases h
  writers := fun _ h => by cases h

section Counted

variable [Fintype ι] {s : Threads ι}

theorem Counted.stirring_of_activeReaders (h : Counted s) (hne : s.monitor.activeReaders ≠ 0) :
    s.Stirring := by
  rw [h.activeReaders] at hne
  obtain ⟨j, hj⟩ := tally_pos_iff.mp (Nat.pos_of_ne_zero hne)
  exact ⟨j, Place.isStirring_of_isReading hj⟩

theorem Counted.stirring_of_activeWriters (h : Counted s) (hne : s.monitor.activeWriters ≠ 0) :
    s.Stirring := by
  rw [h.activeWriters] at hne
  obtain ⟨j, hj⟩ := tally_pos_iff.mp (Nat.pos_of_ne_zero hne)
  exact ⟨j, Place.isStirring_of_isWriting hj⟩

theorem Counted.activeWriters_ne_zero (h : Counted s) {i : ι}
    (hi : (s.place i).isWriting = true) : s.monitor.activeWriters ≠ 0 := by
  rw [h.activeWriters]
  exact Nat.ne_of_gt (tally_pos_iff.mpr ⟨i, hi⟩)

theorem Counted.waitingReaders_ne_zero (h : Counted s) {i : ι}
    (hi : (s.place i).isWaiting .reader = true) : s.monitor.waitingReaders ≠ 0 := by
  rw [h.waitingReaders]
  exact Nat.ne_of_gt (tally_pos_iff.mpr ⟨i, hi⟩)

theorem Counted.waitingWriters_ne_zero (h : Counted s) {i : ι}
    (hi : (s.place i).isWaiting .writer = true) : s.monitor.waitingWriters ≠ 0 := by
  rw [h.waitingWriters]
  exact Nat.ne_of_gt (tally_pos_iff.mpr ⟨i, hi⟩)

/-- A writer in a wait stirs, or sleeps and is watched. -/
theorem Watched.stirring_of_waitingWriters (h : Watched s) (hcounted : Counted s)
    (hne : s.monitor.waitingWriters ≠ 0) : s.Stirring := by
  rw [hcounted.waitingWriters] at hne
  obtain ⟨j, hj⟩ := tally_pos_iff.mp (Nat.pos_of_ne_zero hne)
  rcases Place.asleep_or_stirring hj with hasleep | hstirring
  · exact h.writers j hasleep
  · exact ⟨j, hstirring⟩

theorem Watched.stirring_of_asleep (h : Watched s) (hcounted : Counted s) {i : ι} {role : Role}
    (hasleep : s.place i = .asleep role) : s.Stirring := by
  cases role with
  | writer => exact h.writers i hasleep
  | reader =>
      rcases h.readers i hasleep with hactive | hwaiting
      · exact hcounted.stirring_of_activeWriters hactive
      · exact h.stirring_of_waitingWriters hcounted hwaiting

/-- Whatever makes a writer wait comes with somebody who stirs. -/
theorem Watched.stirring_of_busy (h : Watched s) (hcounted : Counted s)
    (hbusy : s.monitor.activeWriters ≠ 0 ∨ s.monitor.activeReaders ≠ 0 ∨
      s.monitor.waitingReaders ≠ 0 ∨ s.monitor.waitingWriters ≠ 0) : s.Stirring := by
  rcases hbusy with hne | hne | hne | hne
  · exact hcounted.stirring_of_activeWriters hne
  · exact hcounted.stirring_of_activeReaders hne
  · rw [hcounted.waitingReaders] at hne
    obtain ⟨j, hj⟩ := tally_pos_iff.mp (Nat.pos_of_ne_zero hne)
    rcases Place.asleep_or_stirring hj with hasleep | hstirring
    · exact h.stirring_of_asleep hcounted hasleep
    · exact ⟨j, hstirring⟩
  · exact h.stirring_of_waitingWriters hcounted hne

end Counted

variable [DecidableEq ι] {s : Threads ι} {i : ι} {place : Place} {monitor : Monitor}
  {signal : Option Condition}

theorem Stirring.move_self (h : place.isStirring = true) :
    (s.move i place monitor signal).Stirring := by
  refine ⟨i, ?_⟩
  rw [move_place_self]
  exact Place.isStirring_wakeBy h signal

/-- Others go on stirring while a thread that did not stir moves. -/
theorem Stirring.move (h : s.Stirring) (hi : (s.place i).isStirring = false) :
    (s.move i place monitor signal).Stirring := by
  obtain ⟨j, hj⟩ := h
  have hne : j ≠ i := by
    rintro rfl
    rw [hi] at hj
    cases hj
  refine ⟨j, ?_⟩
  rw [move_place_of_ne s hne]
  exact Place.isStirring_wakeBy hj signal

/-- A sleeper after a move is the thread that moved, or slept before it. -/
theorem asleep_of_move {j : ι} {role : Role}
    (h : (s.move i place monitor signal).place j = .asleep role) :
    ((j = i ∧ place = .asleep role) ∨ (j ≠ i ∧ s.place j = .asleep role)) ∧
      signal ≠ some role.condition := by
  by_cases hji : j = i
  · subst hji
    rw [move_place_self] at h
    obtain ⟨hplace, hsignal⟩ := Place.asleep_of_wakeBy h
    exact ⟨Or.inl ⟨rfl, hplace⟩, hsignal⟩
  · rw [move_place_of_ne s hji] at h
    obtain ⟨hplace, hsignal⟩ := Place.asleep_of_wakeBy h
    exact ⟨Or.inr ⟨hji, hplace⟩, hsignal⟩

/-- A sleeper of a role to which the moved thread does not come slept before. -/
theorem asleep_before {j : ι} {role : Role}
    (h : (s.move i place monitor signal).place j = .asleep role) (hne : place ≠ .asleep role) :
    s.place j = .asleep role := by
  rcases (asleep_of_move h).1 with ⟨_, hplace⟩ | ⟨_, hplace⟩
  · exact absurd hplace hne
  · exact hplace

variable [Fintype ι]

/-- One section leaves every sleeping reader a writer. -/
theorem Watched.readers_step {s' : Threads ι} {event : ι × Section} (h : Watched s)
    (hcounted' : Counted s') (hstep : Step s event s') :
    ∀ j, s'.place j = .asleep .reader →
      s'.monitor.activeWriters ≠ 0 ∨ s'.monitor.waitingWriters ≠ 0 := by
  obtain ⟨i, act⟩ := event
  obtain ⟨place, monitor, signal, rfl, hmoves⟩ := hstep.moves
  intro j hj
  have hsignal := (asleep_of_move hj).2
  have hcame := fun hne => asleep_before hj hne
  generalize hold : s.place i = old at hmoves
  cases hmoves with
  | readWaits hbusy => exact hbusy
  | readEnters => exact h.readers j (hcame (by simp))
  | wakes => exact h.readers j (hcame (by simp))
  | readResumes => exact h.readers j (hcame (by simp))
  | readStops => exact h.readers j (hcame (by simp))
  | announces => exact absurd rfl hsignal
  | writeWaits =>
      exact Or.inr (hcounted'.waitingWriters_ne_zero (i := i) (by rw [move_place_self]; rfl))
  | writeEnters =>
      exact Or.inl (hcounted'.activeWriters_ne_zero (i := i) (by rw [move_place_self]; rfl))
  | writeResumes =>
      exact Or.inl (hcounted'.activeWriters_ne_zero (i := i) (by rw [move_place_self]; rfl))
  | writeStops =>
      by_cases hzero : s.monitor.stopWriting.1.activeWriters = 0
      · -- the last writer broadcasts to readers as soon as one waits
        have hwaiting : s.monitor.waitingReaders ≠ 0 :=
          hcounted'.waitingReaders_ne_zero (i := j) (by rw [hj]; rfl)
        refine absurd ?_ hsignal
        unfold Monitor.stopWriting at hzero ⊢
        simp only [if_pos hzero, if_pos hwaiting]
        rfl
      · exact Or.inl hzero

/-- One section leaves every sleeping writer somebody who stirs. -/
theorem Watched.writers_step {s' : Threads ι} {event : ι × Section} (h : Watched s)
    (hcounted : Counted s) (hcounted' : Counted s') (hstep : Step s event s') :
    ∀ j, s'.place j = .asleep .writer → s'.Stirring := by
  obtain ⟨i, act⟩ := event
  obtain ⟨place, monitor, signal, rfl, hmoves⟩ := hstep.moves
  intro j hj
  have hsignal := (asleep_of_move hj).2
  have hcame := fun hne => asleep_before hj hne
  generalize hold : s.place i = old at hmoves
  cases hmoves with
  | readWaits => exact (h.writers j (hcame (by simp))).move (by rw [hold]; rfl)
  | writeWaits hbusy => exact (h.stirring_of_busy hcounted hbusy).move (by rw [hold]; rfl)
  | readEnters => exact Stirring.move_self rfl
  | writeEnters => exact Stirring.move_self rfl
  | wakes => exact Stirring.move_self rfl
  | readResumes => exact Stirring.move_self rfl
  | writeResumes => exact Stirring.move_self rfl
  | announces => exact Stirring.move_self rfl
  | readStops =>
      by_cases hzero : s.monitor.stopReading.1.activeReaders = 0
      · refine absurd ?_ hsignal
        unfold Monitor.stopReading at hzero ⊢
        exact if_pos hzero
      · exact hcounted'.stirring_of_activeReaders hzero
  | writeStops =>
      by_cases hzero : s.monitor.stopWriting.1.activeWriters = 0
      · have hwaiting : s.monitor.waitingWriters ≠ 0 :=
          hcounted'.waitingWriters_ne_zero (i := j) (by rw [hj]; rfl)
        by_cases hreaders : s.monitor.waitingReaders = 0
        · refine absurd ?_ hsignal
          unfold Monitor.stopWriting at hzero ⊢
          simp only [if_pos hzero, hreaders, ne_eq, not_true, if_false, if_pos hwaiting]
          rfl
        · -- the readers that wait have just been woken
          have hcanRead : s.monitor.stopWriting.2 = some .canRead := by
            unfold Monitor.stopWriting at hzero ⊢
            simp only [if_pos hzero, if_pos hreaders, ne_eq]
          have hcount : (s.move i .outside s.monitor.stopWriting.1
              s.monitor.stopWriting.2).monitor.waitingReaders ≠ 0 := hreaders
          rw [hcounted'.waitingReaders] at hcount
          obtain ⟨r, hr⟩ := tally_pos_iff.mp (Nat.pos_of_ne_zero hcount)
          rcases Place.asleep_or_stirring hr with hasleep | hstirring
          · exact absurd hcanRead (asleep_of_move hasleep).2
          · exact ⟨r, hstirring⟩
      · exact hcounted'.stirring_of_activeWriters hzero

theorem watched_of_run (hcard : Fintype.card ι < 2 ^ 32) {events : List (ι × Section)}
    (hrun : Run Step init events s) : Watched s := by
  induction hrun with
  | nil => exact init_watched
  | snoc front last ih =>
      have hcounted := counted_of_run hcard front
      have hcounted' := hcounted.step hcard last
      exact ⟨ih.readers_step hcounted' last, ih.writers_step hcounted hcounted' last⟩

/-- No lost wake-up: in every reachable state with a thread asleep in a wait,
some thread is between its start and its stop, or was woken. -/
theorem no_lost_wakeup (hcard : Fintype.card ι < 2 ^ 32) (hreach : Reachable s)
    {role : Role} (hasleep : s.place i = .asleep role) :
    ∃ j, (s.place j).isReading = true ∨ (s.place j).isWriting = true ∨
      (s.place j).isWoken = true := by
  obtain ⟨events, hrun⟩ := hreach
  obtain ⟨j, hj⟩ :=
    (watched_of_run hcard hrun).stirring_of_asleep (counted_of_run hcard hrun) hasleep
  refine ⟨j, ?_⟩
  simpa [Place.isStirring, or_assoc] using hj

/-- A writer asleep behind a reader. -/
theorem no_lost_wakeup_two : ∃ s : Threads (Fin 2), Reachable s ∧ s.place 1 = .asleep .writer ∧
    ∃ j, (s.place j).isReading = true ∨ (s.place j).isWriting = true ∨
      (s.place j).isWoken = true := by
  let events : List (Fin 2 × Section) :=
    [(0, .startReading), (0, .announce), (1, .startWriting)]
  obtain ⟨s, hfold⟩ : ∃ s, events.foldlM next? init = some s := ⟨_, rfl⟩
  have hasleep : s.place 1 = .asleep .writer := by
    cases hfold
    rfl
  have hreach : Reachable s := ⟨events, Run.of_foldlM hfold⟩
  exact ⟨s, hreach, hasleep, no_lost_wakeup (by decide) hreach hasleep⟩

end Threads

end Aesd

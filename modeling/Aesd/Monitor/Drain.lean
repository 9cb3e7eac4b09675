import Aesd.Foundation.Draining
import Aesd.Monitor.Wakeup

/-!
# The monitor empties

Once no thread calls a start function any more, the threads inside leave one
after the other, whatever the order of their sections. None is left asleep, and
the counters return to zero.
-/

namespace Aesd

open CSem Tally Transition

/-- The sections with which a thread comes in. -/
def Section.isStart : Section → Bool
  | .startReading => true
  | .startWriting => true
  | _ => false

/-- How far a thread is from the outside. -/
def Place.distance : Place → Nat
  | .outside => 0
  | .active _ => 1
  | .announcing => 2
  | .woken _ => 3
  | .asleep _ => 4

theorem Place.distance_le (place : Place) : place.distance ≤ 4 := by
  cases place <;> simp [distance]

/-- Nobody is further away for having been woken. -/
theorem Place.distance_wakeBy_le (place : Place) (signal : Option Condition) :
    (place.wakeBy signal).distance ≤ place.distance := by
  rcases signal with _ | _ | _ <;> rcases place with _ | ⟨_ | _⟩ | ⟨_ | _⟩ | _ | ⟨_ | _⟩ <;> decide

namespace Threads

variable {ι : Type} [DecidableEq ι]

/-- A section of a thread that is inside already. -/
def InsideStep (s : Threads ι) (event : ι × Section) (s' : Threads ι) : Prop :=
  event.2.isStart = false ∧ Step s event s'

/-- Who moves comes nearer to the outside. -/
theorem Moves.distance_lt {m m' : Monitor} {act : Section} {old place : Place}
    {signal : Option Condition} (hmoves : Moves m act old place m' signal)
    (hinside : act.isStart = false) : place.distance < old.distance := by
  cases hmoves with
  | readWaits => cases hinside
  | readEnters => cases hinside
  | writeWaits => cases hinside
  | writeEnters => cases hinside
  | wakes => exact Nat.lt_succ_self 3
  | readResumes => exact Nat.lt_succ_self 2
  | writeResumes => exact Nat.lt_of_lt_of_le (Nat.lt_succ_self 1) (Nat.le_succ 2)
  | announces => exact Nat.lt_succ_self 1
  | readStops => exact Nat.zero_lt_one
  | writeStops => exact Nat.zero_lt_one

/-- A thread that stirs can go on, and needs nobody else for it. -/
theorem exists_due {s : Threads ι} {j : ι} (hj : (s.place j).isStirring = true) :
    ∃ act s', act ≠ .spuriousWakeup ∧ act.isStart = false ∧ Step s (j, act) s' := by
  have hdue : ∃ act, act ≠ Section.spuriousWakeup ∧ act.isStart = false ∧
      (s.next? (j, act)).isSome = true := by
    cases hplace : s.place j with
    | outside =>
        rw [hplace] at hj
        cases hj
    | asleep role =>
        rw [hplace] at hj
        cases hj
    | woken role =>
        refine ⟨.resume, Section.noConfusion, rfl, ?_⟩
        rw [next?, hplace]
        cases role <;> rfl
    | announcing =>
        refine ⟨.announce, Section.noConfusion, rfl, ?_⟩
        rw [next?, hplace]
        rfl
    | active role =>
        refine ⟨.stop, Section.noConfusion, rfl, ?_⟩
        rw [next?, hplace]
        cases role <;> rfl
  obtain ⟨act, hwoken, hstart, hsome⟩ := hdue
  obtain ⟨s', hstep⟩ := Option.isSome_iff_exists.mp hsome
  exact ⟨act, s', hwoken, hstart, hstep⟩

theorem exists_step_of_isStirring {s : Threads ι} {j : ι} (hj : (s.place j).isStirring = true) :
    ∃ event s', event.2 ≠ .spuriousWakeup ∧ InsideStep s event s' := by
  obtain ⟨act, s', hdue, hinside, hstep⟩ := exists_due hj
  exact ⟨(j, act), s', hdue, hinside, hstep⟩

/-- Nobody else is further away after a section. -/
theorem Step.distance_le {s s' : Threads ι} {i j : ι} {act : Section}
    (hstep : Step s (i, act) s') (hne : j ≠ i) :
    (s'.place j).distance ≤ (s.place j).distance := by
  obtain ⟨place, monitor, signal, rfl, _⟩ := hstep.moves
  rw [move_place_of_ne s hne]
  exact (s.place j).distance_wakeBy_le signal

theorem InsideStep.distance_lt {s s' : Threads ι} {i : ι} {act : Section}
    (hstep : InsideStep s (i, act) s') : (s'.place i).distance < (s.place i).distance := by
  obtain ⟨hinside, hstep⟩ := hstep
  obtain ⟨place, monitor, signal, rfl, hmoves⟩ := hstep.moves
  rw [move_place_self]
  exact Nat.lt_of_le_of_lt (place.distance_wakeBy_le signal) (hmoves.distance_lt hinside)

variable [Fintype ι]

theorem InsideStep.load_lt {s s' : Threads ι} {event : ι × Section}
    (hstep : InsideStep s event s') :
    load s'.place Place.distance < load s.place Place.distance :=
  Tally.load_lt event.1 hstep.distance_lt fun _ hne => hstep.2.distance_le hne

omit [DecidableEq ι] in
/-- With everybody outside nothing is counted. -/
theorem Counted.eq_init {s : Threads ι} (h : Counted s) (houtside : ∀ i, s.place i = .outside) :
    s = init := by
  have hzero : ∀ p : Place → Bool, p .outside = false → tally s.place p = 0 := fun p hp =>
    tally_eq_zero_iff.mpr fun i => by rw [houtside i, hp]
  have hreaders := h.activeReaders.trans (hzero _ rfl)
  have hwriters := h.activeWriters.trans (hzero _ rfl)
  have hwaitingReaders := h.waitingReaders.trans (hzero _ rfl)
  have hwaitingWriters := h.waitingWriters.trans (hzero _ rfl)
  obtain ⟨⟨activeReaders, activeWriters, waitingReaders, waitingWriters⟩, place⟩ := s
  subst hreaders hwriters hwaitingReaders hwaitingWriters
  obtain rfl : place = fun _ => .outside := funext houtside
  rfl

/-- Before the monitor is empty, somebody inside can go on without being woken. -/
theorem Watched.exists_step {s : Threads ι} (h : Watched s) (hcounted : Counted s)
    (hne : s ≠ init) : ∃ event s', event.2 ≠ .spuriousWakeup ∧ InsideStep s event s' := by
  obtain ⟨i, hi⟩ := not_forall.mp (mt hcounted.eq_init hne)
  cases hplace : s.place i with
  | outside => exact absurd hplace hi
  | asleep role =>
      obtain ⟨j, hj⟩ := h.stirring_of_asleep hcounted hplace
      exact exists_step_of_isStirring hj
  | woken role => exact exists_step_of_isStirring (j := i) (by rw [hplace]; rfl)
  | announcing => exact exists_step_of_isStirring (j := i) (by rw [hplace]; rfl)
  | active role =>
      cases role with
      | reader => exact exists_step_of_isStirring (j := i) (by rw [hplace]; rfl)
      | writer => exact exists_step_of_isStirring (j := i) (by rw [hplace]; rfl)

/-- From every reachable state the threads inside come out again. They take at
most four sections each, and no spurious wake-up is needed. -/
theorem drains_of_reachable (hcard : Fintype.card ι < 2 ^ 32) {s : Threads ι}
    (hreach : Reachable s) :
    Drains InsideStep (fun _ event => event.2 ≠ .spuriousWakeup) (fun s => s = init)
      (4 * Fintype.card ι) s := by
  obtain ⟨events, hrun⟩ := hreach
  refine Drains.of_measure (fun s => Counted s ∧ Watched s) (fun s => load s.place Place.distance)
    ?_ (fun _ _ _ _ hstep => hstep.load_lt) ?_
    ⟨counted_of_run hcard hrun, watched_of_run hcard hrun⟩ (load_le Place.distance_le)
  · rintro s event s' ⟨hcounted, hwatched⟩ ⟨_, hstep⟩
    have hcounted' := hcounted.step hcard hstep
    exact ⟨hcounted', hwatched.readers_step hcounted' hstep,
      hwatched.writers_step hcounted hcounted' hstep⟩
  · rintro s ⟨hcounted, hwatched⟩ hne
    exact hwatched.exists_step hcounted hne

/-- A reader, and a writer asleep behind it. -/
def readerAndWriter : Threads (Fin 2) :=
  ((init.move 0 .announcing ⟨1, 0, 0, 0⟩ none).move 0 (.active .reader) ⟨1, 0, 0, 0⟩
    (some .canRead)).move 1 (.asleep .writer) ⟨1, 0, 0, 1⟩ none

theorem readerAndWriter_reachable : Reachable readerAndWriter :=
  ⟨[(0, .startReading), (0, .announce), (1, .startWriting)], Run.of_foldlM rfl⟩

theorem drains_of_readerAndWriter :
    Drains InsideStep (fun _ event => event.2 ≠ .spuriousWakeup) (fun s => s = init)
      (4 * Fintype.card (Fin 2)) readerAndWriter :=
  drains_of_reachable (by decide) readerAndWriter_reachable

end Threads

end Aesd

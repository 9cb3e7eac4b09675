import Aesd.Monitor.Threads

/-!
# The counters count

With fewer threads than an `unsigned` can count, each counter of the monitor is
the number of threads it stands for, at every moment between two sections.
-/

namespace Aesd

open CSem Tally Transition

namespace Place

variable (signal : Option Condition) (place : Place)

@[simp] theorem isReading_wakeBy : (place.wakeBy signal).isReading = place.isReading := by
  rcases signal with _ | _ | _ <;> rcases place with _ | ⟨_ | _⟩ | ⟨_ | _⟩ | _ | ⟨_ | _⟩ <;> rfl

@[simp] theorem isWriting_wakeBy : (place.wakeBy signal).isWriting = place.isWriting := by
  rcases signal with _ | _ | _ <;> rcases place with _ | ⟨_ | _⟩ | ⟨_ | _⟩ | _ | ⟨_ | _⟩ <;> rfl

@[simp] theorem isWaiting_wakeBy (role : Role) :
    (place.wakeBy signal).isWaiting role = place.isWaiting role := by
  rcases signal with _ | _ | _ <;> rcases place with _ | ⟨_ | _⟩ | ⟨_ | _⟩ | _ | ⟨_ | _⟩ <;> rfl

end Place

namespace Threads

variable {ι : Type} [DecidableEq ι]

@[simp] theorem move_monitor (s : Threads ι) (i : ι) (place : Place) (monitor : Monitor)
    (signal : Option Condition) : (s.move i place monitor signal).monitor = monitor := rfl

theorem move_place_self (s : Threads ι) (i : ι) (place : Place) (monitor : Monitor)
    (signal : Option Condition) :
    (s.move i place monitor signal).place i = place.wakeBy signal := by
  simp [move]

theorem move_place_of_ne (s : Threads ι) {i j : ι} (hne : j ≠ i) (place : Place)
    (monitor : Monitor) (signal : Option Condition) :
    (s.move i place monitor signal).place j = (s.place j).wakeBy signal := by
  simp [move, hne]

section Moves

variable {m m' : Monitor} {act : Section} {old place : Place} {signal : Option Condition}
  {count : Nat}

/-! Each counter follows the thread that moves, as long as it does not overflow. -/

theorem Moves.activeReaders_eq (hmoves : Moves m act old place m' signal)
    (hcount : count + old.isReading.toNat = m.activeReaders + place.isReading.toNat)
    (hlt : count < 2 ^ 32) (hm : m.activeReaders < 2 ^ 32) : m'.activeReaders = count := by
  cases hmoves with
  | readEnters =>
      simp only [Place.isReading, Bool.toNat_false, Bool.toNat_true] at hcount
      exact (u32_add_one (by omega)).trans (by omega)
  | readResumes =>
      simp only [Place.isReading, Bool.toNat_false, Bool.toNat_true] at hcount
      exact (u32_add_one (by omega)).trans (by omega)
  | readStops =>
      simp only [Place.isReading, Bool.toNat_false, Bool.toNat_true] at hcount
      exact (u32_sub_one (by omega) hm).trans (by omega)
  | _ => exact (Nat.add_right_cancel hcount).symm

theorem Moves.activeWriters_eq (hmoves : Moves m act old place m' signal)
    (hcount : count + old.isWriting.toNat = m.activeWriters + place.isWriting.toNat)
    (hlt : count < 2 ^ 32) (hm : m.activeWriters < 2 ^ 32) : m'.activeWriters = count := by
  cases hmoves with
  | writeEnters =>
      simp only [Place.isWriting, Bool.toNat_false, Bool.toNat_true] at hcount
      exact (u32_add_one (by omega)).trans (by omega)
  | writeResumes =>
      simp only [Place.isWriting, Bool.toNat_false, Bool.toNat_true] at hcount
      exact (u32_add_one (by omega)).trans (by omega)
  | writeStops =>
      simp only [Place.isWriting, Bool.toNat_false, Bool.toNat_true] at hcount
      exact (u32_sub_one (by omega) hm).trans (by omega)
  | _ => exact (Nat.add_right_cancel hcount).symm

theorem Moves.waitingReaders_eq (hmoves : Moves m act old place m' signal)
    (hcount : count + (old.isWaiting .reader).toNat =
      m.waitingReaders + (place.isWaiting .reader).toNat)
    (hlt : count < 2 ^ 32) (hm : m.waitingReaders < 2 ^ 32) : m'.waitingReaders = count := by
  cases hmoves with
  | readWaits =>
      simp only [Place.isWaiting, decide_true, Bool.toNat_false, Bool.toNat_true] at hcount
      exact (u32_add_one (by omega)).trans (by omega)
  | readResumes =>
      simp only [Place.isWaiting, decide_true, Bool.toNat_false, Bool.toNat_true] at hcount
      exact (u32_sub_one (by omega) hm).trans (by omega)
  | _ => exact (Nat.add_right_cancel hcount).symm

theorem Moves.waitingWriters_eq (hmoves : Moves m act old place m' signal)
    (hcount : count + (old.isWaiting .writer).toNat =
      m.waitingWriters + (place.isWaiting .writer).toNat)
    (hlt : count < 2 ^ 32) (hm : m.waitingWriters < 2 ^ 32) : m'.waitingWriters = count := by
  cases hmoves with
  | writeWaits =>
      simp only [Place.isWaiting, decide_true, Bool.toNat_false, Bool.toNat_true] at hcount
      exact (u32_add_one (by omega)).trans (by omega)
  | writeResumes =>
      simp only [Place.isWaiting, decide_true, Bool.toNat_false, Bool.toNat_true] at hcount
      exact (u32_sub_one (by omega) hm).trans (by omega)
  | _ => exact (Nat.add_right_cancel hcount).symm

end Moves

variable [Fintype ι]

/-- A property that wake-ups do not change is counted over the moved thread only. -/
theorem tally_move (s : Threads ι) (i : ι) (place : Place) (monitor : Monitor)
    (signal : Option Condition) {p : Place → Bool} (hwake : ∀ x, p (x.wakeBy signal) = p x) :
    tally (s.move i place monitor signal).place p + (p (s.place i)).toNat =
      tally s.place p + (p place).toNat := by
  rw [← tally_update s.place i place p]
  congr 1
  exact Finset.sum_congr rfl fun j _ => congrArg Bool.toNat (hwake _)

/-- The counters are the numbers of threads they stand for. -/
structure Counted (s : Threads ι) : Prop where
  activeReaders : s.monitor.activeReaders = tally s.place Place.isReading
  activeWriters : s.monitor.activeWriters = tally s.place Place.isWriting
  waitingReaders : s.monitor.waitingReaders = tally s.place (Place.isWaiting .reader)
  waitingWriters : s.monitor.waitingWriters = tally s.place (Place.isWaiting .writer)

omit [DecidableEq ι] in
theorem init_counted : Counted (init : Threads ι) := by
  constructor <;> exact (tally_eq_zero_iff.mpr fun _ => rfl).symm

/-- One section keeps the counters right. -/
theorem Counted.step {s s' : Threads ι} {event : ι × Section} (h : Counted s)
    (hcard : Fintype.card ι < 2 ^ 32) (hstep : Step s event s') : Counted s' := by
  obtain ⟨i, act⟩ := event
  obtain ⟨place, monitor, signal, rfl, hmoves⟩ := hstep.moves
  have hlt : ∀ (s : Threads ι) p, tally s.place p < 2 ^ 32 :=
    fun s p => Nat.lt_of_le_of_lt (tally_le_card s.place p) hcard
  constructor
  · refine hmoves.activeReaders_eq ?_ (hlt _ _) (h.activeReaders ▸ hlt s _)
    rw [h.activeReaders]
    exact s.tally_move i place monitor signal fun x => x.isReading_wakeBy signal
  · refine hmoves.activeWriters_eq ?_ (hlt _ _) (h.activeWriters ▸ hlt s _)
    rw [h.activeWriters]
    exact s.tally_move i place monitor signal fun x => x.isWriting_wakeBy signal
  · refine hmoves.waitingReaders_eq ?_ (hlt _ _) (h.waitingReaders ▸ hlt s _)
    rw [h.waitingReaders]
    exact s.tally_move i place monitor signal fun x => x.isWaiting_wakeBy signal .reader
  · refine hmoves.waitingWriters_eq ?_ (hlt _ _) (h.waitingWriters ▸ hlt s _)
    rw [h.waitingWriters]
    exact s.tally_move i place monitor signal fun x => x.isWaiting_wakeBy signal .writer

theorem counted_of_run (hcard : Fintype.card ι < 2 ^ 32) {events : List (ι × Section)}
    {s : Threads ι} (hrun : Run Step init events s) : Counted s :=
  hrun.invariant Counted (fun _ _ _ h hstep => h.step hcard hstep) init_counted

end Threads

end Aesd

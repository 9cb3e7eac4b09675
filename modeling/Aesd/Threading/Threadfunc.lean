import Aesd.Foundation.Draining
import Aesd.Foundation.Tally

/-!
# Threads that obtain a mutex

The threads of `start_thread_obtaining_mutex` sleep, obtain a mutex, sleep again and
release it. A sleep may be interrupted. The thread returns then, and after the
second sleep it returns with the mutex.
-/

namespace Aesd

open Tally Transition

/-- Where a thread is in `threadfunc`: not started yet, in one of its calls, or
back with `thread_complete_success`. -/
inductive ThreadfuncPlace
  | absent
  | waitsToObtain
  | locks
  | waitsToRelease
  | unlocks
  | returned (threadCompleteSuccess : Bool)
  deriving DecidableEq, Repr

/-- The call that comes back. Locking a valid mutex does not fail, and the error
numbers that it could give are not the -1 that is tested for. -/
inductive ThreadfuncCall
  | pthreadCreate
  | usleep (ok : Bool)
  | pthreadMutexLock
  | pthreadMutexUnlock
  deriving DecidableEq, Repr

/-- `threadfunc`, from one call to the next. -/
def threadfunc : ThreadfuncPlace → ThreadfuncCall → Option ThreadfuncPlace
  | .absent, .pthreadCreate => some .waitsToObtain
  | .waitsToObtain, .usleep true => some .locks
  | .waitsToObtain, .usleep false => some (.returned false)
  | .locks, .pthreadMutexLock => some .waitsToRelease
  | .waitsToRelease, .usleep true => some .unlocks
  | .waitsToRelease, .usleep false => some (.returned false)
  | .unlocks, .pthreadMutexUnlock => some (.returned true)
  | _, _ => none

/-- The owner of the mutex after a call. Locking waits until there is none. -/
def mutexAfter {ι : Type} (owner : Option ι) (i : ι) : ThreadfuncCall → Option (Option ι)
  | .pthreadMutexLock => if owner.isNone then some (some i) else none
  | .pthreadMutexUnlock => some none
  | _ => some owner

/-- The threads and the mutex. -/
structure MutexThreads (ι : Type) where
  place : ι → ThreadfuncPlace
  owner : Option ι

namespace ThreadfuncPlace

/-- The calls that lead to a place. -/
def Follows (calls : List ThreadfuncCall) : ThreadfuncPlace → Prop
  | .absent => calls = []
  | .waitsToObtain => calls = [.pthreadCreate]
  | .locks => calls = [.pthreadCreate, .usleep true]
  | .waitsToRelease => calls = [.pthreadCreate, .usleep true, .pthreadMutexLock]
  | .unlocks => calls = [.pthreadCreate, .usleep true, .pthreadMutexLock, .usleep true]
  | .returned true =>
      calls = [.pthreadCreate, .usleep true, .pthreadMutexLock, .usleep true, .pthreadMutexUnlock]
  | .returned false => calls = [.pthreadCreate, .usleep false] ∨
      calls = [.pthreadCreate, .usleep true, .pthreadMutexLock, .usleep false]

/-- How many calls are left at most. -/
def callsLeft : ThreadfuncPlace → Nat
  | .absent => 5
  | .waitsToObtain => 4
  | .locks => 3
  | .waitsToRelease => 2
  | .unlocks => 1
  | .returned _ => 0

theorem callsLeft_le (place : ThreadfuncPlace) : place.callsLeft ≤ 5 := by
  cases place <;> simp [callsLeft]

variable {place place' : ThreadfuncPlace} {call : ThreadfuncCall} {calls : List ThreadfuncCall}

theorem Follows.next (h : place.Follows calls) (hnext : threadfunc place call = some place') :
    place'.Follows (calls ++ [call]) := by
  revert h hnext
  fun_cases threadfunc place call <;> rintro h ⟨⟩ <;> simp only [Follows] at h <;> subst h
  all_goals first | rfl | exact Or.inl rfl | exact Or.inr rfl

theorem eq_locks (hnext : threadfunc place .pthreadMutexLock = some place') : place = .locks := by
  cases place with
  | locks => rfl
  | _ => cases hnext

theorem eq_unlocks (hnext : threadfunc place .pthreadMutexUnlock = some place') :
    place = .unlocks := by
  cases place with
  | unlocks => rfl
  | _ => cases hnext

theorem callsLeft_next (hnext : threadfunc place call = some place') :
    place'.callsLeft < place.callsLeft := by
  revert hnext
  fun_cases threadfunc place call <;> rintro ⟨⟩ <;> decide

/-- Who returned successfully made every call. -/
theorem Follows.eq_returned_true_iff (h : place.Follows calls) :
    place = .returned true ↔ calls = [.pthreadCreate, .usleep true, .pthreadMutexLock,
      .usleep true, .pthreadMutexUnlock] := by
  constructor
  · rintro rfl
    exact h
  · rintro rfl
    rcases place with _ | _ | _ | _ | _ | ⟨_ | _⟩ <;> simp_all [Follows]

/-- Who was interrupted with the mutex is back without having unlocked it. -/
theorem Follows.of_kept (h : place.Follows calls) (hlock : .pthreadMutexLock ∈ calls)
    (hinterrupted : .usleep false ∈ calls) :
    place = .returned false ∧ .pthreadMutexUnlock ∉ calls := by
  rcases place with _ | _ | _ | _ | _ | ⟨_ | _⟩
  case returned.false => rcases h with rfl | rfl <;> simp_all
  all_goals simp_all [Follows]

/-- Who has the mutex is in the second sleep, behind it, or was interrupted in it. -/
theorem Follows.of_held (h : place.Follows calls) (hlock : .pthreadMutexLock ∈ calls)
    (hunlock : .pthreadMutexUnlock ∉ calls) :
    place = .waitsToRelease ∨ place = .unlocks ∨ .usleep false ∈ calls := by
  rcases place with _ | _ | _ | _ | _ | ⟨_ | _⟩
  case returned.false => rcases h with rfl | rfl <;> simp
  all_goals simp_all [Follows]

end ThreadfuncPlace

/-! ## The calls of each thread -/

section

variable {ι : Type} [DecidableEq ι]

/-- The calls of one thread that have come back. -/
def callsOf (i : ι) (events : List (ι × ThreadfuncCall)) : List ThreadfuncCall :=
  (events.filter fun event => event.1 = i).map Prod.snd

/-- A thread has locked the mutex and not unlocked it. -/
def HoldsMutex (events : List (ι × ThreadfuncCall)) (i : ι) : Prop :=
  .pthreadMutexLock ∈ callsOf i events ∧ .pthreadMutexUnlock ∉ callsOf i events

/-- A thread was interrupted while it had the mutex. -/
def KeepsMutex (events : List (ι × ThreadfuncCall)) (i : ι) : Prop :=
  .pthreadMutexLock ∈ callsOf i events ∧ .usleep false ∈ callsOf i events

theorem callsOf_concat_self (i : ι) (call : ThreadfuncCall) (events : List (ι × ThreadfuncCall)) :
    callsOf i (events ++ [(i, call)]) = callsOf i events ++ [call] := by
  simp [callsOf]

theorem callsOf_concat_of_ne {i j : ι} (hne : j ≠ i) (call : ThreadfuncCall)
    (events : List (ι × ThreadfuncCall)) :
    callsOf i (events ++ [(j, call)]) = callsOf i events := by
  simp [callsOf, hne]

theorem KeepsMutex.append {events : List (ι × ThreadfuncCall)} {i : ι} (h : KeepsMutex events i)
    (more : List (ι × ThreadfuncCall)) : KeepsMutex (events ++ more) i := by
  rw [KeepsMutex, callsOf, List.filter_append, List.map_append]
  exact ⟨List.mem_append_left _ h.1, List.mem_append_left _ h.2⟩

end

namespace MutexThreads

variable {ι : Type} [DecidableEq ι]

def init : MutexThreads ι := ⟨fun _ => .absent, none⟩

/-- A call of one thread comes back. -/
inductive Step (s : MutexThreads ι) : ι × ThreadfuncCall → MutexThreads ι → Prop
  | comesBack {i : ι} {call : ThreadfuncCall} {place : ThreadfuncPlace} {owner : Option ι}
      (hplace : threadfunc (s.place i) call = some place)
      (howner : mutexAfter s.owner i call = some owner) :
      Step s (i, call) ⟨Function.update s.place i place, owner⟩

/-- The state says which calls were made. -/
structure Sound (events : List (ι × ThreadfuncCall)) (s : MutexThreads ι) : Prop where
  follows : ∀ i, (s.place i).Follows (callsOf i events)
  owner_iff : ∀ i, s.owner = some i ↔ HoldsMutex events i

variable {events more : List (ι × ThreadfuncCall)} {s s' : MutexThreads ι} {i j : ι}
  {call : ThreadfuncCall}

theorem init_sound : Sound [] (init : MutexThreads ι) where
  follows _ := rfl
  owner_iff _ := iff_of_false (Option.some_ne_none _).symm fun h => List.not_mem_nil h.1

/-- The calls of another thread do not count. -/
theorem holdsMutex_concat_of_ne (hne : j ≠ i) :
    HoldsMutex (events ++ [(j, call)]) i ↔ HoldsMutex events i := by
  rw [HoldsMutex, callsOf_concat_of_ne hne]
  rfl

theorem holdsMutex_usleep (ok : Bool) :
    HoldsMutex (events ++ [(i, .usleep ok)]) i ↔ HoldsMutex events i := by
  simp [HoldsMutex, callsOf_concat_self]

theorem holdsMutex_pthreadCreate :
    HoldsMutex (events ++ [(i, .pthreadCreate)]) i ↔ HoldsMutex events i := by
  simp [HoldsMutex, callsOf_concat_self]

theorem not_holdsMutex_unlock : ¬ HoldsMutex (events ++ [(i, .pthreadMutexUnlock)]) i := by
  simp [HoldsMutex, callsOf_concat_self]

/-- A thread that has just locked the mutex has not unlocked it yet. -/
theorem Sound.holdsMutex_lock (h : Sound events s) (hplace : s.place i = .locks) :
    HoldsMutex (events ++ [(i, .pthreadMutexLock)]) i := by
  have hcalls := h.follows i
  rw [hplace] at hcalls
  rw [HoldsMutex, callsOf_concat_self, hcalls]
  decide

theorem Sound.owner_of_unlocks (h : Sound events s) (hplace : s.place i = .unlocks) :
    s.owner = some i := by
  have hcalls := h.follows i
  rw [hplace] at hcalls
  rw [h.owner_iff, HoldsMutex, hcalls]
  decide

/-- The mutex after a call is with who holds it then. -/
theorem Sound.owner_step (h : Sound events s) {place : ThreadfuncPlace} {owner : Option ι}
    (hplace : threadfunc (s.place i) call = some place)
    (howner : mutexAfter s.owner i call = some owner) (j : ι) :
    owner = some j ↔ HoldsMutex (events ++ [(i, call)]) j := by
  have hothers : i ≠ j → (HoldsMutex (events ++ [(i, call)]) j ↔ s.owner = some j) := fun hne =>
    (holdsMutex_concat_of_ne hne).trans (h.owner_iff j).symm
  cases call with
  | pthreadCreate =>
      cases howner
      rcases eq_or_ne i j with rfl | hne
      · exact (h.owner_iff i).trans holdsMutex_pthreadCreate.symm
      · exact (hothers hne).symm
  | usleep ok =>
      cases howner
      rcases eq_or_ne i j with rfl | hne
      · exact (h.owner_iff i).trans (holdsMutex_usleep ok).symm
      · exact (hothers hne).symm
  | pthreadMutexLock =>
      have hlocks := ThreadfuncPlace.eq_locks hplace
      rcases hfree : s.owner with _ | holder
      · rw [hfree] at howner
        cases howner
        rcases eq_or_ne i j with rfl | hne
        · exact iff_of_true rfl (h.holdsMutex_lock hlocks)
        · refine iff_of_false (fun heq => hne (Option.some.inj heq)) fun hholds => ?_
          cases hfree.symm.trans ((hothers hne).mp hholds)
      · rw [hfree] at howner
        cases howner
  | pthreadMutexUnlock =>
      have hunlocks := ThreadfuncPlace.eq_unlocks hplace
      cases howner
      refine iff_of_false (Option.some_ne_none j).symm ?_
      rcases eq_or_ne i j with rfl | hne
      · exact not_holdsMutex_unlock
      · intro hholds
        have howner := (hothers hne).mp hholds
        rw [h.owner_of_unlocks hunlocks] at howner
        exact hne (Option.some.inj howner)

theorem Sound.step (h : Sound events s) {event : ι × ThreadfuncCall} (hstep : Step s event s') :
    Sound (events ++ [event]) s' := by
  obtain ⟨hplace, howner⟩ := hstep
  rename_i i call place owner
  refine ⟨fun j => ?_, h.owner_step hplace howner⟩
  rcases eq_or_ne j i with rfl | hne
  · simp only [callsOf_concat_self, Function.update_self]
    exact (h.follows j).next hplace
  · simp only [callsOf_concat_of_ne hne.symm, Function.update_of_ne hne]
    exact h.follows j

theorem sound_of_run (hrun : Run Step init events s) : Sound events s :=
  hrun.history_invariant Sound (fun _ _ _ _ h hstep => h.step hstep) init_sound

/-- An interrupted thread that keeps the mutex is its owner, and is back. -/
theorem Sound.of_keepsMutex (h : Sound events s) (hkeeps : KeepsMutex events i) :
    s.owner = some i ∧ s.place i = .returned false := by
  obtain ⟨hback, hunlock⟩ := (h.follows i).of_kept hkeeps.1 hkeeps.2
  exact ⟨(h.owner_iff i).mpr ⟨hkeeps.1, hunlock⟩, hback⟩

/-- As long as the mutex is kept nobody locks it. -/
theorem not_mem_of_keepsMutex (hrun : Run Step init events s) (hkeeps : KeepsMutex events j)
    (hmore : Run Step s more s') (i : ι) : (i, .pthreadMutexLock) ∉ more := by
  induction hmore with
  | nil => exact List.not_mem_nil
  | @snoc middle s' front event hfront hlast ih =>
      intro hmem
      rcases List.mem_append.mp hmem with hmem | hmem
      · exact ih hmem
      · cases List.mem_singleton.mp hmem
        have hsound := sound_of_run (hrun.append hfront)
        have howner := (hsound.of_keepsMutex (hkeeps.append front)).1
        cases hlast with
        | comesBack _ hlocked =>
            rw [howner] at hlocked
            cases hlocked

/-- No thread that was started can go on. -/
def Stuck (s : MutexThreads ι) : Prop :=
  ∀ i call s', call ≠ .pthreadCreate → ¬ Step s (i, call) s'

/-- Only locking makes a thread wait, and only for who has the mutex. -/
theorem Stuck.place_cases (h : Stuck s) (i : ι) :
    s.place i = .absent ∨ (∃ ok, s.place i = .returned ok) ∨
      (s.place i = .locks ∧ s.owner ≠ none) := by
  cases hplace : s.place i with
  | absent => exact Or.inl rfl
  | returned ok => exact Or.inr (Or.inl ⟨ok, rfl⟩)
  | locks =>
      refine Or.inr (Or.inr ⟨rfl, fun hfree => ?_⟩)
      apply h i .pthreadMutexLock _ ThreadfuncCall.noConfusion
      exact .comesBack (by rw [hplace]; rfl) (by rw [hfree]; rfl)
  | waitsToObtain =>
      exact absurd (.comesBack (by rw [hplace]; rfl) rfl)
        (h i (.usleep true) _ ThreadfuncCall.noConfusion)
  | waitsToRelease =>
      exact absurd (.comesBack (by rw [hplace]; rfl) rfl)
        (h i (.usleep true) _ ThreadfuncCall.noConfusion)
  | unlocks =>
      exact absurd (.comesBack (by rw [hplace]; rfl) rfl)
        (h i .pthreadMutexUnlock _ ThreadfuncCall.noConfusion)

/-- A thread that waits then waits for one that kept the mutex. -/
theorem Sound.keepsMutex_of_stuck (h : Sound events s) (hstuck : Stuck s)
    (howner : s.owner = some j) : KeepsMutex events j := by
  obtain ⟨hlock, hunlock⟩ := (h.owner_iff j).mp howner
  rcases (h.follows j).of_held hlock hunlock with hplace | hplace | hinterrupted
  · rcases hstuck.place_cases j with hother | ⟨ok, hother⟩ | ⟨hother, _⟩ <;>
      cases hplace.symm.trans hother
  · rcases hstuck.place_cases j with hother | ⟨ok, hother⟩ | ⟨hother, _⟩ <;>
      cases hplace.symm.trans hother
  · exact ⟨hlock, hinterrupted⟩

section

variable [Fintype ι]

theorem Step.load_lt {event : ι × ThreadfuncCall} (hstep : Step s event s') :
    load s'.place ThreadfuncPlace.callsLeft < load s.place ThreadfuncPlace.callsLeft := by
  cases hstep with
  | @comesBack i call place owner hplace howner =>
      apply Tally.load_lt i
      · simp only [Function.update_self]
        exact ThreadfuncPlace.callsLeft_next hplace
      · intro j hne
        simp only [Function.update_of_ne hne, Nat.le_refl]

theorem length_le (hrun : Run Step init events s) : events.length ≤ 5 * Fintype.card ι := by
  have hlength := hrun.length_add_le (fun _ => True) (fun s => load s.place _)
    (fun _ _ _ _ _ => trivial) (fun _ _ _ _ hstep => hstep.load_lt) trivial
  have hload : load (init : MutexThreads ι).place ThreadfuncPlace.callsLeft ≤ 5 * Fintype.card ι :=
    load_le ThreadfuncPlace.callsLeft_le
  omega

/-- However the threads are scheduled and whichever sleeps are interrupted, no run is
longer than five calls a thread, and the mutex has one holder at most. A thread
returns successfully exactly when it made all its calls. When the threads that were
started cannot go on, all of them are back, unless one that was interrupted came back
with the mutex and the others that are not back wait to lock it; and once it is kept it
is locked never again. -/
theorem threads_return (hrun : Run Step init events s) :
    events.length ≤ 5 * Fintype.card ι ∧
    (∀ i j, HoldsMutex events i → HoldsMutex events j → i = j) ∧
    (∀ i, s.place i = .returned true ↔ callsOf i events =
      [.pthreadCreate, .usleep true, .pthreadMutexLock, .usleep true, .pthreadMutexUnlock]) ∧
    (Stuck s → (∀ i, s.place i = .absent ∨ ∃ ok, s.place i = .returned ok) ∨
      ∃ j, KeepsMutex events j ∧ s.place j = .returned false ∧
        ∀ i, s.place i = .absent ∨ (∃ ok, s.place i = .returned ok) ∨ s.place i = .locks) ∧
    (∀ j, KeepsMutex events j → ∀ more s', Run Step s more s' →
      s'.owner = some j ∧ ∀ i, (i, .pthreadMutexLock) ∉ more) := by
  have h := sound_of_run hrun
  refine ⟨length_le hrun, fun i j hi hj => ?_, fun i => (h.follows i).eq_returned_true_iff,
    fun hstuck => ?_, fun j hkeeps more s' hmore => ?_⟩
  · apply Option.some.inj
    rw [← (h.owner_iff i).mpr hi, (h.owner_iff j).mpr hj]
  · cases howner : s.owner with
    | none =>
        left
        intro i
        rcases hstuck.place_cases i with habsent | hback | ⟨_, hlocked⟩
        · exact Or.inl habsent
        · exact Or.inr hback
        · exact absurd howner hlocked
    | some j =>
        have hkeeps := h.keepsMutex_of_stuck hstuck howner
        refine Or.inr ⟨j, hkeeps, (h.of_keepsMutex hkeeps).2, fun i => ?_⟩
        rcases hstuck.place_cases i with habsent | hback | ⟨hlocks, _⟩
        · exact Or.inl habsent
        · exact Or.inr (Or.inl hback)
        · exact Or.inr (Or.inr hlocks)
  · have hsound := sound_of_run (hrun.append hmore)
    exact ⟨(hsound.of_keepsMutex (hkeeps.append more)).1, not_mem_of_keepsMutex hrun hkeeps hmore⟩

/-- The first of two threads is interrupted with the mutex, and the second one waits for
it in vain. -/
theorem threads_return_interrupted : ∃ (events : List (Bool × ThreadfuncCall))
    (s : MutexThreads Bool), Run Step init events s ∧ events.length ≤ 10 ∧
    s.place true = .locks ∧ ∀ more s', Run Step s more s' → s'.owner = some false := by
  have hstart := (Run.nil init).snoc
    (show Step _ (false, .pthreadCreate) _ from .comesBack rfl rfl)
  have hstarts := hstart.snoc (show Step _ (true, .pthreadCreate) _ from .comesBack rfl rfl)
  have hsleeps := hstarts.snoc (show Step _ (false, .usleep true) _ from .comesBack rfl rfl)
  have hlocks := hsleeps.snoc (show Step _ (false, .pthreadMutexLock) _ from .comesBack rfl rfl)
  have hinterrupted := hlocks.snoc
    (show Step _ (false, .usleep false) _ from .comesBack rfl rfl)
  have hrun := hinterrupted.snoc (show Step _ (true, .usleep true) _ from .comesBack rfl rfl)
  obtain ⟨hlength, _, _, _, hkept⟩ := threads_return hrun
  refine ⟨_, _, hrun, hlength, rfl, fun more s' hmore => (hkept false ?_ more s' hmore).1⟩
  exact ⟨by decide, by decide⟩

end

end MutexThreads

end Aesd

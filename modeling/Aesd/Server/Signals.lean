import Aesd.Server.Mainloop

/-!
# Signals in the main loop

The handlers only set flags, and the main thread tests them once in a round. A
signal that arrives behind the test is not seen before `accept` comes back, and
nothing but a connection or another signal makes it come back.
-/

namespace Aesd

open CSem Transition

/-- SIGTERM and SIGINT, which have one handler, and SIGALRM. -/
inductive Signal
  | terminate
  | alarm
  deriving DecidableEq, Repr

/-- Where the main thread is between two tests of `termination_flag`: before one of
the tests, in `aesdsocket_take_timestamp`, before the flag is cleared, before
`accept`, asleep in it, or with a connection or out of the loop. -/
inductive LoopPoint
  | termination
  | timestamp
  | taking
  | clearing
  | calling
  | waiting
  | elsewhere
  deriving DecidableEq, Repr

/-- The main loop with the two flags. -/
structure Signalled where
  main : Mainloop
  point : LoopPoint
  terminationFlag : Bool
  timestampFlag : Bool

/-- A signal arrives, which may interrupt `accept`; a timestamp begins or is taken; the main
thread goes on to the next test or into `accept`; or the main loop makes a step. -/
inductive SignalEvent
  | arrives (signal : Signal)
  | interrupts (signal : Signal)
  | begins
  | taken
  | goesOn
  | main (event : MainEvent)
  deriving DecidableEq

/-- `aesdsocket_terminate_handler` and `aesdsocket_timestamp_handler`. -/
def Signalled.raise (s : Signalled) : Signal → Signalled
  | .terminate => { s with terminationFlag := true }
  | .alarm => { s with timestampFlag := true }

/-- Where the main thread is after a step with a connection or out of the loop. -/
def MainPlace.point : MainPlace → LoopPoint
  | .test => .termination
  | _ => .elsewhere

namespace Signalled

/-- When the loop is entered. A signal of the set-up arrives here. -/
def init : Signalled := ⟨Mainloop.init, .termination, false, false⟩

/-- A signal interrupts `accept` only if it is the main thread that gets it, and only
while it sleeps. -/
inductive Step (s : Signalled) : SignalEvent → Signalled → Prop
  | arrives (signal : Signal) : Step s (.arrives signal) (s.raise signal)
  | interrupts {signal : Signal} {main : Mainloop} (hpoint : s.point = .waiting)
      (hstep : Mainloop.Step s.main (.accept .interrupted) main) :
      Step s (.interrupts signal)
        (raise ⟨main, .termination, s.terminationFlag, s.timestampFlag⟩ signal)
  | terminates {main : Mainloop} (hpoint : s.point = .termination)
      (hflag : s.terminationFlag = true) (hstep : Mainloop.Step s.main .terminates main) :
      Step s (.main .terminates) { s with main := main, point := .elsewhere }
  | stays (hpoint : s.point = .termination) (hflag : s.terminationFlag = false) :
      Step s .goesOn { s with point := .timestamp }
  | begins (hpoint : s.point = .timestamp) (hflag : s.timestampFlag = true) :
      Step s .begins { s with point := .taking }
  | notDue {main : Mainloop} (hpoint : s.point = .timestamp) (hflag : s.timestampFlag = false)
      (hstep : Mainloop.Step s.main .proceeds main) :
      Step s (.main .proceeds) { s with main := main, point := .calling }
  | taken (hpoint : s.point = .taking) : Step s .taken { s with point := .clearing }
  | timestampFails {main : Mainloop} (hpoint : s.point = .taking)
      (hstep : Mainloop.Step s.main .timestampFails main) :
      Step s (.main .timestampFails) { s with main := main, point := .elsewhere }
  -- whatever has come since the test of the flag
  | clears {main : Mainloop} (hpoint : s.point = .clearing)
      (hstep : Mainloop.Step s.main .proceeds main) :
      Step s (.main .proceeds)
        { s with main := main, point := .calling, timestampFlag := false }
  -- no flag is tested between the last signal and the call
  | calls (hpoint : s.point = .calling) : Step s .goesOn { s with point := .waiting }
  | accepts {main : Mainloop} (hpoint : s.point = .waiting)
      (hstep : Mainloop.Step s.main (.accept (.done ())) main) :
      Step s (.main (.accept (.done ()))) { s with main := main, point := .elsewhere }
  | acceptFails {main : Mainloop} (hpoint : s.point = .waiting)
      (hstep : Mainloop.Step s.main (.accept .failed) main) :
      Step s (.main (.accept .failed)) { s with main := main, point := .elsewhere }
  | handles {event : MainEvent} {main : Mainloop} (hpoint : s.point = .elsewhere)
      (hevent : ∀ conn, event ≠ .thread conn) (hstep : Mainloop.Step s.main event main) :
      Step s (.main event) { s with main := main, point := main.place.point }
  | thread {conn : Nat} {main : Mainloop} (hstep : Mainloop.Step s.main (.thread conn) main) :
      Step s (.main (.thread conn)) { s with main := main }

end Signalled

/-- What the main loop does in a step. -/
def SignalEvent.main? : SignalEvent → Option MainEvent
  | .interrupts _ => some (.accept .interrupted)
  | .main event => some event
  | _ => none

namespace Signalled

variable {s s' : Signalled}

@[simp] theorem raise_main (s : Signalled) (signal : Signal) : (s.raise signal).main = s.main := by
  cases signal <;> rfl

@[simp] theorem raise_point (s : Signalled) (signal : Signal) :
    (s.raise signal).point = s.point := by
  cases signal <;> rfl

theorem raise_terminationFlag (signal : Signal) (h : s.terminationFlag = true) :
    (s.raise signal).terminationFlag = true := by
  cases signal with
  | terminate => rfl
  | alarm => exact h

theorem raise_timestampFlag (signal : Signal) (h : s.timestampFlag = true) :
    (s.raise signal).timestampFlag = true := by
  cases signal with
  | terminate => exact h
  | alarm => rfl

/-! ## The main loop -/

/-- A step is one of the main loop, or leaves it alone. -/
theorem Step.main {event : SignalEvent} (hstep : Step s event s') :
    (∃ event', event.main? = some event' ∧ Mainloop.Step s.main event' s'.main) ∨
      event.main? = none ∧ s'.main = s.main := by
  cases hstep with
  | arrives signal => exact Or.inr ⟨rfl, raise_main s signal⟩
  | @interrupts signal main _ hstep => exact Or.inl ⟨_, rfl, by rw [raise_main]; exact hstep⟩
  | terminates _ _ hstep | notDue _ _ hstep | handles _ _ hstep => exact Or.inl ⟨_, rfl, hstep⟩
  | timestampFails _ hstep | clears _ hstep | accepts _ hstep | acceptFails _ hstep =>
      exact Or.inl ⟨_, rfl, hstep⟩
  | thread hstep => exact Or.inl ⟨_, rfl, hstep⟩
  | stays | begins | taken | calls => exact Or.inr ⟨rfl, rfl⟩

/-- Without its signals the loop is the main loop. -/
theorem main_run {events : List SignalEvent} (hrun : Run Step init events s) :
    Run Mainloop.Step Mainloop.init (events.filterMap SignalEvent.main?) s.main := by
  induction hrun with
  | nil => exact .nil _
  | @snoc middle s' events event front last ih =>
      rw [List.filterMap_append]
      rcases last.main with ⟨event', heq, hstep⟩ | ⟨heq, hmain⟩
      · rw [List.filterMap_cons_some heq, List.filterMap_nil]
        exact .snoc ih hstep
      · rw [List.filterMap_cons_none heq, List.filterMap_nil, List.append_nil, hmain]
        exact ih

/-- The point in the loop fits the place of the main loop. -/
def Aligned (s : Signalled) : Prop :=
  match s.point with
  | .termination => s.main.place = .test
  | .timestamp => s.main.place = .test
  | .taking => s.main.place = .test
  | .clearing => s.main.place = .test
  | .calling => s.main.place = .accept
  | .waiting => s.main.place = .accept
  | .elsewhere => s.main.place ≠ .test ∧ s.main.place ≠ .accept

end Signalled

namespace Mainloop

variable {s s' : Mainloop}

/-- Only the test leads to `accept`. -/
theorem Step.place_ne_accept {event : MainEvent} (hstep : Step s event s')
    (htest : s.place ≠ .test) (haccept : s.place ≠ .accept) : s'.place ≠ .accept := by
  cases hstep with
  | proceeds hplace => exact absurd hplace htest
  | joins hplace =>
      dsimp only
      rw [hplace]
      exact MainPlace.noConfusion
  | thread => exact haccept
  | _ => exact MainPlace.noConfusion

theorem Step.place_of_thread {conn : Nat} (hstep : Step s (.thread conn) s') :
    s'.place = s.place := by
  cases hstep with
  | thread => rfl

end Mainloop

namespace Signalled

variable {s s' : Signalled}

theorem aligned_point {main : Mainloop} (hne : main.place ≠ .accept)
    (termination timestamp : Bool) :
    Aligned ⟨main, main.place.point, termination, timestamp⟩ := by
  unfold Aligned
  dsimp only
  cases hplace : main.place with
  | test => rfl
  | accept => exact absurd hplace hne
  | _ => exact ⟨MainPlace.noConfusion, MainPlace.noConfusion⟩

theorem Aligned.step {event : SignalEvent} (h : Aligned s) (hstep : Step s event s') :
    Aligned s' := by
  cases hstep with
  | arrives signal => cases signal <;> exact h
  | @interrupts signal main hpoint hstep =>
      cases hstep
      cases signal <;> rfl
  | stays hpoint | begins hpoint | taken hpoint | calls hpoint =>
      simp only [Aligned, hpoint] at h
      exact h
  | notDue _ _ hstep | clears _ hstep =>
      cases hstep
      rfl
  | terminates _ _ hstep | timestampFails _ hstep | accepts _ hstep | acceptFails _ hstep =>
      cases hstep
      exact ⟨MainPlace.noConfusion, MainPlace.noConfusion⟩
  | handles hpoint hevent hstep =>
      simp only [Aligned, hpoint] at h
      exact aligned_point (hstep.place_ne_accept h.1 h.2) _ _
  | thread hstep =>
      unfold Aligned at h ⊢
      dsimp only
      rw [hstep.place_of_thread]
      exact h

theorem aligned_of_run {events : List SignalEvent} (hrun : Run Step init events s) : Aligned s :=
  hrun.invariant Aligned (fun _ _ _ h hstep => h.step hstep) rfl

end Signalled

end Aesd

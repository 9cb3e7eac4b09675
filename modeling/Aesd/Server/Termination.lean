import Aesd.Foundation.Draining
import Aesd.Server.Signals

/-!
# Termination signals

`termination_flag` is tested once in a round. A signal that comes behind the test
lets the main thread fall asleep in `accept`; from then on a connection or another
signal has to wake it.
-/

namespace Aesd

open Transition

/-- Behind the test of `termination_flag` and before the end of `accept`. -/
def LoopPoint.inWindow : LoopPoint → Bool
  | .termination => false
  | .elsewhere => false
  | _ => true

/-- A step of the main thread in the loop. -/
def SignalEvent.inLoop : SignalEvent → Bool
  | .arrives _ => false
  | .main .pthreadJoin => false
  | .main .cleanup => false
  | .main (.thread _) => false
  | _ => true

/-- A step that needs no end of `accept`. -/
def SignalEvent.isOwn : SignalEvent → Bool
  | .interrupts _ => false
  | .main (.accept _) => false
  | _ => true

/-- A step while no connection comes and no signal interrupts `accept`. -/
def Signalled.OwnStep (s : Signalled) (event : SignalEvent) (s' : Signalled) : Prop :=
  event.isOwn = true ∧ s.Step event s'

/-- By such steps the main thread comes to sleep in `accept`. -/
def Signalled.MaySleep (s : Signalled) : Prop :=
  ∃ events s', Run Signalled.OwnStep s events s' ∧ s'.point = .waiting

/-- Out of the loop. -/
def MainPlace.atDone : MainPlace → Bool
  | .joins _ => true
  | .cleans _ _ => true
  | .returned _ => true
  | _ => false

namespace Mainloop

variable {s s' : Mainloop}

/-- Connections come from `accept` alone. -/
theorem Step.accepted_eq {event : MainEvent} (hstep : Step s event s')
    (hevent : event ≠ .accept (.done ())) : s'.accepted = s.accepted := by
  cases hstep with
  | accepts => exact absurd rfl hevent
  | _ => rfl

/-- The thread argument is there when its strings are copied. -/
def HasArg (s : Mainloop) : Prop :=
  match s.place with
  | .handles .strdup _ => ∃ number threadArg, s.threadArg = some (number, threadArg)
  | .handles .strndup _ => ∃ number threadArg, s.threadArg = some (number, threadArg)
  | _ => True

theorem hasArg_of_run {events : List MainEvent} (hrun : Run Step init events s) : HasArg s := by
  refine hrun.invariant HasArg (fun s event s' h hstep => ?_) trivial
  cases hstep with
  | allocates => exact ⟨_, _, rfl⟩
  | copiesFilename => exact ⟨_, _, rfl⟩
  | joins hplace =>
      simp only [HasArg, hplace]
  | thread => exact h
  | _ => exact trivial

/-- With a connection the main thread can always go on. -/
theorem exists_step_of_handles (h : HasArg s) {stage : Stage} {conn : Nat}
    (hplace : s.place = .handles stage conn) :
    ∃ event s', (SignalEvent.main event).inLoop = true ∧ (SignalEvent.main event).isOwn = true ∧
      Step s event s' := by
  unfold HasArg at h
  cases stage with
  | inetNtop => exact ⟨.inetNtop false, _, rfl, rfl, .nameFails hplace⟩
  | malloc => exact ⟨.malloc none, _, rfl, rfl, .allocateFails hplace⟩
  | strdup =>
      rw [hplace] at h
      obtain ⟨number, threadArg, harg⟩ := h
      exact ⟨.strdup false, _, rfl, rfl, .filenameFails hplace harg⟩
  | strndup =>
      rw [hplace] at h
      obtain ⟨number, threadArg, harg⟩ := h
      exact ⟨.strndup false, _, rfl, rfl, .remoteNameFails hplace harg⟩
  | pthreadCreate => exact ⟨.pthreadCreate false, _, rfl, rfl, .createFails hplace⟩
  | queueEnqueue => exact ⟨.queueEnqueue false, _, rfl, rfl, .enqueueFails hplace⟩

end Mainloop

/-! ## The end of the loop -/

/-- The steps from a stage on to the end of the loop when `termination_flag` is set. -/
def Stage.left : Stage → Nat
  | .inetNtop => 7
  | .malloc => 6
  | .strdup => 5
  | .strndup => 4
  | .pthreadCreate => 3
  | .queueEnqueue => 2

theorem Stage.left_pos (stage : Stage) : 0 < stage.left := by
  cases stage <;> decide

theorem Stage.left_le (stage : Stage) : stage.left ≤ 7 := by
  cases stage <;> decide

def MainPlace.stagesLeft : MainPlace → Nat
  | .handles stage _ => stage.left
  | _ => 0

theorem MainPlace.stagesLeft_le (place : MainPlace) : place.stagesLeft ≤ 7 := by
  cases place with
  | handles stage conn => exact stage.left_le
  | _ => exact Nat.zero_le 7

namespace Signalled

variable {s s' : Signalled}

/-- The steps that the main thread makes at most before it leaves the loop, once
`termination_flag` is set. -/
def loopLeft (s : Signalled) : Nat :=
  match s.point with
  | .timestamp => 12
  | .taking => 11
  | .clearing => 10
  | .calling => 9
  | .waiting => 8
  | .termination => 1
  | .elsewhere => s.main.place.stagesLeft

@[simp] theorem raise_loopLeft (s : Signalled) (signal : Signal) :
    (s.raise signal).loopLeft = s.loopLeft := by
  cases signal <;> rfl

/-- With a connection every call brings the next test closer. -/
theorem stagesLeft_of_step {main main' : Mainloop} {event : MainEvent}
    (hstep : Mainloop.Step main event main') (htest : main.place ≠ .test)
    (haccept : main.place ≠ .accept) (hevent : ∀ conn, event ≠ .thread conn)
    (termination timestamp : Bool) :
    (SignalEvent.main event).inLoop.toNat +
      loopLeft ⟨main', main'.place.point, termination, timestamp⟩ ≤ main.place.stagesLeft := by
  cases hstep with
  | terminates hplace | timestampFails hplace | proceeds hplace => exact absurd hplace htest
  | accepts hplace | acceptInterrupted hplace | acceptFails hplace => exact absurd hplace haccept
  | thread => exact absurd rfl (hevent _)
  | joins hplace =>
      rw [hplace]
      exact Nat.le_of_eq (by simp only [loopLeft]; rfl)
  | joined | cleans | returns => exact Nat.zero_le _
  | names hplace | allocates hplace | copiesFilename hplace | copiesRemoteName hplace
  | creates hplace | enqueues hplace =>
      rw [hplace]
      exact Nat.le_refl _
  -- a call that fails leaves the loop
  | nameFails hplace | allocateFails hplace | filenameFails hplace | remoteNameFails hplace
  | createFails hplace | enqueueFails hplace =>
      simp only [hplace, MainPlace.stagesLeft]
      exact Stage.left_pos _

/-- Once set, the flag stays. -/
theorem Step.terminationFlag {event : SignalEvent} (hstep : Step s event s')
    (hflag : s.terminationFlag = true) : s'.terminationFlag = true := by
  cases hstep with
  | arrives signal => exact raise_terminationFlag signal hflag
  | @interrupts signal => exact raise_terminationFlag signal hflag
  | _ => exact hflag

/-- With the flag set every step of the main thread brings the end of the loop closer. -/
theorem Step.loopLeft_add_le {event : SignalEvent} (hstep : Step s event s') (h : Aligned s)
    (hflag : s.terminationFlag = true) : event.inLoop.toNat + s'.loopLeft ≤ s.loopLeft := by
  cases hstep with
  | arrives signal =>
      rw [raise_loopLeft]
      exact Nat.le_of_eq (Nat.zero_add _)
  | interrupts hpoint =>
      rw [raise_loopLeft]
      simp only [loopLeft, hpoint]
      exact (show 1 + 1 ≤ 8 by decide)
  | stays _ hclear =>
      rw [hflag] at hclear
      cases hclear
  | begins hpoint | notDue hpoint | taken hpoint | clears hpoint | calls hpoint =>
      simp only [loopLeft, hpoint]
      decide
  | terminates hpoint _ hstep | timestampFails hpoint hstep | acceptFails hpoint hstep =>
      cases hstep
      simp only [loopLeft, hpoint]
      decide
  | accepts hpoint hstep =>
      cases hstep
      simp only [loopLeft, hpoint]
      exact (show 1 + 7 ≤ 8 by decide)
  | handles hpoint hevent hstep =>
      simp only [Aligned, hpoint] at h
      have hleft := stagesLeft_of_step hstep h.1 h.2 hevent s.terminationFlag s.timestampFlag
      simpa only [loopLeft, hpoint] using hleft
  | thread hstep =>
      simp only [loopLeft, hstep.place_of_thread]
      exact Nat.le_of_eq (Nat.zero_add _)

/-- And no connection is accepted but the one that the main thread may be waiting for. -/
theorem Step.accepted_add_le {event : SignalEvent} (hstep : Step s event s') (h : Aligned s)
    (hflag : s.terminationFlag = true) :
    s'.main.accepted + s'.point.inWindow.toNat ≤ s.main.accepted + s.point.inWindow.toNat := by
  cases hstep with
  | arrives signal => rw [raise_main, raise_point]
  | interrupts hpoint hstep =>
      cases hstep
      rw [raise_main, raise_point]
      exact Nat.le_add_right _ _
  | terminates _ _ hstep | timestampFails _ hstep | acceptFails _ hstep =>
      cases hstep
      exact Nat.le_add_right _ _
  | stays _ hclear =>
      rw [hflag] at hclear
      cases hclear
  | begins hpoint | taken hpoint | calls hpoint =>
      rw [hpoint]
      exact Nat.le_refl _
  -- the connection that is accepted is the one the window stood for
  | notDue hpoint _ hstep | clears hpoint hstep | accepts hpoint hstep =>
      cases hstep
      rw [hpoint]
      exact Nat.le_refl _
  | @handles event main hpoint hevent hstep =>
      simp only [Aligned, hpoint] at h
      have haccepted := hstep.accepted_eq fun heq => by
        subst heq
        cases hstep with
        | accepts hplace => exact h.2 hplace
      have hwindow : main.place.point.inWindow = false := by
        cases main.place <;> rfl
      simp only [haccepted, hwindow, Bool.toNat_false]
      exact Nat.le_add_right _ _
  | thread hstep =>
      rw [hstep.accepted_eq MainEvent.noConfusion]

theorem loopLeft_le (s : Signalled) : s.loopLeft ≤ 12 := by
  unfold loopLeft
  split
  case h_7 => exact Nat.le_trans (MainPlace.stagesLeft_le _) (by decide)
  all_goals decide

/-- Outside the window the flag keeps the main thread out of it. -/
theorem OwnStep.inWindow {event : SignalEvent} (hstep : OwnStep s event s')
    (hflag : s.terminationFlag = true) (hwindow : s.point.inWindow = false) :
    s'.point.inWindow = false := by
  obtain ⟨hown, hstep⟩ := hstep
  cases hstep with
  | arrives signal =>
      rw [raise_point]
      exact hwindow
  | interrupts => cases hown
  | terminates | timestampFails | accepts | acceptFails => rfl
  -- the only way into the window is the test, and it finds the flag set
  | stays _ hclear =>
      rw [hflag] at hclear
      cases hclear
  | @handles event main => cases main.place <;> rfl
  | thread => exact hwindow
  | begins hpoint | notDue hpoint | taken hpoint | clears hpoint | calls hpoint =>
      rw [hpoint] at hwindow
      cases hwindow

theorem MaySleep.of_step {event : SignalEvent} (h : MaySleep s') (hown : event.isOwn = true)
    (hstep : Step s event s') : MaySleep s := by
  obtain ⟨events, last, hrun, hpoint⟩ := h
  have hfirst : Run OwnStep s [event] s' := .single ⟨hown, hstep⟩
  exact ⟨[event] ++ events, last, hfirst.append hrun, hpoint⟩

theorem maySleep_of_calling (hpoint : s.point = .calling) : MaySleep s :=
  ⟨[.goesOn], _, .single ⟨rfl, .calls hpoint⟩, rfl⟩

theorem maySleep_of_clearing (h : Aligned s) (hpoint : s.point = .clearing) : MaySleep s := by
  simp only [Aligned, hpoint] at h
  exact (maySleep_of_calling rfl).of_step rfl (.clears hpoint (.proceeds h))

theorem maySleep_of_taking (h : Aligned s) (hpoint : s.point = .taking) : MaySleep s := by
  have hstep : Step s .taken { s with point := .clearing } := .taken hpoint
  exact (maySleep_of_clearing (h.step hstep) rfl).of_step rfl hstep

/-- In the window the main thread comes to sleep. -/
theorem maySleep_of_inWindow (h : Aligned s) (hwindow : s.point.inWindow = true) :
    MaySleep s := by
  cases hpoint : s.point with
  | termination =>
      rw [hpoint] at hwindow
      cases hwindow
  | timestamp =>
      cases hflag : s.timestampFlag with
      | true =>
          have hstep : Step s .begins { s with point := .taking } := .begins hpoint hflag
          exact (maySleep_of_taking (h.step hstep) rfl).of_step rfl hstep
      | false =>
          simp only [Aligned, hpoint] at h
          exact (maySleep_of_calling rfl).of_step rfl (.notDue hpoint hflag (.proceeds h))
  | taking => exact maySleep_of_taking h hpoint
  | clearing => exact maySleep_of_clearing h hpoint
  | calling => exact maySleep_of_calling hpoint
  | waiting => exact ⟨[], s, .nil s, hpoint⟩
  | elsewhere =>
      rw [hpoint] at hwindow
      cases hwindow

theorem maySleep_iff (h : Aligned s) (hflag : s.terminationFlag = true) :
    MaySleep s ↔ s.point.inWindow = true := by
  refine ⟨fun hsleeps => ?_, maySleep_of_inWindow h⟩
  obtain ⟨events, last, hrun, hpoint⟩ := hsleeps
  by_contra hwindow
  have hlast := hrun.invariant
    (fun s => s.terminationFlag = true ∧ s.point.inWindow = false)
    (fun s event s' hs hstep =>
      ⟨hstep.2.terminationFlag hs.1, hstep.inWindow hs.1 hs.2⟩)
    ⟨hflag, Bool.eq_false_iff.mpr hwindow⟩
  rw [hpoint] at hlast
  cases hlast.2

/-- In the loop and awake, the main thread can go on. -/
theorem Aligned.progress (h : Aligned s) (harg : s.main.HasArg)
    (hdone : s.main.place.atDone = false) (hpoint : s.point ≠ .waiting) :
    ∃ event s', event.inLoop = true ∧ OwnStep s event s' := by
  cases hplace : s.point with
  | termination =>
      simp only [Aligned, hplace] at h
      cases hflag : s.terminationFlag with
      | true => exact ⟨_, _, rfl, rfl, .terminates hplace hflag (.terminates h)⟩
      | false => exact ⟨_, _, rfl, rfl, .stays hplace hflag⟩
  | timestamp =>
      simp only [Aligned, hplace] at h
      cases hflag : s.timestampFlag with
      | true => exact ⟨_, _, rfl, rfl, .begins hplace hflag⟩
      | false => exact ⟨_, _, rfl, rfl, .notDue hplace hflag (.proceeds h)⟩
  | taking => exact ⟨_, _, rfl, rfl, .taken hplace⟩
  | clearing =>
      simp only [Aligned, hplace] at h
      exact ⟨_, _, rfl, rfl, .clears hplace (.proceeds h)⟩
  | calling => exact ⟨_, _, rfl, rfl, .calls hplace⟩
  | waiting => exact absurd hplace hpoint
  | elsewhere =>
      simp only [Aligned, hplace] at h
      cases hmain : s.main.place with
      | test => exact absurd hmain h.1
      | accept => exact absurd hmain h.2
      | handles stage conn =>
          obtain ⟨event, main, hin, hown, hstep⟩ := Mainloop.exists_step_of_handles harg hmain
          refine ⟨.main event, _, hin, hown, .handles hplace (fun conn heq => ?_) hstep⟩
          rw [heq] at hin
          cases hin
      | _ =>
          rw [hmain] at hdone
          cases hdone

/-- A termination signal is not noticed before `accept` comes back exactly when the main
thread is behind its test of the flag. Otherwise no further connection is accepted, and in
any case at most one; and the loop ends when the main thread does not sleep. -/
theorem termination_noticed {events : List SignalEvent} (hrun : Run Step init events s)
    (hflag : s.terminationFlag = true) :
    (MaySleep s ↔ s.point.inWindow = true) ∧
      ∀ more s', Run Step s more s' →
        s'.main.accepted ≤ s.main.accepted + s.point.inWindow.toNat ∧
          more.countP SignalEvent.inLoop ≤ 12 ∧
          (s'.main.place.atDone = false → s'.point ≠ .waiting →
            ∃ event next, event.inLoop = true ∧ OwnStep s' event next) := by
  have haligned := aligned_of_run hrun
  refine ⟨maySleep_iff haligned hflag, fun more s' hmore => ?_⟩
  have hall := hrun.append hmore
  have hkeeps : ∀ s event s', Aligned s ∧ s.terminationFlag = true → Step s event s' →
      Aligned s' ∧ s'.terminationFlag = true :=
    fun s event s' hs hstep => ⟨hs.1.step hstep, hstep.terminationFlag hs.2⟩
  obtain ⟨-, haccepted⟩ := hmore.invariant
    (fun t => (Aligned t ∧ t.terminationFlag = true) ∧ t.main.accepted + t.point.inWindow.toNat ≤
      s.main.accepted + s.point.inWindow.toNat)
    (fun t event t' ⟨ht, hle⟩ hstep => ⟨hkeeps t event t' ht hstep,
      Nat.le_trans (hstep.accepted_add_le ht.1 ht.2) hle⟩)
    ⟨⟨haligned, hflag⟩, Nat.le_refl _⟩
  have hcount := hmore.countP_add_le SignalEvent.inLoop _ loopLeft hkeeps
    (fun s event s' hs hstep => hstep.loopLeft_add_le hs.1 hs.2) ⟨haligned, hflag⟩
  have hbound := loopLeft_le s
  refine ⟨by omega, by omega, fun hdone hpoint => ?_⟩
  exact (aligned_of_run hall).progress (Mainloop.hasArg_of_run (main_run hall)) hdone hpoint

/-- The signal comes while the main thread is asleep in its first `accept`. -/
def asleep : Signalled := ⟨{ Mainloop.init with place := .accept }, .waiting, true, false⟩

theorem asleep_run :
    Run Step init [.goesOn, .main .proceeds, .goesOn, .arrives .terminate] asleep :=
  .snoc (.snoc (.snoc (.snoc (.nil init) (.stays rfl rfl)) (.notDue rfl rfl (.proceeds rfl)))
    (.calls rfl)) (.arrives .terminate)

theorem termination_noticed_asleep :
    MaySleep asleep ∧ ∀ more s', Run Step asleep more s' →
      s'.main.accepted ≤ 1 ∧ more.countP SignalEvent.inLoop ≤ 12 ∧
        (s'.main.place.atDone = false → s'.point ≠ .waiting →
          ∃ event next, event.inLoop = true ∧ OwnStep s' event next) :=
  ⟨(termination_noticed asleep_run rfl).1.mpr rfl, (termination_noticed asleep_run rfl).2⟩

end Signalled

end Aesd

import Aesd.Foundation.MachineInt
import Aesd.Foundation.Run
import Aesd.Foundation.Tally

/-!
# The monitor and its threads

Every function of the monitor is cut into the sections it runs under
`condition_lock`. A section is one step of one thread, a thread in
`pthread_cond_wait` sleeps until it is woken, and a woken thread takes the lock
again in a step of its own, in any order with the steps of other threads.
-/

namespace Aesd

open CSem Tally Transition

/-- The counters of `struct monitor`, all of type `unsigned`. -/
structure Monitor where
  activeReaders : Nat
  activeWriters : Nat
  waitingReaders : Nat
  waitingWriters : Nat
  deriving DecidableEq, Repr

inductive Condition
  | canRead
  | canWrite
  deriving DecidableEq, Repr

namespace Monitor

/-- `monitor_initialize`. -/
def init : Monitor := ⟨0, 0, 0, 0⟩

/-- The first section of `monitor_start_reading`, and whether it ends in
`pthread_cond_wait`. -/
def startReading (m : Monitor) : Monitor × Bool :=
  if m.activeWriters ≠ 0 ∨ m.waitingWriters ≠ 0 then
    ({ m with waitingReaders := u32 (m.waitingReaders + 1) }, true)
  else ({ m with activeReaders := u32 (m.activeReaders + 1) }, false)

/-- The section after the wait of `monitor_start_reading`. -/
def resumeReading (m : Monitor) : Monitor :=
  { m with waitingReaders := u32 (m.waitingReaders - 1),
           activeReaders := u32 (m.activeReaders + 1) }

/-- `monitor_stop_reading`, with the condition it broadcasts. -/
def stopReading (m : Monitor) : Monitor × Option Condition :=
  let activeReaders := u32 (m.activeReaders - 1)
  ({ m with activeReaders := activeReaders },
    if activeReaders = 0 then some .canWrite else none)

/-- The first section of `monitor_start_writing`, and whether it ends in
`pthread_cond_wait`. -/
def startWriting (m : Monitor) : Monitor × Bool :=
  if m.activeWriters ≠ 0 ∨ m.activeReaders ≠ 0 ∨ m.waitingReaders ≠ 0 ∨ m.waitingWriters ≠ 0 then
    ({ m with waitingWriters := u32 (m.waitingWriters + 1) }, true)
  else ({ m with activeWriters := u32 (m.activeWriters + 1) }, false)

/-- The section after the wait of `monitor_start_writing`. -/
def resumeWriting (m : Monitor) : Monitor :=
  { m with waitingWriters := u32 (m.waitingWriters - 1),
           activeWriters := u32 (m.activeWriters + 1) }

/-- `monitor_stop_writing`, with the condition it broadcasts. -/
def stopWriting (m : Monitor) : Monitor × Option Condition :=
  let activeWriters := u32 (m.activeWriters - 1)
  ({ m with activeWriters := activeWriters },
    if activeWriters = 0 then
      if m.waitingReaders ≠ 0 then some .canRead
      else if m.waitingWriters ≠ 0 then some .canWrite
      else none
    else none)

end Monitor

inductive Role
  | reader
  | writer
  deriving DecidableEq, Repr

/-- Where a thread is. A reader that has been let in still has to broadcast
`can_read`, which it does without the lock. -/
inductive Place
  | outside
  | asleep (role : Role)
  | woken (role : Role)
  | announcing
  | active (role : Role)
  deriving DecidableEq, Repr

namespace Place

/-- A broadcast wakes the threads that sleep on its condition. -/
def wake : Condition → Place → Place
  | .canRead, .asleep .reader => .woken .reader
  | .canWrite, .asleep .writer => .woken .writer
  | _, place => place

/-- The effect of a section that may broadcast. -/
def wakeBy : Option Condition → Place → Place
  | none, place => place
  | some condition, place => place.wake condition

@[simp] theorem wakeBy_outside (signal : Option Condition) : outside.wakeBy signal = outside := by
  rcases signal with _ | _ | _ <;> rfl

/-- Between the start and the stop of reading. -/
def isReading : Place → Bool
  | .announcing => true
  | .active .reader => true
  | _ => false

/-- Between the start and the stop of writing. -/
def isWriting : Place → Bool
  | .active .writer => true
  | _ => false

/-- In the wait of a function, asleep or woken. -/
def isWaiting (role : Role) : Place → Bool
  | .asleep r => r = role
  | .woken r => r = role
  | _ => false

def isWoken : Place → Bool
  | .woken _ => true
  | _ => false

end Place

/-- One monitor and the threads that use it. -/
structure Threads (ι : Type) where
  monitor : Monitor
  place : ι → Place

/-- What a thread does next. -/
inductive Section
  | startReading
  | startWriting
  | spuriousWakeup
  | resume
  | announce
  | stop
  deriving DecidableEq, Repr

namespace Threads

variable {ι : Type} [DecidableEq ι]

/-- No thread has called the monitor yet. -/
def init : Threads ι := ⟨Monitor.init, fun _ => .outside⟩

/-- Thread `i` moves, and every thread sees the broadcast. -/
def move (s : Threads ι) (i : ι) (place : Place) (monitor : Monitor)
    (signal : Option Condition) : Threads ι :=
  ⟨monitor, fun j => (Function.update s.place i place j).wakeBy signal⟩

/-- A section of thread `i`, when the thread is at its beginning. -/
def next? (s : Threads ι) (event : ι × Section) : Option (Threads ι) :=
  let i := event.1
  match event.2, s.place i with
  | .startReading, .outside =>
      let (monitor, waits) := s.monitor.startReading
      some (s.move i (if waits then .asleep .reader else .announcing) monitor none)
  | .startWriting, .outside =>
      let (monitor, waits) := s.monitor.startWriting
      some (s.move i (if waits then .asleep .writer else .active .writer) monitor none)
  | .spuriousWakeup, .asleep role => some (s.move i (.woken role) s.monitor none)
  | .resume, .woken .reader => some (s.move i .announcing s.monitor.resumeReading none)
  | .resume, .woken .writer => some (s.move i (.active .writer) s.monitor.resumeWriting none)
  | .announce, .announcing => some (s.move i (.active .reader) s.monitor (some .canRead))
  | .stop, .active .reader =>
      let (monitor, signal) := s.monitor.stopReading
      some (s.move i .outside monitor signal)
  | .stop, .active .writer =>
      let (monitor, signal) := s.monitor.stopWriting
      some (s.move i .outside monitor signal)
  | _, _ => none

abbrev Step (s : Threads ι) (event : ι × Section) (s' : Threads ι) : Prop :=
  s.next? event = some s'

/-- Some interleaving from initialisation ends here. -/
def Reachable (s : Threads ι) : Prop := ∃ events, Run Step init events s

/-- The ways in which thread `i` can move: from where to where, with which
counters, and with which broadcast. -/
inductive Moves (m : Monitor) : Section → Place → Place → Monitor → Option Condition → Prop
  | readWaits (hbusy : m.activeWriters ≠ 0 ∨ m.waitingWriters ≠ 0) :
      Moves m .startReading .outside (.asleep .reader)
        { m with waitingReaders := u32 (m.waitingReaders + 1) } none
  | readEnters (hwriters : m.activeWriters = 0) (hwaiting : m.waitingWriters = 0) :
      Moves m .startReading .outside .announcing
        { m with activeReaders := u32 (m.activeReaders + 1) } none
  | writeWaits (hbusy : m.activeWriters ≠ 0 ∨ m.activeReaders ≠ 0 ∨ m.waitingReaders ≠ 0 ∨
        m.waitingWriters ≠ 0) :
      Moves m .startWriting .outside (.asleep .writer)
        { m with waitingWriters := u32 (m.waitingWriters + 1) } none
  | writeEnters (hwriters : m.activeWriters = 0) (hreaders : m.activeReaders = 0) :
      Moves m .startWriting .outside (.active .writer)
        { m with activeWriters := u32 (m.activeWriters + 1) } none
  | wakes (role : Role) : Moves m .spuriousWakeup (.asleep role) (.woken role) m none
  | readResumes : Moves m .resume (.woken .reader) .announcing m.resumeReading none
  | writeResumes : Moves m .resume (.woken .writer) (.active .writer) m.resumeWriting none
  | announces : Moves m .announce .announcing (.active .reader) m (some .canRead)
  | readStops : Moves m .stop (.active .reader) .outside m.stopReading.1 m.stopReading.2
  | writeStops : Moves m .stop (.active .writer) .outside m.stopWriting.1 m.stopWriting.2

/-- Every step is a move of its thread. -/
theorem Step.moves {s s' : Threads ι} {i : ι} {act : Section} (hstep : Step s (i, act) s') :
    ∃ place monitor signal, s' = s.move i place monitor signal ∧
      Moves s.monitor act (s.place i) place monitor signal := by
  simp only [Step, next?] at hstep
  split at hstep
  next hplace =>
    rw [hplace]
    unfold Monitor.startReading at hstep
    split at hstep
    next hbusy => exact ⟨_, _, _, (Option.some.inj hstep).symm, .readWaits hbusy⟩
    next hfree =>
      simp only [not_or, not_not] at hfree
      exact ⟨_, _, _, (Option.some.inj hstep).symm, .readEnters hfree.1 hfree.2⟩
  next hplace =>
    rw [hplace]
    unfold Monitor.startWriting at hstep
    split at hstep
    next hbusy => exact ⟨_, _, _, (Option.some.inj hstep).symm, .writeWaits hbusy⟩
    next hfree =>
      simp only [not_or, not_not] at hfree
      exact ⟨_, _, _, (Option.some.inj hstep).symm, .writeEnters hfree.1 hfree.2.1⟩
  next role hplace =>
    rw [hplace]
    exact ⟨_, _, _, (Option.some.inj hstep).symm, .wakes role⟩
  next hplace =>
    rw [hplace]
    exact ⟨_, _, _, (Option.some.inj hstep).symm, .readResumes⟩
  next hplace =>
    rw [hplace]
    exact ⟨_, _, _, (Option.some.inj hstep).symm, .writeResumes⟩
  next hplace =>
    rw [hplace]
    exact ⟨_, _, _, (Option.some.inj hstep).symm, .announces⟩
  next hplace =>
    rw [hplace]
    exact ⟨_, _, _, (Option.some.inj hstep).symm, .readStops⟩
  next hplace =>
    rw [hplace]
    exact ⟨_, _, _, (Option.some.inj hstep).symm, .writeStops⟩
  next => cases hstep

end Threads

end Aesd

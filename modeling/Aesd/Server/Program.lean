import Aesd.Queue.DoublyLinkedList
import Aesd.Server.Mainloop

/-!
# The program

`aesdsocket_mainloop` from its call to its return: the set-up, the main loop with
the queue of threads as the linked list that it is, and the code at `done`. Every
call that can fail is a step with its outcome, and the steps of the threads come
in between.
-/

namespace Aesd

open CSem Ledger Transition

/-- What the server needs besides its connections. -/
inductive ServerResource
  | addrinfo
  | sockfd
  | threadQueue
  | monitor
  | timer
  deriving DecidableEq, Repr

/-- What else is written down: that the id of the timer is the null pointer, and
that the file was removed. -/
inductive ServerNote
  | nullTimer
  | removedFile
  deriving DecidableEq, Repr

abbrev ServerEffect := Entry ServerResource ServerNote

/-- The arguments of `aesdsocket_mainloop` that decide which calls are made. -/
structure Config where
  isRegularFile : Bool
  daemon : Bool
  useTimestamp : Bool
  deriving DecidableEq, Repr

/-- The call of the set-up that is made next. The calls that install the signal
handlers are one, and a daemon goes on in the child. -/
inductive SetUp
  | daemonize
  | sigaction
  | getaddrinfo
  | socket
  | setsockopt
  | bind
  | listen
  | queueNew
  | monitorNew
  | alarmAction
  | timerCreate
  | timerSettime
  deriving DecidableEq, Repr

namespace SetUp

def first (config : Config) : SetUp := if config.daemon then .daemonize else .sigaction

/-- The call after one that succeeded, if the loop does not begin. -/
def next (config : Config) : SetUp → Option SetUp
  | .daemonize => some .sigaction
  | .sigaction => some .getaddrinfo
  | .getaddrinfo => some .socket
  | .socket => some .setsockopt
  | .setsockopt => some .bind
  | .bind => some .listen
  | .listen => some .queueNew
  | .queueNew => some .monitorNew
  | .monitorNew => if config.useTimestamp then some .alarmAction else none
  | .alarmAction => some .timerCreate
  | .timerCreate => some .timerSettime
  | .timerSettime => none

/-- What a call that succeeds does. The addresses are released when the socket
listens. -/
def gains : SetUp → List ServerEffect
  | .getaddrinfo => [.acquired .addrinfo]
  | .socket => [.acquired .sockfd]
  | .listen => [.released .addrinfo]
  | .queueNew => [.acquired .threadQueue]
  | .monitorNew => [.acquired .monitor]
  | .timerCreate => [.acquired .timer]
  | _ => []

/-- What `aesdsocket_open_listening_socket` releases when a call of it fails. -/
def givesUp : SetUp → List ServerEffect
  | .socket => [.released .addrinfo]
  | .setsockopt => [.released .sockfd, .released .addrinfo]
  | .bind => [.released .sockfd, .released .addrinfo]
  | .listen => [.released .sockfd, .released .addrinfo]
  | _ => []

end SetUp

/-- Where `aesdsocket_mainloop` is: in the set-up, in the loop, in one of the
parts of the code at `done`, back, or stopped by a fault. -/
inductive ProgramPhase
  | setUp (stage : SetUp)
  | loop
  | deleteTimer
  | join
  | destroyQueue
  | clean
  | closeSocket
  | removeFile
  | returned
  | faulted (fault : Fault)
  deriving DecidableEq, Repr

/-- The variables of `aesdsocket_mainloop`, as far as it tests them at `done`, with
the main loop and the connections apart. In `main` the queue is only recorded. -/
structure Program where
  phase : ProgramPhase
  sockfd : Bool
  threadQueue : Option ListState
  writeFileMonitor : Bool
  timestampTimer : Bool
  main : Mainloop
  log : List ServerEffect

/-- What happens next. -/
inductive ProgramEvent
  | setUp (ok : Bool)
  | timerCreate (nonNull : Bool)
  | main (event : MainEvent)
  | enqueue (answer : Option Ptr)
  | dequeue
  | done

/-- The events of the main loop that leave the queue alone. -/
def MainEvent.inLoop : MainEvent → Bool
  | .queueEnqueue _ => false
  | .pthreadJoin => false
  | .cleanup => false
  | .thread _ => false
  | _ => true

/-- What the recorded queue of the main loop becomes, with the rest of it. -/
def Mainloop.enqueue (s : Mainloop) (conn : Nat) : Bool → Mainloop
  | true => { s with place := .test, threadArg := none, threadQueue := conn :: s.threadQueue }
  | false => { s with place := .joins false }

def Mainloop.joined (s : Mainloop) (tid : Tid) : Mainloop :=
  { s with threadQueue := s.threadQueue.dropLast, log := s.log ++ [.released ⟨.tid, tid⟩] }

namespace Program

/-- At the call. -/
def init (config : Config) : Program :=
  ⟨.setUp (.first config), false, none, false, false, Mainloop.init, []⟩

/-- After a call of the set-up that succeeded. -/
def proceed (config : Config) (s : Program) (stage : SetUp) : Program :=
  let s := { s with
    phase := (stage.next config).elim .loop .setUp
    log := s.log ++ stage.gains }
  match stage with
  | .listen => { s with sockfd := true }
  | .queueNew => { s with threadQueue := some doublyLinkedListInitialize }
  | .monitorNew => { s with writeFileMonitor := true }
  | _ => s

/-- The loop is not entered. -/
def giveUp (s : Program) (stage : SetUp) : Program :=
  { s with
    phase := .deleteTimer
    main := { s.main with place := .joins false }
    log := s.log ++ stage.givesUp }

/-- The id of the timer is stored. It is an integer behind a pointer type, and may
be zero. -/
def gainTimer (s : Program) (nonNull : Bool) : Program :=
  { s with
    phase := .setUp .timerSettime
    timestampTimer := nonNull
    log := s.log ++ .acquired .timer :: if nonNull then [] else [.note .nullTimer] }

/-- The monitor goes before the rest of what the main loop cleans up. -/
def monitorEffect (s : Program) : Effect → List ServerEffect
  | .note .destroyedMonitor => if s.writeFileMonitor then [.released .monitor] else []
  | _ => []

/-- The threads are joined, and the cleaning begins. -/
def startCleaning (s : Program) (log : List ServerEffect) (ok : Bool) : Program :=
  { s with phase := .clean, main := { s.main with place := .cleans s.main.done ok }, log := log }

/-- A step of the program, or of a connection's thread. -/
inductive Step (config : Config) (s : Program) : ProgramEvent → Program → Prop
  | setUp {stage : SetUp} (hphase : s.phase = .setUp stage) (hstage : stage ≠ .timerCreate) :
      Step config s (.setUp true) (s.proceed config stage)
  | setUpFails {stage : SetUp} (hphase : s.phase = .setUp stage) :
      Step config s (.setUp false) (s.giveUp stage)
  | timerCreate {nonNull : Bool} (hphase : s.phase = .setUp .timerCreate) :
      Step config s (.timerCreate nonNull) (s.gainTimer nonNull)
  | main {event : MainEvent} {main' : Mainloop} (hphase : s.phase = .loop)
      (hevent : event.inLoop = true) (hmain : Mainloop.Step s.main event main') :
      Step config s (.main event) { s with main := main' }
  | thread {conn : Nat} {main' : Mainloop} (hmain : Mainloop.Step s.main (.thread conn) main') :
      Step config s (.main (.thread conn)) { s with main := main' }
  | enqueue {conn : Nat} {queue queue' : ListState} {answer : Option Ptr} {ok : Bool}
      (hphase : s.phase = .loop) (hplace : s.main.place = .handles .queueEnqueue conn)
      (hqueue : s.threadQueue = some queue)
      (hfresh : ∀ p, answer = some p → queue.nodes p = none)
      (hcall : queueEnqueue queue conn answer = .ok (queue', ok)) :
      Step config s (.enqueue answer) { s with
        threadQueue := some queue', main := s.main.enqueue conn ok }
  | enqueueFaults {conn : Nat} {queue : ListState} {answer : Option Ptr} {fault : Fault}
      (hphase : s.phase = .loop) (hplace : s.main.place = .handles .queueEnqueue conn)
      (hqueue : s.threadQueue = some queue)
      (hfresh : ∀ p, answer = some p → queue.nodes p = none)
      (hcall : queueEnqueue queue conn answer = .error fault) :
      Step config s (.enqueue answer) { s with phase := .faulted fault }
  | leaves {ok : Bool} (hphase : s.phase = .loop) (hplace : s.main.place = .joins ok) :
      Step config s .done { s with phase := .deleteTimer }
  | deletesTimer (hphase : s.phase = .deleteTimer) :
      Step config s .done { s with
        phase := .join
        log := s.log ++ if s.timestampTimer then [.released .timer] else [] }
  -- the join waits until the thread has ended
  | dequeue {queue queue' : ListState} {tid : Tid} (hphase : s.phase = .join)
      (hqueue : s.threadQueue = some queue) (hmore : queueIsEmpty queue = false)
      (hcall : queueDequeue queue = .ok (queue', tid)) (hended : s.main.threads tid = []) :
      Step config s .dequeue { s with
        threadQueue := some queue', main := s.main.joined tid }
  | dequeueFaults {queue : ListState} {fault : Fault} (hphase : s.phase = .join)
      (hqueue : s.threadQueue = some queue) (hmore : queueIsEmpty queue = false)
      (hcall : queueDequeue queue = .error fault) :
      Step config s .dequeue { s with phase := .faulted fault }
  | drained {queue : ListState} (hphase : s.phase = .join) (hqueue : s.threadQueue = some queue)
      (hempty : queueIsEmpty queue = true) : Step config s .done { s with phase := .destroyQueue }
  | noQueue {ok : Bool} (hphase : s.phase = .join) (hplace : s.main.place = .joins ok)
      (hqueue : s.threadQueue = none) : Step config s .done (s.startCleaning s.log ok)
  | destroysQueue {ok : Bool} {queue : ListState} (hphase : s.phase = .destroyQueue)
      (hplace : s.main.place = .joins ok) (hqueue : s.threadQueue = some queue)
      (hcall : queueDestroy queue = .ok ()) :
      Step config s .done (s.startCleaning (s.log ++ [.released .threadQueue]) ok)
  | destroyFaults {queue : ListState} {fault : Fault} (hphase : s.phase = .destroyQueue)
      (hqueue : s.threadQueue = some queue) (hcall : queueDestroy queue = .error fault) :
      Step config s .done { s with phase := .faulted fault }
  | cleans {effect : Effect} {todo : List Effect} {ok : Bool} (hphase : s.phase = .clean)
      (hplace : s.main.place = .cleans (effect :: todo) ok) :
      Step config s .done { s with
        main := { s.main with place := .cleans todo ok, log := s.main.log ++ [effect] }
        log := s.log ++ s.monitorEffect effect }
  | cleaned {ok : Bool} (hphase : s.phase = .clean) (hplace : s.main.place = .cleans [] ok) :
      Step config s .done { s with
        phase := .closeSocket, main := { s.main with place := .returned ok } }
  | closesSocket (hphase : s.phase = .closeSocket) :
      Step config s .done { s with
        phase := .removeFile
        log := s.log ++ if s.sockfd then [.released .sockfd] else [] }
  | removesFile (hphase : s.phase = .removeFile) :
      Step config s .done { s with
        phase := .returned
        log := s.log ++ if config.isRegularFile then [.note .removedFile] else [] }

end Program

end Aesd

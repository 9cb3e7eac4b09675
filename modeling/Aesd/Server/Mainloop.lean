import Aesd.Foundation.Ledger
import Aesd.Foundation.Run
import Aesd.Server.Os
import Mathlib.Logic.Function.Basic

/-!
# The main loop

`aesdsocket_mainloop` after its set-up, together with the threads that it
creates, as far as the resources of the connections go. A connection has a
number, which stands for its descriptor and names its thread and the blocks that
are allocated for it. Every call that can fail is a step with its outcome, and
the steps of the threads come in between in any order.
-/

namespace Aesd

open Ledger Transition

/-- What a connection needs. It is acquired by `accept`, `malloc`, `strdup`,
`strndup` and `pthread_create`, and released by `close`, `free` and
`pthread_join`. -/
inductive Kind
  | connSockfd
  | threadArg
  | filename
  | remoteName
  | tid
  deriving DecidableEq, Repr

structure Resource where
  kind : Kind
  conn : Nat
  deriving DecidableEq, Repr

/-- What else is written down: that a pointer was freed that nothing had been
stored to, and `monitor_destroy`. -/
inductive Incident
  | freedGarbage
  | destroyedMonitor
  deriving DecidableEq, Repr

abbrev Effect := Entry Resource Incident

/-- A string pointer. The word of a block that `malloc` returned may be anything. -/
inductive StringPtr
  | garbage (nonNull : Bool)
  | null
  | block (r : Resource)
  deriving DecidableEq, Repr

/-- `aesdsocket_thread_arg_t`; a descriptor of -1 is `none`. -/
structure ThreadArg where
  connSockfd : Option Nat
  filename : StringPtr
  remoteName : StringPtr
  deriving DecidableEq, Repr

/-- `close` behind a test for -1. -/
def closeOpen : Option Nat → List Effect
  | none => []
  | some conn => [.released ⟨.connSockfd, conn⟩]

/-- `free` behind a test for the null pointer. -/
def freeString : StringPtr → List Effect
  | .garbage true => [.note .freedGarbage]
  | .garbage false => []
  | .null => []
  | .block r => [.released r]

/-- What `aesdsocket_start_thread` does to its argument, in order. Whatever comes
of serving the connection, which lies between the first release and the others,
they are made. -/
def aesdsocketStartThread (conn : Nat) (threadArg : ThreadArg) : List Effect :=
  [.released ⟨.threadArg, conn⟩] ++ closeOpen threadArg.connSockfd ++
    freeString threadArg.filename ++ freeString threadArg.remoteName

/-- The call that comes next for an accepted connection. -/
inductive Stage
  | inetNtop
  | malloc
  | strdup
  | strndup
  | pthreadCreate
  | queueEnqueue
  deriving DecidableEq, Repr

/-- Where the main thread is: at the test of the loop, before `accept`, with an
accepted connection, joining the threads at `done`, in the rest of the code at
`done`, or back with its result. -/
inductive MainPlace
  | test
  | accept
  | handles (stage : Stage) (conn : Nat)
  | joins (ok : Bool)
  | cleans (todo : List Effect) (ok : Bool)
  | returned (ok : Bool)
  deriving DecidableEq, Repr

/-- The variables of the main thread, what the created threads have left to do,
and everything that was done. A thread with nothing left has ended. -/
structure Mainloop where
  place : MainPlace
  connSockfd : Option Nat
  threadArg : Option (Nat × ThreadArg)
  threadQueue : List Nat
  accepted : Nat
  threads : Nat → List Effect
  log : List Effect

namespace Mainloop

/-- After the set-up. -/
def init : Mainloop := ⟨.test, none, none, [], 0, fun _ => [], []⟩

/-- The code at `done` after the joins: the monitor, the thread argument with its
strings, the descriptor. -/
def done (s : Mainloop) : List Effect :=
  [.note .destroyedMonitor] ++
    (match s.threadArg with
      | none => []
      | some (conn, threadArg) =>
          freeString threadArg.filename ++ freeString threadArg.remoteName ++
            [.released ⟨.threadArg, conn⟩]) ++
    closeOpen s.connSockfd

end Mainloop

/-- What happens next, with the outcome of the call that is made: `proceeds` finds
`termination_flag` clear and a timestamp taken or not due, and `malloc` tells
whether the words for the two strings are nonzero. -/
inductive MainEvent
  | terminates
  | timestampFails
  | proceeds
  | accept (result : CallResult Unit)
  | inetNtop (ok : Bool)
  | malloc (words : Option (Bool × Bool))
  | strdup (ok : Bool)
  | strndup (ok : Bool)
  | pthreadCreate (ok : Bool)
  | queueEnqueue (ok : Bool)
  | pthreadJoin
  | cleanup
  | thread (conn : Nat)
  deriving DecidableEq, Repr

namespace Mainloop

/-- A step of the main thread or of a connection's thread. -/
inductive Step (s : Mainloop) : MainEvent → Mainloop → Prop
  | terminates (hplace : s.place = .test) :
      Step s .terminates { s with place := .joins true }
  | timestampFails (hplace : s.place = .test) :
      Step s .timestampFails { s with place := .joins false }
  | proceeds (hplace : s.place = .test) : Step s .proceeds { s with place := .accept }
  | accepts (hplace : s.place = .accept) :
      Step s (.accept (.done ())) { s with
        place := .handles .inetNtop s.accepted
        connSockfd := some s.accepted
        accepted := s.accepted + 1
        log := s.log ++ [.acquired ⟨.connSockfd, s.accepted⟩] }
  -- `accept` has stored -1 before the macro looks at the error
  | acceptInterrupted (hplace : s.place = .accept) :
      Step s (.accept .interrupted) { s with place := .test, connSockfd := none }
  | acceptFails (hplace : s.place = .accept) :
      Step s (.accept .failed) { s with place := .joins false, connSockfd := none }
  | names {conn : Nat} (hplace : s.place = .handles .inetNtop conn) :
      Step s (.inetNtop true) { s with place := .handles .malloc conn }
  | nameFails {conn : Nat} (hplace : s.place = .handles .inetNtop conn) :
      Step s (.inetNtop false) { s with place := .joins false }
  | allocates {conn : Nat} {filename remoteName : Bool}
      (hplace : s.place = .handles .malloc conn) :
      Step s (.malloc (some (filename, remoteName))) { s with
        place := .handles .strdup conn
        threadArg := some (conn, ⟨s.connSockfd, .garbage filename, .garbage remoteName⟩)
        log := s.log ++ [.acquired ⟨.threadArg, conn⟩] }
  | allocateFails {conn : Nat} (hplace : s.place = .handles .malloc conn) :
      Step s (.malloc none) { s with place := .joins false, threadArg := none }
  | copiesFilename {conn number : Nat} {threadArg : ThreadArg}
      (hplace : s.place = .handles .strdup conn) (harg : s.threadArg = some (number, threadArg)) :
      Step s (.strdup true) { s with
        place := .handles .strndup conn
        threadArg := some (number, { threadArg with filename := .block ⟨.filename, conn⟩ })
        log := s.log ++ [.acquired ⟨.filename, conn⟩] }
  -- the word for the other string is still what `malloc` left
  | filenameFails {conn number : Nat} {threadArg : ThreadArg}
      (hplace : s.place = .handles .strdup conn) (harg : s.threadArg = some (number, threadArg)) :
      Step s (.strdup false) { s with
        place := .joins false
        threadArg := some (number, { threadArg with filename := .null }) }
  | copiesRemoteName {conn number : Nat} {threadArg : ThreadArg}
      (hplace : s.place = .handles .strndup conn) (harg : s.threadArg = some (number, threadArg)) :
      Step s (.strndup true) { s with
        place := .handles .pthreadCreate conn
        threadArg := some (number, { threadArg with remoteName := .block ⟨.remoteName, conn⟩ })
        log := s.log ++ [.acquired ⟨.remoteName, conn⟩] }
  | remoteNameFails {conn number : Nat} {threadArg : ThreadArg}
      (hplace : s.place = .handles .strndup conn) (harg : s.threadArg = some (number, threadArg)) :
      Step s (.strndup false) { s with
        place := .joins false
        threadArg := some (number, { threadArg with remoteName := .null }) }
  | creates {conn number : Nat} {threadArg : ThreadArg}
      (hplace : s.place = .handles .pthreadCreate conn)
      (harg : s.threadArg = some (number, threadArg)) :
      Step s (.pthreadCreate true) { s with
        place := .handles .queueEnqueue conn
        threads := Function.update s.threads conn (aesdsocketStartThread number threadArg)
        log := s.log ++ [.acquired ⟨.tid, conn⟩] }
  | createFails {conn : Nat} (hplace : s.place = .handles .pthreadCreate conn) :
      Step s (.pthreadCreate false) { s with place := .joins false }
  -- only `thread_arg` is reset; `conn_sockfd` keeps the descriptor
  | enqueues {conn : Nat} (hplace : s.place = .handles .queueEnqueue conn) :
      Step s (.queueEnqueue true) { s with
        place := .test
        threadArg := none
        threadQueue := conn :: s.threadQueue }
  | enqueueFails {conn : Nat} (hplace : s.place = .handles .queueEnqueue conn) :
      Step s (.queueEnqueue false) { s with place := .joins false }
  -- the queue is filled at its head and emptied at its tail
  | joins {ok : Bool} {others : List Nat} {tid : Nat} (hplace : s.place = .joins ok)
      (hqueue : s.threadQueue = others ++ [tid]) (hended : s.threads tid = []) :
      Step s .pthreadJoin { s with
        threadQueue := others
        log := s.log ++ [.released ⟨.tid, tid⟩] }
  | joined {ok : Bool} (hplace : s.place = .joins ok) (hqueue : s.threadQueue = []) :
      Step s .cleanup { s with place := .cleans s.done ok }
  | cleans {effect : Effect} {todo : List Effect} {ok : Bool}
      (hplace : s.place = .cleans (effect :: todo) ok) :
      Step s .cleanup { s with place := .cleans todo ok, log := s.log ++ [effect] }
  | returns {ok : Bool} (hplace : s.place = .cleans [] ok) :
      Step s .cleanup { s with place := .returned ok }
  | thread {conn : Nat} {effect : Effect} {todo : List Effect}
      (htodo : s.threads conn = effect :: todo) :
      Step s (.thread conn) { s with
        threads := Function.update s.threads conn todo
        log := s.log ++ [effect] }

end Mainloop

end Aesd

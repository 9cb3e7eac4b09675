import Aesd.Foundation.Draining
import Aesd.Server.ProgramRuns
import Mathlib.Algebra.Order.BigOperators.Group.Finset

/-!
# The way out

Once the loop is left the program returns, in any order of its steps and those of
the threads, and it waits for no thread but those that are recorded.
-/

namespace Aesd

open CSem Ledger Transition

/-! ## The threads -/

namespace Mainloop

variable {s s' : Mainloop}

/-- Only accepted connections have threads, and a thread releases four things at
most. -/
structure Numbered (s : Mainloop) : Prop where
  none : ∀ conn, s.accepted ≤ conn → s.threads conn = []
  few : ∀ conn, (s.threads conn).length ≤ 4
  handles : ∀ stage conn, s.place = .handles stage conn → conn < s.accepted

theorem length_freeString_le (p : StringPtr) : (freeString p).length ≤ 1 := by
  cases p with
  | garbage nonNull => cases nonNull <;> decide
  | null => exact Nat.zero_le 1
  | block r => exact Nat.le_refl 1

theorem length_closeOpen_le (fd : Option Nat) : (closeOpen fd).length ≤ 1 := by
  cases fd with
  | none => exact Nat.zero_le 1
  | some conn => exact Nat.le_refl 1

theorem length_startThread_le (conn : Nat) (threadArg : ThreadArg) :
    (aesdsocketStartThread conn threadArg).length ≤ 4 := by
  have hclose := length_closeOpen_le threadArg.connSockfd
  have hfilename := length_freeString_le threadArg.filename
  have hremoteName := length_freeString_le threadArg.remoteName
  simp only [aesdsocketStartThread, List.length_append, List.length_singleton]
  omega

theorem length_done_le (s : Mainloop) : s.done.length ≤ 5 := by
  have hclose := length_closeOpen_le s.connSockfd
  unfold done
  split
  next =>
    simp only [List.length_append, List.length_singleton, List.length_nil]
    omega
  next conn threadArg _ =>
    have hfilename := length_freeString_le threadArg.filename
    have hremoteName := length_freeString_le threadArg.remoteName
    simp only [List.length_append, List.length_singleton]
    omega

theorem Numbered.keep (h : Numbered s) (hthreads : s'.threads = s.threads)
    (haccepted : s'.accepted = s.accepted)
    (hhandles : ∀ stage conn, s'.place = .handles stage conn → conn < s.accepted) :
    Numbered s' where
  none := by
    rw [hthreads, haccepted]
    exact h.none
  few := by
    rw [hthreads]
    exact h.few
  handles := by
    rw [haccepted]
    exact hhandles

theorem Numbered.update (h : Numbered s) {conn : Nat} {todo : List Effect}
    (hthreads : s'.threads = Function.update s.threads conn todo)
    (haccepted : s'.accepted = s.accepted) (hconn : conn < s.accepted) (hfew : todo.length ≤ 4)
    (hhandles : ∀ stage conn, s'.place = .handles stage conn → conn < s.accepted) :
    Numbered s' where
  none other hle := by
    rw [haccepted] at hle
    rw [hthreads, Function.update_of_ne (Nat.ne_of_gt (Nat.lt_of_lt_of_le hconn hle))]
    exact h.none other hle
  few other := by
    rw [hthreads]
    by_cases heq : other = conn
    · rw [heq, Function.update_self]
      exact hfew
    · rw [Function.update_of_ne heq]
      exact h.few other
  handles := by
    rw [haccepted]
    exact hhandles

/-- A thread with something left to do was created for an accepted connection. -/
theorem Numbered.lt_accepted (h : Numbered s) {conn : Nat} (hne : s.threads conn ≠ []) :
    conn < s.accepted := Nat.lt_of_not_le fun hle => hne (h.none conn hle)

theorem Numbered.step (h : Numbered s) {event : MainEvent} (hstep : Step s event s') :
    Numbered s' := by
  cases hstep with
  | accepts hplace =>
      refine ⟨fun conn hle => h.none conn (Nat.le_of_succ_le hle), h.few, fun stage conn heq => ?_⟩
      cases heq
      exact Nat.lt_succ_self _
  | @creates conn number threadArg hplace harg =>
      have hconn := h.handles _ _ hplace
      refine h.update rfl rfl hconn (length_startThread_le number threadArg) fun _ _ heq => ?_
      cases heq
      exact hconn
  | @thread conn effect todo htodo =>
      have hfew := h.few conn
      rw [htodo, List.length_cons] at hfew
      exact h.update rfl rfl (h.lt_accepted (by rw [htodo]; exact List.cons_ne_nil _ _))
        (Nat.le_of_succ_le hfew) h.handles
  | names hplace => exact h.keep rfl rfl fun _ _ heq => by cases heq; exact h.handles _ _ hplace
  | allocates hplace => exact h.keep rfl rfl fun _ _ heq => by cases heq; exact h.handles _ _ hplace
  | copiesFilename hplace =>
      exact h.keep rfl rfl fun _ _ heq => by cases heq; exact h.handles _ _ hplace
  | copiesRemoteName hplace =>
      exact h.keep rfl rfl fun _ _ heq => by cases heq; exact h.handles _ _ hplace
  | joins hplace => exact h.keep rfl rfl h.handles
  | _ => exact h.keep rfl rfl fun _ _ heq => by cases heq

theorem numbered_of_run {events : List MainEvent} (hrun : Run Step init events s) : Numbered s :=
  hrun.invariant Numbered (fun _ _ _ h hstep => h.step hstep)
    ⟨fun _ _ => rfl, fun _ => Nat.zero_le 4, fun _ _ heq => by cases heq⟩

/-- What the threads have left to do, all together. -/
def threadsLeft (s : Mainloop) : Nat := ∑ conn ∈ Finset.range s.accepted, (s.threads conn).length

theorem Numbered.threadsLeft_le (h : Numbered s) : s.threadsLeft ≤ 4 * s.accepted := by
  calc s.threadsLeft ≤ ∑ _conn ∈ Finset.range s.accepted, 4 :=
        Finset.sum_le_sum fun conn _ => h.few conn
    _ = 4 * s.accepted := by simp [Nat.mul_comm]

theorem Numbered.threadsLeft_lt (h : Numbered s) {conn : Nat} (hstep : Step s (.thread conn) s') :
    s'.threadsLeft < s.threadsLeft := by
  cases hstep with
  | @thread _ effect todo htodo =>
      have hne : s.threads conn ≠ [] := by
        rw [htodo]
        exact List.cons_ne_nil _ _
      have hconn := h.lt_accepted hne
      apply Finset.sum_lt_sum
      · intro other _
        by_cases heq : other = conn
        · simp only [heq, Function.update_self, htodo, List.length_cons, Nat.le_succ]
        · simp only [Function.update_of_ne heq, Nat.le_refl]
      · refine ⟨conn, Finset.mem_range.mpr hconn, ?_⟩
        simp only [Function.update_self, htodo, List.length_cons, Nat.lt_succ_self]

end Mainloop

/-! ## The program -/

namespace ProgramPhase

/-- The loop is left, and the program has not stopped. -/
def Leaving : ProgramPhase → Prop
  | .setUp _ => False
  | .loop => False
  | .faulted _ => False
  | _ => True

/-- How many phases are left then. -/
def left : ProgramPhase → Nat
  | .deleteTimer => 6
  | .join => 5
  | .destroyQueue => 4
  | .clean => 3
  | .closeSocket => 2
  | .removeFile => 1
  | _ => 0

end ProgramPhase

namespace Program

variable {config : Config} {s s' : Program} {event : ProgramEvent}

/-- A bound on the steps that are left, of the main thread and the others. -/
def stepsLeft (s : Program) : Nat :=
  s.phase.left + s.main.rest.length + s.main.threadQueue.length + s.main.threadsLeft

/-- What holds on the way out. -/
structure OnWayOut (s : Program) : Prop extends Fits s where
  leaving : s.phase.Leaving

theorem Fits.numbered (h : Fits s) : s.main.Numbered := by
  obtain ⟨events, hrun⟩ := h.main
  exact Mainloop.numbered_of_run hrun

/-- The next phase begins. -/
theorem nextPhase (hfits : Fits s') {old new : ProgramPhase} (hold : s.phase = old)
    (hnew : s'.phase = new) (hleaving : new.Leaving)
    (hleft : new.left < old.left) (hrest : s'.main.rest = s.main.rest)
    (hqueue : s'.main.threadQueue = s.main.threadQueue)
    (hthreads : s'.main.threadsLeft = s.main.threadsLeft) :
    OnWayOut s' ∧ s'.stepsLeft < s.stepsLeft := by
  subst hold hnew
  refine ⟨⟨hfits, hleaving⟩, ?_⟩
  unfold stepsLeft
  rw [hrest, hqueue, hthreads]
  omega

/-- The way out is a sequence of phases, with the steps of the threads in between. -/
theorem OnWayOut.step (h : OnWayOut s) (hstep : Step config s event s') :
    OnWayOut s' ∧ s'.stepsLeft < s.stepsLeft := by
  have hfits := h.toFits.step hstep
  have hleaving := h.leaving
  have hplace := h.place
  unfold PlaceFits at hplace
  cases hstep with
  | setUp hphase => exact absurd hleaving (by rw [hphase]; exact id)
  | setUpFails hphase => exact absurd hleaving (by rw [hphase]; exact id)
  | timerCreate hphase => exact absurd hleaving (by rw [hphase]; exact id)
  | main hphase => exact absurd hleaving (by rw [hphase]; exact id)
  | thread hmain =>
      have hless := h.toFits.numbered.threadsLeft_lt hmain
      refine ⟨⟨hfits, hleaving⟩, ?_⟩
      cases hmain
      exact Nat.add_lt_add_left hless _
  | enqueue hphase => exact absurd hleaving (by rw [hphase]; exact id)
  | enqueueFaults hphase => exact absurd hleaving (by rw [hphase]; exact id)
  | leaves hphase => exact absurd hleaving (by rw [hphase]; exact id)
  | deletesTimer hphase => exact nextPhase hfits hphase rfl trivial (Nat.lt_succ_self _) rfl rfl rfl
  | @dequeue _ _ tid hphase hqueue hmore hcall hended =>
      simp only [hphase] at hplace
      obtain ⟨ok, hjoins⟩ := hplace
      obtain ⟨_, others, _, -, htids, -⟩ := h.queue.dequeue hqueue hmore
      have hqueue' : (s.main.joined tid).threadQueue = others := by
        rw [Mainloop.joined, htids, List.dropLast_concat]
      refine ⟨⟨hfits, by rw [hphase]; trivial⟩, ?_⟩
      simp only [stepsLeft, hqueue', htids, List.length_append, List.length_singleton]
      have hrest : (s.main.joined tid).rest = s.main.rest := rfl
      have hthreads : (s.main.joined tid).threadsLeft = s.main.threadsLeft := rfl
      rw [hrest, hthreads]
      omega
  | dequeueFaults => exact hfits.place.elim
  | drained hphase => exact nextPhase hfits hphase rfl trivial (Nat.lt_succ_self _) rfl rfl rfl
  | noQueue hphase hjoins =>
      refine nextPhase hfits hphase rfl trivial (Nat.lt_succ_of_lt (Nat.lt_succ_self _)) ?_ rfl rfl
      simp only [Mainloop.rest, startCleaning, hjoins]
  | destroysQueue hphase hjoins =>
      refine nextPhase hfits hphase rfl trivial (Nat.lt_succ_self _) ?_ rfl rfl
      simp only [Mainloop.rest, startCleaning, hjoins]
  | destroyFaults => exact hfits.place.elim
  | cleans hphase hcleans =>
      refine ⟨⟨hfits, by rw [hphase]; trivial⟩, ?_⟩
      simp only [stepsLeft, Mainloop.rest, hcleans, List.length_cons]
      exact Nat.add_lt_add_right (Nat.add_lt_add_right (Nat.lt_succ_self _) _) _
  | cleaned hphase hcleans =>
      refine nextPhase hfits hphase rfl trivial (Nat.lt_succ_self _) ?_ rfl rfl
      simp only [Mainloop.rest, hcleans]
  | closesSocket hphase => exact nextPhase hfits hphase rfl trivial (Nat.lt_succ_self _) rfl rfl rfl
  | removesFile hphase => exact nextPhase hfits hphase rfl trivial (Nat.lt_succ_self _) rfl rfl rfl

/-- A step of the main thread, or of the thread that it is about to join. -/
def OnTheWayOut (s : Program) : ProgramEvent → Prop
  | .done => True
  | .dequeue => True
  | .main (.thread conn) => s.phase = .join ∧ s.main.threadQueue.getLast? = some conn
  | _ => False

/-- Before the program has returned, the main thread can go on, or the thread can that it is
about to join. -/
theorem OnWayOut.progress (h : OnWayOut s) (hnot : s.phase ≠ .returned) :
    ∃ event s', OnTheWayOut s event ∧ Step config s event s' := by
  have hleaving := h.leaving
  have hplace := h.place
  unfold PlaceFits at hplace
  cases hphase : s.phase with
  | setUp stage => exact absurd hleaving (by rw [hphase]; exact id)
  | loop => exact absurd hleaving (by rw [hphase]; exact id)
  | deleteTimer => exact ⟨.done, _, trivial, .deletesTimer hphase⟩
  | join =>
      simp only [hphase] at hplace
      obtain ⟨ok, hjoins⟩ := hplace
      cases hqueue : s.threadQueue with
      | none => exact ⟨.done, _, trivial, .noQueue hphase hjoins hqueue⟩
      | some queue =>
          cases hmore : queueIsEmpty queue with
          | true => exact ⟨.done, _, trivial, .drained hphase hqueue hmore⟩
          | false =>
              obtain ⟨queue', others, tid, hcall, htids, -⟩ := h.queue.dequeue hqueue hmore
              cases hended : s.main.threads tid with
              | nil => exact ⟨.dequeue, _, trivial, .dequeue hphase hqueue hmore hcall hended⟩
              | cons effect todo =>
                  have hlast : s.main.threadQueue.getLast? = some tid := by
                    rw [htids, List.getLast?_concat]
                  exact ⟨.main (.thread tid), _, ⟨hphase, hlast⟩, .thread (.thread hended)⟩
  | destroyQueue =>
      simp only [hphase] at hplace
      obtain ⟨⟨ok, hjoins⟩, hnone, hsome⟩ := hplace
      obtain ⟨queue, hqueue⟩ := Option.isSome_iff_exists.mp hsome
      have hcall := (h.queue.destroy hqueue hnone).1
      exact ⟨.done, _, trivial, .destroysQueue hphase hjoins hqueue hcall⟩
  | clean =>
      simp only [hphase] at hplace
      obtain ⟨⟨todo, ok, hcleans⟩, -⟩ := hplace
      cases todo with
      | nil => exact ⟨.done, _, trivial, .cleaned hphase hcleans⟩
      | cons effect todo => exact ⟨.done, _, trivial, .cleans hphase hcleans⟩
  | closeSocket => exact ⟨.done, _, trivial, .closesSocket hphase⟩
  | removeFile => exact ⟨.done, _, trivial, .removesFile hphase⟩
  | returned => exact absurd hphase hnot
  | faulted fault => exact absurd hleaving (by rw [hphase]; exact id)

/-- When the loop is left, or the set-up given up, the program returns: in any order of the
steps there are only so many of them, and until it has returned the main thread can go on, or
the thread can for which it waits. -/
theorem returns_from_done {events : List ProgramEvent}
    (hrun : Run (Step config) (init config) events s) (hphase : s.phase = .deleteTimer) :
    Drains (Step config) OnTheWayOut (fun s => s.phase = .returned)
      (4 * s.main.accepted + s.main.threadQueue.length + 11) s := by
  have hfits := fits_of_run hrun
  have hleaving : s.phase.Leaving := by
    rw [hphase]
    trivial
  refine Drains.of_measure OnWayOut stepsLeft
    (fun _ _ _ h hstep => (h.step hstep).1) (fun _ _ _ h hstep => (h.step hstep).2)
    (fun _ h hnot => h.progress hnot) ⟨hfits, hleaving⟩ ?_
  have hplace := hfits.place
  simp only [PlaceFits, hphase] at hplace
  obtain ⟨ok, hjoins⟩ := hplace
  have hrest : s.main.rest = s.main.done := by simp only [Mainloop.rest, hjoins]
  have hdone := s.main.length_done_le
  have hthreads := hfits.numbered.threadsLeft_le
  have hleft : s.phase.left = 6 := by rw [hphase]; rfl
  unfold stepsLeft
  rw [hrest, hleft]
  omega

/-- With one client at most sixteen steps are left when the server is told to stop. -/
theorem returns_from_done_oneClient : ∃ s, Run (Step oneClientConfig) (init oneClientConfig)
    (setUpEvents ++ clientEvents ++ [.main .terminates] ++ [.done]) s ∧
    s.main.threadQueue = [0] ∧ Drains (Step oneClientConfig) OnTheWayOut
      (fun s => s.phase = .returned) 16 s := by
  obtain ⟨s, hrun, hloop, htest, htids, haccepted, -⟩ := client_run
  have hleft := Run.snoc (.snoc hrun (.main hloop rfl (.terminates htest))) (.leaves hloop rfl)
  have hbound : 4 * s.main.accepted + s.main.threadQueue.length + 11 = 16 := by
    rw [haccepted, htids]
    rfl
  exact ⟨_, hleft, htids, hbound ▸ returns_from_done hleft rfl⟩

end Program

end Aesd

import Aesd.Queue.Deque
import Aesd.Server.ConnectionResources
import Aesd.Server.Program

/-!
# Runs of the program

The linked list holds the threads that the main loop has recorded, so no
assertion of it fails, and what the server itself has acquired is given back
whatever fails: but a timer whose id is the null pointer is taken for none.
-/

namespace Aesd

open CSem Ledger ListState Transition

namespace Program

variable {config : Config} {s s' : Program} {event : ProgramEvent}

/-! ## The queue -/

/-- The list holds the threads that the main loop has recorded. -/
def QueueFits (s : Program) : Prop :=
  match s.threadQueue with
  | none => s.main.threadQueue = []
  | some queue => ∃ items, queue.Represents items ∧ items.map Prod.snd = s.main.threadQueue

/-- The main loop is where the phase says. -/
def PlaceFits (s : Program) : Prop :=
  match s.phase with
  | .setUp _ => s.main = Mainloop.init
  | .loop => ¬ s.main.Cleaning
  | .deleteTimer => ∃ ok, s.main.place = .joins ok
  | .join => ∃ ok, s.main.place = .joins ok
  | .destroyQueue => (∃ ok, s.main.place = .joins ok) ∧ s.main.threadQueue = [] ∧
      s.threadQueue.isSome
  | .clean => (∃ todo ok, s.main.place = .cleans todo ok) ∧ s.main.threadQueue = []
  | .closeSocket => (∃ ok, s.main.place = .returned ok) ∧ s.main.threadQueue = []
  | .removeFile => (∃ ok, s.main.place = .returned ok) ∧ s.main.threadQueue = []
  | .returned => (∃ ok, s.main.place = .returned ok) ∧ s.main.threadQueue = []
  | .faulted _ => False

/-- The program is a run of the main loop, with the queue as a linked list. -/
structure Fits (s : Program) : Prop where
  place : s.PlaceFits
  queue : s.QueueFits
  main : ∃ events, Run Mainloop.Step Mainloop.init events s.main

theorem QueueFits.items (h : s.QueueFits) {queue : ListState}
    (hqueue : s.threadQueue = some queue) :
    ∃ items, queue.Represents items ∧ items.map Prod.snd = s.main.threadQueue := by
  unfold QueueFits at h
  rwa [hqueue] at h

theorem QueueFits.of_eq (h : s.QueueFits) (hqueue : s'.threadQueue = s.threadQueue)
    (hmain : s'.main.threadQueue = s.main.threadQueue) : s'.QueueFits := by
  unfold QueueFits at h ⊢
  rwa [hqueue, hmain]

/-- A step of the main loop that leaves the queue alone. -/
theorem threadQueue_eq {main main' : Mainloop} {event : MainEvent}
    (hstep : Mainloop.Step main event main')
    (hevent : event.inLoop = true ∨ ∃ conn, event = .thread conn) :
    main'.threadQueue = main.threadQueue := by
  rcases hevent with hloop | ⟨conn, rfl⟩
  · cases hstep with
    | enqueues => cases hloop
    | enqueueFails => cases hloop
    | joins => cases hloop
    | joined => cases hloop
    | cleans => cases hloop
    | returns => cases hloop
    | thread => cases hloop
    | _ => rfl
  · cases hstep
    rfl

theorem QueueFits.enqueues (h : s.QueueFits) {queue : ListState} (conn : Nat) {answer : Option Ptr}
    (hqueue : s.threadQueue = some queue) (hfresh : ∀ p, answer = some p → queue.nodes p = none) :
    ∃ queue' ok, queueEnqueue queue conn answer = .ok (queue', ok) := by
  obtain ⟨items, hitems, htids⟩ := h.items hqueue
  cases answer with
  | none => exact ⟨queue, false, rfl⟩
  | some p =>
      obtain ⟨queue', hinsert, -⟩ := hitems.linked.insertHead (hfresh p rfl) conn
      exact ⟨queue', true, hinsert⟩

/-- A step that leaves the queue alone does not begin to clean up. -/
theorem not_cleaning {main main' : Mainloop} {event : MainEvent}
    (hstep : Mainloop.Step main event main') (hevent : event.inLoop = true) :
    ¬ main'.Cleaning := by
  cases hstep with
  | enqueues => cases hevent
  | enqueueFails => cases hevent
  | joins => cases hevent
  | joined => cases hevent
  | cleans => cases hevent
  | returns => cases hevent
  | thread => cases hevent
  | _ => exact id

/-- The thread of an accepted connection goes to the head of the list. -/
theorem QueueFits.enqueue (h : s.QueueFits) {queue queue' : ListState} {conn : Nat}
    {answer : Option Ptr} {ok : Bool} (hqueue : s.threadQueue = some queue)
    (hfresh : ∀ p, answer = some p → queue.nodes p = none)
    (hcall : queueEnqueue queue conn answer = .ok (queue', ok)) :
    QueueFits { s with threadQueue := some queue', main := s.main.enqueue conn ok } := by
  obtain ⟨items, hitems, htids⟩ := h.items hqueue
  cases answer with
  | none =>
      cases hcall
      exact ⟨items, hitems, htids⟩
  | some p =>
      obtain ⟨queue₁, hinsert, hbecomes⟩ := hitems.linked.insertHead (hfresh p rfl) conn
      cases hinsert.symm.trans hcall
      refine ⟨(p, conn) :: items, hitems.becomes hbecomes, ?_⟩
      rw [List.map_cons, htids]
      rfl

theorem ListState.Represents.queueIsEmpty_eq {queue : ListState} {items : List (Ptr × Tid)}
    (h : queue.Represents items) : queueIsEmpty queue = items.isEmpty := h.linked.isEmpty_eq

/-- The thread that was created first is at the tail. -/
theorem QueueFits.dequeue (h : s.QueueFits) {queue : ListState}
    (hqueue : s.threadQueue = some queue) (hmore : queueIsEmpty queue = false) :
    ∃ queue' others tid, queueDequeue queue = .ok (queue', tid) ∧
      s.main.threadQueue = others ++ [tid] ∧
      QueueFits { s with threadQueue := some queue', main := s.main.joined tid } := by
  obtain ⟨items, hitems, htids⟩ := h.items hqueue
  cases items using List.reverseRecOn with
  | nil =>
      rw [ListState.Represents.queueIsEmpty_eq hitems] at hmore
      cases hmore
  | append_singleton items item =>
      obtain ⟨queue', hremove, hbecomes⟩ := hitems.linked.removeTail
      rw [List.map_append] at htids
      refine ⟨queue', items.map Prod.snd, item.2, hremove, htids.symm, items,
        hitems.becomes hbecomes, ?_⟩
      simp only [Mainloop.joined, ← htids, List.map_singleton, List.dropLast_concat]

/-- A list that is empty has no recorded threads, and may be destroyed. -/
theorem QueueFits.empty (h : s.QueueFits) {queue : ListState} (hqueue : s.threadQueue = some queue)
    (hempty : queueIsEmpty queue = true) : s.main.threadQueue = [] := by
  obtain ⟨items, hitems, htids⟩ := h.items hqueue
  rw [ListState.Represents.queueIsEmpty_eq hitems, List.isEmpty_iff] at hempty
  rw [← htids, hempty, List.map_nil]

theorem QueueFits.destroy (h : s.QueueFits) {queue : ListState}
    (hqueue : s.threadQueue = some queue) (hnone : s.main.threadQueue = []) :
    queueDestroy queue = .ok () ∧ ∀ p, queue.nodes p = none := by
  obtain ⟨items, hitems, htids⟩ := h.items hqueue
  obtain rfl : items = [] := List.map_eq_nil_iff.mp (htids.trans hnone)
  have hempty : queue.self.isEmpty = true := hitems.linked.isEmpty_eq
  refine ⟨?_, fun p => hitems.within p List.not_mem_nil⟩
  rw [queueDestroy, doublyLinkedListFinalize, hempty]
  rfl

/-! ## The main loop -/

/-- One step of the main loop more. -/
theorem Fits.main_snoc (h : Fits s) {main' : Mainloop} {event : MainEvent}
    (hmain : Mainloop.Step s.main event main') :
    ∃ events, Run Mainloop.Step Mainloop.init events main' := by
  obtain ⟨events, hrun⟩ := h.main
  exact ⟨_, hrun.snoc hmain⟩

theorem Fits.proceed (h : Fits s) {stage : SetUp} (hphase : s.phase = .setUp stage) :
    Fits (s.proceed config stage) := by
  have hplace := h.place
  simp only [PlaceFits, hphase] at hplace
  have hmain : (s.proceed config stage).main = s.main := by cases stage <;> rfl
  refine ⟨?_, ?_, hmain ▸ h.main⟩
  · have hnext : (s.proceed config stage).phase = .loop ∨
        ∃ stage', (s.proceed config stage).phase = .setUp stage' := by
      have heq : (s.proceed config stage).phase = (stage.next config).elim .loop .setUp := by
        cases stage <;> rfl
      rw [heq]
      cases stage.next config with
      | none => exact Or.inl rfl
      | some stage' => exact Or.inr ⟨stage', rfl⟩
    rcases hnext with hloop | ⟨stage', hstage⟩
    · simp only [PlaceFits, hloop, hmain, hplace]
      exact id
    · simp only [PlaceFits, hstage, hmain, hplace]
  · by_cases hqueue : stage = .queueNew
    · subst hqueue
      have hnone : s.main.threadQueue = [] := by rw [hplace]; rfl
      exact ⟨[], initialize_represents, hnone.symm⟩
    · refine h.queue.of_eq ?_ (congrArg Mainloop.threadQueue hmain)
      cases stage <;> first | rfl | exact absurd rfl hqueue

/-- A thread that takes a step was created, so the set-up is over. -/
theorem Fits.thread (h : Fits s) {conn : Nat} {main' : Mainloop}
    (hmain : Mainloop.Step s.main (.thread conn) main') : Fits { s with main := main' } := by
  refine ⟨?_, h.queue.of_eq rfl (threadQueue_eq hmain (Or.inr ⟨conn, rfl⟩)), h.main_snoc hmain⟩
  have hplace := h.place
  cases hmain with
  | thread htodo =>
      unfold PlaceFits at hplace ⊢
      cases hphase : s.phase with
      | setUp stage =>
          simp only [hphase] at hplace
          rw [hplace] at htodo
          cases htodo
      | faulted fault => exact absurd hplace (by simp only [hphase, not_false_eq_true])
      | _ =>
          rw [hphase] at hplace
          exact hplace

/-- The threads are joined, and what the main loop has left is cleaned up. -/
theorem Fits.startCleaning (h : Fits s) (log : List ServerEffect) {ok : Bool}
    (hplace : s.main.place = .joins ok) (hnone : s.main.threadQueue = []) :
    Fits (s.startCleaning log ok) :=
  ⟨⟨⟨s.main.done, ok, rfl⟩, hnone⟩, h.queue.of_eq rfl rfl, h.main_snoc (.joined hplace hnone)⟩

theorem Fits.step (h : Fits s) (hstep : Step config s event s') : Fits s' := by
  have hplace := h.place
  unfold PlaceFits at hplace
  cases hstep with
  | setUp hphase => exact h.proceed hphase
  | setUpFails hphase =>
      simp only [hphase] at hplace
      have htest : s.main.place = .test := by rw [hplace]; rfl
      exact ⟨⟨false, rfl⟩, h.queue.of_eq rfl rfl, h.main_snoc (.timestampFails htest)⟩
  | timerCreate hphase =>
      simp only [hphase] at hplace
      exact ⟨hplace, h.queue.of_eq rfl rfl, h.main⟩
  | main hphase hevent hmain =>
      refine ⟨?_, h.queue.of_eq rfl (threadQueue_eq hmain (Or.inl hevent)), h.main_snoc hmain⟩
      simp only [PlaceFits, hphase]
      exact not_cleaning hmain hevent
  | thread hmain => exact h.thread hmain
  | @enqueue conn _ _ _ ok hphase hhandles hqueue hfresh hcall =>
      refine ⟨?_, h.queue.enqueue hqueue hfresh hcall, ?_⟩
      · simp only [PlaceFits, hphase]
        cases ok <;> exact id
      · cases ok with
        | true => exact h.main_snoc (.enqueues hhandles)
        | false => exact h.main_snoc (.enqueueFails hhandles)
  | @enqueueFaults conn _ _ _ hphase hhandles hqueue hfresh hcall =>
      obtain ⟨queue', ok, henqueue⟩ := h.queue.enqueues conn hqueue hfresh
      cases henqueue.symm.trans hcall
  | leaves hphase hjoins => exact ⟨⟨_, hjoins⟩, h.queue.of_eq rfl rfl, h.main⟩
  | deletesTimer hphase =>
      simp only [hphase] at hplace
      exact ⟨hplace, h.queue.of_eq rfl rfl, h.main⟩
  | dequeue hphase hqueue hmore hcall hended =>
      simp only [hphase] at hplace
      obtain ⟨ok, hjoins⟩ := hplace
      obtain ⟨_, others, _, hdequeue, htids, hfits⟩ := h.queue.dequeue hqueue hmore
      obtain ⟨rfl, rfl⟩ := Prod.mk.inj (Except.ok.inj (hdequeue.symm.trans hcall))
      refine ⟨by simp only [PlaceFits, hphase]; exact ⟨ok, hjoins⟩, hfits, ?_⟩
      have hmain := h.main_snoc (.joins hjoins htids hended)
      have hothers : others = s.main.threadQueue.dropLast := by rw [htids, List.dropLast_concat]
      rwa [hothers] at hmain
  | dequeueFaults hphase hqueue hmore hcall =>
      obtain ⟨_, _, _, hdequeue, _⟩ := h.queue.dequeue hqueue hmore
      cases hdequeue.symm.trans hcall
  | drained hphase hqueue hempty =>
      simp only [hphase] at hplace
      exact ⟨⟨hplace, h.queue.empty hqueue hempty, by rw [hqueue]; rfl⟩, h.queue.of_eq rfl rfl,
        h.main⟩
  | noQueue hphase hjoins hqueue =>
      have hnone := h.queue
      unfold QueueFits at hnone
      rw [hqueue] at hnone
      exact h.startCleaning _ hjoins hnone
  | destroysQueue hphase hjoins hqueue hcall =>
      simp only [hphase] at hplace
      exact h.startCleaning _ hjoins hplace.2.1
  | destroyFaults hphase hqueue hcall =>
      simp only [hphase] at hplace
      cases (h.queue.destroy hqueue hplace.2.1).1.symm.trans hcall
  | cleans hphase hcleans =>
      simp only [hphase] at hplace
      refine ⟨?_, h.queue.of_eq rfl rfl, h.main_snoc (.cleans hcleans)⟩
      simp only [PlaceFits, hphase]
      exact ⟨⟨_, _, rfl⟩, hplace.2⟩
  | cleaned hphase hcleans =>
      simp only [hphase] at hplace
      exact ⟨⟨⟨_, rfl⟩, hplace.2⟩, h.queue.of_eq rfl rfl, h.main_snoc (.returns hcleans)⟩
  | closesSocket hphase =>
      simp only [hphase] at hplace
      exact ⟨hplace, h.queue.of_eq rfl rfl, h.main⟩
  | removesFile hphase =>
      simp only [hphase] at hplace
      exact ⟨hplace, h.queue.of_eq rfl rfl, h.main⟩

theorem init_fits (config : Config) : Fits (init config) where
  place := rfl
  queue := rfl
  main := ⟨[], .nil _⟩

theorem fits_of_run {events : List ProgramEvent}
    (hrun : Run (Step config) (init config) events s) : Fits s :=
  hrun.invariant Fits (fun _ _ _ h hstep => h.step hstep) (init_fits config)

/-- In every run the linked list holds the threads that the main loop has recorded, in
their order, the main loop itself takes its own steps, and no assertion, no null pointer
and no freed node stops the program. -/
theorem refines_mainloop {events : List ProgramEvent}
    (hrun : Run (Step config) (init config) events s) :
    (∃ mainEvents, Run Mainloop.Step Mainloop.init mainEvents s.main) ∧
    (∀ queue, s.threadQueue = some queue →
      ∃ items, queue.Represents items ∧ items.map Prod.snd = s.main.threadQueue) ∧
    ∀ fault, s.phase ≠ .faulted fault := by
  have hfits := fits_of_run hrun
  refine ⟨hfits.main, fun queue hqueue => hfits.queue.items hqueue, fun fault hphase => ?_⟩
  have hplace := hfits.place
  simp only [PlaceFits, hphase] at hplace

/-! ## One client -/

/-- A server that serves a regular file and takes timestamps. -/
def oneClientConfig : Config := ⟨true, false, true⟩

/-- A set-up in which nothing fails; the first timer of a process may have the id zero. -/
def setUpEvents : List ProgramEvent :=
  [.setUp true, .setUp true, .setUp true, .setUp true, .setUp true, .setUp true, .setUp true,
    .setUp true, .setUp true, .timerCreate false, .setUp true]

def afterSetUp : Program where
  phase := .loop
  sockfd := true
  threadQueue := some doublyLinkedListInitialize
  writeFileMonitor := true
  timestampTimer := false
  main := Mainloop.init
  log := [.acquired .addrinfo, .acquired .sockfd, .released .addrinfo, .acquired .threadQueue,
    .acquired .monitor, .acquired .timer, .note .nullTimer]

theorem afterSetUp_run :
    Run (Step oneClientConfig) (init oneClientConfig) setUpEvents afterSetUp := by
  have hlistens : Run (Step oneClientConfig) (init oneClientConfig)
      [.setUp true, .setUp true, .setUp true, .setUp true, .setUp true, .setUp true] _ :=
    .snoc (.snoc (.snoc (.snoc (.snoc (.snoc (.nil _)
      (@Step.setUp _ _ .sigaction rfl (by decide)))
      (@Step.setUp _ _ .getaddrinfo rfl (by decide)))
      (@Step.setUp _ _ .socket rfl (by decide)))
      (@Step.setUp _ _ .setsockopt rfl (by decide)))
      (@Step.setUp _ _ .bind rfl (by decide)))
      (@Step.setUp _ _ .listen rfl (by decide))
  exact .snoc (.snoc (.snoc (.snoc (.snoc hlistens
    (@Step.setUp _ _ .queueNew rfl (by decide)))
    (@Step.setUp _ _ .monitorNew rfl (by decide)))
    (@Step.setUp _ _ .alarmAction rfl (by decide)))
    (@Step.timerCreate _ _ false rfl))
    (@Step.setUp _ _ .timerSettime rfl (by decide))

/-- A client is accepted and its thread recorded. -/
def clientEvents : List ProgramEvent :=
  [.main .proceeds, .main (.accept (.done ())), .main (.inetNtop true),
    .main (.malloc (some (true, true))), .main (.strdup true), .main (.strndup true),
    .main (.pthreadCreate true), .enqueue (some 16)]

theorem client_run : ∃ s, Run (Step oneClientConfig) (init oneClientConfig)
    (setUpEvents ++ clientEvents) s ∧ s.phase = .loop ∧ s.main.place = .test ∧
      s.main.threadQueue = [0] ∧ s.main.accepted = 1 ∧ s.threadQueue.isSome := by
  have haccepted : Run (Step oneClientConfig) (init oneClientConfig)
      (setUpEvents ++ [.main .proceeds, .main (.accept (.done ())), .main (.inetNtop true)]) _ :=
    .snoc (.snoc (.snoc afterSetUp_run (.main rfl rfl (.proceeds rfl)))
      (.main rfl rfl (.accepts rfl))) (.main rfl rfl (.names rfl))
  refine ⟨_, .snoc (.snoc (.snoc (.snoc (.snoc haccepted
    (.main rfl rfl (.allocates rfl)))
    (.main rfl rfl (.copiesFilename rfl rfl)))
    (.main rfl rfl (.copiesRemoteName rfl rfl)))
    (.main rfl rfl (.creates rfl rfl)))
    (.enqueue rfl rfl rfl (fun _ _ => rfl) rfl), rfl, rfl, rfl, rfl, rfl⟩

theorem refines_mainloop_oneClient : ∃ s queue items, Run (Step oneClientConfig)
    (init oneClientConfig) (setUpEvents ++ clientEvents) s ∧ s.threadQueue = some queue ∧
    queue.Represents items ∧ items.map Prod.snd = [0] ∧ ∀ fault, s.phase ≠ .faulted fault := by
  obtain ⟨s, hrun, -, -, htids, -, hsome⟩ := client_run
  obtain ⟨queue, hqueue⟩ := Option.isSome_iff_exists.mp hsome
  obtain ⟨-, hlist, hnofault⟩ := refines_mainloop hrun
  obtain ⟨items, hitems, hsnd⟩ := hlist queue hqueue
  exact ⟨s, queue, items, hrun, hqueue, hitems, hsnd.trans htids, hnofault⟩

end Program

end Aesd

import Aesd.Server.ClientRuns
import Mathlib.Algebra.BigOperators.Ring.Finset

/-!
# Joining the threads

At the end `aesdsocket_mainloop` joins the threads one after the other, while they
still make their calls and wait for each other at the monitor. If no read, write
or resize fails all of them end and are joined. After a write that failed the
join may never come back.
-/

namespace Aesd

open CSem Tally Transition

/-- The threads at the monitor, the calls that each of them will make at most,
and the queue of threads of which the main thread joins the last. -/
structure Joining (ι : Type) where
  clients : Clients ι
  calls : ι → List Role
  threadQueue : List ι

inductive JoiningEvent (ι : Type)
  | client (i : ι) (act : ClientAct)
  | leaves (i : ι)
  | joins

/-- Nobody is woken without a broadcast. -/
def JoiningEvent.IsDue {ι : Type} : JoiningEvent ι → Prop
  | .client _ act => act ≠ .waits .spuriousWakeup
  | _ => True

/-- What comes without a spurious wake-up, and without a thread that makes fewer
calls than it might. -/
def JoiningEvent.IsOwn {ι : Type} (event : JoiningEvent ι) : Prop :=
  event.IsDue ∧ ∀ i, event ≠ .leaves i

/-- No read, write or resize fails. -/
def JoiningEvent.Clean {ι : Type} : JoiningEvent ι → Prop
  | .client i act => Clients.Clean (i, act)
  | _ => True

namespace Joining

variable {ι : Type} [DecidableEq ι]

/-- The thread has left its last call, and `pthread_join` comes back. -/
def Ended (s : Joining ι) (i : ι) : Prop := s.clients.inside i = false ∧ s.calls i = []

/-- A step of a thread or of the main thread. A call that fails is the last one of its
thread, and a thread that fails elsewhere, or is done before, leaves between two calls. -/
inductive Step : Joining ι → JoiningEvent ι → Joining ι → Prop
  | enters {s : Joining ι} {i : ι} {role : Role} {others : List Role} {clients : Clients ι}
      (hcalls : s.calls i = role :: others)
      (hstep : Clients.Step s.clients (i, .enters role.entry) clients) :
      Step s (.client i (.enters role.entry))
        ⟨clients, Function.update s.calls i others, s.threadQueue⟩
  | waits {s : Joining ι} {i : ι} {act : Section} {clients : Clients ι}
      (hstep : Clients.Step s.clients (i, .waits act) clients) :
      Step s (.client i (.waits act)) ⟨clients, s.calls, s.threadQueue⟩
  | returns {s : Joining ι} {i : ι} {calls : List SystemCall} {clients : Clients ι}
      (hclean : calls.any SystemCall.isFailure = false)
      (hstep : Clients.Step s.clients (i, .returns calls) clients) :
      Step s (.client i (.returns calls)) ⟨clients, s.calls, s.threadQueue⟩
  | fails {s : Joining ι} {i : ι} {calls : List SystemCall} {clients : Clients ι}
      (hfailure : calls.any SystemCall.isFailure = true)
      (hstep : Clients.Step s.clients (i, .returns calls) clients) :
      Step s (.client i (.returns calls))
        ⟨clients, Function.update s.calls i [], s.threadQueue⟩
  | leaves {s : Joining ι} {i : ι} (houtside : s.clients.inside i = false)
      (hcalls : s.calls i ≠ []) :
      Step s (.leaves i) ⟨s.clients, Function.update s.calls i [], s.threadQueue⟩
  | joins {s : Joining ι} {others : List ι} {tid : ι} (hqueue : s.threadQueue = others ++ [tid])
      (hended : s.Ended tid) : Step s .joins ⟨s.clients, s.calls, others⟩

/-- A step in which nothing fails. -/
def CleanStep (s : Joining ι) (event : JoiningEvent ι) (s' : Joining ι) : Prop :=
  event.Clean ∧ Step s event s'

/-- A step that is not a spurious wake-up, whatever fails. -/
def DueStep (s : Joining ι) (event : JoiningEvent ι) (s' : Joining ι) : Prop :=
  event.IsDue ∧ Step s event s'

end Joining

/-! ## The queue of threads empties -/

namespace Joining

variable {ι : Type} [DecidableEq ι] [Fintype ι] {s s' : Joining ι}

/-- What a thread has left to do: six steps for each call to come, and the rest of the
call under way. -/
def left (s : Joining ι) (i : ι) : Nat := 6 * (s.calls i).length + s.clients.toGo i

def stepsLeft (s : Joining ι) : Nat := load s.left id + s.threadQueue.length

omit [DecidableEq ι] in
theorem stepsLeft_le (s : Joining ι) :
    s.stepsLeft ≤ 6 * load s.calls List.length + 5 * Fintype.card ι + s.threadQueue.length := by
  have hcalls : ∑ i, 6 * (s.calls i).length = 6 * load s.calls List.length :=
    (Finset.mul_sum _ _ _).symm
  have htoGo : load id s.clients.toGo ≤ 5 * Fintype.card ι := load_le s.clients.toGo_le
  have hleft : load s.left id = ∑ i, 6 * (s.calls i).length + load id s.clients.toGo :=
    Finset.sum_add_distrib
  unfold stepsLeft
  omega

omit [DecidableEq ι] in
/-- One thread goes on, and nobody else goes back. -/
theorem stepsLeft_lt {i : ι} (hqueue : s'.threadQueue = s.threadQueue)
    (hi : s'.left i < s.left i) (hothers : ∀ j, j ≠ i → s'.left j ≤ s.left j) :
    s'.stepsLeft < s.stepsLeft := by
  unfold stepsLeft
  rw [hqueue]
  exact Nat.add_lt_add_right (Tally.load_lt i hi hothers) _

/-- Every step is one step less, also when something fails. -/
theorem Step.stepsLeft_lt {event : JoiningEvent ι} (hstep : Step s event s') :
    s'.stepsLeft < s.stepsLeft := by
  cases hstep with
  | @enters i role others clients hcalls hstep =>
      refine Joining.stepsLeft_lt (i := i) rfl ?_ fun j hne => ?_
      · have hfar := clients.toGo_le i
        simp only [left, Function.update_self, hcalls, List.length_cons]
        omega
      · simp only [left, Function.update_of_ne hne]
        exact Nat.add_le_add_left (hstep.toGo_le_of_ne hne) _
  | @waits i act clients hstep =>
      exact Joining.stepsLeft_lt rfl (Nat.add_lt_add_left (hstep.toGo_lt (by simp)) _)
        fun j hne => Nat.add_le_add_left (hstep.toGo_le_of_ne hne) _
  | @returns i calls clients _ hstep =>
      exact Joining.stepsLeft_lt rfl (Nat.add_lt_add_left (hstep.toGo_lt (by simp)) _)
        fun j hne => Nat.add_le_add_left (hstep.toGo_le_of_ne hne) _
  | @fails i calls clients _ hstep =>
      refine Joining.stepsLeft_lt (i := i) rfl ?_ fun j hne => ?_
      · have hless := hstep.toGo_lt (by simp)
        simp only [left, Function.update_self, List.length_nil]
        omega
      · simp only [left, Function.update_of_ne hne]
        exact Nat.add_le_add_left (hstep.toGo_le_of_ne hne) _
  | @leaves i houtside hcalls =>
      refine Joining.stepsLeft_lt (i := i) rfl ?_ fun j hne => ?_
      · have hpos := List.length_pos_of_ne_nil hcalls
        simp only [left, Function.update_self, List.length_nil]
        omega
      · simp only [left, Function.update_of_ne hne]
        exact Nat.le_refl _
  | @joins others tid hqueue hended =>
      have hless : others.length < s.threadQueue.length := by
        rw [hqueue, List.length_append]
        exact Nat.lt_succ_self _
      exact Nat.add_lt_add_left hless _

omit [Fintype ι] in
/-- What a step without a failure is for the clients. -/
theorem CleanStep.clients {event : JoiningEvent ι} (hstep : CleanStep s event s') :
    s'.clients = s.clients ∨
      ∃ event, Clients.Step s.clients event s'.clients ∧ Clients.Clean event := by
  obtain ⟨hclean, hstep⟩ := hstep
  cases hstep with
  | enters _ hstep => exact Or.inr ⟨_, hstep, hclean⟩
  | waits hstep => exact Or.inr ⟨_, hstep, hclean⟩
  | returns _ hstep => exact Or.inr ⟨_, hstep, hclean⟩
  | fails _ hstep => exact Or.inr ⟨_, hstep, hclean⟩
  | leaves => exact Or.inl rfl
  | joins => exact Or.inl rfl

theorem CleanStep.orderly {event : JoiningEvent ι} (hcard : Fintype.card ι < 2 ^ 32)
    (h : s.clients.Orderly) (hstep : CleanStep s event s') : s'.clients.Orderly := by
  rcases hstep.clients with heq | ⟨event, hstep, hclean⟩
  · rw [heq]
    exact h
  · exact h.step hcard hclean hstep

/-- Until the queue is empty its last thread is joined, or a thread at the monitor
goes on, or that last thread makes its next call. -/
theorem exists_cleanStep (h : s.clients.Orderly) (hqueue : s.threadQueue ≠ []) :
    ∃ event s', JoiningEvent.IsOwn event ∧ CleanStep s event s' := by
  obtain ⟨others, tid, hlast⟩ := (List.eq_nil_or_concat' s.threadQueue).resolve_left hqueue
  by_cases hempty : s.clients.threads = Threads.init
  · have hout : s.clients.inside tid = false := by
      by_contra hin
      exact h.entered tid (Bool.eq_true_of_not_eq_false hin) (by rw [hempty]; rfl)
    cases hcalls : s.calls tid with
    | nil => exact ⟨.joins, _, ⟨trivial, by simp⟩, trivial, .joins hlast ⟨hout, hcalls⟩⟩
    | cons role others =>
        obtain ⟨clients, hstep⟩ := Clients.exists_enters hempty hout role
        have hown : JoiningEvent.IsOwn (.client tid (.enters role.entry)) :=
          ⟨ClientAct.noConfusion, by simp⟩
        exact ⟨_, _, hown, trivial, .enters hcalls hstep⟩
  · obtain ⟨i, act, clients, ⟨hdue, hact⟩, hclean, hstep⟩ := h.exists_step hempty
    have hown : JoiningEvent.IsOwn (.client i act) := ⟨hdue, by simp⟩
    cases act with
    | enters entry => exact absurd rfl (hact entry)
    | waits act => exact ⟨_, _, hown, hclean, .waits hstep⟩
    | returns calls => exact ⟨_, _, hown, hclean, .returns hclean hstep⟩

/-- When no read, write or resize has failed up to the end of the main loop, nor fails
afterwards, every recorded thread is joined: whatever calls the threads have still to make, at
whatever point of their calls they are, and in whatever order they go on. -/
theorem shutdown_joins (hcard : Fintype.card ι < 2 ^ 32) {clients : Clients ι}
    {events : List (ι × ClientAct)} (hrun : Run Clients.Step Clients.init events clients)
    (hclean : ∀ event ∈ events, Clients.Clean event) (calls : ι → List Role)
    (threadQueue : List ι) :
    Drains CleanStep (fun _ event => event.IsOwn) (fun s => s.threadQueue = [])
      (6 * load calls List.length + 5 * Fintype.card ι + threadQueue.length)
      ⟨clients, calls, threadQueue⟩ :=
  Drains.of_measure (fun s => s.clients.Orderly) stepsLeft
    (fun _ _ _ h hstep => hstep.orderly hcard h) (fun _ _ _ _ hstep => hstep.2.stepsLeft_lt)
    (fun _ h hnot => exists_cleanStep h hnot) (Clients.orderly_of_run hcard hrun hclean)
    (stepsLeft_le _)

/-- The threads are joined while a writer is inside its call, a reader sleeps in its own, and
each of them may read once more. -/
theorem shutdown_joins_writerAndReader : ∃ clients : Clients Bool,
    clients.threads = Threads.writerAndReader ∧
      Drains CleanStep (fun _ event => event.IsOwn) (fun s => s.threadQueue = []) 24
        ⟨clients, fun _ => [.reader], [true, false]⟩ := by
  obtain ⟨clients, hrun, hthreads, -⟩ := Clients.run_writerAndReader
  have hclean : ∀ event ∈ [(false, ClientAct.enters .startWriting), (true, .enters .startReading)],
      Clients.Clean event := by simp [Clients.Clean]
  have hbound : 6 * load (fun _ : Bool => [Role.reader]) List.length + 5 * Fintype.card Bool +
      [true, false].length = 24 := by decide
  exact ⟨clients, hthreads, hbound ▸ shutdown_joins (by decide) hrun hclean _ _⟩

/-! ## A write that failed -/

variable {i j : ι}

/-- Writer `i` has left without its stop function, nobody reads, and thread `j`, which
sleeps, is still to be joined. -/
structure Stuck (i j : ι) (s : Joining ι) : Prop where
  counted : s.clients.threads.Counted
  writing : s.clients.threads.place i = .active .writer
  noReader : s.clients.threads.NoReader
  gone : s.clients.inside i = false
  asleep : ∃ role, s.clients.threads.place j = .asleep role
  inside : s.clients.inside j = true
  queued : j ∈ s.threadQueue

/-- No step of a thread changes that. -/
theorem Stuck.client (hcard : Fintype.card ι < 2 ^ 32) (h : Stuck i j s) {k : ι} {act : ClientAct}
    (hdue : act ≠ .waits .spuriousWakeup) {clients : Clients ι} {calls : ι → List Role}
    (hstep : Clients.Step s.clients (k, act) clients) :
    Stuck i j ⟨clients, calls, s.threadQueue⟩ := by
  obtain ⟨role, hasleep⟩ := h.asleep
  have hki : i ≠ k := by
    rintro rfl
    exact Clients.not_step_of_abandoned h.gone h.writing hstep
  have hkj : j ≠ k := by
    rintro rfl
    exact Clients.not_step_of_asleep h.inside hasleep hdue hstep
  have hgone := (hstep.inside_of_ne hki).trans h.gone
  have hinside := (hstep.inside_of_ne hkj).trans h.inside
  have hs := And.intro h.counted (And.intro h.writing h.noReader)
  rcases hstep.others hki.symm hdue with heq | ⟨event, hothers⟩
  · rw [← heq] at hs hasleep
    exact ⟨hs.1, hs.2.1, hs.2.2, hgone, ⟨role, hasleep⟩, hinside, h.queued⟩
  · obtain ⟨hcounted, hwriting, hnone⟩ := hothers.keeps hcard hs
    exact ⟨hcounted, hwriting, hnone, hgone, ⟨role, hothers.asleep hcard hs hasleep⟩, hinside,
      h.queued⟩

theorem Stuck.step (hcard : Fintype.card ι < 2 ^ 32) (h : Stuck i j s) {event : JoiningEvent ι}
    (hstep : DueStep s event s') : Stuck i j s' := by
  obtain ⟨hdue, hstep⟩ := hstep
  cases hstep with
  | enters _ hstep => exact h.client hcard hdue hstep
  | waits hstep => exact h.client hcard hdue hstep
  | returns _ hstep => exact h.client hcard hdue hstep
  | fails _ hstep => exact h.client hcard hdue hstep
  | leaves => exact ⟨h.counted, h.writing, h.noReader, h.gone, h.asleep, h.inside, h.queued⟩
  | @joins others tid hqueue hended =>
      have hmem := h.queued
      rw [hqueue, List.mem_append, List.mem_singleton] at hmem
      rcases hmem with hmem | rfl
      · exact ⟨h.counted, h.writing, h.noReader, h.gone, h.asleep, h.inside, hmem⟩
      · have hinside := h.inside
        rw [hended.1] at hinside
        cases hinside

/-- After a write that failed while nobody was reading, a thread that sleeps is never joined:
there are only so many steps left without a spurious wake-up, and after none of them has the
thread been woken or the queue been emptied. -/
theorem shutdown_hangs (hcard : Fintype.card ι < 2 ^ 32) {clients : Clients ι}
    {events : List (ι × ClientAct)} (hrun : Run Clients.Step Clients.init events clients)
    (hgone : clients.inside i = false) (hwriting : clients.threads.place i = .active .writer)
    (hnone : clients.threads.NoReader) {role : Role}
    (hasleep : clients.threads.place j = .asleep role) (calls : ι → List Role)
    {threadQueue : List ι} (hqueued : j ∈ threadQueue) {more : List (JoiningEvent ι)}
    (hmore : Run DueStep ⟨clients, calls, threadQueue⟩ more s') :
    more.length ≤ 6 * load calls List.length + 5 * Fintype.card ι + threadQueue.length ∧
      (∃ role, s'.clients.threads.place j = .asleep role) ∧ j ∈ s'.threadQueue := by
  obtain ⟨front, hfront⟩ := Clients.reachable_of_run hrun
  have hstart : Stuck i j ⟨clients, calls, threadQueue⟩ :=
    ⟨Threads.counted_of_run hcard hfront, hwriting, hnone, hgone, ⟨role, hasleep⟩,
      (Clients.settled_of_run hrun).inside_of_asleep hasleep, hqueued⟩
  have hstuck := hmore.invariant (Stuck i j) (fun _ _ _ h hstep => h.step hcard hstep) hstart
  refine ⟨?_, hstuck.asleep, hstuck.queued⟩
  have hlength := hmore.length_add_le (fun _ => True) stepsLeft (fun _ _ _ _ _ => trivial)
    (fun _ _ _ _ hstep => hstep.2.stepsLeft_lt) trivial
  exact Nat.le_trans (Nat.le_of_add_right_le hlength) (stepsLeft_le _)

/-- A first write that fails. -/
theorem callOf_write_failed : CallOf .writer [.startWriting, .write 3 [97] .failed] := by
  have hreturns : aesdsocketWriteLine (Source.os fun _ => .moved).logged 2 3
      ⟨(⟨[], 0⟩, []), ⟨[some [some 97, some 0]]⟩⟩ (some 0) =
      .ok (⟨(⟨[], 0⟩, [.startWriting, .write 3 [97] .failed]), ⟨[some [some 97, some 0]]⟩⟩,
        false) := by decide +kernel
  exact .write hreturns rfl

/-- The writer whose write failed is joined, and the reader behind it is not. -/
theorem shutdown_hangs_reader : ∃ (clients : Clients Bool) (s : Joining Bool),
    Run DueStep ⟨clients, fun _ => [], [true, false]⟩ [.joins] s ∧ s.threadQueue = [true] ∧
      (∃ role, s.clients.threads.place true = .asleep role) ∧ true ∈ s.threadQueue := by
  obtain ⟨clients, hrun, hthreads, hinside⟩ := Clients.run_writerAndReader
  have hplace : clients.threads.place false = .active .writer := congrArg (·.place false) hthreads
  have hasleep : clients.threads.place true = .asleep .reader := congrArg (·.place true) hthreads
  have hnone : clients.threads.NoReader := hthreads ▸ Threads.writerAndReader_noReader
  let gone : Clients Bool := ⟨clients.threads, Function.update clients.inside false false⟩
  have hfails : Clients.Step clients
      (false, .returns [.startWriting, .write 3 [97] .failed]) gone :=
    .abandons hinside hplace callOf_write_failed (by decide)
  have hgone : gone.inside false = false := Function.update_self false false clients.inside
  have hqueue : [true, false] = [true] ++ [false] := rfl
  have hjoins : DueStep ⟨gone, fun _ => [], [true, false]⟩ .joins ⟨gone, fun _ => [], [true]⟩ :=
    ⟨trivial, .joins hqueue ⟨hgone, rfl⟩⟩
  have hhangs := shutdown_hangs (by decide) (.snoc hrun hfails) hgone hplace hnone hasleep _
    List.mem_cons_self (.single hjoins)
  exact ⟨gone, _, .single hjoins, rfl, hhangs.2⟩

end Joining

end Aesd


import Aesd.Monitor.Counters
import Aesd.Server.Reception
import Aesd.Server.SystemCalls

/-!
# Clients at the monitor

Every client calls the functions that read and write lines, one call after the
other, and all calls interleave at the monitor. A call that meets an error leaves
without its stop function, and the monitor goes on counting its thread.
-/

namespace Aesd

open CSem Tally Transition

/-! ## One call -/

/-- The calls that one execution of `aesdsocket_read_line` or
`aesdsocket_write_line` makes, whatever the environment answers. -/
inductive CallOf : Role → List SystemCall → Prop
  | read {σ : Type} {os : Os σ} {fuel fd : Nat} {proc proc' : Process (Logged σ)}
      {line line' : Option Ptr} {eof eof' ok : Bool} {calls : List SystemCall}
      (hreturns : aesdsocketReadLine os.logged fuel fd proc line eof =
        .ok (proc', ok, line', eof'))
      (hadds : Adds proc.state proc'.state calls) : CallOf .reader calls
  | write {σ : Type} {os : Os σ} {fuel fd : Nat} {proc proc' : Process (Logged σ)}
      {line : Option Ptr} {ok : Bool} {calls : List SystemCall}
      (hreturns : aesdsocketWriteLine os.logged fuel fd proc line = .ok (proc', ok))
      (hadds : Adds proc.state proc'.state calls) : CallOf .writer calls

def Role.start : Role → SystemCall
  | .reader => .startReading
  | .writer => .startWriting

def Role.stop : Role → SystemCall
  | .reader => .stopReading
  | .writer => .stopWriting

/-- A call of a function of the monitor. -/
def SystemCall.isMonitor : SystemCall → Bool
  | .startReading | .stopReading | .startWriting | .stopWriting => true
  | _ => false

theorem CallsOf.filter_isMonitor {kind : SystemCall → Bool} {calls : List SystemCall}
    {failed : Bool} (h : CallsOf kind calls failed)
    (hkind : ∀ call : SystemCall, kind call = true → call.isMonitor = false) :
    calls.filter SystemCall.isMonitor = [] := by
  apply List.filter_eq_nil_iff.mpr
  intro call hmem
  rw [hkind call (h.kind call hmem)]
  exact Bool.false_ne_true

/-- A call uses the monitor between its start and its stop, and leaves out the
stop exactly when something failed. -/
theorem monitorCalls_of_bracket {kind : SystemCall → Bool} {calls : List SystemCall}
    {failed : Bool} (h : CallsOf kind calls failed)
    (hkind : ∀ call : SystemCall, kind call = true → call.isMonitor = false) (role : Role) :
    let all := [role.start] ++ calls ++ (if failed then [] else [role.stop])
    all.filter SystemCall.isMonitor =
      if all.any SystemCall.isFailure then [role.start] else [role.start, role.stop] := by
  have hnone := h.filter_isMonitor hkind
  have hfailed := h.failed_eq
  simp only [List.filter_append, hnone, List.any_append, hfailed]
  cases failed <;> cases role <;> rfl

theorem isReadOrResize_not_isMonitor (call : SystemCall) (hkind : call.isReadOrResize = true) :
    call.isMonitor = false := by
  cases call with
  | read => rfl
  | realloc => rfl
  | _ => cases hkind

theorem isWrite_not_isMonitor (call : SystemCall) (hkind : call.isWrite = true) :
    call.isMonitor = false := by
  cases call with
  | write => rfl
  | _ => cases hkind

theorem CallOf.monitorCalls {role : Role} {calls : List SystemCall} (hcall : CallOf role calls) :
    calls.filter SystemCall.isMonitor =
      if calls.any SystemCall.isFailure then [role.start] else [role.start, role.stop] := by
  cases hcall with
  | read hreturns hadds =>
      obtain ⟨body, failed, hbody, hadds'⟩ := readLine_adds hreturns
      rw [hadds.unique hadds']
      exact monitorCalls_of_bracket hbody isReadOrResize_not_isMonitor .reader
  | write hreturns hadds =>
      obtain ⟨body, failed, hbody, hadds', _⟩ := writeLine_adds hreturns
      rw [hadds.unique hadds']
      exact monitorCalls_of_bracket hbody isWrite_not_isMonitor .writer

/-- A call that met no failure stopped what it had started. -/
theorem CallOf.stops {role : Role} {calls : List SystemCall} (hcall : CallOf role calls)
    (hclean : calls.any SystemCall.isFailure = false) : role.stop ∈ calls := by
  have hmonitor := hcall.monitorCalls
  rw [hclean, if_neg Bool.false_ne_true] at hmonitor
  apply List.mem_of_mem_filter
  rw [hmonitor]
  exact List.mem_cons_of_mem _ List.mem_cons_self

/-! ## Interleaved calls -/

/-- The threads at the monitor, and which of them are inside a call. -/
structure Clients (ι : Type) where
  threads : Threads ι
  inside : ι → Bool

/-- A section of a start function, or the return of a call that has made these
calls. -/
inductive ClientAct
  | enters (act : Section)
  | waits (act : Section)
  | returns (calls : List SystemCall)

namespace Clients

variable {ι : Type} [DecidableEq ι]

def init : Clients ι := ⟨Threads.init, fun _ => false⟩

/-- A step of one client. The body of a call is executed between the start
function and the return; its stop function is a step of the monitor, and a call
that does not reach it returns without one. Then the thread has left
`aesdsocket_serve` and ends. -/
inductive Step : Clients ι → ι × ClientAct → Clients ι → Prop
  | enters {s : Clients ι} {i : ι} {act : Section} {threads : Threads ι}
      (houtside : s.inside i = false) (hact : act = .startReading ∨ act = .startWriting)
      (hstep : Threads.Step s.threads (i, act) threads) :
      Step s (i, .enters act) ⟨threads, Function.update s.inside i true⟩
  | waits {s : Clients ι} {i : ι} {act : Section} {threads : Threads ι}
      (hact : act = .spuriousWakeup ∨ act = .resume ∨ act = .announce)
      (hstep : Threads.Step s.threads (i, act) threads) :
      Step s (i, .waits act) ⟨threads, s.inside⟩
  | stops {s : Clients ι} {i : ι} {role : Role} {calls : List SystemCall} {threads : Threads ι}
      (hinside : s.inside i = true) (hplace : s.threads.place i = .active role)
      (hcall : CallOf role calls) (hstop : role.stop ∈ calls)
      (hstep : Threads.Step s.threads (i, .stop) threads) :
      Step s (i, .returns calls) ⟨threads, Function.update s.inside i false⟩
  | abandons {s : Clients ι} {i : ι} {role : Role} {calls : List SystemCall}
      (hinside : s.inside i = true) (hplace : s.threads.place i = .active role)
      (hcall : CallOf role calls) (hnot : role.stop ∉ calls) :
      Step s (i, .returns calls) ⟨s.threads, Function.update s.inside i false⟩

/-- No call that returns in this step met a failing read, write or resize. -/
def Clean : ι × ClientAct → Prop
  | (_, .returns calls) => calls.any SystemCall.isFailure = false
  | _ => True

/-- The counters are right, and a client between its calls is not counted. -/
structure Released [Fintype ι] (s : Clients ι) : Prop where
  counted : s.threads.Counted
  outside : ∀ i, s.inside i = false → s.threads.place i = .outside

omit [DecidableEq ι] in
theorem init_released [Fintype ι] : Released (init : Clients ι) :=
  ⟨Threads.init_counted, fun _ _ => rfl⟩

/-- A step of another thread does not bring a thread in. -/
theorem outside_of_step {threads threads' : Threads ι} {i j : ι} {act : Section}
    (hstep : Threads.Step threads (i, act) threads') (hne : j ≠ i)
    (hplace : threads.place j = .outside) : threads'.place j = .outside := by
  obtain ⟨place, monitor, signal, rfl, _⟩ := Threads.Step.moves hstep
  rw [Threads.move_place_of_ne threads hne, hplace, Place.wakeBy_outside]

variable [Fintype ι]

theorem Released.step {s s' : Clients ι} {event : ι × ClientAct} (h : Released s)
    (hcard : Fintype.card ι < 2 ^ 32) (hstep : Step s event s') (hclean : Clean event) :
    Released s' := by
  cases hstep with
  | @enters i act threads houtside hact hstep =>
      refine ⟨h.counted.step hcard hstep, fun j hj => ?_⟩
      have hj : Function.update s.inside i true j = false := hj
      have hne : j ≠ i := by
        rintro rfl
        rw [Function.update_self] at hj
        cases hj
      rw [Function.update_of_ne hne] at hj
      exact outside_of_step hstep hne (h.outside j hj)
  | @waits i act threads hact hstep =>
      refine ⟨h.counted.step hcard hstep, fun j hj => ?_⟩
      have hplace := h.outside j hj
      by_cases hne : j = i
      · -- a thread that waits is inside its call
        subst hne
        obtain ⟨place, monitor, signal, _, hmoves⟩ := Threads.Step.moves hstep
        rw [hplace] at hmoves
        rcases hact with rfl | rfl | rfl <;> cases hmoves
      · exact outside_of_step hstep hne hplace
  | @stops i role calls threads hinside hplace hcall hstop hstep =>
      refine ⟨h.counted.step hcard hstep, fun j hj => ?_⟩
      by_cases hne : j = i
      · subst hne
        obtain ⟨place, monitor, signal, rfl, hmoves⟩ := Threads.Step.moves hstep
        rw [hplace] at hmoves
        rw [Threads.move_place_self]
        cases hmoves with
        | readStops => exact Place.wakeBy_outside _
        | writeStops => exact Place.wakeBy_outside _
      · have hj : Function.update s.inside i false j = false := hj
        rw [Function.update_of_ne hne] at hj
        exact outside_of_step hstep hne (h.outside j hj)
  | abandons hinside hplace hcall hnot => exact absurd (hcall.stops hclean) hnot

/-- As long as nothing fails the monitor counts the threads that are inside a
call, and no other. -/
theorem released_of_run {s : Clients ι} {events : List (ι × ClientAct)}
    (hcard : Fintype.card ι < 2 ^ 32) (hrun : Run Step init events s)
    (hclean : ∀ event ∈ events, Clean event) : Released s :=
  (hrun.restrict hclean).invariant Released
    (fun _ _ _ h hstep => h.step hcard hstep.2 hstep.1) init_released

omit [DecidableEq ι] in
/-- A monitor that counts nobody. -/
theorem Released.idle {s : Clients ι} (h : Released s) (hidle : ∀ i, s.inside i = false) :
    s.threads.monitor = Monitor.init := by
  have hzero : ∀ p : Place → Bool, p .outside = false → tally s.threads.place p = 0 := by
    intro p hp
    apply tally_eq_zero_iff.mpr
    intro i
    rw [h.outside i (hidle i)]
    exact hp
  calc s.threads.monitor
      = ⟨s.threads.monitor.activeReaders, s.threads.monitor.activeWriters,
          s.threads.monitor.waitingReaders, s.threads.monitor.waitingWriters⟩ := rfl
    _ = Monitor.init := by
        rw [h.counted.activeReaders, h.counted.activeWriters, h.counted.waitingReaders,
          h.counted.waitingWriters, hzero _ rfl, hzero _ rfl, hzero _ rfl, hzero _ rfl]
        rfl

/-- Reading at the end of a file. -/
theorem callOf_read_ended : CallOf .reader [.startReading, .read (.done []), .stopReading] := by
  have hreturns : aesdsocketReadLine (Source.os fun _ => .moved).logged 2 3
      ⟨(⟨[], 0⟩, []), Heap.empty⟩ none false =
      .ok (⟨(⟨[], 0⟩, [.startReading, .read (.done []), .stopReading]), Heap.empty⟩, true, none,
        true) := by decide +kernel
  exact .read hreturns rfl

/-- A first read that fails. -/
theorem callOf_read_failed : CallOf .reader [.startReading, .read .failed] := by
  have hreturns : aesdsocketReadLine (Source.os fun _ => .moved).logged 2 3
      ⟨(⟨[.failed], 0⟩, []), Heap.empty⟩ none false =
      .ok (⟨(⟨[], 0⟩, [.startReading, .read .failed]), Heap.empty⟩, false, none, false) := by
    decide +kernel
  exact .read hreturns rfl

/-- A single client goes through the call of a reader. -/
theorem run_reader {calls : List SystemCall} (hcall : CallOf .reader calls) :
    ∃ s : Clients Unit, Run Step init
        [((), .enters .startReading), ((), .waits .announce), ((), .returns calls)] s ∧
      (∀ i, s.inside i = false) ∧
      (.stopReading ∉ calls → s.threads.monitor.activeReaders = 1) := by
  let entered : Threads Unit := Threads.init.move () .announcing ⟨1, 0, 0, 0⟩ none
  let reading : Threads Unit := entered.move () (.active .reader) ⟨1, 0, 0, 0⟩ (some .canRead)
  have henters : Step init ((), .enters .startReading) ⟨entered, Function.update _ () true⟩ :=
    .enters rfl (Or.inl rfl) rfl
  have hwaits : Step ⟨entered, fun _ => true⟩ ((), .waits .announce) ⟨reading, fun _ => true⟩ :=
    .waits (Or.inr (Or.inr rfl)) rfl
  have hinside : Function.update (init : Clients Unit).inside () true = fun _ => true := rfl
  rw [hinside] at henters
  by_cases hstop : .stopReading ∈ calls
  · have hstops : Step ⟨reading, fun _ => true⟩ ((), .returns calls) _ :=
      .stops rfl rfl hcall hstop rfl
    exact ⟨_, .snoc (.snoc (.single henters) hwaits) hstops, fun _ => rfl, fun hnot =>
      absurd hstop hnot⟩
  · have habandons : Step ⟨reading, fun _ => true⟩ ((), .returns calls) _ :=
      .abandons rfl rfl hcall hstop
    exact ⟨_, .snoc (.snoc (.single henters) hwaits) habandons, fun _ => rfl, fun _ => rfl⟩

/-- A call stops what it has started if and only if none of its reads, writes and
resizes fails. In every run without such a failure the monitor counts exactly
the threads inside a call, so that between all calls it is as new and lets the
next reader or writer in. -/
theorem monitor_released {s : Clients ι} {events : List (ι × ClientAct)}
    (hcard : Fintype.card ι < 2 ^ 32) (hrun : Run Step init events s)
    (hclean : ∀ event ∈ events, Clean event) :
    (∀ role calls, CallOf role calls → calls.filter SystemCall.isMonitor =
      if calls.any SystemCall.isFailure then [role.start] else [role.start, role.stop]) ∧
    s.threads.Counted ∧ (∀ i, s.inside i = false → s.threads.place i = .outside) ∧
    ((∀ i, s.inside i = false) → s.threads.monitor = Monitor.init ∧
      s.threads.monitor.startReading.2 = false ∧ s.threads.monitor.startWriting.2 = false) := by
  have hreleased := released_of_run hcard hrun hclean
  refine ⟨fun role calls hcall => hcall.monitorCalls, hreleased.counted, hreleased.outside, ?_⟩
  intro hidle
  rw [hreleased.idle hidle]
  exact ⟨rfl, rfl, rfl⟩

theorem monitor_released_read : ∃ s : Clients Unit, Run Step init
      [((), .enters .startReading), ((), .waits .announce),
        ((), .returns [.startReading, .read (.done []), .stopReading])] s ∧
    s.threads.monitor = Monitor.init := by
  obtain ⟨s, hrun, hidle, _⟩ := run_reader callOf_read_ended
  have hclean : ∀ event ∈ [((), ClientAct.enters .startReading), ((), .waits .announce),
      ((), .returns [.startReading, .read (.done []), .stopReading])], Clean event := by
    simp [Clean, SystemCall.isFailure]
  exact ⟨s, hrun, ((monitor_released (by decide) hrun hclean).2.2.2 hidle).1⟩

/-- After a failed read nobody is inside a call, and a reader is counted. -/
theorem monitor_not_released : ¬ ∀ (events : List (Unit × ClientAct)) (s : Clients Unit),
    Run Step init events s → (∀ i, s.inside i = false) → s.threads.monitor = Monitor.init := by
  intro hall
  obtain ⟨s, hrun, hidle, hcounted⟩ := run_reader callOf_read_failed
  have hactive := hcounted (by decide)
  rw [hall _ s hrun hidle] at hactive
  exact absurd hactive (by decide)

end Clients

end Aesd

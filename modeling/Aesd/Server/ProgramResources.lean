import Aesd.Server.ProgramRuns

/-!
# Resources of the program

What the server itself has acquired is given back whatever call fails, but a
timer whose id is the null pointer is taken for none.
-/

namespace Aesd

open CSem Ledger Transition

/-- The calls of the set-up in their order. -/
def SetUp.rank : SetUp → Nat
  | .daemonize => 0
  | .sigaction => 1
  | .getaddrinfo => 2
  | .socket => 3
  | .setsockopt => 4
  | .bind => 5
  | .listen => 6
  | .queueNew => 7
  | .monitorNew => 8
  | .alarmAction => 9
  | .timerCreate => 10
  | .timerSettime => 11

/-- The call by which the server acquires a resource. -/
def ServerResource.call : ServerResource → SetUp
  | .addrinfo => .getaddrinfo
  | .sockfd => .socket
  | .threadQueue => .queueNew
  | .monitor => .monitorNew
  | .timer => .timerCreate

namespace ProgramPhase

def rank : ProgramPhase → Nat
  | .setUp _ => 0
  | .loop => 1
  | .deleteTimer => 2
  | .join => 3
  | .destroyQueue => 4
  | .clean => 5
  | .closeSocket => 6
  | .removeFile => 7
  | .returned => 8
  | .faulted _ => 9

/-- `aesdsocket_open_listening_socket` has the addresses. -/
def resolved : ProgramPhase → Bool
  | .setUp stage => SetUp.getaddrinfo.rank < stage.rank && stage.rank ≤ SetUp.listen.rank
  | _ => false

/-- `aesdsocket_open_listening_socket` has the socket and has not stored it. -/
def opened : ProgramPhase → Bool
  | .setUp stage => SetUp.socket.rank < stage.rank && stage.rank ≤ SetUp.listen.rank
  | _ => false

end ProgramPhase

/-- How often the monitor is still to be destroyed. -/
def MainPlace.monitorCalls : MainPlace → Nat
  | .cleans todo _ => todo.count (.note .destroyedMonitor)
  | .returned _ => 0
  | _ => 1

theorem Mainloop.count_done (s : Mainloop) : s.done.count (.note .destroyedMonitor) = 1 := by
  have hfree : ∀ p, (freeString p).count (.note .destroyedMonitor) = 0 := by
    intro p
    cases p with
    | garbage nonNull => cases nonNull <;> rfl
    | null => rfl
    | block r => rfl
  have hclose : (closeOpen s.connSockfd).count (.note .destroyedMonitor) = 0 := by
    cases s.connSockfd <;> rfl
  rw [done, List.count_append, hclose]
  cases s.threadArg with
  | none => rfl
  | some arg => simp only [List.count_append, hfree]; rfl

namespace Program

variable {config : Config} {s s' : Program} {event : ProgramEvent}

/-- How often a resource is still to be released. A timer that is taken for none
never is. -/
def owed (s : Program) : ServerResource → Nat
  | .addrinfo => s.phase.resolved.toNat
  | .sockfd => (s.phase.opened || s.sockfd && s.phase.rank ≤ ProgramPhase.closeSocket.rank).toNat
  | .threadQueue => (s.threadQueue.isSome && s.phase.rank ≤ ProgramPhase.destroyQueue.rank).toNat
  | .monitor => if s.writeFileMonitor then s.main.place.monitorCalls else 0
  | .timer => (s.timestampTimer && s.phase.rank ≤ ProgramPhase.deleteTimer.rank).toNat +
      s.log.count (.note .nullTimer)

/-- Before a call of the set-up, what the calls before it have stored. -/
structure Started (s : Program) (stage : SetUp) : Prop where
  sockfd : s.sockfd = decide (SetUp.listen.rank < stage.rank)
  threadQueue : s.threadQueue.isSome = decide (SetUp.queueNew.rank < stage.rank)
  monitor : s.writeFileMonitor = decide (SetUp.monitorNew.rank < stage.rank)
  timer : stage.rank ≤ SetUp.timerCreate.rank → s.timestampTimer = false
  acquired : ∀ r, .acquired r ∈ s.log → r.call.rank < stage.rank

/-- What holds throughout a run. -/
structure Accounts (s : Program) : Prop extends Fits s where
  started : ∀ stage, s.phase = .setUp stage → s.Started stage
  once : Once s.log
  balanced : Balanced s.log s.owed

theorem init_accounts (config : Config) : Accounts (init config) := by
  have hfirst : SetUp.first config = .daemonize ∨ SetUp.first config = .sigaction := by
    unfold SetUp.first
    split
    · exact Or.inl rfl
    · exact Or.inr rfl
  have hinit : (init config).phase = .setUp (.first config) := rfl
  refine ⟨init_fits config, ?_, fun _ => Nat.zero_le 1, ?_⟩
  · intro stage hphase
    obtain rfl : SetUp.first config = stage := ProgramPhase.setUp.inj (hinit.symm.trans hphase)
    rcases hfirst with h | h <;> rw [h] <;>
      exact ⟨rfl, rfl, rfl, fun _ => rfl, fun _ hmem => absurd hmem List.not_mem_nil⟩
  · intro r
    rcases hfirst with h | h <;> rw [h] at hinit <;> cases r <;> simp only [owed, hinit] <;> rfl

/-! ## The set-up -/

/-- Only the call that acquires a resource does. -/
theorem gains_acquired {stage : SetUp} {r : ServerResource} (hmem : .acquired r ∈ stage.gains) :
    r.call = stage := by
  cases stage <;> simp only [SetUp.gains, List.mem_singleton, List.not_mem_nil, reduceCtorEq,
    Entry.acquired.injEq] at hmem <;> rw [hmem] <;> rfl

/-- The calls come in their order. -/
theorem next_rank {stage stage' : SetUp} (hnext : stage.next config = some stage') :
    stage'.rank = stage.rank + 1 := by
  cases stage with
  | monitorNew =>
      simp only [SetUp.next] at hnext
      split at hnext <;> cases hnext
      rfl
  | timerSettime => cases hnext
  | _ =>
      cases hnext
      rfl

section Proceed

variable (config : Config) (s : Program) (stage : SetUp)

theorem proceed_phase :
    (s.proceed config stage).phase = (stage.next config).elim .loop .setUp := by
  cases stage <;> rfl

theorem proceed_sockfd :
    (s.proceed config stage).sockfd = (stage == .listen || s.sockfd) := by
  cases stage <;> rfl

theorem proceed_threadQueue : (s.proceed config stage).threadQueue.isSome =
    (stage == .queueNew || s.threadQueue.isSome) := by
  cases stage <;> rfl

theorem proceed_writeFileMonitor : (s.proceed config stage).writeFileMonitor =
    (stage == .monitorNew || s.writeFileMonitor) := by
  cases stage <;> rfl

theorem proceed_timestampTimer :
    (s.proceed config stage).timestampTimer = s.timestampTimer := by
  cases stage <;> rfl

theorem proceed_main : (s.proceed config stage).main = s.main := by
  cases stage <;> rfl

theorem proceed_log : (s.proceed config stage).log = s.log ++ stage.gains := by
  cases stage <;> rfl

end Proceed

variable {stage : SetUp}

theorem Started.proceed (h : s.Started stage) (hstage : stage ≠ .timerCreate) {stage' : SetUp}
    (hnext : stage.next config = some stage') : (s.proceed config stage).Started stage' := by
  have hrank := next_rank hnext
  refine ⟨?_, ?_, ?_, ?_, ?_⟩
  · rw [proceed_sockfd, h.sockfd, hrank]
    cases stage <;> rfl
  · rw [proceed_threadQueue, h.threadQueue, hrank]
    cases stage <;> rfl
  · rw [proceed_writeFileMonitor, h.monitor, hrank]
    cases stage <;> rfl
  · intro hle
    rw [proceed_timestampTimer]
    exact h.timer (by omega)
  · intro r hmem
    rw [proceed_log] at hmem
    rcases List.mem_append.mp hmem with hmem | hmem
    · exact Nat.lt_of_lt_of_le (h.acquired r hmem) (by omega)
    · rw [gains_acquired hmem, hrank]
      exact Nat.lt_succ_self _

/-- After the last call the loop begins. -/
theorem proceed_phase_cases (config : Config) (s : Program) (stage : SetUp) :
    (∃ stage', stage.next config = some stage' ∧ stage'.rank = stage.rank + 1 ∧
      (s.proceed config stage).phase = .setUp stage') ∨
    SetUp.listen.rank < stage.rank ∧ (s.proceed config stage).phase = .loop := by
  have hphase := proceed_phase config s stage
  cases hnext : stage.next config with
  | some stage' =>
      rw [hnext] at hphase
      exact Or.inl ⟨stage', rfl, next_rank hnext, hphase⟩
  | none =>
      rw [hnext] at hphase
      refine Or.inr ⟨?_, hphase⟩
      cases stage with
      | monitorNew => decide
      | timerSettime => decide
      | _ => cases hnext

theorem proceed_resolved (config : Config) (s : Program) (stage : SetUp) :
    (s.proceed config stage).phase.resolved =
      (SetUp.getaddrinfo.rank ≤ stage.rank && stage.rank < SetUp.listen.rank) := by
  obtain ⟨stage', -, hrank, hphase⟩ | ⟨hlast, hphase⟩ := proceed_phase_cases config s stage
  · simp only [hphase, ProgramPhase.resolved, hrank, Nat.lt_succ_iff, Nat.succ_le_iff]
  · rw [hphase, decide_eq_false (Nat.lt_asymm hlast), Bool.and_false]
    rfl

theorem proceed_opened (config : Config) (s : Program) (stage : SetUp) :
    (s.proceed config stage).phase.opened =
      (SetUp.socket.rank ≤ stage.rank && stage.rank < SetUp.listen.rank) := by
  obtain ⟨stage', -, hrank, hphase⟩ | ⟨hlast, hphase⟩ := proceed_phase_cases config s stage
  · simp only [hphase, ProgramPhase.opened, hrank, Nat.lt_succ_iff, Nat.succ_le_iff]
  · rw [hphase, decide_eq_false (Nat.lt_asymm hlast), Bool.and_false]
    rfl

theorem proceed_phase_rank (config : Config) (s : Program) (stage : SetUp) :
    (s.proceed config stage).phase.rank ≤ 1 := by
  obtain ⟨stage', -, -, hphase⟩ | ⟨-, hphase⟩ := proceed_phase_cases config s stage
  · rw [hphase]
    exact Nat.zero_le 1
  · rw [hphase]
    exact Nat.le_refl 1

/-- What a call acquires is owed from then on. -/
theorem Started.owed_proceed (h : s.Started stage) (hphase : s.phase = .setUp stage)
    (hmain : s.main = Mainloop.init) (hstage : stage ≠ .timerCreate) (r : ServerResource) :
    releases stage.gains r + (s.proceed config stage).owed r =
      s.owed r + acquisitions stage.gains r := by
  have hearly : ∀ rank, 1 ≤ rank → decide ((s.proceed config stage).phase.rank ≤ rank) = true :=
    fun rank hle => decide_eq_true (Nat.le_trans (proceed_phase_rank config s stage) hle)
  cases r with
  | addrinfo =>
      simp only [owed, proceed_resolved, hphase]
      cases stage <;> rfl
  | sockfd =>
      simp only [owed, proceed_opened, proceed_sockfd, h.sockfd, hphase,
        hearly ProgramPhase.closeSocket.rank (by decide)]
      cases stage <;> rfl
  | threadQueue =>
      simp only [owed, proceed_threadQueue, h.threadQueue, hphase,
        hearly ProgramPhase.destroyQueue.rank (by decide)]
      cases stage <;> rfl
  | monitor =>
      have hcalls : s.main.place.monitorCalls = 1 := by rw [hmain]; rfl
      simp only [owed, proceed_writeFileMonitor, proceed_main, h.monitor, hcalls]
      cases stage <;> rfl
  | timer =>
      have hnull : stage.gains.count (.note .nullTimer) = 0 := by cases stage <;> rfl
      have hnone : releases stage.gains .timer = acquisitions stage.gains .timer := by
        cases stage with
        | timerCreate => exact absurd rfl hstage
        | _ => rfl
      simp only [owed, proceed_timestampTimer, proceed_log, List.count_append, hnull, hphase,
        hearly ProgramPhase.deleteTimer.rank (by decide), hnone, Nat.add_zero]
      exact Nat.add_comm _ _

/-- What was acquired when a call fails is given up or still owed. -/
theorem Started.owed_giveUp (h : s.Started stage) (hphase : s.phase = .setUp stage)
    (hmain : s.main = Mainloop.init) (r : ServerResource) :
    releases stage.givesUp r + (s.giveUp stage).owed r =
      s.owed r + acquisitions stage.givesUp r := by
  cases r with
  | addrinfo =>
      simp only [owed, giveUp, hphase]
      cases stage <;> rfl
  | sockfd =>
      simp only [owed, giveUp, h.sockfd, hphase]
      cases stage <;> rfl
  | threadQueue =>
      simp only [owed, giveUp, h.threadQueue, hphase]
      cases stage <;> rfl
  | monitor =>
      simp only [owed, giveUp, h.monitor, hmain]
      cases stage <;> rfl
  | timer =>
      have hnull : stage.givesUp.count (.note .nullTimer) = 0 := by cases stage <;> rfl
      have hnone : releases stage.givesUp .timer = acquisitions stage.givesUp .timer := by
        cases stage <;> rfl
      simp only [owed, giveUp, List.count_append, hnull, hphase, hnone, Nat.add_zero]
      exact Nat.add_comm _ _

/-! ## Steps -/

/-- After the set-up nothing more is acquired. -/
theorem Accounts.extend (h : Accounts s) (hfits : Fits s')
    (hphase : ∀ stage, s'.phase ≠ .setUp stage) {extra : List ServerEffect}
    (hlog : s'.log = s.log ++ extra) (hnone : ∀ r, .acquired r ∉ extra)
    (howed : ∀ r, releases extra r + s'.owed r = s.owed r) : Accounts s' where
  toFits := hfits
  started stage heq := absurd heq (hphase stage)
  once := by
    rw [hlog]
    refine h.once.append (fun r => ?_) fun r hmem => absurd hmem (hnone r)
    exact Nat.le_of_eq (List.count_eq_zero.mpr (hnone r)) |>.trans (Nat.zero_le 1)
  balanced := by
    rw [hlog]
    refine h.balanced.append fun r => ?_
    have hzero : acquisitions extra r = 0 := List.count_eq_zero.mpr (hnone r)
    rw [howed, hzero, Nat.add_zero]

/-- A step that releases nothing. -/
theorem Accounts.keep (h : Accounts s) (hfits : Fits s')
    (hphase : ∀ stage, s'.phase ≠ .setUp stage) (hlog : s'.log = s.log)
    (howed : ∀ r, s'.owed r = s.owed r) : Accounts s' :=
  h.extend hfits hphase (hlog.trans (List.append_nil _).symm) (fun _ => List.not_mem_nil)
    fun r => (Nat.zero_add _).trans (howed r)

theorem Accounts.proceed (h : Accounts s) {stage : SetUp} (hphase : s.phase = .setUp stage)
    (hstage : stage ≠ .timerCreate) : Accounts (s.proceed config stage) := by
  have hstarted := h.started stage hphase
  have hmain : s.main = Mainloop.init := by
    have hplace := h.place
    simpa only [PlaceFits, hphase] using hplace
  refine ⟨h.toFits.proceed hphase, ?_, ?_, ?_⟩
  · intro stage' hphase'
    obtain ⟨next, hnext, -, hcalls⟩ | ⟨-, hloop⟩ := proceed_phase_cases config s stage
    · cases hcalls.symm.trans hphase'
      exact hstarted.proceed hstage hnext
    · cases hloop.symm.trans hphase'
  · rw [proceed_log]
    refine h.once.append (fun r => by cases stage <;> cases r <;> decide) fun r hmem hold => ?_
    have hless := hstarted.acquired r hold
    rw [gains_acquired hmem] at hless
    exact Nat.lt_irrefl _ hless
  · rw [proceed_log]
    exact h.balanced.append (hstarted.owed_proceed hphase hmain hstage)

theorem Accounts.giveUp (h : Accounts s) {stage : SetUp} (hphase : s.phase = .setUp stage)
    (hfits : Fits (s.giveUp stage)) : Accounts (s.giveUp stage) := by
  have hmain : s.main = Mainloop.init := by
    have hplace := h.place
    simpa only [PlaceFits, hphase] using hplace
  have hnone : ∀ r, .acquired r ∉ stage.givesUp := by
    intro r
    cases stage <;> cases r <;> decide
  refine h.extend hfits (fun _ => ProgramPhase.noConfusion) rfl hnone fun r => ?_
  have howed := (h.started stage hphase).owed_giveUp hphase hmain r
  rwa [show acquisitions stage.givesUp r = 0 from List.count_eq_zero.mpr (hnone r),
    Nat.add_zero] at howed

theorem Accounts.gainTimer (h : Accounts s) (hphase : s.phase = .setUp .timerCreate)
    {nonNull : Bool} (hfits : Fits (s.gainTimer nonNull)) : Accounts (s.gainTimer nonNull) := by
  have hstarted := h.started _ hphase
  have htimer := hstarted.timer (Nat.le_refl _)
  have hlog : (s.gainTimer nonNull).log =
      s.log ++ .acquired .timer :: if nonNull then [] else [.note .nullTimer] := rfl
  have hacquired : ∀ r, .acquired r ∈ ((.acquired .timer :: if nonNull then [] else
      [.note .nullTimer]) : List ServerEffect) → r = .timer := by
    intro r
    cases nonNull <;> cases r <;> decide
  refine ⟨hfits, ?_, ?_, ?_⟩
  · intro stage heq
    cases heq
    refine ⟨hstarted.sockfd, hstarted.threadQueue, hstarted.monitor, fun hle => ?_, ?_⟩
    · exact absurd hle (by decide)
    · intro r hmem
      rcases List.mem_append.mp hmem with hmem | hmem
      · exact Nat.lt_succ_of_lt (hstarted.acquired r hmem)
      · rw [hacquired r hmem]
        decide
  · rw [hlog]
    refine h.once.append (fun r => by cases nonNull <;> cases r <;> decide) fun r hmem hold => ?_
    rw [hacquired r hmem] at hold
    exact Nat.lt_irrefl _ (hstarted.acquired _ hold)
  · rw [hlog]
    refine h.balanced.append fun r => ?_
    -- the timer is owed, or it is noted that it is not
    cases r with
    | timer =>
        simp only [owed, Program.gainTimer, htimer, List.count_append, hphase]
        cases nonNull
        · exact Nat.zero_add _
        · have hone : ∀ count, 1 + (count + 0) = 0 + count + 1 := by omega
          exact (Nat.zero_add _).trans (hone _)
    | addrinfo => cases nonNull <;> simp only [owed, Program.gainTimer, hphase] <;> rfl
    | monitor => cases nonNull <;> exact Nat.zero_add _
    | _ => cases nonNull <;> simp only [owed, Program.gainTimer, hphase] <;> exact Nat.zero_add _

theorem monitorCalls_of_not_cleaning {main : Mainloop} (h : ¬ main.Cleaning) :
    main.place.monitorCalls = 1 := by
  unfold Mainloop.Cleaning at h
  unfold MainPlace.monitorCalls
  split <;> simp_all

/-- What is owed depends on the phase and the variables that are tested at `done`. -/
theorem owed_congr (hphase : s'.phase = s.phase) (hsockfd : s'.sockfd = s.sockfd)
    (hqueue : s'.threadQueue.isSome = s.threadQueue.isSome)
    (hmonitor : s'.writeFileMonitor = s.writeFileMonitor)
    (hcalls : s'.main.place.monitorCalls = s.main.place.monitorCalls)
    (htimer : s'.timestampTimer = s.timestampTimer) (hlog : s'.log = s.log)
    (r : ServerResource) : s'.owed r = s.owed r := by
  cases r <;> simp only [owed, hphase, hsockfd, hqueue, hmonitor, hcalls, htimer, hlog]

/-- The cleaning of the main loop destroys the monitor once. -/
theorem owed_startCleaning (hphase : s.phase = .join ∨ s.phase = .destroyQueue) {ok : Bool}
    (hjoins : s.main.place = .joins ok) {extra : List ServerEffect}
    (hextra : extra = if s.threadQueue.isSome then [.released .threadQueue] else [])
    (r : ServerResource) :
    releases extra r + (s.startCleaning (s.log ++ extra) ok).owed r = s.owed r := by
  have hnull : extra.count (.note .nullTimer) = 0 := by
    rw [hextra]
    split <;> rfl
  subst hextra
  cases r with
  | addrinfo => rcases hphase with hphase | hphase <;> simp only [owed, hphase] <;> split <;> rfl
  | sockfd =>
      rcases hphase with hphase | hphase <;> simp only [owed, hphase] <;> split <;>
        exact Nat.zero_add _
  | threadQueue =>
      rcases hphase with hphase | hphase <;> simp only [owed, hphase] <;>
        cases hqueue : s.threadQueue.isSome <;> simp [startCleaning, hqueue, ProgramPhase.rank]
  | monitor =>
      simp only [owed, startCleaning, MainPlace.monitorCalls, Mainloop.count_done, hjoins]
      split <;> split <;> rfl
  | timer =>
      rcases hphase with hphase | hphase <;>
        simp only [owed, startCleaning, List.count_append, hnull, hphase] <;> split <;>
        simp [ProgramPhase.rank]

theorem monitorEffect_cases (s : Program) (effect : Effect) :
    effect = .note .destroyedMonitor ∧
      s.monitorEffect effect = (if s.writeFileMonitor then [.released .monitor] else []) ∨
    effect ≠ .note .destroyedMonitor ∧ s.monitorEffect effect = [] := by
  unfold monitorEffect
  split
  next => exact Or.inl ⟨rfl, rfl⟩
  next hother => exact Or.inr ⟨hother, rfl⟩

theorem owed_cleans (hphase : s.phase = .clean) {effect : Effect} {todo : List Effect} {ok : Bool}
    (hcleans : s.main.place = .cleans (effect :: todo) ok) (r : ServerResource) :
    releases (s.monitorEffect effect) r + owed { s with
      main := { s.main with place := .cleans todo ok, log := s.main.log ++ [effect] }
      log := s.log ++ s.monitorEffect effect } r = s.owed r := by
  obtain ⟨rfl, heffect⟩ | ⟨hother, heffect⟩ := s.monitorEffect_cases effect
  · rw [heffect]
    cases hmonitor : s.writeFileMonitor <;> cases r <;>
      simp [owed, hphase, hcleans, hmonitor, MainPlace.monitorCalls, Nat.add_comm]
  · rw [heffect]
    cases r <;> simp [owed, hphase, hcleans, MainPlace.monitorCalls, hother]

theorem Accounts.step (h : Accounts s) (hstep : Step config s event s') : Accounts s' := by
  have hfits := h.toFits.step hstep
  have hplace := h.place
  unfold PlaceFits at hplace
  cases hstep with
  | setUp hphase hstage => exact h.proceed hphase hstage
  | setUpFails hphase => exact h.giveUp hphase hfits
  | timerCreate hphase => exact h.gainTimer hphase hfits
  | main hphase hevent hmain =>
      simp only [hphase] at hplace
      refine h.keep hfits (fun stage heq => by cases hphase.symm.trans heq) rfl ?_
      refine owed_congr rfl rfl rfl rfl ?_ rfl rfl
      rw [monitorCalls_of_not_cleaning hplace,
        monitorCalls_of_not_cleaning (not_cleaning hmain hevent)]
  | thread hmain =>
      have hrun : ∀ stage, s.phase ≠ .setUp stage := by
        intro stage hphase
        simp only [hphase] at hplace
        rw [hplace] at hmain
        cases hmain with
        | thread htodo => cases htodo
      refine h.keep hfits hrun rfl (owed_congr rfl rfl rfl rfl ?_ rfl rfl)
      cases hmain
      rfl
  | @enqueue _ _ _ _ ok hphase hhandles hqueue hfresh hcall =>
      refine h.keep hfits (fun stage heq => by cases hphase.symm.trans heq) rfl ?_
      refine owed_congr rfl rfl (by rw [hqueue]; rfl) rfl ?_ rfl rfl
      rw [hhandles]
      cases ok <;> rfl
  | enqueueFaults hphase => exact hfits.place.elim
  | leaves hphase hjoins =>
      refine h.keep hfits (fun _ => ProgramPhase.noConfusion) rfl fun r => ?_
      cases r <;> simp only [owed, hphase] <;> rfl
  | deletesTimer hphase =>
      refine h.extend hfits (fun _ => ProgramPhase.noConfusion) rfl (fun r => ?_) fun r => ?_
      · cases s.timestampTimer <;> cases r <;> decide
      · cases htimer : s.timestampTimer <;> cases r <;>
          simp [owed, htimer, hphase, ProgramPhase.rank, ProgramPhase.resolved, ProgramPhase.opened]
  | dequeue hphase hqueue hmore hcall hended =>
      refine h.keep hfits (fun stage heq => by cases hphase.symm.trans heq) rfl ?_
      exact owed_congr rfl rfl (by rw [hqueue]; rfl) rfl rfl rfl rfl
  | dequeueFaults => exact hfits.place.elim
  | drained hphase hqueue hempty =>
      refine h.keep hfits (fun _ => ProgramPhase.noConfusion) rfl fun r => ?_
      cases r <;> simp only [owed, hphase] <;> rfl
  | noQueue hphase hjoins hqueue =>
      have hextra : ([] : List ServerEffect) =
          if s.threadQueue.isSome then [.released .threadQueue] else [] := by
        rw [hqueue]
        rfl
      have howed := owed_startCleaning (Or.inl hphase) hjoins hextra
      rw [List.append_nil] at howed
      exact h.keep hfits (fun _ => ProgramPhase.noConfusion) rfl fun r =>
        (Nat.zero_add _).symm.trans (howed r)
  | destroysQueue hphase hjoins hqueue hcall =>
      have hextra : ([.released .threadQueue] : List ServerEffect) =
          if s.threadQueue.isSome then [.released .threadQueue] else [] := by
        rw [hqueue]
        rfl
      refine h.extend hfits (fun _ => ProgramPhase.noConfusion) rfl (fun r => ?_) ?_
      · cases r <;> decide
      · exact owed_startCleaning (Or.inr hphase) hjoins hextra
  | destroyFaults => exact hfits.place.elim
  | @cleans effect _ _ hphase hcleans =>
      have hextra : ∀ r, .acquired r ∉ s.monitorEffect effect := by
        intro r
        unfold monitorEffect
        split
        · cases s.writeFileMonitor <;> cases r <;> decide
        · exact List.not_mem_nil
      exact h.extend hfits (fun stage heq => by cases hphase.symm.trans heq) rfl hextra
        (owed_cleans hphase hcleans)
  | cleaned hphase hcleans =>
      refine h.keep hfits (fun _ => ProgramPhase.noConfusion) rfl fun r => ?_
      cases r <;> simp [owed, hphase, hcleans, MainPlace.monitorCalls, ProgramPhase.rank,
        ProgramPhase.resolved, ProgramPhase.opened]
  | closesSocket hphase =>
      refine h.extend hfits (fun _ => ProgramPhase.noConfusion) rfl (fun r => ?_) fun r => ?_
      · cases s.sockfd <;> cases r <;> decide
      · cases hsockfd : s.sockfd <;> cases r <;>
          simp [owed, hsockfd, hphase, ProgramPhase.rank, ProgramPhase.resolved,
            ProgramPhase.opened]
  | removesFile hphase =>
      refine h.extend hfits (fun _ => ProgramPhase.noConfusion) rfl (fun r => ?_) fun r => ?_
      · cases config.isRegularFile <;> cases r <;> decide
      · cases config.isRegularFile <;> cases r <;>
          simp [owed, hphase, ProgramPhase.rank, ProgramPhase.resolved, ProgramPhase.opened]

/-! ## When the program returns -/

theorem accounts_of_run {events : List ProgramEvent}
    (hrun : Run (Step config) (init config) events s) : Accounts s :=
  hrun.invariant Accounts (fun _ _ _ h hstep => h.step hstep) (init_accounts config)

/-- It is noted when the id of the timer is the null pointer. -/
theorem nullTimer_step (hstep : Step config s event s') :
    .note .nullTimer ∈ s'.log ↔ .note .nullTimer ∈ s.log ∨ event = .timerCreate false := by
  cases hstep with
  | @setUp stage =>
      rw [proceed_log, List.mem_append]
      cases stage <;> simp [SetUp.gains]
  | @setUpFails stage => cases stage <;> simp [giveUp, SetUp.givesUp]
  | @timerCreate nonNull => cases nonNull <;> simp [gainTimer]
  | deletesTimer => cases s.timestampTimer <;> simp
  | @cleans effect =>
      obtain ⟨-, heffect⟩ | ⟨-, heffect⟩ := s.monitorEffect_cases effect
      · cases hmonitor : s.writeFileMonitor <;> simp [heffect, hmonitor]
      · simp [heffect]
  | closesSocket => cases s.sockfd <;> simp
  | removesFile => cases config.isRegularFile <;> simp
  | _ => simp [startCleaning]

theorem nullTimer_of_run {events : List ProgramEvent}
    (hrun : Run (Step config) (init config) events s) :
    .note .nullTimer ∈ s.log ↔ .timerCreate false ∈ events := by
  apply hrun.history_invariant fun events s =>
    .note .nullTimer ∈ s.log ↔ .timerCreate false ∈ events
  · intro events s event s' ih hstep
    rw [nullTimer_step hstep, ih, List.mem_append, List.mem_singleton, eq_comm (a := event)]
  · exact ⟨fun hmem => absurd hmem List.not_mem_nil, fun hmem => absurd hmem List.not_mem_nil⟩

theorem owed_returned (h : s.phase = .returned) (hplace : ∃ ok, s.main.place = .returned ok)
    (r : ServerResource) :
    s.owed r = if r = .timer then s.log.count (.note .nullTimer) else 0 := by
  obtain ⟨ok, hplace⟩ := hplace
  cases r <;> simp [owed, h, hplace, MainPlace.monitorCalls, ProgramPhase.resolved,
    ProgramPhase.opened, ProgramPhase.rank]

/-- Whatever fails, and whichever thread runs when, the program returns with its addresses,
its socket, its queue with all nodes and its monitor released exactly once; and so is the
timer, unless its id was the null pointer, and then it is never deleted. -/
theorem resources_released {events : List ProgramEvent}
    (hrun : Run (Step config) (init config) events s) (hreturned : s.phase = .returned) :
    (∀ r, .acquired r ∈ s.log → (releases s.log r = 1 ↔ r = .timer → .timerCreate false ∉ events)) ∧
    (.timerCreate false ∈ events → releases s.log .timer = 0) ∧
    ∀ queue, s.threadQueue = some queue → ∀ p, queue.nodes p = none := by
  have haccounts := accounts_of_run hrun
  have hplace := haccounts.place
  simp only [PlaceFits, hreturned] at hplace
  refine ⟨fun r hmem => ?_, fun hnull => ?_,
    fun queue hqueue => (haccounts.queue.destroy hqueue hplace.2).2⟩
  · have hbalance := haccounts.balanced r
    have honce := haccounts.once r
    have hpos := acquisitions_pos_iff.mpr hmem
    rw [owed_returned hreturned hplace.1] at hbalance
    rw [← nullTimer_of_run hrun, ← List.count_pos_iff]
    by_cases htimer : r = .timer
    · rw [if_pos htimer] at hbalance
      constructor
      · intro hone _ hnull
        omega
      · intro hnone
        have hzero := hnone htimer
        omega
    · rw [if_neg htimer] at hbalance
      constructor
      · exact fun _ heq => absurd heq htimer
      · intro _
        omega
  · have hbalance := haccounts.balanced .timer
    have honce := haccounts.once .timer
    rw [owed_returned hreturned hplace.1, if_pos rfl] at hbalance
    rw [← nullTimer_of_run hrun, ← List.count_pos_iff] at hnull
    omega

/-- The server is told to stop before a client comes, and its timer has the id zero. -/
theorem resources_released_nullTimer : ∃ s, Run (Step oneClientConfig) (init oneClientConfig)
    (setUpEvents ++ [.main .terminates, .done, .done, .done, .done, .done, .done, .done, .done]) s ∧
    s.phase = .returned ∧ .acquired .timer ∈ s.log ∧ releases s.log .timer = 0 := by
  have hcleans : Run (Step oneClientConfig) (init oneClientConfig)
      (setUpEvents ++ [.main .terminates, .done, .done, .done, .done]) _ :=
    .snoc (.snoc (.snoc (.snoc (.snoc afterSetUp_run (.main rfl rfl (.terminates rfl)))
      (.leaves rfl rfl)) (.deletesTimer rfl)) (.drained rfl rfl rfl))
      (.destroysQueue rfl rfl rfl rfl)
  have hrun := Run.snoc (.snoc (.snoc (.snoc hcleans (.cleans rfl rfl)) (.cleaned rfl rfl))
    (.closesSocket rfl)) (.removesFile rfl)
  have hmem : .acquired .timer ∈ afterSetUp.log ++ ([.released .threadQueue] ++
      ([.released .monitor] ++ ([.released .sockfd] ++ [.note .removedFile]))) := by decide
  refine ⟨_, hrun, rfl, hmem, (resources_released hrun rfl).2.1 ?_⟩
  simp [setUpEvents]

end Program

end Aesd

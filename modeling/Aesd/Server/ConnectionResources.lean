import Aesd.Server.Handover

/-!
# What becomes of the connections

When the main loop returns, everything that belongs to a connection was released
exactly once if no step did harm. A step that does harm is never made good: what
it loses stays lost, and what it releases again is released twice.
-/

namespace Aesd

open Ledger Transition

namespace Mainloop

/-- What holds from a step on that does harm. -/
structure Damaged (s : Mainloop) : Prop extends Threaded s where
  past : s.Past
  harm : (∃ r, .acquired r ∈ s.log ∧ releases s.log r + s.owed r ≠ 1) ∨
    .note .freedGarbage ∈ s.log ++ s.rest

variable {s s' : Mainloop}

/-! ## Harm stays -/

theorem Damaged.of_closes (h : Damaged s) {extra : List Effect} (hcloses : Closes s s' extra) :
    Damaged s' where
  toThreaded := hcloses.threaded
  past := hcloses.past
  harm := by
    obtain ⟨r, hmem, htotal⟩ | hgarbage := h.harm
    · refine Or.inl ⟨r, ?_, (hcloses.total r).trans_ne htotal⟩
      rw [hcloses.log]
      exact List.mem_append_left _ hmem
    · refine Or.inr ?_
      rw [hcloses.log]
      rcases hcloses.rest with heq | ⟨heq, -⟩
      · rwa [heq, ← List.append_assoc] at hgarbage
      · rw [heq] at hgarbage
        simp only [List.mem_append] at hgarbage ⊢
        exact hgarbage.imp_left Or.inl

theorem Damaged.runThread (h : Damaged s) {conn : Nat} {effect : Effect} {todo : List Effect}
    (htodo : s.threads conn = effect :: todo) : Damaged (s.runThread conn effect todo) where
  toThreaded := h.toThreaded.runThread htodo
  past := h.past
  harm := by
    obtain ⟨r, hmem, htotal⟩ | hgarbage := h.harm
    · exact Or.inl ⟨r, List.mem_append_left _ hmem,
        (h.toThreaded.total_runThread htodo r).trans_ne htotal⟩
    · refine Or.inr ?_
      have hgarbage : .note .freedGarbage ∈ s.log ++ s.rest := hgarbage
      have hlater : .note .freedGarbage ∈ s.log ++ [effect] ++ s.rest := by
        simp only [List.mem_append] at hgarbage ⊢
        exact hgarbage.imp_left Or.inl
      exact hlater

theorem Damaged.step (h : Damaged s) {event : MainEvent} (hstep : Step s event s') :
    Damaged s' := by
  have hpast := h.past
  cases hstep with
  | thread htodo => exact h.runThread htodo
  | joins hplace hqueue hended => exact h.of_closes (h.joins hplace hqueue hended)
  | joined hplace hqueue => exact h.of_closes (h.joined hplace hqueue)
  | cleans hplace => exact h.of_closes (h.cleans hplace)
  | returns hplace => exact h.of_closes (h.returns hplace)
  | _ hplace => simp [Past, hplace] at hpast

/-! ## The steps that do harm -/

/-- A resource that was acquired is released or owed once. -/
theorem Sound.total_eq (h : Sound s) {r : Resource} (hmem : .acquired r ∈ s.log) :
    releases s.log r + s.owed r = 1 := by
  have hpos := acquisitions_pos_iff.mpr hmem
  have honce := h.once r
  rw [h.balanced r]
  omega

/-- The handed-over descriptor is closed again. -/
theorem Sound.leave_test (h : Sound s) (hplace : s.place = .test) (hopen : s.connSockfd ≠ none)
    (ok : Bool) : Damaged (s.leave ok s.connSockfd s.threadArg) := by
  have hpast : ¬ s.Past := by simp [Past, hplace]
  obtain ⟨conn, hconn⟩ := Option.ne_none_iff_exists'.mp hopen
  have hmem : .acquired ⟨.connSockfd, conn⟩ ∈ s.log := h.conn conn hconn
  refine ⟨h.toThreaded.leave (h.shape.notMem_tid hpast), trivial, Or.inl ⟨_, hmem, ?_⟩⟩
  have htotal := h.total_eq hmem
  have hdone : releases s.done ⟨.connSockfd, conn⟩ = 1 := by
    rw [releases_done_none (h.shape.threadArg_eq_none (Or.inl hplace)), hconn]
    simp [closeOpen]
  have hplan : (s.leave ok s.connSockfd s.threadArg).plan = s.plan ++ s.done := by
    simp only [plan, hplace]
    rfl
  -- it is released or owed once already, and now once more
  have howed : (s.leave ok s.connSockfd s.threadArg).owed ⟨.connSockfd, conn⟩ =
      s.owed ⟨.connSockfd, conn⟩ + 1 := by
    rw [owed, owed, hplan, releases_append, hdone, Nat.add_right_comm]
    rfl
  rw [howed]
  exact fun heq => by
    have hlog : (s.leave ok s.connSockfd s.threadArg).log = s.log := rfl
    rw [hlog] at heq
    omega

/-- The pointer that was not set is freed. -/
theorem Threaded.leave_garbage (h : Threaded s) {number : Nat} {threadArg : ThreadArg}
    (hgarbage : threadArg.remoteName = .garbage true) :
    Damaged (s.leave false s.connSockfd (some (number, { threadArg with filename := .null }))) := by
  refine ⟨h.leave ?_, trivial, Or.inr (List.mem_append_right _ ?_)⟩
  · simp [done, Mainloop.leave, hgarbage]
  · simp [Mainloop.rest, done, Mainloop.leave, hgarbage, freeString]

/-- The thread is not joined. -/
theorem Sound.enqueueFails (h : Sound s) {conn : Nat}
    (hplace : s.place = .handles .queueEnqueue conn) :
    Damaged (s.leave false s.connSockfd s.threadArg) := by
  have hpast : ¬ s.Past := by simp [Past, hplace]
  have hplan : s.plan = .released ⟨.tid, conn⟩ :: s.joinsLeft := by simp only [plan, hplace]
  have hplan' : (s.leave false s.connSockfd s.threadArg).plan = s.joinsLeft ++ s.done := rfl
  have hdone : releases s.done ⟨.tid, conn⟩ = 0 :=
    List.count_eq_zero.mpr (h.shape.notMem_tid hpast conn)
  -- the join was owed, and is not owed any more
  have howed : s.owed ⟨.tid, conn⟩ =
      (s.leave false s.connSockfd s.threadArg).owed ⟨.tid, conn⟩ + 1 := by
    rw [owed, owed, hplan, hplan', releases_append, hdone, releases_released, if_pos rfl,
      Nat.add_zero, Nat.add_right_comm]
    rfl
  have hmem : .acquired ⟨.tid, conn⟩ ∈ s.log := by
    apply acquisitions_pos_iff.mp
    rw [← h.balanced, howed]
    omega
  have htotal := h.total_eq hmem
  rw [howed] at htotal
  refine ⟨h.toThreaded.leave (h.shape.notMem_tid hpast), trivial, Or.inl ⟨_, hmem, ?_⟩⟩
  intro heq
  have hlog : (s.leave false s.connSockfd s.threadArg).log = s.log := rfl
  rw [hlog] at heq
  omega

theorem Sound.step_careless (h : Sound s) {event : MainEvent} (hcareless : ¬ s.Careful event)
    (hstep : Step s event s') : Damaged s' := by
  cases hstep with
  | terminates hplace => exact h.leave_test hplace hcareless true
  | timestampFails hplace => exact h.leave_test hplace hcareless false
  | filenameFails hplace harg =>
      apply h.leave_garbage
      by_contra hne
      apply hcareless
      intro number threadArg heq
      cases harg.symm.trans heq
      exact hne
  | enqueueFails hplace => exact h.enqueueFails hplace
  | _ => exact absurd trivial hcareless

/-! ## When the main loop returns -/

/-- Once all threads are joined, nothing is owed. -/
theorem Threaded.owed_returned (h : Threaded s) {ok : Bool} (hplace : s.place = .returned ok)
    (hjoined : ∀ conn, .acquired ⟨.tid, conn⟩ ∈ s.log → .released ⟨.tid, conn⟩ ∈ s.log)
    (r : Resource) : s.owed r = 0 := by
  have hthreads : s.threads r.conn = [] := by
    by_contra hne
    exact hne (h.ended r.conn (hjoined r.conn (h.created r.conn hne)))
  simp [owed, plan, hplace, hthreads]

theorem Sound.released (h : Sound s) {ok : Bool} (hplace : s.place = .returned ok) :
    Released s.log := by
  have hfirst : JoinedFirst s.log := h.joinedFirst (by simp [Cleaning, hplace])
  have howed := h.owed_returned hplace fun conn hmem =>
    List.takeWhile_subset _ (hfirst conn hmem)
  exact ⟨h.balanced.settled h.once howed, h.noGarbage, hfirst⟩

theorem Damaged.not_released (h : Damaged s) {ok : Bool} (hplace : s.place = .returned ok) :
    ¬ Released s.log := by
  intro hreleased
  have howed := h.owed_returned hplace fun conn hmem =>
    List.takeWhile_subset _ (hreleased.joinedFirst conn hmem)
  -- with nothing owed, a wrong total is a wrong number of releases
  obtain ⟨r, hmem, htotal⟩ | hgarbage := h.harm
  · apply htotal
    rw [howed r, hreleased.settled r hmem]
  · apply hreleased.noGarbage
    simpa [rest, hplace] using hgarbage

/-- A step that does no harm. -/
def CarefulStep (s : Mainloop) (event : MainEvent) (s' : Mainloop) : Prop :=
  s.Careful event ∧ Step s event s'

theorem Step.careful {event : MainEvent} (hstep : Step s event s') (hcareful : s.Careful event) :
    CarefulStep s event s' := ⟨hcareful, hstep⟩

/-- Every run is careful, or harm was done in it. -/
theorem sound_or_damaged {events : List MainEvent} (hrun : Run Step init events s) :
    Run CarefulStep init events s ∧ Sound s ∨ Damaged s := by
  apply hrun.history_invariant fun events s => Run CarefulStep init events s ∧ Sound s ∨ Damaged s
  · intro events s event s' hinv hstep
    rcases hinv with ⟨hfront, hsound⟩ | hdamaged
    · by_cases hcareful : s.Careful event
      · exact Or.inl ⟨.snoc hfront ⟨hcareful, hstep⟩, hsound.step hcareful hstep⟩
      · exact Or.inr (hsound.step_careless hcareful hstep)
    · exact Or.inr (hdamaged.step hstep)
  · exact Or.inl ⟨.nil _, init_sound⟩

theorem sound_of_careful {events : List MainEvent} (hrun : Run CarefulStep init events s) :
    Sound s :=
  hrun.invariant Sound (fun _ _ _ hsound hstep => hsound.step hstep.1 hstep.2) init_sound

/-- When the main loop returns, the resources of all connections were released exactly
once if and only if no step did harm. -/
theorem connection_resources {events : List MainEvent} {ok : Bool}
    (hrun : Run Step init events s) (hplace : s.place = .returned ok) :
    Released s.log ↔ Run CarefulStep init events s := by
  constructor
  · intro hreleased
    rcases sound_or_damaged hrun with ⟨hcareful, -⟩ | hdamaged
    · exact hcareful
    · exact absurd hreleased (hdamaged.not_released hplace)
  · intro hcareful
    exact (sound_of_careful hcareful).released hplace

/-! ## One client -/

/-- A connection is accepted and handed over without a failure. -/
def oneClientEvents : List MainEvent :=
  [.proceeds, .accept (.done ()), .inetNtop true, .malloc (some (true, true)), .strdup true,
    .strndup true, .pthreadCreate true, .queueEnqueue true]

def oneClient : Mainloop where
  place := .test
  connSockfd := some 0
  threadArg := none
  threadQueue := [0]
  accepted := 1
  threads := Function.update (fun _ => []) 0 (aesdsocketStartThread 0 (servedArg 0))
  log := [.acquired ⟨.connSockfd, 0⟩, .acquired ⟨.threadArg, 0⟩, .acquired ⟨.filename, 0⟩,
    .acquired ⟨.remoteName, 0⟩, .acquired ⟨.tid, 0⟩]

theorem oneClient_run : Run CarefulStep init oneClientEvents oneClient := by
  have hnamed : Run CarefulStep init [.proceeds, .accept (.done ()), .inetNtop true] _ :=
    .snoc (.snoc (.snoc (.nil _) (Step.careful (.proceeds rfl) trivial))
      (Step.careful (.accepts rfl) trivial)) (Step.careful (.names rfl) trivial)
  exact .snoc (.snoc (.snoc (.snoc (.snoc hnamed (Step.careful (.allocates rfl) trivial))
    (Step.careful (.copiesFilename rfl rfl) trivial))
    (Step.careful (.copiesRemoteName rfl rfl) trivial))
    (Step.careful (.creates rfl rfl) trivial)) (Step.careful (.enqueues rfl) trivial)

/-- A signal interrupts the next `accept`, and so it is -1 that the loop is left with. -/
theorem connection_resources_interrupted : ∃ s, Run Step init (oneClientEvents ++
    [.proceeds, .accept .interrupted, .terminates, .thread 0, .thread 0, .thread 0, .thread 0,
      .pthreadJoin, .cleanup, .cleanup, .cleanup]) s ∧
    s.place = .returned true ∧ Released s.log := by
  have hleft : Run CarefulStep init (oneClientEvents ++
      [.proceeds, .accept .interrupted, .terminates]) _ :=
    .snoc (.snoc (.snoc oneClient_run (Step.careful (.proceeds rfl) trivial))
      (Step.careful (.acceptInterrupted rfl) trivial)) (Step.careful (.terminates rfl) rfl)
  have hserved : Run CarefulStep init (oneClientEvents ++
      [.proceeds, .accept .interrupted, .terminates, .thread 0, .thread 0, .thread 0,
        .thread 0]) _ :=
    .snoc (.snoc (.snoc (.snoc hleft (Step.careful (.thread rfl) trivial))
      (Step.careful (.thread rfl) trivial)) (Step.careful (.thread rfl) trivial))
      (Step.careful (.thread rfl) trivial)
  have hcareful := Run.snoc (.snoc (.snoc (.snoc hserved
    (Step.careful (@Step.joins _ true [] 0 rfl rfl rfl) trivial))
    (Step.careful (.joined rfl rfl) trivial)) (Step.careful (.cleans rfl) trivial))
    (Step.careful (.returns rfl) trivial)
  have hrun := hcareful.mono fun _ _ _ hstep => hstep.2
  exact ⟨_, hrun, rfl, (connection_resources hrun rfl).mpr hcareful⟩

/-- A signal that comes after the hand-over and before `accept` lets the main thread
close the descriptor again. -/
theorem descriptor_closed_twice : ¬ ∀ (events : List MainEvent) (s : Mainloop) (ok : Bool),
    Run Step init events s → s.place = .returned ok → Released s.log := by
  intro h
  have hclient := oneClient_run.mono fun _ _ _ hstep => hstep.2
  have hserved : Run Step init
      (oneClientEvents ++ [.terminates, .thread 0, .thread 0, .thread 0, .thread 0]) _ :=
    .snoc (.snoc (.snoc (.snoc (.snoc hclient (.terminates rfl)) (.thread rfl)) (.thread rfl))
      (.thread rfl)) (.thread rfl)
  have hrun := Run.snoc (.snoc (.snoc (.snoc (.snoc hserved (@Step.joins _ true [] 0 rfl rfl rfl))
    (.joined rfl rfl)) (.cleans rfl)) (.cleans rfl)) (.returns rfl)
  have hsettled := (h _ _ _ hrun rfl).settled ⟨.connSockfd, 0⟩ List.mem_cons_self
  have htwice : (2 : Nat) = 1 := hsettled
  cases htwice

end Mainloop

end Aesd

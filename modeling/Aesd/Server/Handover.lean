import Aesd.Server.Obligations

/-!
# Handing a connection over

The steps of the loop, among them the one that gives a connection to its thread
and the jumps to `done`. The balance of what is owed is kept by every step but
three: leaving the loop with a descriptor that was handed over, losing a thread
that could not be enqueued, and freeing a pointer that `strdup` left unset.
-/

namespace Aesd

open Ledger Transition

namespace Mainloop

variable {s s' : Mainloop}

/-! ## Out of the loop -/

/-- Nothing but the monitor and resources other than threads. -/
def Tidy (effects : List Effect) : Prop :=
  ∀ effect ∈ effects, effect = .note .destroyedMonitor ∨
    ∃ kind ≠ Kind.tid, ∃ conn, effect = .released ⟨kind, conn⟩

theorem Tidy.append {front back : List Effect} (hfront : Tidy front) (hback : Tidy back) :
    Tidy (front ++ back) := fun effect hmem =>
  (List.mem_append.mp hmem).elim (hfront effect) (hback effect)

theorem tidy_nil : Tidy [] := fun _ hmem => absurd hmem List.not_mem_nil

theorem Tidy.notMem_tid {effects : List Effect} (h : Tidy effects) (conn : Nat) :
    .released ⟨.tid, conn⟩ ∉ effects := by
  intro hmem
  obtain heq | ⟨kind, hkind, other, heq⟩ := h _ hmem
  · cases heq
  · cases heq
    exact hkind rfl

theorem Tidy.notMem_garbage {effects : List Effect} (h : Tidy effects) :
    .note .freedGarbage ∉ effects := by
  intro hmem
  obtain heq | ⟨kind, _, other, heq⟩ := h _ hmem <;> cases heq

theorem closeOpen_tidy (connSockfd : Option Nat) : Tidy (closeOpen connSockfd) := by
  cases connSockfd with
  | none => exact tidy_nil
  | some conn =>
      intro effect hmem
      exact Or.inr ⟨.connSockfd, by decide, conn, List.mem_singleton.mp hmem⟩

theorem block_tidy {kind : Kind} (hkind : kind ≠ .tid) (conn : Nat) :
    Tidy (freeString (.block ⟨kind, conn⟩)) := fun _ hmem =>
  Or.inr ⟨kind, hkind, conn, List.mem_singleton.mp hmem⟩

theorem done_tidy (harg : ∀ number threadArg, s.threadArg = some (number, threadArg) →
    Tidy (freeString threadArg.filename) ∧ Tidy (freeString threadArg.remoteName)) :
    Tidy s.done := by
  have hmonitor : Tidy [.note .destroyedMonitor] := fun effect hmem =>
    Or.inl (List.mem_singleton.mp hmem)
  refine (hmonitor.append ?_).append (closeOpen_tidy s.connSockfd)
  cases hcase : s.threadArg with
  | none => exact tidy_nil
  | some arg =>
      obtain ⟨hfilename, hremoteName⟩ := harg _ _ hcase
      exact (hfilename.append hremoteName).append (block_tidy (by decide) arg.1)

theorem acquired_notMem_done (s : Mainloop) (r : Resource) : .acquired r ∉ s.done := by
  have hclose : .acquired r ∉ closeOpen s.connSockfd := by
    cases s.connSockfd <;> simp [closeOpen]
  have hfree : ∀ pointer, .acquired r ∉ freeString pointer := by
    rintro (nonNull | _ | block)
    · cases nonNull <;> simp [freeString]
    · simp [freeString]
    · simp [freeString]
  cases harg : s.threadArg with
  | none => simp [done, harg, hclose]
  | some arg => simp [done, harg, hclose, hfree]

theorem Stage.rank_le (stage : Stage) : stage.rank ≤ 5 := by
  cases stage <;> decide

theorem Sound.frontier_le (h : Sound s) : s.frontier ≤ 5 * s.accepted := by
  have hshape := h.shape
  unfold frontier
  unfold Shape at hshape
  cases hplace : s.place with
  | handles stage conn =>
      simp only [hplace] at hshape ⊢
      have hrank := Stage.rank_le stage
      omega
  | _ => exact Nat.le_refl _

/-- The state behind a jump to `done`. -/
def leave (s : Mainloop) (ok : Bool) (connSockfd : Option Nat)
    (threadArg : Option (Nat × ThreadArg)) : Mainloop :=
  { s with place := .joins ok, connSockfd := connSockfd, threadArg := threadArg }

section Leave

variable {ok : Bool} {connSockfd : Option Nat} {threadArg : Option (Nat × ThreadArg)}

theorem Threaded.leave (h : Threaded s)
    (htid : ∀ conn, .released ⟨.tid, conn⟩ ∉ (s.leave ok connSockfd threadArg).done) :
    Threaded (s.leave ok connSockfd threadArg) :=
  h.keep rfl (List.append_nil _).symm (fun _ hmem => absurd hmem List.not_mem_nil) htid (acquired_notMem_done _)

theorem Sound.leave (h : Sound s) (hloop : ¬ s.Cleaning)
    (htidy : Tidy (s.leave ok connSockfd threadArg).done)
    (hplan : ∀ r, releases (s.leave ok connSockfd threadArg).plan r = releases s.plan r)
    (hconn : ∀ conn, connSockfd = some conn → s.connSockfd = some conn) :
    Sound (s.leave ok connSockfd threadArg) := by
  refine h.extend (h.toThreaded.leave htidy.notMem_tid) trivial (List.append_nil _).symm
    (fun _ => List.not_mem_nil) ?_ hconn h.frontier_le List.not_mem_nil
    (fun _ => htidy.notMem_garbage) (fun _ => ⟨hloop, List.not_mem_nil⟩)
    (fun hcleaning => hcleaning.elim)
  intro r
  have howed : (s.leave ok connSockfd threadArg).owed r = s.owed r :=
    congrArg (· + releases (s.threads r.conn) r) (hplan r)
  rw [howed]
  rfl

theorem Shape.threadArg_eq_none (h : s.Shape) (hplace : s.place = .test ∨ s.place = .accept) :
    s.threadArg = none := by
  rcases hplace with hplace | hplace <;> simpa only [Shape, hplace] using h

theorem Sound.leave_empty (h : Sound s) (hplace : s.place = .test ∨ s.place = .accept) :
    Sound (s.leave ok none s.threadArg) := by
  have hnone := h.shape.threadArg_eq_none hplace
  have hdone : (s.leave ok none s.threadArg).done = [.note .destroyedMonitor] := by
    simp [Mainloop.leave, done, hnone, closeOpen]
  have hplan : s.plan = s.joinsLeft := by
    rcases hplace with hplace | hplace <;> simp only [plan, hplace]
  refine h.leave ?_ ?_ ?_ fun _ heq => by cases heq
  · rcases hplace with hplace | hplace <;> simp [Cleaning, hplace]
  · apply done_tidy
    intro number threadArg heq
    cases hnone.symm.trans heq
  · intro r
    calc releases (s.leave ok none s.threadArg).plan r
        = releases (s.joinsLeft ++ (s.leave ok none s.threadArg).done) r := rfl
      _ = releases s.plan r := by simp [hdone, hplan]

theorem plan_handles {stage : Stage} {conn : Nat} (hplace : s.place = .handles stage conn)
    (hstage : stage ≠ .queueEnqueue) : s.plan = s.joinsLeft ++ s.done := by
  cases stage with
  | queueEnqueue => exact absurd rfl hstage
  | _ => simp only [plan, hplace]

theorem Sound.leave_handles (h : Sound s) {stage : Stage} {conn : Nat}
    (hplace : s.place = .handles stage conn) (hstage : stage ≠ .queueEnqueue)
    (htidy : Tidy (s.leave ok s.connSockfd threadArg).done)
    (hdone : ∀ r, releases (s.leave ok s.connSockfd threadArg).done r = releases s.done r) :
    Sound (s.leave ok s.connSockfd threadArg) := by
  have hplan := plan_handles hplace hstage
  refine h.leave (by simp [Cleaning, hplace]) htidy ?_ (fun _ heq => heq)
  intro r
  calc releases (s.leave ok s.connSockfd threadArg).plan r
      = releases (s.joinsLeft ++ (s.leave ok s.connSockfd threadArg).done) r := rfl
    _ = releases s.plan r := by rw [hplan, releases_append, releases_append, hdone]

end Leave

/-! ## In the loop -/

section Loop

@[simp] theorem released_mem_freeString {r : Resource} {pointer : StringPtr} :
    .released r ∈ freeString pointer ↔ pointer = .block r := by
  cases pointer with
  | garbage nonNull => cases nonNull <;> simp [freeString]
  | null => simp [freeString]
  | block r' => simp [freeString, eq_comm]

@[simp] theorem released_mem_closeOpen {r : Resource} {connSockfd : Option Nat} :
    .released r ∈ closeOpen connSockfd ↔ ∃ conn, connSockfd = some conn ∧ r = ⟨.connSockfd, conn⟩ := by
  cases connSockfd <;> simp [closeOpen]

theorem Shape.handles (h : s.Shape) {stage : Stage} {conn : Nat}
    (hplace : s.place = .handles stage conn) :
    s.connSockfd = some conn ∧ s.accepted = conn + 1 ∧ stage.Holds conn s.threadArg := by
  simpa only [Shape, hplace] using h

theorem Shape.notMem_tid (h : s.Shape) (hpast : ¬ s.Past) (conn : Nat) :
    .released ⟨.tid, conn⟩ ∉ s.done := by
  have hempty : s.threadArg = none → .released ⟨.tid, conn⟩ ∉ s.done := by
    intro hnone
    simp [done, hnone]
  cases hplace : s.place with
  | test => exact hempty (h.threadArg_eq_none (Or.inl hplace))
  | accept => exact hempty (h.threadArg_eq_none (Or.inr hplace))
  | handles stage number =>
      obtain ⟨-, -, hholds⟩ := h.handles hplace
      cases stage with
      | inetNtop => exact hempty hholds
      | malloc => exact hempty hholds
      | strdup =>
          obtain ⟨filename, remoteName, harg⟩ := hholds
          simp [done, harg]
      | strndup =>
          obtain ⟨remoteName, harg⟩ := hholds
          simp [done, harg]
      | pthreadCreate =>
          have harg : s.threadArg = _ := hholds
          simp [done, harg]
      | queueEnqueue =>
          have harg : s.threadArg = _ := hholds
          simp [done, harg]
  | _ => simp [Past, hplace] at hpast

theorem rest_eq_done (hpast : ¬ s.Past) : s.rest = s.done := by
  cases hplace : s.place with
  | test => simp only [rest, hplace]
  | accept => simp only [rest, hplace]
  | handles => simp only [rest, hplace]
  | _ => simp [Past, hplace] at hpast

theorem not_cleaning (hpast : ¬ s.Past) : ¬ s.Cleaning := by
  intro hcleaning
  apply hpast
  unfold Cleaning at hcleaning
  unfold Past
  cases hplace : s.place <;> simp [hplace] at hcleaning ⊢

/-- In the loop the threads go on as they are when the main thread takes a step. -/
theorem Threaded.proceed (h : Threaded s) (hpast : ¬ s'.Past) (hshape : s'.Shape)
    (hthreads : s'.threads = s.threads) {extra : List Effect} (hlog : s'.log = s.log ++ extra)
    (hextra : ∀ r, .released r ∉ extra) : Threaded s' := by
  refine h.keep hthreads hlog (fun conn hmem => absurd hmem (hextra _)) ?_ ?_
  · rw [rest_eq_done hpast]
    exact hshape.notMem_tid hpast
  · rw [rest_eq_done hpast]
    exact acquired_notMem_done s'

/-- A step in the loop that acquires nothing. -/
theorem Sound.proceed (h : Sound s) (hpast : ¬ s.Past) (hpast' : ¬ s'.Past) (hshape : s'.Shape)
    (hthreads : s'.threads = s.threads) (hlog : s'.log = s.log)
    (hconn : ∀ conn, s'.connSockfd = some conn → s.connSockfd = some conn)
    (hfrontier : s'.frontier = s.frontier)
    (hplan : ∀ r, releases s'.plan r = releases s.plan r) : Sound s' := by
  have hlog' : s'.log = s.log ++ [] := hlog.trans (List.append_nil _).symm
  refine h.extend (h.toThreaded.proceed hpast' hshape hthreads hlog' fun _ => List.not_mem_nil)
    hshape hlog' (fun _ => List.not_mem_nil) ?_ hconn hfrontier.ge List.not_mem_nil
    (fun hlater => absurd hlater hpast') (fun _ => ⟨not_cleaning hpast, List.not_mem_nil⟩)
    (fun hcleaning => absurd hcleaning (not_cleaning hpast'))
  intro r
  rw [owed, owed, hlog, hplan, hthreads]

/-- A step in the loop that acquires the next resource of a connection. -/
theorem Sound.acquire (h : Sound s) {r : Resource} (hpast : ¬ s.Past) (hpast' : ¬ s'.Past)
    (hshape : s'.Shape) (hthreaded : Threaded s') (hlog : s'.log = s.log ++ [.acquired r])
    (hconn : ∀ conn, s'.connSockfd = some conn →
      s.connSockfd = some conn ∨ r = ⟨.connSockfd, conn⟩)
    (hrank : s.frontier = r.rank) (hfrontier : s'.frontier = r.rank + 1)
    (howed : ∀ r', s'.owed r' = s.owed r' + if r = r' then 1 else 0) : Sound s' := by
  have hnew : .acquired r ∉ s.log := h.fresh hrank.le
  have hnote : ∀ n, .note n ∉ s.log → .note n ∉ s'.log := by
    intro n hnot
    simpa [hlog] using hnot
  exact
    { toThreaded := hthreaded
      shape := hshape
      conn := fun conn heq => by
        rw [hlog]
        obtain heq | rfl := hconn conn heq
        · exact List.mem_append_left _ (h.conn conn heq)
        · exact List.mem_append_right _ List.mem_cons_self
      below := fun r' hmem => by
        rw [hfrontier]
        rw [hlog] at hmem
        rcases List.mem_append.mp hmem with hmem | hmem
        · exact Nat.lt_succ_of_lt (hrank ▸ h.below r' hmem)
        · cases List.mem_singleton.mp hmem
          exact Nat.lt_succ_self _
      once := hlog ▸ h.once.acquire hnew
      balanced := fun r' => by
        have hbefore := h.balanced r'
        rw [hlog, howed, releases_append, acquisitions_append, acquisitions_acquired]
        simp only [releases_acquired, releases_nil, acquisitions_nil]
        omega
      noGarbage := hnote _ h.noGarbage
      restClean := fun hlater => absurd hlater hpast'
      monitorKept := fun _ => hnote _ (h.monitorKept (not_cleaning hpast))
      joinedFirst := fun hcleaning => absurd hcleaning (not_cleaning hpast') }

/-- The main thread acquires the next resource of a connection for itself. -/
theorem Sound.acquire_own (h : Sound s) {r : Resource} (hpast : ¬ s.Past) (hpast' : ¬ s'.Past)
    (hshape : s'.Shape) (hthreads : s'.threads = s.threads)
    (hlog : s'.log = s.log ++ [.acquired r])
    (hconn : ∀ conn, s'.connSockfd = some conn →
      s.connSockfd = some conn ∨ r = ⟨.connSockfd, conn⟩)
    (hrank : s.frontier = r.rank) (hfrontier : s'.frontier = r.rank + 1)
    (hplan : ∀ r', releases s'.plan r' = releases s.plan r' + if r = r' then 1 else 0) :
    Sound s' := by
  have hthreaded := h.toThreaded.proceed hpast' hshape hthreads hlog (by simp)
  refine h.acquire hpast hpast' hshape hthreaded hlog hconn hrank hfrontier ?_
  intro r'
  rw [owed, owed, hplan, hthreads]
  omega

/-- An accepted connection gets its next resource. -/
theorem Sound.acquire_next (h : Sound s) {stage next : Stage} {kind : Kind} {conn : Nat}
    {threadArg : Option (Nat × ThreadArg)} (hplace : s.place = .handles stage conn)
    (hstage : stage ≠ .queueEnqueue) (hnext : next ≠ .queueEnqueue)
    (hrank : stage.rank = kind.rank) (hranks : next.rank = kind.rank + 1)
    (hholds : next.Holds conn threadArg)
    (hdone : ∀ r, releases { s with threadArg := threadArg }.done r =
      releases s.done r + if ⟨kind, conn⟩ = r then 1 else 0) :
    Sound { s with
      place := .handles next conn
      threadArg := threadArg
      log := s.log ++ [.acquired ⟨kind, conn⟩] } := by
  obtain ⟨hconn, haccepted, -⟩ := h.shape.handles hplace
  refine h.acquire_own (by simp [Past, hplace]) (fun hpast => hpast) ⟨hconn, haccepted, hholds⟩
    rfl rfl (fun _ heq => Or.inl heq) ?_ ?_ ?_
  · simp only [frontier, hplace, Resource.rank, hrank]
  · simp only [frontier, Resource.rank, hranks, Nat.add_assoc]
  · intro r
    rw [plan_handles rfl hnext, plan_handles hplace hstage, releases_append, releases_append,
      Nat.add_assoc, ← hdone]
    rfl

@[simp] theorem releases_garbage (nonNull : Bool) (r : Resource) :
    releases (freeString (.garbage nonNull)) r = 0 := by
  cases nonNull <;> simp [freeString]

@[simp] theorem releases_null (r : Resource) : releases (freeString .null) r = 0 := rfl

@[simp] theorem releases_block (r r' : Resource) :
    releases (freeString (.block r')) r = if r' = r then 1 else 0 := by
  simp [freeString]

theorem releases_done_none (hnone : s.threadArg = none) (r : Resource) :
    releases s.done r = releases (closeOpen s.connSockfd) r := by
  simp [done, hnone]

theorem releases_done_some {number : Nat} {threadArg : ThreadArg}
    (harg : s.threadArg = some (number, threadArg)) (r : Resource) :
    releases s.done r = releases (closeOpen s.connSockfd) r +
      (if ⟨.threadArg, number⟩ = r then 1 else 0) +
      releases (freeString threadArg.filename) r + releases (freeString threadArg.remoteName) r := by
  simp only [done, harg, releases_append, releases_note, releases_released, releases_nil]
  omega

/-- What a thread is created with. -/
def servedArg (conn : Nat) : ThreadArg :=
  ⟨some conn, .block ⟨.filename, conn⟩, .block ⟨.remoteName, conn⟩⟩

theorem servedArg_effects (conn : Nat) : aesdsocketStartThread conn (servedArg conn) =
    [.released ⟨.threadArg, conn⟩, .released ⟨.connSockfd, conn⟩, .released ⟨.filename, conn⟩,
      .released ⟨.remoteName, conn⟩] := rfl

theorem Threaded.creates (h : Threaded s) {conn : Nat} (hpast : ¬ s'.Past) (hshape : s'.Shape)
    (hthreads : s'.threads =
      Function.update s.threads conn (aesdsocketStartThread conn (servedArg conn)))
    (hlog : s'.log = s.log ++ [.acquired ⟨.tid, conn⟩])
    (hnew : .released ⟨.tid, conn⟩ ∉ s.log) : Threaded s' where
  todo other := by
    rw [hthreads]
    by_cases heq : other = conn
    · subst heq
      rw [Function.update_self, servedArg_effects]
      simp
    · rw [Function.update_of_ne heq]
      exact h.todo other
  created other hne := by
    rw [hthreads] at hne
    rw [hlog]
    by_cases heq : other = conn
    · subst heq
      exact List.mem_append_right _ List.mem_cons_self
    · rw [Function.update_of_ne heq] at hne
      exact List.mem_append_left _ (h.created other hne)
  ended other hmem := by
    have hmem : .released ⟨.tid, other⟩ ∈ s.log := by simpa [hlog] using hmem
    have heq : other ≠ conn := by
      rintro rfl
      exact hnew hmem
    rw [hthreads, Function.update_of_ne heq]
    exact h.ended other hmem
  rest other := by
    rw [rest_eq_done hpast]
    exact hshape.notMem_tid hpast other
  restReleases r := by
    rw [rest_eq_done hpast]
    exact acquired_notMem_done s' r

/-- The state behind `pthread_create`. -/
def handOver (s : Mainloop) (conn number : Nat) (threadArg : ThreadArg) : Mainloop :=
  { s with
    place := .handles .queueEnqueue conn
    threads := Function.update s.threads conn (aesdsocketStartThread number threadArg)
    log := s.log ++ [.acquired ⟨.tid, conn⟩] }

/-- The descriptor, the argument and its strings go to the new thread, and the thread
is the main thread's to join. -/
theorem Sound.creates (h : Sound s) {conn number : Nat} {threadArg : ThreadArg}
    (hplace : s.place = .handles .pthreadCreate conn)
    (harg : s.threadArg = some (number, threadArg)) : Sound (s.handOver conn number threadArg) := by
  obtain ⟨hconn, haccepted, hholds⟩ := h.shape.handles hplace
  have hholds : s.threadArg = some (conn, servedArg conn) := hholds
  obtain ⟨rfl, rfl⟩ : number = conn ∧ threadArg = servedArg conn := by
    simpa using harg.symm.trans hholds
  have hrank : s.frontier = (⟨.tid, number⟩ : Resource).rank := by
    simp [frontier, hplace, Resource.rank, Stage.rank, Kind.rank]
  have hnew : .acquired ⟨.tid, number⟩ ∉ s.log := h.fresh hrank.le
  -- a thread with something to do was created, and this one is new
  have hidle : s.threads number = [] := by
    by_contra hne
    exact hnew (h.created number hne)
  have hthreaded : Threaded (s.handOver number number (servedArg number)) :=
    h.toThreaded.creates (fun hpast => hpast) ⟨hconn, haccepted, hholds⟩ rfl rfl
      (h.balanced.notMem_released hnew)
  refine h.acquire (by simp [Past, hplace]) (fun hpast => hpast) ⟨hconn, haccepted, hholds⟩
    hthreaded rfl (fun _ heq => Or.inl heq) hrank rfl ?_
  intro r
  -- the thread releases what the code at `done` would have released, in another order
  have hdone : releases s.done r = releases (aesdsocketStartThread number (servedArg number)) r := by
    rw [servedArg_effects]
    simp only [done, hholds, hconn, servedArg, closeOpen, freeString,
      releases_note, releases_released, releases_nil, List.cons_append, List.nil_append]
    omega
  have hupdate : (s.handOver number number (servedArg number)).threads =
      Function.update s.threads number (aesdsocketStartThread number (servedArg number)) := rfl
  have hthreads : releases ((s.handOver number number (servedArg number)).threads r.conn) r =
      releases (s.threads r.conn) r + releases s.done r := by
    rw [hdone, hupdate]
    by_cases heq : r.conn = number
    · rw [heq, Function.update_self, hidle, releases_nil, Nat.zero_add]
    · rw [Function.update_of_ne heq]
      have hne : ∀ kind, (⟨kind, number⟩ : Resource) ≠ r := fun kind hr => heq (hr ▸ rfl)
      simp [servedArg_effects, hne]
  have hplan := plan_handles hplace (by decide)
  have hplan' : (s.handOver number number (servedArg number)).plan =
      .released ⟨.tid, number⟩ :: s.joinsLeft := rfl
  rw [owed, owed, hplan, hplan', hthreads, releases_append, releases_released]
  omega

end Loop

/-- The steps that do no harm: the loop is left at its test only when `conn_sockfd`
is -1, `strdup` fails only when the word for the other string is zero, and
`queue_enqueue` does not fail. -/
def Careful (s : Mainloop) : MainEvent → Prop
  | .terminates => s.connSockfd = none
  | .timestampFails => s.connSockfd = none
  | .strdup false => ∀ number threadArg, s.threadArg = some (number, threadArg) →
      threadArg.remoteName ≠ .garbage true
  | .queueEnqueue false => False
  | _ => True

theorem Sound.step (h : Sound s) {event : MainEvent} (hcareful : s.Careful event)
    (hstep : Step s event s') : Sound s' := by
  cases hstep with
  | terminates hplace =>
      have hclosed : s.connSockfd = none := hcareful
      have hleave : Sound (s.leave true none s.threadArg) := h.leave_empty (Or.inl hplace)
      rwa [← hclosed] at hleave
  | timestampFails hplace =>
      have hclosed : s.connSockfd = none := hcareful
      have hleave : Sound (s.leave false none s.threadArg) := h.leave_empty (Or.inl hplace)
      rwa [← hclosed] at hleave
  | proceeds hplace =>
      have hshape := h.shape.threadArg_eq_none (Or.inl hplace)
      exact h.proceed (by simp [Past, hplace]) (fun hpast => hpast) hshape rfl rfl
        (fun _ heq => heq) (by simp [frontier, hplace]) (by simp [plan, hplace, joinsLeft])
  | accepts hplace =>
      have hshape := h.shape.threadArg_eq_none (Or.inr hplace)
      refine h.acquire_own (by simp [Past, hplace]) (fun hpast => hpast) ⟨rfl, rfl, hshape⟩ rfl rfl
        ?_ (by simp [frontier, hplace, Resource.rank, Kind.rank]) rfl ?_
      · intro conn heq
        cases heq
        exact Or.inr rfl
      · intro r
        simp [plan, hplace, joinsLeft, done, hshape, closeOpen]
  | acceptInterrupted hplace =>
      have hshape := h.shape.threadArg_eq_none (Or.inr hplace)
      exact h.proceed (by simp [Past, hplace]) (fun hpast => hpast) hshape rfl rfl
        (fun _ heq => by cases heq) (by simp [frontier, hplace]) (by simp [plan, hplace, joinsLeft])
  | acceptFails hplace => exact h.leave_empty (Or.inr hplace)
  | names hplace =>
      obtain ⟨hconn, haccepted, hholds⟩ := h.shape.handles hplace
      exact h.proceed (by simp [Past, hplace]) (fun hpast => hpast) ⟨hconn, haccepted, hholds⟩ rfl
        rfl (fun _ heq => heq) (by simp [frontier, hplace, Stage.rank])
        (by simp [plan, hplace, joinsLeft, done])
  | nameFails hplace =>
      obtain ⟨-, -, hholds⟩ := h.shape.handles hplace
      refine h.leave_handles hplace (by decide) (done_tidy ?_) (fun _ => rfl)
      intro number threadArg heq
      cases hholds.symm.trans heq
  | allocates hplace =>
      obtain ⟨hconn, -, hholds⟩ := h.shape.handles hplace
      refine h.acquire_next hplace (by decide) (by decide) rfl rfl ⟨_, _, by rw [hconn]⟩ ?_
      intro r
      rw [releases_done_some rfl, releases_done_none hholds]
      simp
  | allocateFails hplace =>
      obtain ⟨-, -, hholds⟩ := h.shape.handles hplace
      have hholds : s.threadArg = none := hholds
      have hleave : Sound (s.leave false s.connSockfd s.threadArg) :=
        h.leave_handles hplace (by decide) (done_tidy fun _ _ heq => by cases hholds.symm.trans heq)
          fun _ => rfl
      rwa [hholds] at hleave
  | copiesFilename hplace harg =>
      obtain ⟨-, -, filename, remoteName, hholds⟩ := h.shape.handles hplace
      cases harg.symm.trans hholds
      refine h.acquire_next hplace (by decide) (by decide) rfl rfl ⟨_, rfl⟩ ?_
      intro r
      rw [releases_done_some rfl, releases_done_some harg]
      simp
  | filenameFails hplace harg =>
      obtain ⟨-, -, filename, remoteName, hholds⟩ := h.shape.handles hplace
      cases harg.symm.trans hholds
      -- the word is zero, and `free` is not reached
      obtain rfl : remoteName = false := by simpa using hcareful _ _ harg
      refine h.leave_handles hplace (by decide) (done_tidy ?_) ?_
      · intro number threadArg heq
        cases heq
        exact ⟨tidy_nil, tidy_nil⟩
      · intro r
        rw [releases_done_some rfl, releases_done_some harg]
        simp [Mainloop.leave]
  | copiesRemoteName hplace harg =>
      obtain ⟨-, -, remoteName, hholds⟩ := h.shape.handles hplace
      cases harg.symm.trans hholds
      refine h.acquire_next hplace (by decide) (by decide) rfl rfl rfl ?_
      intro r
      rw [releases_done_some rfl, releases_done_some harg]
      simp
  | remoteNameFails hplace harg =>
      obtain ⟨-, -, remoteName, hholds⟩ := h.shape.handles hplace
      cases harg.symm.trans hholds
      refine h.leave_handles hplace (by decide) (done_tidy ?_) ?_
      · intro number threadArg heq
        cases heq
        exact ⟨block_tidy (by decide) _, tidy_nil⟩
      · intro r
        rw [releases_done_some rfl, releases_done_some harg]
        simp [Mainloop.leave]
  | creates hplace harg => exact h.creates hplace harg
  | createFails hplace =>
      obtain ⟨-, -, hholds⟩ := h.shape.handles hplace
      refine h.leave_handles hplace (by decide) (done_tidy ?_) (fun _ => rfl)
      intro number threadArg heq
      cases hholds.symm.trans heq
      exact ⟨block_tidy (by decide) _, block_tidy (by decide) _⟩
  | enqueues hplace =>
      obtain ⟨hconn, haccepted, -⟩ := h.shape.handles hplace
      exact h.proceed (by simp [Past, hplace]) (fun hpast => hpast) rfl rfl rfl (fun _ heq => heq)
        (by simp [frontier, hplace, Stage.rank, haccepted, Nat.mul_add])
        (by simp [plan, hplace, joinsLeft])
  | enqueueFails hplace => exact hcareful.elim
  -- what is left are the steps after the loop and those of a thread
  | joins hplace hqueue hended =>
      exact h.step_past (by simp [Past, hplace]) (.joins hplace hqueue hended)
  | joined hplace hqueue => exact h.step_past (by simp [Past, hplace]) (.joined hplace hqueue)
  | cleans hplace => exact h.step_past (by simp [Past, hplace]) (.cleans hplace)
  | returns hplace => exact h.step_past (by simp [Past, hplace]) (.returns hplace)
  | thread htodo => exact h.runThread htodo

end Mainloop

end Aesd

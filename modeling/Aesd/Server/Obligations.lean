import Aesd.Server.Mainloop
import Mathlib.Data.List.TakeWhile

/-!
# What the threads owe

Every resource that was acquired is to be released by one thread: the main
thread until a connection is handed over, then the thread that serves it. The
steps of a thread and the steps after the loop keep this.
-/

namespace Aesd

open Ledger Transition

/-- Every created thread was joined before the monitor was destroyed. -/
def JoinedFirst (log : List Effect) : Prop :=
  ∀ conn, .acquired ⟨.tid, conn⟩ ∈ log →
    .released ⟨.tid, conn⟩ ∈ log.takeWhile fun effect => effect ≠ .note .destroyedMonitor

/-- Every resource was released once, nothing else was freed, and the monitor was
destroyed last. -/
structure Released (log : List Effect) : Prop where
  settled : Settled log
  noGarbage : .note .freedGarbage ∉ log
  joinedFirst : JoinedFirst log

theorem JoinedFirst.append {log : List Effect} (h : JoinedFirst log) {effect : Effect}
    (hnot : ∀ r, effect ≠ .acquired r) : JoinedFirst (log ++ [effect]) := by
  intro conn hmem
  have hold : .acquired ⟨.tid, conn⟩ ∈ log := by
    rcases List.mem_append.mp hmem with hmem | hmem
    · exact hmem
    · exact absurd (List.mem_singleton.mp hmem).symm (hnot _)
  rw [List.takeWhile_append]
  split
  · exact List.mem_append_left _ (List.takeWhile_subset _ (h conn hold))
  · exact h conn hold

/-! ## What is owed -/

/-- The order in which a connection acquires its resources. -/
def Kind.rank : Kind → Nat
  | .connSockfd => 0
  | .threadArg => 1
  | .filename => 2
  | .remoteName => 3
  | .tid => 4

def Resource.rank (r : Resource) : Nat := 5 * r.conn + r.kind.rank

/-- How many resources a connection has at a stage. -/
def Stage.rank : Stage → Nat
  | .inetNtop => 1
  | .malloc => 1
  | .strdup => 2
  | .strndup => 3
  | .pthreadCreate => 4
  | .queueEnqueue => 5

/-- The thread argument at a stage. -/
def Stage.Holds (conn : Nat) (threadArg : Option (Nat × ThreadArg)) : Stage → Prop
  | .inetNtop => threadArg = none
  | .malloc => threadArg = none
  | .strdup => ∃ filename remoteName,
      threadArg = some (conn, ⟨some conn, .garbage filename, .garbage remoteName⟩)
  | .strndup => ∃ remoteName,
      threadArg = some (conn, ⟨some conn, .block ⟨.filename, conn⟩, .garbage remoteName⟩)
  | .pthreadCreate => threadArg =
      some (conn, ⟨some conn, .block ⟨.filename, conn⟩, .block ⟨.remoteName, conn⟩⟩)
  | .queueEnqueue => threadArg =
      some (conn, ⟨some conn, .block ⟨.filename, conn⟩, .block ⟨.remoteName, conn⟩⟩)

namespace Mainloop

/-- The joins to come. -/
def joinsLeft (s : Mainloop) : List Effect := s.threadQueue.map fun tid => .released ⟨.tid, tid⟩

/-- What the main thread still has to release. A connection that is handed over
is no longer its own. -/
def plan (s : Mainloop) : List Effect :=
  match s.place with
  | .test => s.joinsLeft
  | .accept => s.joinsLeft
  | .handles .queueEnqueue conn => .released ⟨.tid, conn⟩ :: s.joinsLeft
  | .handles _ _ => s.joinsLeft ++ s.done
  | .joins _ => s.joinsLeft ++ s.done
  | .cleans todo _ => todo
  | .returned _ => []

def owed (s : Mainloop) (r : Resource) : Nat :=
  releases s.plan r + releases (s.threads r.conn) r

/-- The resources with a lower rank have been acquired. -/
def frontier (s : Mainloop) : Nat :=
  match s.place with
  | .handles stage conn => 5 * conn + stage.rank
  | _ => 5 * s.accepted

/-- The loop has been left. -/
def Past (s : Mainloop) : Prop :=
  match s.place with
  | .joins _ => True
  | .cleans _ _ => True
  | .returned _ => True
  | _ => False

/-- The code at `done` after the joins, as far as it is not done yet. -/
def rest (s : Mainloop) : List Effect :=
  match s.place with
  | .cleans todo _ => todo
  | .returned _ => []
  | _ => s.done

/-- The variables of the main thread fit its place. -/
def Shape (s : Mainloop) : Prop :=
  match s.place with
  | .test => s.threadArg = none
  | .accept => s.threadArg = none
  | .handles stage conn =>
      s.connSockfd = some conn ∧ s.accepted = conn + 1 ∧ stage.Holds conn s.threadArg
  | _ => True

/-- All threads are joined, and the monitor may have been destroyed. -/
def Cleaning (s : Mainloop) : Prop :=
  match s.place with
  | .cleans _ _ => True
  | .returned _ => True
  | _ => False

/-- What holds in every run: a thread releases what belongs to its connection, was
created, and is joined only when it has ended. -/
structure Threaded (s : Mainloop) : Prop where
  todo : ∀ conn, ∀ effect ∈ s.threads conn, ∃ kind ≠ .tid, effect = .released ⟨kind, conn⟩
  created : ∀ conn, s.threads conn ≠ [] → .acquired ⟨.tid, conn⟩ ∈ s.log
  ended : ∀ conn, .released ⟨.tid, conn⟩ ∈ s.log → s.threads conn = []
  rest : ∀ conn, .released ⟨.tid, conn⟩ ∉ s.rest
  restReleases : ∀ r, .acquired r ∉ s.rest

/-- What holds as long as no step does harm. -/
structure Sound (s : Mainloop) : Prop extends Threaded s where
  shape : s.Shape
  conn : ∀ conn, s.connSockfd = some conn → .acquired ⟨.connSockfd, conn⟩ ∈ s.log
  below : ∀ r, .acquired r ∈ s.log → r.rank < s.frontier
  once : Once s.log
  balanced : Balanced s.log s.owed
  noGarbage : .note .freedGarbage ∉ s.log
  restClean : s.Past → .note .freedGarbage ∉ s.rest
  monitorKept : ¬ s.Cleaning → .note .destroyedMonitor ∉ s.log
  joinedFirst : s.Cleaning → JoinedFirst s.log

theorem init_sound : Sound init where
  todo conn effect hmem := by cases hmem
  created conn hne := absurd rfl hne
  ended conn hmem := by cases hmem
  rest conn := by simp [Mainloop.rest, init, done, closeOpen]
  restReleases r := by simp [Mainloop.rest, init, done, closeOpen]
  shape := rfl
  conn conn heq := by cases heq
  below r hmem := by cases hmem
  once r := Nat.zero_le 1
  balanced r := rfl
  noGarbage := List.not_mem_nil
  restClean hpast := hpast.elim
  monitorKept _ := List.not_mem_nil
  joinedFirst hcleaning := hcleaning.elim

variable {s s' : Mainloop}

/-- What has a higher rank was not acquired. -/
theorem Sound.fresh (h : Sound s) {r : Resource} (hrank : s.frontier ≤ r.rank) :
    .acquired r ∉ s.log := fun hmem => absurd (h.below r hmem) (Nat.not_lt.mpr hrank)

/-- A step by which no thread gets more to do. -/
theorem Threaded.keep (h : Threaded s) {extra : List Effect} (hthreads : s'.threads = s.threads)
    (hlog : s'.log = s.log ++ extra)
    (hended : ∀ conn, .released ⟨.tid, conn⟩ ∈ extra → s.threads conn = [])
    (htid : ∀ conn, .released ⟨.tid, conn⟩ ∉ s'.rest) (hacquired : ∀ r, .acquired r ∉ s'.rest) :
    Threaded s' where
  todo := hthreads ▸ h.todo
  created conn hne := by
    rw [hthreads] at hne
    rw [hlog]
    exact List.mem_append_left _ (h.created conn hne)
  ended conn hmem := by
    rw [hlog] at hmem
    rw [hthreads]
    exact (List.mem_append.mp hmem).elim (h.ended conn) (hended conn)
  rest := htid
  restReleases := hacquired

/-- A step that acquires nothing and changes no total. -/
theorem Sound.extend (h : Sound s) {extra : List Effect} (hthreaded : Threaded s')
    (hshape : s'.Shape) (hlog : s'.log = s.log ++ extra) (hnone : ∀ r, .acquired r ∉ extra)
    (htotal : ∀ r, releases s'.log r + s'.owed r = releases s.log r + s.owed r)
    (hconn : ∀ conn, s'.connSockfd = some conn → s.connSockfd = some conn)
    (hfrontier : s.frontier ≤ s'.frontier) (hgarbage : .note .freedGarbage ∉ extra)
    (hclean : s'.Past → .note .freedGarbage ∉ s'.rest)
    (hkept : ¬ s'.Cleaning → ¬ s.Cleaning ∧ .note .destroyedMonitor ∉ extra)
    (hfirst : s'.Cleaning → JoinedFirst s'.log) : Sound s' := by
  have hacquired : ∀ r, .acquired r ∈ s'.log → .acquired r ∈ s.log := by
    intro r hmem
    rw [hlog] at hmem
    exact (List.mem_append.mp hmem).resolve_right (hnone r)
  have hcount : ∀ r, acquisitions s'.log r = acquisitions s.log r := by
    intro r
    have hzero : acquisitions extra r = 0 := List.count_eq_zero.mpr (hnone r)
    rw [hlog, acquisitions_append, hzero, Nat.add_zero]
  exact
    { toThreaded := hthreaded
      shape := hshape
      conn := fun conn heq => by
        rw [hlog]
        exact List.mem_append_left _ (h.conn conn (hconn conn heq))
      below := fun r hmem => Nat.lt_of_lt_of_le (h.below r (hacquired r hmem)) hfrontier
      once := fun r => (hcount r).trans_le (h.once r)
      balanced := fun r => (htotal r).trans ((h.balanced r).trans (hcount r).symm)
      noGarbage := by
        rw [hlog, List.mem_append, not_or]
        exact ⟨h.noGarbage, hgarbage⟩
      restClean := hclean
      monitorKept := fun hnot => by
        obtain ⟨hbefore, hextra⟩ := hkept hnot
        rw [hlog, List.mem_append, not_or]
        exact ⟨h.monitorKept hbefore, hextra⟩
      joinedFirst := hfirst }

/-! ## A step of a thread -/

section Thread

variable {conn : Nat} {effect : Effect} {todo : List Effect}

/-- The state after the next action of a thread. -/
def runThread (s : Mainloop) (conn : Nat) (effect : Effect) (todo : List Effect) : Mainloop :=
  { s with threads := Function.update s.threads conn todo, log := s.log ++ [effect] }

theorem Threaded.effect_eq (h : Threaded s) (htodo : s.threads conn = effect :: todo) :
    ∃ kind ≠ .tid, effect = .released ⟨kind, conn⟩ := by
  apply h.todo conn
  rw [htodo]
  exact List.mem_cons_self

theorem Threaded.runThread (h : Threaded s) (htodo : s.threads conn = effect :: todo) :
    Threaded (s.runThread conn effect todo) := by
  obtain ⟨kind, hkind, rfl⟩ := h.effect_eq htodo
  have hne : s.threads conn ≠ [] := by
    rw [htodo]
    exact List.cons_ne_nil _ _
  constructor
  -- the thread has one release less to do, and the others what they had
  · intro other entry hmem
    have hmem : entry ∈ Function.update s.threads conn todo other := hmem
    by_cases heq : other = conn
    · subst heq
      rw [Function.update_self] at hmem
      apply h.todo other
      rw [htodo]
      exact List.mem_cons_of_mem _ hmem
    · rw [Function.update_of_ne heq] at hmem
      exact h.todo other entry hmem
  · intro other hother
    have hother : Function.update s.threads conn todo other ≠ [] := hother
    apply List.mem_append_left
    by_cases heq : other = conn
    · subst heq
      exact h.created other hne
    · rw [Function.update_of_ne heq] at hother
      exact h.created other hother
  · intro other hmem
    have hjoined : .released ⟨.tid, other⟩ ∈ s.log := by
      rcases List.mem_append.mp hmem with hmem | hmem
      · exact hmem
      · cases List.mem_singleton.mp hmem
        exact absurd rfl hkind
    -- a joined thread has ended, and so it is not the one that runs
    have heq : other ≠ conn := by
      rintro rfl
      exact hne (h.ended other hjoined)
    calc Function.update s.threads conn todo other = s.threads other :=
          Function.update_of_ne heq _ _
      _ = [] := h.ended other hjoined
  · exact h.rest
  · exact h.restReleases

/-- What a thread releases is owed no more. -/
theorem Threaded.total_runThread (h : Threaded s) (htodo : s.threads conn = effect :: todo)
    (r : Resource) :
    releases (s.runThread conn effect todo).log r + (s.runThread conn effect todo).owed r =
      releases s.log r + s.owed r := by
  obtain ⟨kind, _, rfl⟩ := h.effect_eq htodo
  have hlog : releases (s.runThread conn (.released ⟨kind, conn⟩) todo).log r =
      releases s.log r + if (⟨kind, conn⟩ : Resource) = r then 1 else 0 := by
    simp [Mainloop.runThread]
  have howed : (s.runThread conn (.released ⟨kind, conn⟩) todo).owed r =
      releases s.plan r + releases (Function.update s.threads conn todo r.conn) r := rfl
  rw [hlog, howed, owed]
  by_cases heq : r.conn = conn
  · subst heq
    rw [Function.update_self, htodo, releases_released]
    omega
  · have hne : (⟨kind, conn⟩ : Resource) ≠ r := fun hr => heq (hr ▸ rfl)
    rw [Function.update_of_ne heq, if_neg hne]
    omega

theorem Sound.runThread (h : Sound s) (htodo : s.threads conn = effect :: todo) :
    Sound (s.runThread conn effect todo) := by
  have hthreaded := h.toThreaded.runThread htodo
  have htotal := h.toThreaded.total_runThread htodo
  obtain ⟨kind, -, rfl⟩ := h.effect_eq htodo
  exact h.extend hthreaded h.shape rfl (by simp) htotal (fun _ heq => heq) (Nat.le_refl _)
    (by simp) h.restClean (fun hnot => ⟨hnot, by simp⟩)
    fun hcleaning => (h.joinedFirst hcleaning).append fun _ => nofun

end Thread

/-! ## After the loop -/

theorem Past.shape (h : s.Past) : s.Shape := by
  unfold Past at h
  unfold Shape
  cases hplace : s.place with
  | test => simp [hplace] at h
  | accept => simp [hplace] at h
  | handles stage conn => simp [hplace] at h
  | joins => trivial
  | cleans => trivial
  | returned => trivial

theorem Past.frontier_eq (h : s.Past) : s.frontier = 5 * s.accepted := by
  unfold Past at h
  unfold frontier
  cases hplace : s.place with
  | handles stage conn => simp [hplace] at h
  | _ => rfl

/-- What a step after the loop comes to, whether or not harm was done. -/
structure Closes (s s' : Mainloop) (extra : List Effect) : Prop where
  threaded : Threaded s'
  past : s'.Past
  log : s'.log = s.log ++ extra
  noAcquired : ∀ r, .acquired r ∉ extra
  total : ∀ r, releases s'.log r + s'.owed r = releases s.log r + s.owed r
  rest : s.rest = extra ++ s'.rest ∨ s.rest = s'.rest ∧ .note .freedGarbage ∉ extra

theorem Threaded.joins (h : Threaded s) {ok : Bool} {others : List Nat} {tid : Nat}
    (hplace : s.place = .joins ok) (hqueue : s.threadQueue = others ++ [tid])
    (hended : s.threads tid = []) :
    Closes s { s with threadQueue := others, log := s.log ++ [.released ⟨.tid, tid⟩] }
      [.released ⟨.tid, tid⟩] where
  threaded := by
    refine h.keep rfl rfl ?_ h.rest h.restReleases
    intro conn hmem
    cases List.mem_singleton.mp hmem
    exact hended
  past := by simp [Past, hplace]
  log := rfl
  noAcquired := by simp
  total r := by
    simp only [owed, plan, hplace, joinsLeft, hqueue, List.map_append, List.map_cons, List.map_nil,
      releases_append, releases_released, releases_nil, done]
    omega
  rest := Or.inr ⟨rfl, by simp⟩

/-- A step of the code at `done` after the joins. -/
theorem Threaded.close (h : Threaded s) {extra : List Effect} (hpast : s'.Past)
    (hthreads : s'.threads = s.threads) (hlog : s'.log = s.log ++ extra)
    (hrest : s.rest = extra ++ s'.rest)
    (hplan : ∀ r, releases s.plan r = releases extra r + releases s'.plan r) :
    Closes s s' extra where
  threaded := by
    have hfront : ∀ effect ∈ extra, effect ∈ s.rest := fun effect hmem =>
      hrest ▸ List.mem_append_left _ hmem
    have hback : ∀ effect ∈ s'.rest, effect ∈ s.rest := fun effect hmem =>
      hrest ▸ List.mem_append_right _ hmem
    exact h.keep hthreads hlog (fun conn hmem => absurd (hfront _ hmem) (h.rest conn))
      (fun conn hmem => h.rest conn (hback _ hmem)) fun r hmem => h.restReleases r (hback _ hmem)
  past := hpast
  log := hlog
  noAcquired r hmem := h.restReleases r (hrest ▸ List.mem_append_left _ hmem)
  total r := by
    rw [owed, owed, hlog, hthreads, hplan, releases_append]
    omega
  rest := Or.inl hrest

theorem Threaded.joined (h : Threaded s) {ok : Bool} (hplace : s.place = .joins ok)
    (hqueue : s.threadQueue = []) : Closes s { s with place := .cleans s.done ok } [] :=
  h.close trivial rfl (List.append_nil _).symm (by simp [Mainloop.rest, hplace])
    (by simp [plan, hplace, joinsLeft, hqueue])

theorem Threaded.cleans (h : Threaded s) {effect : Effect} {todo : List Effect} {ok : Bool}
    (hplace : s.place = .cleans (effect :: todo) ok) :
    Closes s { s with place := .cleans todo ok, log := s.log ++ [effect] } [effect] := by
  refine h.close trivial rfl rfl (by simp [Mainloop.rest, hplace]) ?_
  intro r
  simp only [plan, hplace]
  exact releases_append r [effect] todo

theorem Threaded.returns (h : Threaded s) {ok : Bool} (hplace : s.place = .cleans [] ok) :
    Closes s { s with place := .returned ok } [] :=
  h.close trivial rfl (List.append_nil _).symm (by simp [Mainloop.rest, hplace])
    (by simp [plan, hplace])

theorem Threaded.releases_threads (h : Threaded s) (conn : Nat) (r : Resource)
    (hkind : r.kind = .tid) : releases (s.threads conn) r = 0 := by
  apply List.count_eq_zero.mpr
  intro hmem
  obtain ⟨kind, hne, heq⟩ := h.todo conn _ hmem
  cases heq
  exact hne hkind

/-- When the queue is empty, all created threads are joined. -/
theorem Sound.all_joined (h : Sound s) {ok : Bool} (hplace : s.place = .joins ok)
    (hqueue : s.threadQueue = []) : JoinedFirst s.log := by
  intro conn hmem
  have hpos := acquisitions_pos_iff.mpr hmem
  have hbalance := h.balanced ⟨.tid, conn⟩
  have hdone : releases s.done ⟨.tid, conn⟩ = 0 := by
    have hrest := h.rest conn
    simp only [Mainloop.rest, hplace] at hrest
    exact List.count_eq_zero.mpr hrest
  have hplan : releases s.plan ⟨.tid, conn⟩ = 0 := by
    simp [plan, hplace, joinsLeft, hqueue, hdone]
  have hthreads : releases (s.threads conn) ⟨.tid, conn⟩ = 0 :=
    h.releases_threads conn ⟨.tid, conn⟩ rfl
  -- nobody owes the join any more, so it was made
  have hreleased : 0 < releases s.log ⟨.tid, conn⟩ := by
    rw [owed, hplan, hthreads] at hbalance
    omega
  have hkept : .note .destroyedMonitor ∉ s.log :=
    h.monitorKept (by simp [Cleaning, hplace])
  have hall : s.log.takeWhile (fun effect => effect ≠ .note .destroyedMonitor) = s.log := by
    apply List.takeWhile_eq_self_iff.mpr
    intro effect hmem
    exact decide_eq_true fun heq => hkept (heq ▸ hmem)
  rw [hall]
  exact releases_pos_iff.mp hreleased

theorem Sound.of_closes (h : Sound s) (hpast : s.Past) {extra : List Effect}
    (hcloses : Closes s s' extra) (hconn : s'.connSockfd = s.connSockfd)
    (haccepted : s'.accepted = s.accepted)
    (hkept : ¬ s'.Cleaning → ¬ s.Cleaning ∧ .note .destroyedMonitor ∉ extra)
    (hfirst : s'.Cleaning → JoinedFirst s'.log) : Sound s' := by
  have hgarbage : .note .freedGarbage ∉ extra ∧ .note .freedGarbage ∉ s'.rest := by
    have hclean := h.restClean hpast
    rcases hcloses.rest with heq | ⟨heq, hnot⟩
    · rwa [heq, List.mem_append, not_or] at hclean
    · exact ⟨hnot, heq ▸ hclean⟩
  refine h.extend hcloses.threaded hcloses.past.shape hcloses.log hcloses.noAcquired hcloses.total
    (fun conn heq => hconn ▸ heq) ?_ hgarbage.1 (fun _ => hgarbage.2) hkept hfirst
  rw [hpast.frontier_eq, hcloses.past.frontier_eq, haccepted]

/-- After the loop every step is harmless. -/
theorem Sound.step_past (h : Sound s) (hpast : s.Past) {event : MainEvent}
    (hstep : Step s event s') : Sound s' := by
  cases hstep with
  | thread htodo => exact h.runThread htodo
  | joins hplace hqueue hended =>
      refine h.of_closes hpast (h.joins hplace hqueue hended) rfl rfl (fun hnot => ⟨hnot, by simp⟩) ?_
      intro hcleaning
      simp [Cleaning, hplace] at hcleaning
  | joined hplace hqueue =>
      exact h.of_closes hpast (h.joined hplace hqueue) rfl rfl (fun hnot => absurd trivial hnot)
        fun _ => h.all_joined hplace hqueue
  | cleans hplace =>
      have hfirst := h.joinedFirst (by simp [Cleaning, hplace])
      have hnone := (h.toThreaded.cleans hplace).noAcquired
      refine h.of_closes hpast (h.toThreaded.cleans hplace) rfl rfl (fun hnot => absurd trivial hnot)
        fun _ => hfirst.append fun r heq => hnone r (by simp [heq])
  | returns hplace =>
      have hfirst := h.joinedFirst (by simp [Cleaning, hplace])
      exact h.of_closes hpast (h.toThreaded.returns hplace) rfl rfl (fun hnot => absurd trivial hnot)
        fun _ => hfirst
  | _ hplace => simp [Past, hplace] at hpast

end Mainloop

end Aesd

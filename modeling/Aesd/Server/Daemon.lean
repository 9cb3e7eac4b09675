import Aesd.Foundation.FileTable
import Aesd.Server.Descriptors
import Aesd.Server.Timestamp

/-!
# Standard descriptors

What the server logs goes to descriptor 2 as well, and a descriptor that is opened
is the lowest that is not open. So a server that is started with a standard
descriptor closed may log to its own socket, unless it becomes a daemon: then the
standard descriptors are `/dev/null` before anything else is opened, and stay so.
-/

namespace Aesd

open CSem Handles FileTable

variable {α : Type}

/-- The result of `fork`, in each process that it comes back in. -/
inductive Fork
  | failed
  | parent
  | child
  deriving DecidableEq, Repr

/-- Which calls of `aesdsocket_daemonize` succeed. The loop ignores the results of
`close`. -/
structure DaemonOutcome where
  fork : Fork
  setsid : Bool
  chdir : Bool
  opens : Bool
  dup : Bool
  dupAgain : Bool
  deriving DecidableEq, Repr

/-- `aesdsocket_daemonize`: nothing when it exits. -/
def aesdsocketDaemonize (devNull : α) (outcome : DaemonOutcome) (t : Table α) :
    Option (Table α × Bool) :=
  match outcome.fork with
  | .failed => some (t, false)
  | .parent => none
  | .child =>
    if !outcome.setsid then some (t, false)
    else if !outcome.chdir then some (t, false)
    else
      let t := (List.range 3).foldl Table.close t
      if !outcome.opens then some (t, false)
      else
        let t := t.put t.lowest devNull
        match if outcome.dup then t.dup 0 else none with
        | none => some (t, false)
        | some (t, _) =>
          match if outcome.dupAgain then t.dup 0 else none with
          | none => some (t, false)
          | some (t, _) => some (t, true)

/-- A daemon has `/dev/null` at the standard descriptors, and the others as it
found them. -/
theorem aesdsocketDaemonize_refilled {devNull : α} {outcome : DaemonOutcome} {t t' : Table α}
    (hreturns : aesdsocketDaemonize devNull outcome t = some (t', true)) :
    t.Refilled 3 devNull 3 t' := by
  have hclosed := t.refilled_zero 3 devNull
  have hopened := hclosed.put (by decide)
  have hdup := hopened.put (by decide)
  obtain ⟨fork, setsid, chdir, opens, dup, dupAgain⟩ := outcome
  cases fork with
  | failed => cases hreturns
  | parent => cases hreturns
  | child =>
      cases setsid <;> cases chdir <;> cases opens <;> cases dup <;> cases dupAgain
      all_goals
        simp [aesdsocketDaemonize, hopened.dup_zero, hdup.dup_zero] at hreturns
      rw [← hreturns]
      exact hdup.put (by decide)

theorem aesdsocketDaemonize_succeeds (devNull : α) (t : Table α) :
    ∃ t', aesdsocketDaemonize devNull ⟨.child, true, true, true, true, true⟩ t =
      some (t', true) := by
  have hopened := (t.refilled_zero 3 devNull).put (by decide)
  have hdup := hopened.put (by decide)
  simp [aesdsocketDaemonize, hopened.dup_zero, hdup.dup_zero]

/-! ## What the main thread does with descriptors -/

section

variable {σ τ : Type} {os : Os σ} {calendar : Calendar τ} {now : Option Int} {fuel fileFd : Nat}
  {proc proc' : Process (Traced σ)} {held : List Nat} {ok : Bool}

theorem writeTimestamp_moves {buffer : List UInt8} (hmem : fileFd ∈ held)
    (hreturns : writeTimestamp os.traced fuel fileFd proc buffer = .ok (proc', ok)) :
    Moves proc.state proc'.state held held := by
  obtain ⟨⟨written, okWrite⟩, hwrite, hreturns⟩ := Exec.bind_eq_ok.mp hreturns
  obtain ⟨heap, _, heq⟩ := Exec.bind_eq_ok.mp hreturns
  cases heq
  have hwritten := (Moves.keeps os proc.state hmem).writeLine hwrite (.refl _ _)
  exact hwritten

/-- A timestamp leaves the descriptors held that it found. -/
theorem takeTimestamp_moves
    (hreturns : aesdsocketTakeTimestamp os.traced calendar now fuel proc = .ok (proc', ok)) :
    Moves proc.state proc'.state held held := by
  obtain ⟨⟨state, opened⟩, hopen, hanswer⟩ := Exec.bind_eq_ok.mp hreturns
  rcases Moves.opened hopen held with ⟨fd, rfl, hopened⟩ | ⟨hnone, hopened⟩
  · rw [takeTimestamp_eq hopen] at hreturns
    obtain ⟨buffer, _, hreturns⟩ := Exec.bind_eq_ok.mp hreturns
    obtain ⟨⟨written, okWrite⟩, hwrite, hreturns⟩ := Exec.bind_eq_ok.mp hreturns
    obtain ⟨closed, hclose, heq⟩ := Exec.bind_eq_ok.mp hreturns
    cases heq
    have hwritten : Moves state written.state (fd :: held) (fd :: held) := by
      cases buffer with
      | none =>
          cases hwrite
          exact .refl _ _
      | some buffer => exact writeTimestamp_moves List.mem_cons_self hwrite
    exact (hopened.trans hwritten).trans (.closed hclose)
  · cases opened with
    | done fd => exact absurd rfl (hnone fd)
    | interrupted =>
        cases hanswer
        exact hopened
    | failed =>
        cases hanswer
        exact hopened

end

/-- What a timestamp does with descriptors in some environment. -/
def TimestampActs (acts : List (Handles.Act Nat)) : Prop :=
  ∃ (σ τ : Type) (os : Os σ) (calendar : Calendar τ) (now : Option Int) (fuel : Nat) (state : σ)
    (heap : Heap) (result : Process (Traced σ) × Bool),
    aesdsocketTakeTimestamp os.traced calendar now fuel ⟨(state, []), heap⟩ = .ok result ∧
      result.1.state.2 = acts

theorem TimestampActs.after_eq {acts : List (Handles.Act Nat)} (h : TimestampActs acts)
    (held : List Nat) : after held acts = some held := by
  obtain ⟨σ, τ, os, calendar, now, fuel, state, heap, ⟨proc', ok⟩, hreturns, rfl⟩ := h
  have hmoves : Moves (state, []) proc'.state held held := takeTimestamp_moves hreturns
  obtain ⟨acts, hacts, hafter⟩ := hmoves
  rw [hacts]
  exact hafter

/-- The set-up of `aesdsocket_mainloop` and its loop: the socket is opened first, and
used to listen and to accept, and timestamps are taken. A descriptor that is
accepted is counted to its connection. -/
inductive ListeningActs (sockfd : Nat) : List (Handles.Act Nat) → Prop
  | opened : ListeningActs sockfd [.opened sockfd]
  | used {acts : List (Handles.Act Nat)} (h : ListeningActs sockfd acts) :
      ListeningActs sockfd (acts ++ [.used sockfd])
  | stamped {acts stamp : List (Handles.Act Nat)} (h : ListeningActs sockfd acts)
      (hstamp : TimestampActs stamp) : ListeningActs sockfd (acts ++ stamp)

/-- The socket is all that the main thread holds in between. -/
theorem ListeningActs.after_eq {sockfd : Nat} {acts : List (Handles.Act Nat)}
    (h : ListeningActs sockfd acts) : after [] acts = some [sockfd] := by
  induction h with
  | opened => rfl
  | used _ ih =>
      rw [after_concat, ih]
      exact hold_used (List.mem_singleton_self sockfd)
  | stamped _ hstamp ih =>
      rw [after_append, ih]
      exact hstamp.after_eq [sockfd]

/-- The main thread until the code at `done`; a socket that cannot be made to listen
is closed. -/
def MainActs (sockfd : Nat) (acts : List (Handles.Act Nat)) : Prop :=
  ListeningActs sockfd acts ∨ ∃ front, ListeningActs sockfd front ∧ acts = front ++ [.closed sockfd]

/-- The socket comes first. -/
theorem MainActs.opened_first {sockfd : Nat} {acts : List (Handles.Act Nat)}
    (h : MainActs sockfd acts) : ∃ others, acts = .opened sockfd :: others := by
  have hlistening : ∀ {front}, ListeningActs sockfd front →
      ∃ others, front = .opened sockfd :: others := by
    intro front hfront
    induction hfront with
    | opened => exact ⟨[], rfl⟩
    | used _ ih =>
        obtain ⟨others, rfl⟩ := ih
        exact ⟨_, rfl⟩
    | stamped _ _ ih =>
        obtain ⟨others, rfl⟩ := ih
        exact ⟨_, rfl⟩
  rcases h with h | ⟨front, h, rfl⟩
  · exact hlistening h
  · obtain ⟨others, rfl⟩ := hlistening h
    exact ⟨_, rfl⟩

theorem MainActs.after_isSome {sockfd : Nat} {acts : List (Handles.Act Nat)}
    (h : MainActs sockfd acts) : ∃ held, after [] acts = some held := by
  rcases h with h | ⟨front, h, rfl⟩
  · exact ⟨[sockfd], h.after_eq⟩
  · refine ⟨[], ?_⟩
    rw [after_concat, h.after_eq]
    exact (hold_closed (List.mem_singleton_self sockfd)).trans (by rw [List.erase_cons_head])

/-- A connection that no thread was made for is only closed. -/
def AcceptedActs (connSockfd : Nat) (acts : List (Handles.Act Nat)) : Prop :=
  ConnectionActs connSockfd acts ∨ acts = [.opened connSockfd, .closed connSockfd]

theorem AcceptedActs.after_eq {connSockfd : Nat} {acts : List (Handles.Act Nat)}
    (h : AcceptedActs connSockfd acts) : after [] acts = some [] := by
  rcases h with h | rfl
  · exact h.after_eq
  · simp [after, hold]

/-! ## The standard descriptors of the server -/

/-- The table when the set-up begins, if it does. -/
def tableAtSetUp (devNull : α) (daemon : Bool) (outcome : DaemonOutcome) (start : Table α) :
    Option (Table α) :=
  if daemon then
    (aesdsocketDaemonize devNull outcome start).bind fun result =>
      if result.2 then some result.1 else none
  else some start

/-- A daemon, or a server that was started with all standard descriptors open. -/
def HasStandardDescriptors (daemon : Bool) (start : Table α) : Prop :=
  daemon = true ∨ ∀ fd < 3, start.isOpen fd = true

section

variable {devNull : α} {daemon : Bool} {outcome : DaemonOutcome} {start t : Table α}

theorem file_of_tableAtSetUp (hstart : tableAtSetUp devNull daemon outcome start = some t)
    (fd : Nat) : t.file fd = if daemon = true ∧ fd < 3 then some devNull else start.file fd := by
  cases daemon with
  | false =>
      cases hstart
      rfl
  | true =>
      obtain ⟨⟨t', ok⟩, hdaemonize, hok⟩ := Option.bind_eq_some_iff.mp hstart
      cases ok with
      | false => cases hok
      | true =>
          cases hok
          rw [aesdsocketDaemonize_refilled hdaemonize fd]
          by_cases hlt : fd < 3
          · rw [if_pos hlt, if_pos ⟨rfl, hlt⟩]
          · rw [if_neg hlt, if_neg hlt, if_neg fun h => hlt h.2]

/-- They are open when the set-up begins, in exactly these cases. -/
theorem hasStandardDescriptors_iff (hstart : tableAtSetUp devNull daemon outcome start = some t) :
    HasStandardDescriptors daemon start ↔ ∀ fd < 3, t.isOpen fd = true := by
  have hfile := file_of_tableAtSetUp hstart
  cases daemon with
  | true =>
      refine iff_of_true (Or.inl rfl) fun fd hlt => ?_
      rw [Table.isOpen, hfile, if_pos ⟨rfl, hlt⟩]
      rfl
  | false =>
      have heq : t = start := by
        ext fd
        rw [hfile, if_neg fun h => Bool.noConfusion h.1]
      rw [heq, HasStandardDescriptors, or_iff_right Bool.false_ne_true]

end

/-- Whatever the server, its connections and its timestamps open and close, in any
order and whichever of their calls fail, no descriptor that it was started with is
touched. If it is a daemon, or was started with its standard descriptors open, then
it gets none of them, and a daemon logs to `/dev/null` for ever. Otherwise its own
socket becomes a standard descriptor. -/
theorem standard_descriptors {τ : Type} [DecidableEq τ] {devNull : α} {daemon : Bool}
    {outcome : DaemonOutcome} {start t t' : Table α}
    (hstart : tableAtSetUp devNull daemon outcome start = some t) {sockfd : Nat}
    {mainActs : List (Handles.Act Nat)} (hmain : MainActs sockfd mainActs) {connSockfd : τ → Nat}
    {acts : τ → List (Handles.Act Nat)}
    (hacts : ∀ thread, AcceptedActs (connSockfd thread) (acts thread))
    {events : List (Option τ × Handles.Act Nat)} (hrun : Transition.Run FileTable.Step t events t')
    (hpart : ∀ thread, actsOf thread events <+: thread.elim mainActs acts)
    (hfirst : ∀ event ∈ events.head?, event.1 = none) :
    (∀ fd, t.isOpen fd = true → t'.file fd =
      if daemon = true ∧ fd < 3 then some devNull else start.file fd) ∧
    (HasStandardDescriptors daemon start →
      ∀ thread fd, (thread, .opened fd) ∈ events → 3 ≤ fd) ∧
    (¬ HasStandardDescriptors daemon start → events ≠ [] → sockfd < 3) := by
  have hown : KeepToTheirOwn events := by
    intro thread
    cases thread with
    | none =>
        obtain ⟨held, hheld⟩ := hmain.after_isSome
        exact after_of_isPrefix (hpart none) hheld
    | some thread => exact after_of_isPrefix (hpart (some thread)) (hacts thread).after_eq
  refine ⟨fun fd hopen => ?_, fun hstandard thread fd hmem => ?_, fun hnot hne => ?_⟩
  · rw [file_eq_of_run hrun hown hopen]
    exact file_of_tableAtSetUp hstart fd
  · exact le_of_opened hrun hown ((hasStandardDescriptors_iff hstart).mp hstandard) hmem
  · obtain ⟨⟨thread, act⟩, others, rfl⟩ := List.exists_cons_of_ne_nil hne
    obtain rfl : thread = none := hfirst _ rfl
    obtain ⟨rest, rfl⟩ := hmain.opened_first
    -- the first act of the main thread opens its socket
    obtain ⟨back, hback⟩ := hpart none
    obtain rfl : act = .opened sockfd := (List.cons.inj hback).1
    rw [lowest_of_opened_first hrun]
    rw [hasStandardDescriptors_iff hstart] at hnot
    push Not at hnot
    obtain ⟨fd, hlt, hclosed⟩ := hnot
    exact Nat.lt_of_le_of_lt (Table.lowest_le (Bool.eq_false_of_not_eq_true hclosed)) hlt

/-- A daemon that was started without any open descriptor listens at descriptor 3 and
accepts a connection at descriptor 4. -/
theorem standard_descriptors_daemon : ∃ (start t t' : Table Nat) (outcome : DaemonOutcome),
    (∀ fd, start.isOpen fd = false) ∧ tableAtSetUp 0 true outcome start = some t ∧
    Transition.Run FileTable.Step t
      [(none, .opened 3), (some (), .opened 4), (some (), .closed 4)] t' ∧ t'.file 2 = some 0 := by
  let start : Table Nat := ⟨fun _ => none, 0, fun _ _ => rfl⟩
  obtain ⟨t, hdaemonize⟩ := aesdsocketDaemonize_succeeds 0 start
  have hstart : tableAtSetUp 0 true ⟨.child, true, true, true, true, true⟩ start = some t := by
    rw [tableAtSetUp, if_pos rfl, hdaemonize]
    rfl
  have hopen : ∀ fd, t.isOpen fd = decide (fd < 3) := by
    intro fd
    rw [Table.isOpen, file_of_tableAtSetUp hstart]
    by_cases hlt : fd < 3 <;> simp [hlt, start]
  have hfirst : t.lowest = 3 := Table.lowest_eq (hopen 3) fun fd hlt => by simp [hopen, hlt]
  have hsecond : (t.put 3 7).lowest = 4 := by
    apply Table.lowest_eq
    · simp [Table.isOpen_put, hopen]
    · intro fd hlt
      rcases Nat.lt_succ_iff_lt_or_eq.mp hlt with hless | rfl
      · simp [Table.isOpen_put, hopen, hless, hless.ne]
      · simp [Table.isOpen_put]
  have hlistens := FileTable.Step.of_lowest hfirst (none : Option Unit) 7
  have haccepts := FileTable.Step.of_lowest hsecond (some ()) 8
  have hrun : Transition.Run FileTable.Step t
      [(none, .opened 3), (some (), .opened 4), (some (), .closed 4)] _ :=
    (((Transition.Run.nil t).snoc hlistens).snoc haccepts).snoc (.closed 4)
  have hpart : ∀ thread, actsOf thread
      [(none, Handles.Act.opened 3), (some (), .opened 4), (some (), .closed 4)] <+:
        thread.elim [.opened 3] fun _ => [.opened 4, .closed 4] := by
    intro thread
    cases thread with
    | none => decide
    | some thread =>
        cases thread
        decide
  obtain ⟨hfile, _⟩ := standard_descriptors hstart (Or.inl .opened) (fun _ => Or.inr rfl) hrun hpart
    fun _ heq => (by cases heq; rfl)
  exact ⟨start, t, _, _, fun _ => rfl, hstart, hrun, hfile 2 (hopen 2)⟩

end Aesd

import Aesd.Server.WrittenLine
import Mathlib.Logic.Relation

/-!
# Passing a line on in parts

`aesdsocket_write_line` and `aesdsocket_send_line` count down the bytes that are
left and offer the end of the string. Whatever the calls take of it, and however
often they are interrupted, what was taken is the front of the string and what is
offered next is the rest.
-/

namespace Aesd

open CSem Relation

/-! ## Any outcomes -/

/-- The outcome of one `write` or `send`. -/
inductive Transfer
  | taken (count : Nat)
  | interrupted
  | failed
  deriving DecidableEq, Repr

/-- The outcomes of all calls to come, and what each test of the termination flag
finds. -/
structure Transfers where
  outcome : Nat → Transfer
  flag : Nat → Bool

/-- The number of calls and of tests made. -/
structure Progress where
  calls : Nat
  checks : Nat
  deriving DecidableEq, Repr

/-- A call takes at least one byte and at most those it is offered. -/
def Transfer.result (offered : Nat) : Transfer → CallResult Nat
  | .taken count => .done (min (max 1 count) offered)
  | .interrupted => .interrupted
  | .failed => .failed

/-- The next outcome. -/
def Transfers.next (outcomes : Transfers) (bytes : List UInt8) (state : Progress) :
    Exec (Progress × CallResult Nat) :=
  .ok ({ state with calls := state.calls + 1 },
    (outcomes.outcome state.calls).result bytes.length)

/-- An environment with these outcomes. The calls that pass on nothing fail. -/
def Transfers.os (outcomes : Transfers) : Os Progress where
  openFile state _ := .ok (state, .failed)
  closeFile state _ := .ok state
  read state _ _ := .ok (state, .failed)
  write state _ bytes := outcomes.next bytes state
  ioctl state _ _ := .ok (state, .failed)
  recv state _ _ := .ok (state, .failed)
  send state _ bytes := outcomes.next bytes state
  realloc state := (state, .null)
  terminationFlag state :=
    ({ state with checks := state.checks + 1 }, outcomes.flag state.checks)
  startReading := id
  stopReading := id
  startWriting := id
  stopWriting := id

/-! ## The moments of a loop -/

section

variable {σ : Type} (os : Os σ) (fd : Nat) (line : Option Ptr)

/-- A loop that passes a line on, between two rounds or after an interrupted call
inside of one, with the number of bytes that are left. -/
inductive Moment (again : Process (Logged σ) × Nat → Process (Logged σ) × Nat → Prop)
    (interrupted : Process (Logged σ) × Nat → Logged σ → Prop)
    (start : Process (Logged σ) × Nat) : Logged σ → Nat → Prop
  | between {s : Process (Logged σ) × Nat} (hrounds : ReflTransGen again start s) :
      Moment again interrupted start s.1.state s.2
  | inside {s : Process (Logged σ) × Nat} {state : Logged σ}
      (hrounds : ReflTransGen again start s) (hinterrupted : interrupted s state) :
      Moment again interrupted start state s.2

/-- A round of `aesdsocket_write_line` after which the loop goes on. -/
def WriteAgain (s s' : Process (Logged σ) × Nat) : Prop :=
  ∃ fuel, writeLineRound os.logged fuel fd line s = .ok (.again s')

/-- Some interrupted calls of a round of `aesdsocket_write_line`. -/
def WriteInterrupted (s : Process (Logged σ) × Nat) (state : Logged σ) : Prop :=
  ∃ bytes, s.2 ≠ 0 ∧ remainingBytes s.1.heap line s.2 = .ok bytes ∧
    ReflTransGen (fun before after => os.logged.write before fd bytes = .ok (after, .interrupted))
      s.1.state state

/-- The moments of `aesdsocket_write_line`. -/
def WriteMoment (proc : Process (Logged σ)) (state : Logged σ) (left : Nat) : Prop :=
  ∃ cells count, proc.heap.cellsAt line 0 = .ok cells ∧ strlen cells = .ok count ∧
    Moment (WriteAgain os fd line) (WriteInterrupted os fd line)
      (⟨os.logged.startWriting proc.state, proc.heap⟩, count) state left

/-- A round of `aesdsocket_send_line` after which the loop goes on. -/
def SendAgain (s s' : Process (Logged σ) × Nat) : Prop :=
  ∃ fuel, sendLineRound os.logged fuel fd line s = .ok (.again s')

/-- Some interrupted calls of a round of `aesdsocket_send_line`. -/
def SendInterrupted (s : Process (Logged σ) × Nat) (state : Logged σ) : Prop :=
  ∃ bytes, s.2 ≠ 0 ∧ (os.logged.terminationFlag s.1.state).2 = false ∧
    remainingBytes s.1.heap line s.2 = .ok bytes ∧
    ReflTransGen (fun before after => os.logged.send before fd bytes = .ok (after, .interrupted))
      (os.logged.terminationFlag s.1.state).1 state

/-- The moments of `aesdsocket_send_line`. -/
def SendMoment (proc : Process (Logged σ)) (state : Logged σ) (left : Nat) : Prop :=
  ∃ cells count, proc.heap.cellsAt line 0 = .ok cells ∧ strlen cells = .ok count ∧
    Moment (SendAgain os fd line) (SendInterrupted os fd line) (proc, count) state left

end

/-! ## What was passed on -/

/-- The bytes that a call to pass something on offers. -/
def SystemCall.offered : SystemCall → Option (List UInt8)
  | .write _ bytes _ | .send bytes _ => some bytes
  | _ => none

/-- How many bytes a call took. -/
def CallResult.taken : CallResult Nat → Nat
  | .done count => count
  | _ => 0

/-- The bytes that a call took. -/
def SystemCall.accepted : SystemCall → List UInt8
  | .write _ bytes result | .send bytes result => bytes.take result.taken
  | _ => []

/-- Everything that was taken, in order. -/
def accepted (calls : List SystemCall) : List UInt8 := calls.flatMap SystemCall.accepted

/-- The calls so far have taken the front of the text, the counter is the length of
the rest, and every call was offered what the calls before it had left. -/
structure Transmits (text : List UInt8) (left : Nat) (calls : List SystemCall) : Prop where
  accepted_prefix : accepted calls <+: text
  counter : (accepted calls).length + left = text.length
  offers : ∀ front call back bytes, calls = front ++ call :: back →
    call.offered = some bytes → bytes = text.drop (accepted front).length

namespace Transmits

variable {text : List UInt8} {left : Nat} {calls : List SystemCall}

theorem nil (text : List UInt8) : Transmits text text.length [] where
  accepted_prefix := List.nil_prefix
  counter := Nat.zero_add _
  offers front call back bytes heq := by
    have hlength := congrArg List.length heq
    simp at hlength

theorem le (h : Transmits text left calls) : left ≤ text.length := by
  have := h.counter
  omega

theorem length_accepted (h : Transmits text left calls) :
    (accepted calls).length = text.length - left := by
  have := h.counter
  omega

/-- With nothing left the whole text was taken. -/
theorem accepted_eq (h : Transmits text 0 calls) : accepted calls = text :=
  h.accepted_prefix.eq_of_length h.counter

/-- One call more takes the next bytes of the text. -/
theorem snoc (h : Transmits text left calls) {call : SystemCall} {count : Nat} (hle : count ≤ left)
    (hoffered : ∀ bytes, call.offered = some bytes → bytes = text.drop (text.length - left))
    (haccepted : call.accepted = (text.drop (text.length - left)).take count) :
    Transmits text (left - count) (calls ++ [call]) := by
  have hcounter := h.counter
  have hlength := h.length_accepted
  have happend : accepted (calls ++ [call]) =
      accepted calls ++ (text.drop (text.length - left)).take count := by
    rw [accepted, List.flatMap_append, List.flatMap_singleton, haccepted]
    rfl
  constructor
  · obtain ⟨others, heq⟩ := h.accepted_prefix
    have hdrop : text.drop (text.length - left) = others := by
      rw [← hlength, ← heq, List.drop_left]
    rw [happend, hdrop, ← heq]
    exact (List.prefix_append_right_inj _).mpr (List.take_prefix _ _)
  · rw [happend, List.length_append, List.length_take, List.length_drop]
    omega
  · intro front other back bytes heq hbytes
    rcases List.eq_nil_or_concat back with rfl | ⟨back, last, rfl⟩
    · obtain ⟨rfl, hlast⟩ := List.append_inj' heq rfl
      obtain rfl := (List.cons.inj hlast).1
      rw [hlength]
      exact hoffered bytes hbytes
    · rw [List.concat_eq_append, ← List.cons_append, ← List.append_assoc] at heq
      exact h.offers front other back bytes (List.append_inj' heq rfl).1 hbytes

/-- A call that passes nothing on changes nothing. -/
theorem other (h : Transmits text left calls) {call : SystemCall} (hoffered : call.offered = none) :
    Transmits text left (calls ++ [call]) := by
  refine h.snoc (Nat.zero_le left) (fun bytes heq => ?_) ?_
  · rw [hoffered] at heq
    cases heq
  · cases call with
    | write => cases hoffered
    | send => cases hoffered
    | _ => rfl

end Transmits

/-- Since then, the calls have brought the text this far. -/
def Transmitted (start : Logged Progress) (text : List UInt8) (left : Nat)
    (state : Logged Progress) : Prop :=
  ∃ calls, Adds start state calls ∧ Transmits text left calls

/-- How a call to pass bytes on is written down. -/
structure IsTransfer (event : List UInt8 → CallResult Nat → SystemCall) : Prop where
  offered : ∀ bytes result, (event bytes result).offered = some bytes
  accepted : ∀ bytes result, (event bytes result).accepted = bytes.take result.taken

theorem isTransfer_write (fd : Nat) : IsTransfer (.write fd) := ⟨fun _ _ => rfl, fun _ _ => rfl⟩

theorem isTransfer_send : IsTransfer .send := ⟨fun _ _ => rfl, fun _ _ => rfl⟩

theorem Transfer.taken_result_le (transfer : Transfer) (offered : Nat) :
    (transfer.result offered).taken ≤ offered := by
  cases transfer with
  | taken count => exact Nat.min_le_right _ _
  | interrupted => exact Nat.zero_le _
  | failed => exact Nat.zero_le _

namespace Transmitted

variable {outcomes : Transfers} {event : List UInt8 → CallResult Nat → SystemCall}
  {start state state' : Logged Progress} {text : List UInt8} {left fuel : Nat}

/-- One call, whatever its outcome. -/
theorem call (hevent : IsTransfer event) (h : Transmitted start text left state)
    {result : CallResult Nat}
    (hcall : logCall (event (text.drop (text.length - left)))
      (outcomes.next (text.drop (text.length - left))) state = .ok (state', result)) :
    result.taken ≤ left ∧ Transmitted start text (left - result.taken) state' ∧
      state'.1.checks = state.1.checks := by
  obtain ⟨calls, hadds, htransmits⟩ := h
  have hmore := logCall_adds hcall
  cases hcall
  have hle := Transfer.taken_result_le (outcomes.outcome state.1.calls)
    (text.drop (text.length - left)).length
  have hleft := htransmits.le
  rw [List.length_drop, Nat.sub_sub_self hleft] at hle hmore ⊢
  refine ⟨hle, ⟨_, hadds.trans hmore, htransmits.snoc hle ?_ (hevent.accepted _ _)⟩, rfl⟩
  intro bytes hbytes
  rw [hevent.offered] at hbytes
  exact (Option.some.inj hbytes).symm

/-- A call that is repeated while it is interrupted. -/
theorem retry (hevent : IsTransfer event) (h : Transmitted start text left state)
    {result : Option Nat}
    (hretry : retryOnEintr (logCall (event (text.drop (text.length - left)))
      (outcomes.next (text.drop (text.length - left)))) fuel state = .ok (state', result)) :
    result.getD 0 ≤ left ∧ Transmitted start text (left - result.getD 0) state' ∧
      state'.1.checks = state.1.checks := by
  obtain ⟨before, ⟨hbefore, hchecks⟩, hcall⟩ := retryOnEintr_sound
    (fun t => Transmitted start text left t ∧ t.1.checks = state.1.checks)
    (fun t t' ht hcall => by
      obtain ⟨_, hnext, hchecks⟩ := ht.1.call hevent hcall
      exact ⟨hnext, hchecks.trans ht.2⟩)
    ⟨h, rfl⟩ hretry
  obtain ⟨hle, hlast, hchecks'⟩ := hbefore.call hevent hcall
  cases result with
  | none => exact ⟨hle, hlast, hchecks'.trans hchecks⟩
  | some count => exact ⟨hle, hlast, hchecks'.trans hchecks⟩

/-- Interrupted calls change nothing. -/
theorem repeats (hevent : IsTransfer event) (h : Transmitted start text left state)
    (hrepeats : ReflTransGen (fun before after => logCall (event (text.drop (text.length - left)))
      (outcomes.next (text.drop (text.length - left))) before = .ok (after, .interrupted))
      state state') : Transmitted start text left state' := by
  induction hrepeats with
  | refl => exact h
  | tail _ hcall ih => exact (ih.call hevent hcall).2.1

end Transmitted

/-! ## Both loops -/

section

variable {outcomes : Transfers} {heap : Heap} {p : Ptr} {text : List UInt8} {fuel fd : Nat}
  {start : Logged Progress} {s : Process (Logged Progress) × Nat}
  {round : Round (Process (Logged Progress) × Nat) (Process (Logged Progress) × Bool)}

/-- What is kept between two rounds. -/
structure PassingOn (start : Logged Progress) (heap : Heap) (text : List UInt8)
    (s : Process (Logged Progress) × Nat) : Prop where
  heap : s.1.heap = heap
  transmitted : Transmitted start text s.2 s.1.state
  checks : start.1.checks ≤ s.1.state.1.checks

theorem PassingOn.left_le (h : PassingOn start heap text s) : s.2 ≤ text.length := by
  obtain ⟨_, _, htransmits⟩ := h.transmitted
  exact htransmits.le

/-- The next call is offered the rest of the text. -/
theorem PassingOn.remainingBytes_eq (hstring : heap.HoldsString p text)
    (h : PassingOn start heap text s) :
    remainingBytes s.1.heap (some p) s.2 = .ok (text.drop (text.length - s.2)) := by
  rw [h.heap]
  exact Aesd.remainingBytes_eq hstring h.left_le

/-- What holds when the loop is left: on success nothing is left, unless something
else has stopped it. -/
def PassedOn (stopped : Logged Progress → Prop) (start : Logged Progress) (text : List UInt8)
    (last : Process (Logged Progress) × Bool) : Prop :=
  ∃ left, Transmitted start text left last.1.state ∧
    (last.2 = true → left = 0 ∨ stopped last.1.state)

/-- One of the tests made since then has found the termination flag set. -/
def FlagSeen (outcomes : Transfers) (start state : Logged Progress) : Prop :=
  ∃ check, start.1.checks ≤ check ∧ check < state.1.checks ∧ outcomes.flag check = true

/-- The rest of a round, after its repeated call. -/
theorem PassingOn.passes {event : List UInt8 → CallResult Nat → SystemCall}
    (hevent : IsTransfer event) (hlt : text.length < 2 ^ 64) {left : Nat}
    {state state' : Logged Progress} (h : Transmitted start text left state)
    (hchecks : start.1.checks ≤ state.1.checks) (stopped : Logged Progress → Prop)
    {result : Option Nat}
    (hround : round = match result with
      | none => .leave (⟨state', heap⟩, false)
      | some count => .again (⟨state', heap⟩, u64 (left - count)))
    (hretry : retryOnEintr (logCall (event (text.drop (text.length - left)))
      (outcomes.next (text.drop (text.length - left)))) fuel state = .ok (state', result)) :
    round.elim (PassingOn start heap text) (PassedOn stopped start text) := by
  obtain ⟨hle, hnext, hsame⟩ := h.retry hevent hretry
  have hleft : left ≤ text.length := by
    obtain ⟨_, _, htransmits⟩ := h
    exact htransmits.le
  cases result with
  | none =>
      subst hround
      exact ⟨_, hnext, fun hok => Bool.noConfusion hok⟩
  | some count =>
      have hcount : count ≤ left := hle
      have hwidth : u64 ((left : Int) - count) = left - count := u64_sub hcount (by omega)
      simp only [hwidth] at hround
      subst hround
      exact ⟨rfl, hnext, hsame ▸ hchecks⟩

theorem writeLineRound_passes (hstring : heap.HoldsString p text) (hlt : text.length < 2 ^ 64)
    (h : PassingOn start heap text s)
    (hround : writeLineRound outcomes.os.logged fuel fd (some p) s = .ok round) :
    round.elim (PassingOn start heap text) (PassedOn (fun _ => False) start text) := by
  rcases writeLineRound_eq_ok hround with
    ⟨hzero, rfl⟩ | ⟨bytes, state, result, count, _, hbytes, hwrite, _, heq⟩
  · exact ⟨0, hzero ▸ h.transmitted, fun _ => Or.inl rfl⟩
  · obtain rfl := Except.ok.inj ((h.remainingBytes_eq hstring).symm.trans hbytes)
    rw [h.heap] at heq
    exact PassingOn.passes (isTransfer_write fd) hlt h.transmitted h.checks _ heq hwrite

theorem sendLineRound_passes (hstring : heap.HoldsString p text) (hlt : text.length < 2 ^ 64)
    (h : PassingOn start heap text s)
    (hround : sendLineRound outcomes.os.logged fuel fd (some p) s = .ok round) :
    round.elim (PassingOn start heap text) (PassedOn (FlagSeen outcomes start) start text) := by
  have hflagged : Transmitted start text s.2 (outcomes.os.logged.terminationFlag s.1.state).1 :=
    h.transmitted
  have hchecks : (outcomes.os.logged.terminationFlag s.1.state).1.1.checks =
    s.1.state.1.checks + 1 := rfl
  have hbefore := h.checks
  rcases sendLineRound_eq_ok hround with
    ⟨hzero, rfl⟩ | ⟨_, hset, rfl⟩ | ⟨bytes, state, result, count, _, _, hbytes, hsend, _, heq⟩
  · exact ⟨0, hzero ▸ h.transmitted, fun _ => Or.inl rfl⟩
  · exact ⟨s.2, hflagged, fun _ => Or.inr ⟨s.1.state.1.checks, hbefore, Nat.lt_succ_self _, hset⟩⟩
  · obtain rfl := Except.ok.inj ((h.remainingBytes_eq hstring).symm.trans hbytes)
    rw [h.heap] at heq
    exact PassingOn.passes isTransfer_send hlt hflagged (by omega) _ heq hsend

/-- What holds between two rounds and after every interrupted call holds at every
moment. -/
theorem Moment.transmitted
    {again : Process (Logged Progress) × Nat → Process (Logged Progress) × Nat → Prop}
    {interrupted : Process (Logged Progress) × Nat → Logged Progress → Prop}
    {state : Logged Progress} {left : Nat}
    (hagain : ∀ s s', PassingOn start heap text s → again s s' → PassingOn start heap text s')
    (hinterrupted : ∀ s state, PassingOn start heap text s → interrupted s state →
      Transmitted start text s.2 state)
    (h : PassingOn start heap text s) (hmoment : Moment again interrupted s state left) :
    Transmitted start text left state := by
  have hrun : ∀ s', ReflTransGen again s s' → PassingOn start heap text s' := by
    intro s' hrounds
    induction hrounds with
    | refl => exact h
    | tail _ hround ih => exact hagain _ _ ih hround
  cases hmoment with
  | between hrounds => exact (hrun _ hrounds).transmitted
  | inside hrounds hcalls => exact hinterrupted _ _ (hrun _ hrounds) hcalls

/-- A call that is not interrupted for ever comes back. -/
theorem next_returns {n : Nat} (hquiet : ∀ i, n ≤ i → outcomes.outcome i ≠ .interrupted)
    (bytes : List UInt8) (state : Progress) :
    ∃ fuel result, retryOnEintr (outcomes.next bytes) fuel state = .ok result := by
  refine retryOnEintr_total (fun state => n - state.calls) (fun before => ?_) state
  refine ⟨_, _, rfl, fun hinterrupted => ?_⟩
  have hlt : before.calls < n := by
    by_contra hge
    cases houtcome : outcomes.outcome before.calls with
    | interrupted => exact hquiet _ (Nat.not_lt.mp hge) houtcome
    | taken count =>
        rw [houtcome] at hinterrupted
        cases hinterrupted
    | failed =>
        rw [houtcome] at hinterrupted
        cases hinterrupted
  show n - (before.calls + 1) < n - before.calls
  omega

/-- A call that does not fail takes some of what it is offered. -/
theorem next_takes {bytes : List UInt8} {state state' : Progress} {count : Nat}
    (hnext : outcomes.next bytes state = .ok (state', .done count)) :
    count ≤ bytes.length ∧ (bytes ≠ [] → 0 < count) := by
  obtain ⟨_, hresult⟩ := Prod.mk.inj (Except.ok.inj hnext)
  cases houtcome : outcomes.outcome state.calls with
  | taken wanted =>
      rw [houtcome] at hresult
      cases hresult
      refine ⟨Nat.min_le_right _ _, fun hne => ?_⟩
      have := List.length_pos_of_ne_nil hne
      omega
  | interrupted =>
      rw [houtcome] at hresult
      cases hresult
  | failed =>
      rw [houtcome] at hresult
      cases hresult

/-- An environment whose interruptions end answers. -/
theorem answers_of_quiet {n : Nat} (hquiet : ∀ i, n ≤ i → outcomes.outcome i ≠ .interrupted) :
    outcomes.os.Answers where
  writes state _ bytes := next_returns hquiet bytes state
  takes _ _ _ _ _ hwrite := next_takes hwrite
  seeks _ _ _ := ⟨_, rfl⟩
  closes _ _ := ⟨_, rfl⟩
  opens _ _ := ⟨_, rfl⟩

/-- A round of sending comes back. -/
theorem sendLineRound_returns {n : Nat}
    (hquiet : ∀ i, n ≤ i → outcomes.outcome i ≠ .interrupted) (hstring : heap.HoldsString p text)
    (hheap : s.1.heap = heap) (hle : s.2 ≤ text.length) :
    ∃ round, Settles (fun fuel => sendLineRound outcomes.os.logged fuel fd (some p) s)
      (.ok round) := by
  unfold sendLineRound
  by_cases hzero : s.2 = 0
  · simp only [if_pos hzero]
    exact ⟨_, Settles.const _⟩
  · cases hflag : (outcomes.os.logged.terminationFlag s.1.state).2 with
    | true =>
        simp only [if_neg hzero, hflag, if_true]
        exact ⟨_, Settles.const _⟩
    | false =>
        simp only [if_neg hzero, hflag, Bool.false_eq_true, if_false, hheap,
          remainingBytes_eq hstring hle, Exec.ok_bind]
        obtain ⟨fuel, result, hplain⟩ := next_returns hquiet (text.drop (text.length - s.2))
          (outcomes.os.logged.terminationFlag s.1.state).1.1
        obtain ⟨state, hretry⟩ := retry_logged (.send (text.drop (text.length - s.2))) hplain
        have hcall : Settles (fun fuel => retryOnEintr (fun state => outcomes.os.logged.send state fd
            (text.drop (text.length - s.2))) fuel (outcomes.os.logged.terminationFlag s.1.state).1)
            (.ok (state, result.2)) := Settles.of_loop hretry
        cases hresult : result.2 with
        | none =>
            rw [hresult] at hcall
            exact ⟨_, hcall.bind (Settles.const _)⟩
        | some count =>
            rw [hresult] at hcall
            exact ⟨_, hcall.bind (Settles.const _)⟩

/-- When the loop goes on, less is left. -/
theorem sendLineRound_lowers (hstring : heap.HoldsString p text) (hlt : text.length < 2 ^ 64)
    (hheap : s.1.heap = heap) (hle : s.2 ≤ text.length) {next : Process (Logged Progress) × Nat}
    (hround : sendLineRound outcomes.os.logged fuel fd (some p) s = .ok (.again next)) :
    (next.1.heap = heap ∧ next.2 ≤ text.length) ∧ next.2 < s.2 := by
  rcases sendLineRound_eq_ok hround with
    ⟨_, heq⟩ | ⟨_, _, heq⟩ | ⟨bytes, state, result, _, hpos, _, hbytes, hsend, _, heq⟩
  · cases heq
  · cases heq
  · rw [hheap, remainingBytes_eq hstring hle] at hbytes
    obtain rfl := Except.ok.inj hbytes
    cases result with
    | none => cases heq
    | some count =>
        cases heq
        obtain ⟨_, _, hcall⟩ := logCall_of_retry hsend
        obtain ⟨hcount, htaken⟩ := next_takes hcall
        rw [List.length_drop] at hcount
        have hsome := htaken (List.ne_nil_of_length_pos (by rw [List.length_drop]; omega))
        have hwidth : u64 ((s.2 : Int) - count) = s.2 - count := u64_sub (by omega) (by omega)
        dsimp only
        rw [hwidth]
        exact ⟨⟨hheap, by omega⟩, by omega⟩

end

/-! ## The functions -/

/-- A function passes a text on in parts: at every moment what was taken is its
front, the counter is the length of the rest and every call was offered the rest; the
function comes back when the interruptions end; and when it comes back with success
and nothing has stopped it, all of the text was taken. -/
structure PassesExactly (outcomes : Transfers) (text : List UInt8) (start : Logged Progress)
    (moment : Logged Progress → Nat → Prop)
    (run : Nat → Exec (Process (Logged Progress) × Bool))
    (stopped : Logged Progress → Prop) : Prop where
  moments : ∀ state left, moment state left → Transmitted start text left state
  returned : ∀ fuel last ok, run fuel = .ok (last, ok) → ∃ left calls,
    Adds start last.state calls ∧ Transmits text left calls ∧
      (ok = true → ¬ stopped last.state → accepted calls = text)
  ends : (∃ n, ∀ i, n ≤ i → outcomes.outcome i ≠ .interrupted) →
    ∃ result, Settles run (.ok result)

section

variable (outcomes : Transfers) {p : Ptr} {text : List UInt8} (fd : Nat)
  {proc : Process (Logged Progress)}

theorem writeLine_passes (h : proc.heap.HoldsString p text) (hlt : text.length < 2 ^ 64) :
    PassesExactly outcomes text proc.state (WriteMoment outcomes.os fd (some p) proc)
      (fun fuel => aesdsocketWriteLine outcomes.os.logged fuel fd proc (some p))
      (fun _ => False) := by
  obtain ⟨cells, hcells, hlength⟩ := h.exists_strlen
  have hstart : PassingOn proc.state proc.heap text
      (⟨outcomes.os.logged.startWriting proc.state, proc.heap⟩, text.length) := by
    refine ⟨rfl, ⟨[.startWriting], rfl, ?_⟩, Nat.le_refl _⟩
    exact (Transmits.nil text).other rfl
  constructor
  · rintro state left ⟨cells', count, hcells', hcount, hmoment⟩
    obtain rfl := Except.ok.inj (hcells.symm.trans hcells')
    obtain rfl := Except.ok.inj (hlength.symm.trans hcount)
    refine Moment.transmitted ?_ ?_ hstart hmoment
    · rintro s s' hs ⟨fuel, hround⟩
      exact writeLineRound_passes h hlt hs hround
    · rintro s state hs ⟨bytes, _, hbytes, hcalls⟩
      obtain rfl := Except.ok.inj ((hs.remainingBytes_eq h).symm.trans hbytes)
      exact hs.transmitted.repeats (isTransfer_write fd) hcalls
  · intro fuel last ok hreturns
    unfold aesdsocketWriteLine at hreturns
    rw [hcells, Exec.ok_bind, hlength, Exec.ok_bind] at hreturns
    obtain ⟨⟨proc', done⟩, hloop, hreturns⟩ := Exec.bind_eq_ok.mp hreturns
    obtain ⟨left, ⟨calls, hadds, htransmits⟩, hdone⟩ : PassedOn (fun _ => False) proc.state text
        (proc', done) :=
      loop.sound (PassingOn proc.state proc.heap text) (PassedOn (fun _ => False) proc.state text)
        (fun _ next hs hround => writeLineRound_passes h hlt hs hround)
        (fun _ result hs hround => writeLineRound_passes h hlt hs hround) hstart hloop
    cases done with
    | false =>
        cases hreturns
        exact ⟨left, calls, hadds, htransmits, fun hok => Bool.noConfusion hok⟩
    | true =>
        cases hreturns
        obtain rfl : left = 0 := (hdone rfl).resolve_right id
        have hstop : Adds proc'.state (outcomes.os.logged.stopWriting proc'.state) [.stopWriting] := rfl
        have hlast : Transmits text 0 (calls ++ [.stopWriting]) := htransmits.other rfl
        exact ⟨0, _, hadds.trans hstop, hlast, fun _ _ => hlast.accepted_eq⟩
  · rintro ⟨n, hquiet⟩
    obtain ⟨proc', ok, hsettles⟩ := writeLine_returns (answers_of_quiet hquiet) h hlt
    exact ⟨_, hsettles⟩

/-- Sending comes back. -/
theorem sendLine_returns {n : Nat} (hquiet : ∀ i, n ≤ i → outcomes.outcome i ≠ .interrupted)
    (h : proc.heap.HoldsString p text) (hlt : text.length < 2 ^ 64) :
    ∃ result, Settles (fun fuel => aesdsocketSendLine outcomes.os.logged fuel fd proc (some p))
      (.ok result) := by
  have hround : ∀ s : Process (Logged Progress) × Nat,
      s.1.heap = proc.heap ∧ s.2 ≤ text.length →
      ∃ round, Settles (fun fuel => sendLineRound outcomes.os.logged fuel fd (some p) s)
          (.ok round) ∧
        ∀ next, round = .again next →
          (next.1.heap = proc.heap ∧ next.2 ≤ text.length) ∧ next.2 < s.2 := by
    rintro s ⟨hheap, hle⟩
    obtain ⟨round, hsettles⟩ : ∃ round,
        Settles (fun fuel => sendLineRound outcomes.os.logged fuel fd (some p) s) (.ok round) :=
      sendLineRound_returns hquiet h hheap hle
    refine ⟨round, hsettles, ?_⟩
    rintro next rfl
    obtain ⟨enough, hreturns⟩ := hsettles
    exact sendLineRound_lowers h hlt hheap hle (hreturns enough (Nat.le_refl _))
  have hbegin : (proc, text.length).1.heap = proc.heap ∧ (proc, text.length).2 ≤ text.length :=
    ⟨rfl, Nat.le_refl _⟩
  obtain ⟨result, hloop⟩ := LoopSettles.total _ Prod.snd hround hbegin
  refine ⟨result, ?_⟩
  obtain ⟨cells, hcells, hlength⟩ := h.exists_strlen
  unfold aesdsocketSendLine
  simp only [hcells, Exec.ok_bind, hlength]
  exact hloop.settles

theorem sendLine_passes (h : proc.heap.HoldsString p text) (hlt : text.length < 2 ^ 64) :
    PassesExactly outcomes text proc.state (SendMoment outcomes.os fd (some p) proc)
      (fun fuel => aesdsocketSendLine outcomes.os.logged fuel fd proc (some p))
      (FlagSeen outcomes proc.state) := by
  obtain ⟨cells, hcells, hlength⟩ := h.exists_strlen
  have hstart : PassingOn proc.state proc.heap text (proc, text.length) :=
    ⟨rfl, ⟨[], .refl _, .nil text⟩, Nat.le_refl _⟩
  constructor
  · rintro state left ⟨cells', count, hcells', hcount, hmoment⟩
    obtain rfl := Except.ok.inj (hcells.symm.trans hcells')
    obtain rfl := Except.ok.inj (hlength.symm.trans hcount)
    refine Moment.transmitted ?_ ?_ hstart hmoment
    · rintro s s' hs ⟨fuel, hround⟩
      exact sendLineRound_passes h hlt hs hround
    · rintro s state hs ⟨bytes, _, _, hbytes, hcalls⟩
      obtain rfl := Except.ok.inj ((hs.remainingBytes_eq h).symm.trans hbytes)
      have hflagged : Transmitted proc.state text s.2
          (outcomes.os.logged.terminationFlag s.1.state).1 := hs.transmitted
      exact hflagged.repeats isTransfer_send hcalls
  · intro fuel last ok hreturns
    unfold aesdsocketSendLine at hreturns
    rw [hcells, Exec.ok_bind, hlength, Exec.ok_bind] at hreturns
    obtain ⟨left, ⟨calls, hadds, htransmits⟩, hdone⟩ :
        PassedOn (FlagSeen outcomes proc.state) proc.state text (last, ok) :=
      loop.sound (PassingOn proc.state proc.heap text)
        (PassedOn (FlagSeen outcomes proc.state) proc.state text)
        (fun _ next hs hround => sendLineRound_passes h hlt hs hround)
        (fun _ result hs hround => sendLineRound_passes h hlt hs hround) hstart hreturns
    refine ⟨left, calls, hadds, htransmits, fun hok hclear => ?_⟩
    obtain rfl : left = 0 := (hdone hok).resolve_right hclear
    exact htransmits.accepted_eq
  · rintro ⟨n, hquiet⟩
    exact sendLine_returns outcomes fd hquiet h hlt

/-- Whatever the outcomes, both loops pass a line on exactly. -/
theorem partial_writes (h : proc.heap.HoldsString p text) (hlt : text.length < 2 ^ 64) :
    PassesExactly outcomes text proc.state (WriteMoment outcomes.os fd (some p) proc)
      (fun fuel => aesdsocketWriteLine outcomes.os.logged fuel fd proc (some p))
      (fun _ => False) ∧
    PassesExactly outcomes text proc.state (SendMoment outcomes.os fd (some p) proc)
      (fun fuel => aesdsocketSendLine outcomes.os.logged fuel fd proc (some p))
      (FlagSeen outcomes proc.state) :=
  ⟨writeLine_passes outcomes fd h hlt, sendLine_passes outcomes fd h hlt⟩

/-- "ab" is sent one byte at a time after an interruption, and written. -/
theorem partial_writes_twoBytes :
    let outcomes : Transfers := ⟨fun i => if i = 0 then .interrupted else .taken 1, fun _ => false⟩
    let proc : Process (Logged Progress) :=
      ⟨(⟨0, 0⟩, []), ⟨[some [some 97, some 98, some 0]]⟩⟩
    (∃ last calls, aesdsocketSendLine outcomes.os.logged 5 4 proc (some 0) = .ok (last, true) ∧
      Adds proc.state last.state calls ∧ accepted calls = [97, 98]) ∧
    (∃ last calls, aesdsocketWriteLine outcomes.os.logged 5 3 proc (some 0) = .ok (last, true) ∧
      Adds proc.state last.state calls ∧ accepted calls = [97, 98]) ∧
    ∃ result, Settles (fun fuel => aesdsocketWriteLine outcomes.os.logged fuel 3 proc (some 0))
      (.ok result) := by
  intro outcomes proc
  have hstring : proc.heap.HoldsString 0 [97, 98] :=
    ⟨⟨_, rfl, by decide, by decide⟩, by decide⟩
  have hsent : aesdsocketSendLine outcomes.os.logged 5 4 proc (some 0) =
      .ok (⟨(⟨3, 2⟩, [.send [97, 98] .interrupted, .send [97, 98] (.done 1), .send [98] (.done 1)]),
        proc.heap⟩, true) := by decide +kernel
  have hwritten : aesdsocketWriteLine outcomes.os.logged 5 3 proc (some 0) =
      .ok (⟨(⟨3, 0⟩, [.startWriting, .write 3 [97, 98] .interrupted, .write 3 [97, 98] (.done 1),
        .write 3 [98] (.done 1), .stopWriting]), proc.heap⟩, true) := by decide +kernel
  refine ⟨?_, ?_, ?_⟩
  · obtain ⟨_, calls, hadds, _, hall⟩ :=
      (partial_writes outcomes 4 hstring (by decide)).2.returned 5 _ _ hsent
    have hclear : ¬ FlagSeen outcomes proc.state
        (⟨3, 2⟩, [.send [97, 98] .interrupted, .send [97, 98] (.done 1), .send [98] (.done 1)]) := by
      rintro ⟨_, _, _, hset⟩
      cases hset
    exact ⟨_, calls, hsent, hadds, hall rfl hclear⟩
  · obtain ⟨_, calls, hadds, _, hall⟩ :=
      (partial_writes outcomes 3 hstring (by decide)).1.returned 5 _ _ hwritten
    exact ⟨_, calls, hwritten, hadds, hall rfl not_false⟩
  · refine (partial_writes outcomes 3 hstring (by decide)).1.ends ⟨1, fun i hle heq => ?_⟩
    have hfirst : ¬ i = 0 := by omega
    simp only [outcomes, if_neg hfirst] at heq
    cases heq

end

end Aesd

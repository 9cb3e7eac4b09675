import Aesd.Server.Serve
import Aesd.Server.SystemCalls

/-!
# What the calls do to the file

The bytes that a connection writes and the seeks that it asks for, read off its
system calls, and the parts of a connection that do neither.
-/

namespace Aesd

open CSem

/-- The bytes of a call that the file took. -/
def SystemCall.written (fd : Nat) : SystemCall → List UInt8
  | .write fd' offered (.done count) => if fd' = fd then offered.take count else []
  | _ => []

/-- The seek that a call asks for, whatever comes of it. -/
def SystemCall.seek : SystemCall → Option (Nat × AesdSeekto)
  | .ioctl fd arg _ => some (fd, arg)
  | _ => none

def SystemCall.isFailedWrite : SystemCall → Bool
  | .write _ _ .failed => true
  | _ => false

/-- Neither a write nor a seek. -/
def SystemCall.isQuiet : SystemCall → Bool
  | .write _ _ _ | .ioctl _ _ _ => false
  | _ => true

/-- Everything that the file took, in order. -/
def written (fd : Nat) (calls : List SystemCall) : List UInt8 := calls.flatMap (SystemCall.written fd)

/-- All seeks, in order. -/
def seeks (calls : List SystemCall) : List (Nat × AesdSeekto) := calls.filterMap SystemCall.seek

@[simp] theorem written_append (fd : Nat) (front back : List SystemCall) :
    written fd (front ++ back) = written fd front ++ written fd back := List.flatMap_append

@[simp] theorem seeks_append (front back : List SystemCall) :
    seeks (front ++ back) = seeks front ++ seeks back := List.filterMap_append

/-! ## Calls that leave the file alone -/

theorem seeks_of_quiet {calls : List SystemCall} (hquiet : ∀ call ∈ calls, call.isQuiet = true) :
    seeks calls = [] := by
  apply List.filterMap_eq_nil_iff.mpr
  intro call hmem
  have hcall := hquiet call hmem
  cases call with
  | ioctl => cases hcall
  | _ => rfl

theorem written_of_quiet {calls : List SystemCall} (hquiet : ∀ call ∈ calls, call.isQuiet = true)
    (fd : Nat) : written fd calls = [] := by
  apply List.flatMap_eq_nil_iff.mpr
  intro call hmem
  have hcall := hquiet call hmem
  cases call with
  | write => cases hcall
  | _ => rfl

variable {σ : Type}

/-- Nothing was written and no seek was asked for in between. -/
def Quiet (s s' : Logged σ) : Prop :=
  ∃ calls, Adds s s' calls ∧ ∀ call ∈ calls, call.isQuiet = true

namespace Quiet

variable {s middle s' : Logged σ}

theorem refl (s : Logged σ) : Quiet s s := ⟨[], .refl s, nofun⟩

theorem trans (hfront : Quiet s middle) (hback : Quiet middle s') : Quiet s s' := by
  obtain ⟨front, hfront, hquiet⟩ := hfront
  obtain ⟨back, hback, hquiet'⟩ := hback
  refine ⟨front ++ back, hfront.trans hback, fun call hmem => ?_⟩
  rcases List.mem_append.mp hmem with hmem | hmem
  · exact hquiet call hmem
  · exact hquiet' call hmem

theorem single {call : SystemCall} (hadds : Adds s s' [call]) (hquiet : call.isQuiet = true) :
    Quiet s s' := by
  refine ⟨[call], hadds, fun other hmem => ?_⟩
  rw [List.mem_singleton.mp hmem]
  exact hquiet

/-- A call that is repeated while it is interrupted. -/
theorem retry {α : Type} {event : CallResult α → SystemCall}
    {call : σ → Exec (σ × CallResult α)} {fuel : Nat} {result : Option α}
    (hretry : retryOnEintr (logCall event call) fuel s = .ok (s', result))
    (hquiet : ∀ result, (event result).isQuiet = true) : Quiet s s' := by
  obtain ⟨count, hadds⟩ := retryOnEintr_adds hretry
  refine ⟨_, hadds, fun call hmem => ?_⟩
  rcases List.mem_append.mp hmem with hmem | hmem
  · rw [List.eq_of_mem_replicate hmem]
    exact hquiet _
  · rw [List.mem_singleton.mp hmem]
    exact hquiet _

/-- A loop whose rounds leave the file alone. -/
theorem loop {ρ α : Type} {body : ρ → Exec (Round ρ α)} (again : ρ → Logged σ)
    (leave : α → Logged σ) {fuel : Nat} {state : ρ} {result : α}
    (hloop : CSem.loop body fuel state = .ok result)
    (hbody : ∀ state round, body state = .ok round →
      Quiet (again state) (round.elim again leave)) : Quiet (again state) (leave result) :=
  loop.sound (fun next => Quiet (again state) (again next))
    (fun result => Quiet (again state) (leave result))
    (fun state _ h hround => h.trans (hbody state _ hround))
    (fun state _ h hround => h.trans (hbody state _ hround)) (.refl _) hloop

end Quiet

section

variable {os : Os σ} {fuel fd socketFd : Nat} {proc proc' : Process (Logged σ)} {ok : Bool}

theorem recvLine_quiet {line line' : Option Ptr}
    (hreturns : aesdsocketRecvLine os.logged fuel fd proc line = .ok (proc', ok, line')) :
    Quiet proc.state proc'.state := by
  refine recvLine_keeps (Quiet proc.state) ?_ ?_ ?_ hreturns (.refl _)
  · intro state h
    exact h.trans ⟨[], (Adds.refl state : _), nofun⟩
  · intro state count state' result h hcall
    have hcall : logCall .recv (fun state => os.recv state fd count) state =
      .ok (state', result) := hcall
    exact h.trans (.single (logCall_adds hcall) rfl)
  · intro state h
    have hadds : Adds state (os.logged.realloc state).1 [.realloc (os.realloc state.1).2] := rfl
    exact h.trans (.single hadds rfl)

theorem readLine_quiet {line line' : Option Ptr} {eof eof' : Bool}
    (hreturns : aesdsocketReadLine os.logged fuel fd proc line eof = .ok (proc', ok, line', eof')) :
    Quiet proc.state proc'.state := by
  obtain ⟨calls, failed, hcalls, hadds⟩ := readLine_adds hreturns
  refine ⟨_, hadds, fun call hmem => ?_⟩
  simp only [List.mem_append, List.mem_singleton] at hmem
  -- the start, the reads and resizes, and the stop
  rcases hmem with (rfl | hmem) | hmem
  · rfl
  · have hkind := hcalls.kind call hmem
    cases call with
    | write => cases hkind
    | ioctl => cases hkind
    | _ => rfl
  · cases failed with
    | true => cases hmem
    | false =>
        rw [List.mem_singleton.mp hmem]
        rfl

theorem sendLineRound_quiet {line : Option Ptr} {s : Process (Logged σ) × Nat}
    {round : Round (Process (Logged σ) × Nat) (Process (Logged σ) × Bool)}
    (hround : sendLineRound os.logged fuel fd line s = .ok round) :
    Quiet s.1.state (round.elim (fun s => s.1.state) fun result => result.1.state) := by
  rcases sendLineRound_eq_ok hround with
    ⟨_, heq⟩ | ⟨_, _, heq⟩ | ⟨bytes, state, result, count, _, _, _, hsend, _, heq⟩
  · cases heq
    exact .refl _
  · cases heq
    exact ⟨[], Adds.refl s.1.state, nofun⟩
  · have hflag : Quiet s.1.state (os.logged.terminationFlag s.1.state).1 :=
      ⟨[], Adds.refl s.1.state, nofun⟩
    have hquiet := hflag.trans (Quiet.retry hsend fun _ => rfl)
    cases result with
    | none =>
        cases heq
        exact hquiet
    | some sent =>
        cases heq
        exact hquiet

theorem sendNonEmpty_quiet {line : Option Ptr}
    (hreturns : sendNonEmpty os.logged fuel fd proc line = .ok (proc', ok)) :
    Quiet proc.state proc'.state := by
  cases line with
  | none =>
      cases hreturns
      exact .refl _
  | some p =>
      obtain ⟨cells, _, hreturns⟩ := Exec.bind_eq_ok.mp hreturns
      obtain ⟨length, _, hreturns⟩ := Exec.bind_eq_ok.mp hreturns
      split at hreturns
      next =>
        obtain ⟨cells, _, hreturns⟩ := Exec.bind_eq_ok.mp hreturns
        obtain ⟨count, _, hreturns⟩ := Exec.bind_eq_ok.mp hreturns
        exact Quiet.loop (fun s => s.1.state) (fun result => result.1.state) hreturns
          fun s round hround => sendLineRound_quiet hround
      next =>
        cases hreturns
        exact .refl _

theorem readAndSendRound_quiet {s : Process (Logged σ) × Option Ptr}
    {round : Round (Process (Logged σ) × Option Ptr) (Process (Logged σ) × Option Ptr × Bool)}
    (hround : readAndSendRound os.logged fuel socketFd fd s = .ok round) :
    Quiet s.1.state (round.elim (fun s => s.1.state) fun result => result.1.state) := by
  obtain ⟨⟨read, okRead, line, eof⟩, hread, hround⟩ := Exec.bind_eq_ok.mp hround
  have hquiet := readLine_quiet hread
  cases okRead with
  | false =>
      cases hround
      exact hquiet
  | true =>
      obtain ⟨⟨sent, okSend⟩, hsend, hround⟩ := Exec.bind_eq_ok.mp hround
      have hquiet := hquiet.trans (sendNonEmpty_quiet hsend)
      cases okSend with
      | false =>
          cases hround
          exact hquiet
      | true =>
          cases eof with
          | true =>
              cases hround
              exact hquiet
          | false =>
              cases hround
              exact hquiet

theorem readAndSendFile_quiet
    (hreturns : aesdsocketReadAndSendFile os.logged fuel socketFd fd proc = .ok (proc', ok)) :
    Quiet proc.state proc'.state := by
  obtain ⟨⟨last, line, done⟩, hloop, hreturns⟩ := Exec.bind_eq_ok.mp hreturns
  obtain ⟨heap, _, heq⟩ := Exec.bind_eq_ok.mp hreturns
  cases heq
  exact Quiet.loop (fun s => s.1.state) (fun result => result.1.state) hloop
    fun s round hround => readAndSendRound_quiet hround

theorem serveDone_quiet {line : Option Ptr} {fileFd : Option Nat}
    (hreturns : serveDone os.logged proc line fileFd = .ok proc') :
    Quiet proc.state proc'.state := by
  obtain ⟨heap, _, hreturns⟩ := Exec.bind_eq_ok.mp hreturns
  cases fileFd with
  | none =>
      cases hreturns
      exact .refl _
  | some fd =>
      obtain ⟨state, hclose, heq⟩ := Exec.bind_eq_ok.mp hreturns
      cases heq
      exact .single (closeFile_adds hclose) rfl

end

end Aesd

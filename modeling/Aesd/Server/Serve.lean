import Aesd.Server.Relay
import Aesd.Server.SeekCommand

/-!
# One connection

`aesdsocket_serve` receives a line, acts on it and replies with the file. Here
the three parts are put together for a machine whose services work.
-/

namespace Aesd

open CSem

/-! ## Reception -/

section

variable {σ : Type} {os : Os σ}

/-- Reception keeps what its system calls keep. -/
theorem recvLine_keeps {fuel fd : Nat} (keeps : σ → Prop)
    (hflag : ∀ state, keeps state → keeps (os.terminationFlag state).1)
    (hrecv : ∀ state count state' result, keeps state →
      os.recv state fd count = .ok (state', result) → keeps state')
    (hrealloc : ∀ state, keeps state → keeps (os.realloc state).1)
    {proc proc' : Process σ} {line line' : Option Ptr} {ok : Bool}
    (hreturns : aesdsocketRecvLine os fuel fd proc line = .ok (proc', ok, line'))
    (hstart : keeps proc.state) : keeps proc'.state := by
  obtain ⟨⟨s, lineEnd⟩, hloop, hreturns⟩ := Exec.bind_eq_ok.mp hreturns
  have hround : ∀ (s : LineBuffer σ) round, keeps s.proc.state →
      recvLineRound os fd s = .ok round → keeps (LineBuffer.stateAfter round) := by
    intro s round hs hbody
    have hterminated := hflag _ hs
    rcases hflagged : os.terminationFlag s.proc.state with ⟨state, terminated⟩
    rw [hflagged] at hterminated
    simp only [recvLineRound, hflagged] at hbody
    cases terminated with
    | true =>
        cases hbody
        exact hterminated
    | false =>
        obtain ⟨⟨state, result⟩, hcall, hbody⟩ := Exec.bind_eq_ok.mp hbody
        have hstate := hrecv _ _ _ _ hterminated hcall
        cases result with
        | interrupted =>
            cases hbody
            exact hstate
        | failed =>
            cases hbody
            exact hstate
        | done bytes =>
            cases bytes with
            | nil =>
                cases hbody
                exact hstate
            | cons byte bytes =>
                rw [(LineBuffer.collect_state hbody).1]
                exact hrealloc _ hstate
  have hlast : keeps s.proc.state :=
    loop.sound (fun s => keeps s.proc.state) (fun result => keeps result.1.proc.state)
      (fun s s' hs hbody => hround s (.again s') hs hbody)
      (fun s result hs hbody => hround s (.leave result) hs hbody) hstart hloop
  cases lineEnd with
  | failed =>
      obtain ⟨heap, _, heq⟩ := Exec.bind_eq_ok.mp hreturns
      cases heq
      exact hlast
  | eol =>
      obtain ⟨heap, _, heq⟩ := Exec.bind_eq_ok.mp hreturns
      cases heq
      exact hlast
  | ended =>
      obtain ⟨heap, _, heq⟩ := Exec.bind_eq_ok.mp hreturns
      cases heq
      exact hlast

end

variable {φ : Type} {ops : FileOps φ} {choices : Choices}

/-- Reception touches neither the file nor what was sent. -/
theorem Machine.recvLine_keeps {fuel fd : Nat} {proc proc' : Process (Machine φ)}
    {line line' : Option Ptr} {ok : Bool}
    (hreturns : aesdsocketRecvLine (os ops choices) fuel fd proc line = .ok (proc', ok, line')) :
    proc'.state.file = proc.state.file ∧ proc'.state.sent = proc.state.sent := by
  refine Aesd.recvLine_keeps
    (fun m => m.file = proc.state.file ∧ m.sent = proc.state.sent) ?_ ?_ ?_ hreturns ⟨rfl, rfl⟩
  · intro m hm
    exact hm
  · intro m count m' result hm hcall
    simp only [os] at hcall
    split at hcall
    next =>
      cases hcall
      exact hm
    next =>
      cases hcall
      exact hm
  · intro m hm
    exact hm

/-! ## The whole connection -/

/-- The process with its file opened. -/
def Process.openFile (ops : FileOps φ) (proc : Process (Machine φ)) : Process (Machine φ) :=
  ⟨{ proc.state with file := ops.openFile proc.state.file }, proc.heap⟩

/-- What was received is acted on, the file is relayed, and the line and the
descriptor are given back. -/
theorem serve_of_request {proc received : Process (Machine φ)} {state : Machine φ}
    {fuel socketFd fd : Nat} {key text reply : List UInt8} {p : Ptr} {file : φ}
    (hrecv : aesdsocketRecvLine (Machine.os ops choices) fuel socketFd (proc.openFile ops) none =
      .ok (received, true, some p))
    (htext : received.heap.HoldsString p text)
    (hrequest : Settles (fun fuel =>
        serveRequest (Machine.os ops choices) fuel 0 key received (some p))
      (.ok (⟨state, received.heap⟩, some fd, true)))
    (hrelay : Relays ops state.file reply file) :
    ∃ proc', Settles (fun fuel =>
        aesdsocketServe (Machine.os ops choices) fuel socketFd key proc) (.ok (proc', true)) ∧
      proc'.state.file = file ∧ proc'.state.sent = state.sent ++ reply := by
  have hreception : Settles (fun fuel =>
      aesdsocketRecvLine (Machine.os ops choices) fuel socketFd (proc.openFile ops) none)
      (.ok (received, true, some p)) := by
    obtain ⟨⟨s, lineEnd⟩, hloop, hreturns⟩ := Exec.bind_eq_ok.mp hrecv
    exact (Settles.of_loop hloop).bind ((Settles.const _).of_eq hreturns)
  obtain ⟨relayed, hrelayed, hfile, hsent, hothers⟩ :=
    hrelay.readAndSendFile choices ⟨state, received.heap⟩ rfl socketFd fd
  have hlive : (relayed.heap.block? p).isSome := by
    rw [hothers p htext.isSome]
    exact htext.isSome
  obtain ⟨heap, hfree, _⟩ := Heap.free_spec hlive
  refine ⟨⟨relayed.state, heap⟩, ?_, hfile, hsent⟩
  unfold aesdsocketServe
  refine Settles.bind (Settles.const _) (hreception.bind (hrequest.bind (hrelayed.bind ?_)))
  simp only [serveDone, Heap.freeNonNull, hfree, Exec.ok_bind, Machine.os]
  exact Settles.const _

end Aesd

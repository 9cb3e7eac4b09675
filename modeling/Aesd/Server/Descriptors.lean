import Aesd.Foundation.Handles
import Aesd.Server.Serve

/-!
# The descriptors of a connection

A descriptor that was closed may be given to another thread at once, so a thread
that closes one twice, or uses it after closing it, hits a file or a connection
that is not its own. Whatever calls fail, a connection uses and closes only what
it has open, and leaves open what it found.
-/

namespace Aesd

open CSem Handles

variable {σ : Type}

/-! ## What the calls of a function keep -/

/-- The calls on a descriptor, and those on none, keep a property. -/
structure Os.Keeps (os : Os σ) (keeps : σ → Prop) (fd : Nat) : Prop where
  read : ∀ s count s' result, keeps s → os.read s fd count = .ok (s', result) → keeps s'
  write : ∀ s bytes s' result, keeps s → os.write s fd bytes = .ok (s', result) → keeps s'
  ioctl : ∀ s arg s' result, keeps s → os.ioctl s fd arg = .ok (s', result) → keeps s'
  recv : ∀ s count s' result, keeps s → os.recv s fd count = .ok (s', result) → keeps s'
  send : ∀ s bytes s' result, keeps s → os.send s fd bytes = .ok (s', result) → keeps s'
  realloc : ∀ s, keeps s → keeps (os.realloc s).1
  terminationFlag : ∀ s, keeps s → keeps (os.terminationFlag s).1
  startReading : ∀ s, keeps s → keeps (os.startReading s)
  stopReading : ∀ s, keeps s → keeps (os.stopReading s)
  startWriting : ∀ s, keeps s → keeps (os.startWriting s)
  stopWriting : ∀ s, keeps s → keeps (os.stopWriting s)

section

variable {os : Os σ} {keeps : σ → Prop} {fuel fd socketFd : Nat} {proc proc' : Process σ}
  {line line' : Option Ptr} {ok : Bool}

/-- A repeated call keeps what the call keeps. -/
theorem retryOnEintr_keeps {α : Type} {call : σ → Exec (σ × CallResult α)}
    (hcall : ∀ s s' result, keeps s → call s = .ok (s', result) → keeps s') {s s' : σ}
    {result : Option α} (hretry : retryOnEintr call fuel s = .ok (s', result)) (hs : keeps s) :
    keeps s' := by
  obtain ⟨before, hbefore, hlast⟩ := retryOnEintr_sound keeps
    (fun s s' hs hcalled => hcall s s' .interrupted hs hcalled) hs hretry
  exact hcall before s' _ hbefore hlast

/-- A loop keeps what its rounds keep. -/
theorem loop_keeps {ρ α : Type} {body : ρ → Exec (Round ρ α)} (again : ρ → σ) (leave : α → σ)
    {start : ρ} {result : α} (hloop : loop body fuel start = .ok result)
    (hbody : ∀ state round, body state = .ok round → keeps (again state) →
      keeps (round.elim again leave)) (hstart : keeps (again start)) : keeps (leave result) :=
  loop.sound (fun state => keeps (again state)) (fun result => keeps (leave result))
    (fun state _ hs hround => hbody state _ hround hs)
    (fun state _ hs hround => hbody state _ hround hs) hstart hloop

namespace Os.Keeps

theorem recvLine (h : os.Keeps keeps fd)
    (hreturns : aesdsocketRecvLine os fuel fd proc line = .ok (proc', ok, line'))
    (hstart : keeps proc.state) : keeps proc'.state :=
  recvLine_keeps keeps h.terminationFlag h.recv h.realloc hreturns hstart

theorem readLine (h : os.Keeps keeps fd) {eof eof' : Bool}
    (hreturns : aesdsocketReadLine os fuel fd proc line eof = .ok (proc', ok, line', eof'))
    (hstart : keeps proc.state) : keeps proc'.state := by
  obtain ⟨⟨s, lineEnd⟩, hloop, hreturns⟩ := Exec.bind_eq_ok.mp hreturns
  have hlast : keeps s.proc.state := by
    refine loop_keeps (fun s => s.proc.state) (fun result => result.1.proc.state) hloop ?_
      (h.startReading _ hstart)
    intro s round hround hs
    obtain ⟨⟨state, result⟩, hread, hround⟩ := Exec.bind_eq_ok.mp hround
    have hstate := retryOnEintr_keeps (fun s s' result => h.read s buffsize s' result) hread hs
    rcases result with _ | ⟨_ | ⟨byte, bytes⟩⟩
    · cases hround
      exact hstate
    · cases hround
      exact hstate
    · have hcollected := h.realloc state hstate
      rw [← (LineBuffer.collect_state hround).1] at hcollected
      cases round with
      | again next => exact hcollected
      | leave result => exact hcollected
  cases lineEnd with
  | failed =>
      obtain ⟨heap, _, heq⟩ := Exec.bind_eq_ok.mp hreturns
      cases heq
      exact hlast
  | eol =>
      obtain ⟨heap, _, heq⟩ := Exec.bind_eq_ok.mp hreturns
      cases heq
      exact h.stopReading _ hlast
  | ended =>
      obtain ⟨heap, _, heq⟩ := Exec.bind_eq_ok.mp hreturns
      cases heq
      exact h.stopReading _ hlast

theorem writeLine (h : os.Keeps keeps fd)
    (hreturns : aesdsocketWriteLine os fuel fd proc line = .ok (proc', ok))
    (hstart : keeps proc.state) : keeps proc'.state := by
  obtain ⟨cells, _, hreturns⟩ := Exec.bind_eq_ok.mp hreturns
  obtain ⟨length, _, hreturns⟩ := Exec.bind_eq_ok.mp hreturns
  obtain ⟨⟨last, done⟩, hloop, hreturns⟩ := Exec.bind_eq_ok.mp hreturns
  have hlast : keeps last.state := by
    refine loop_keeps (fun s => s.1.state) (fun result => result.1.state) hloop ?_
      (h.startWriting _ hstart)
    intro s round hround hs
    unfold writeLineRound at hround
    split at hround
    next =>
      cases hround
      exact hs
    next =>
      obtain ⟨bytes, _, hround⟩ := Exec.bind_eq_ok.mp hround
      obtain ⟨⟨state, result⟩, hwrite, hround⟩ := Exec.bind_eq_ok.mp hround
      have hstate := retryOnEintr_keeps (fun s s' result => h.write s bytes s' result) hwrite hs
      cases result with
      | none =>
          cases hround
          exact hstate
      | some written =>
          cases hround
          exact hstate
  cases done with
  | true =>
      cases hreturns
      exact h.stopWriting _ hlast
  | false =>
      cases hreturns
      exact hlast

theorem sendLine (h : os.Keeps keeps fd)
    (hreturns : aesdsocketSendLine os fuel fd proc line = .ok (proc', ok))
    (hstart : keeps proc.state) : keeps proc'.state := by
  obtain ⟨cells, _, hreturns⟩ := Exec.bind_eq_ok.mp hreturns
  obtain ⟨length, _, hloop⟩ := Exec.bind_eq_ok.mp hreturns
  refine loop_keeps (fun s => s.1.state) (fun result => result.1.state) hloop ?_ hstart
  intro s round hround hs
  have hflagged := h.terminationFlag s.1.state hs
  unfold sendLineRound at hround
  split at hround
  next =>
    cases hround
    exact hs
  next =>
    rcases hflag : os.terminationFlag s.1.state with ⟨state, terminated⟩
    simp only [hflag] at hround hflagged
    cases terminated with
    | true =>
        cases hround
        exact hflagged
    | false =>
        obtain ⟨bytes, _, hround⟩ := Exec.bind_eq_ok.mp hround
        obtain ⟨⟨state', result⟩, hsend, hround⟩ := Exec.bind_eq_ok.mp hround
        have hstate := retryOnEintr_keeps (fun s s' result => h.send s bytes s' result) hsend
          hflagged
        cases result with
        | none =>
            cases hround
            exact hstate
        | some sent =>
            cases hround
            exact hstate

theorem sendNonEmpty (h : os.Keeps keeps fd)
    (hreturns : Aesd.sendNonEmpty os fuel fd proc line = .ok (proc', ok))
    (hstart : keeps proc.state) : keeps proc'.state := by
  cases line with
  | none =>
      cases hreturns
      exact hstart
  | some p =>
      obtain ⟨cells, _, hreturns⟩ := Exec.bind_eq_ok.mp hreturns
      obtain ⟨length, _, hreturns⟩ := Exec.bind_eq_ok.mp hreturns
      split at hreturns
      next => exact h.sendLine hreturns hstart
      next =>
        cases hreturns
        exact hstart

/-- The reply keeps what the calls on its two descriptors keep. -/
theorem readAndSendFile (h : os.Keeps keeps fd) (hsocket : os.Keeps keeps socketFd)
    (hreturns : aesdsocketReadAndSendFile os fuel socketFd fd proc = .ok (proc', ok))
    (hstart : keeps proc.state) : keeps proc'.state := by
  obtain ⟨⟨last, line, done⟩, hloop, hreturns⟩ := Exec.bind_eq_ok.mp hreturns
  obtain ⟨heap, _, heq⟩ := Exec.bind_eq_ok.mp hreturns
  cases heq
  refine loop_keeps (fun s => s.1.state) (fun result => result.1.state) hloop ?_ hstart
  intro s round hround hs
  obtain ⟨⟨read, okRead, line, eof⟩, hread, hround⟩ := Exec.bind_eq_ok.mp hround
  have hstate := h.readLine hread hs
  cases okRead with
  | false =>
      cases hround
      exact hstate
  | true =>
      obtain ⟨⟨sent, okSend⟩, hsend, hround⟩ := Exec.bind_eq_ok.mp hround
      have hsent := hsocket.sendNonEmpty hsend hstate
      cases okSend with
      | false =>
          cases hround
          exact hsent
      | true =>
          cases eof with
          | true =>
              cases hround
              exact hsent
          | false =>
              cases hround
              exact hsent

end Os.Keeps

end

/-! ## What a connection does with descriptors -/

/-- The parts of a connection that comes back: its file does not open, or a line
is received, the request is acted on unless that went wrong or there was no line,
the reply is sent if the file is still open, and what is left is given back. -/
theorem serve_cases {os : Os σ} {fuel socketFd : Nat} {proc proc' : Process σ} {ok : Bool}
    {key : List UInt8}
    (hreturns : aesdsocketServe os fuel socketFd key proc = .ok (proc', ok)) :
    (∃ opened, (∀ fd, opened ≠ .done fd) ∧
        os.openFile proc.state true = .ok (proc'.state, opened)) ∨
      ∃ state fd received okRecv line requested fileFd replied,
        os.openFile proc.state true = .ok (state, .done fd) ∧
        aesdsocketRecvLine os fuel socketFd ⟨state, proc.heap⟩ none = .ok (received, okRecv, line) ∧
        ((requested = received ∧ fileFd = some fd) ∨ ∃ okRequest,
          serveRequest os fuel fd key received line = .ok (requested, fileFd, okRequest)) ∧
        (replied = requested ∨ ∃ fd, fileFd = some fd ∧
          aesdsocketReadAndSendFile os fuel socketFd fd requested = .ok (replied, ok)) ∧
        serveDone os replied line fileFd = .ok proc' := by
  obtain ⟨⟨state, opened⟩, hopen, hreturns⟩ := Exec.bind_eq_ok.mp hreturns
  cases opened with
  | interrupted =>
      cases hreturns
      exact Or.inl ⟨.interrupted, fun _ heq => (by cases heq), hopen⟩
  | failed =>
      cases hreturns
      exact Or.inl ⟨.failed, fun _ heq => (by cases heq), hopen⟩
  | done fd =>
      obtain ⟨⟨received, okRecv, line⟩, hrecv, hreturns⟩ := Exec.bind_eq_ok.mp hreturns
      obtain ⟨requested, fileFd, okRequest, hrequest, hreturns⟩ :
          ∃ (requested : Process σ) (fileFd : Option Nat) (okRequest : Bool),
          ((requested = received ∧ fileFd = some fd) ∨ ∃ okRequest,
            serveRequest os fuel fd key received line = .ok (requested, fileFd, okRequest)) ∧
          (fileFd.elim (.ok (requested, false)) (fun fd =>
            if okRequest then aesdsocketReadAndSendFile os fuel socketFd fd requested
            else .ok (requested, false)) >>= fun replied =>
              serveDone os replied.1 line fileFd >>= fun last => .ok (last, replied.2)) =
            .ok (proc', ok) := by
        cases okRecv with
        | false => exact ⟨received, some fd, false, Or.inl ⟨rfl, rfl⟩, hreturns⟩
        | true =>
            cases line with
            | none => exact ⟨received, some fd, true, Or.inl ⟨rfl, rfl⟩, hreturns⟩
            | some p =>
                obtain ⟨⟨requested, fileFd, okRequest⟩, hrequest, hreturns⟩ :=
                  Exec.bind_eq_ok.mp hreturns
                refine ⟨requested, fileFd, okRequest, Or.inr ⟨okRequest, hrequest⟩, ?_⟩
                cases fileFd with
                | none => exact hreturns
                | some fd =>
                    cases okRequest with
                    | false => exact hreturns
                    | true => exact hreturns
      refine Or.inr ⟨state, fd, received, okRecv, line, requested, fileFd, ?_⟩
      obtain ⟨⟨replied, okReply⟩, hreply, hreturns⟩ := Exec.bind_eq_ok.mp hreturns
      obtain ⟨last, hlast, heq⟩ := Exec.bind_eq_ok.mp hreturns
      cases heq
      cases fileFd with
      | none =>
          cases hreply
          exact ⟨requested, hopen, hrecv, hrequest, Or.inl rfl, hlast⟩
      | some fileFd =>
          cases okRequest with
          | false =>
              cases hreply
              exact ⟨requested, hopen, hrecv, hrequest, Or.inl rfl, hlast⟩
          | true => exact ⟨replied, hopen, hrecv, hrequest, Or.inr ⟨fileFd, rfl, hreply⟩, hlast⟩

/-- What was done with descriptors so far, next to the state of the environment. -/
abbrev Traced (σ : Type) := σ × List (Handles.Act Nat)

/-- Make a call that uses a descriptor. -/
def useDescriptor {α : Type} (fd : Nat) (call : σ → Exec (σ × CallResult α)) (s : Traced σ) :
    Exec (Traced σ × CallResult α) := do
  let (state, result) ← call s.1
  .ok ((state, s.2 ++ [.used fd]), result)

/-- The descriptor that an open call gave, if it did. -/
def openedBy (result : CallResult Nat) : List (Handles.Act Nat) :=
  match result with
  | .done fd => [.opened fd]
  | _ => []

/-- An environment that writes down what is done with descriptors. -/
def Os.traced (os : Os σ) : Os (Traced σ) where
  openFile s writable := do
    let (state, result) ← os.openFile s.1 writable
    .ok ((state, s.2 ++ openedBy result), result)
  closeFile s fd := do
    let state ← os.closeFile s.1 fd
    .ok (state, s.2 ++ [.closed fd])
  read s fd count := useDescriptor fd (fun state => os.read state fd count) s
  write s fd bytes := useDescriptor fd (fun state => os.write state fd bytes) s
  ioctl s fd arg := useDescriptor fd (fun state => os.ioctl state fd arg) s
  recv s fd count := useDescriptor fd (fun state => os.recv state fd count) s
  send s fd bytes := useDescriptor fd (fun state => os.send state fd bytes) s
  realloc s :=
    let (state, answer) := os.realloc s.1
    ((state, s.2), answer)
  terminationFlag s :=
    let (state, terminated) := os.terminationFlag s.1
    ((state, s.2), terminated)
  startReading s := (os.startReading s.1, s.2)
  stopReading s := (os.stopReading s.1, s.2)
  startWriting s := (os.startWriting s.1, s.2)
  stopWriting s := (os.stopWriting s.1, s.2)

/-- In between, only descriptors were used and closed that were held, and others
are held now. -/
def Moves (s s' : Traced σ) (held held' : List Nat) : Prop :=
  ∃ acts, s'.2 = s.2 ++ acts ∧ after held acts = some held'

namespace Moves

variable {s middle s' : Traced σ} {held held' held'' : List Nat} {fd : Nat}

theorem refl (s : Traced σ) (held : List Nat) : Moves s s held held :=
  ⟨[], (List.append_nil _).symm, rfl⟩

theorem trans (hfront : Moves s middle held held') (hback : Moves middle s' held' held'') :
    Moves s s' held held'' := by
  obtain ⟨front, hfront, hheld⟩ := hfront
  obtain ⟨back, hback, hheld'⟩ := hback
  refine ⟨front ++ back, by rw [hback, hfront, List.append_assoc], ?_⟩
  rw [after_append, hheld]
  exact hheld'

theorem single {act : Handles.Act Nat} (hs : s'.2 = s.2 ++ [act])
    (hhold : hold held act = some held') : Moves s s' held held' := ⟨[act], hs, by rw [after_singleton, hhold]⟩

theorem used {α : Type} (call : σ → Exec (σ × CallResult α)) {result : CallResult α}
    (hcall : useDescriptor fd call s = .ok (s', result)) (hmem : fd ∈ held) :
    Moves s s' held held := by
  obtain ⟨_, _, heq⟩ := Exec.bind_eq_ok.mp hcall
  cases heq
  exact single rfl (hold_used hmem)

theorem closed {os : Os σ} (hclose : os.traced.closeFile s fd = .ok s') :
    Moves s s' (fd :: held) held := by
  obtain ⟨_, _, heq⟩ := Exec.bind_eq_ok.mp hclose
  cases heq
  refine single rfl ?_
  rw [hold_closed List.mem_cons_self, List.erase_cons_head]

/-- Opening gives a descriptor, unless it fails. -/
theorem opened {os : Os σ} {writable : Bool} {result : CallResult Nat}
    (hopen : os.traced.openFile s writable = .ok (s', result)) (held : List Nat) :
    (∃ fd, result = .done fd ∧ Moves s s' held (fd :: held)) ∨
      ((∀ fd, result ≠ .done fd) ∧ Moves s s' held held) := by
  obtain ⟨⟨state, answer⟩, _, heq⟩ := Exec.bind_eq_ok.mp hopen
  cases heq
  cases result with
  | done fd => exact Or.inl ⟨fd, rfl, single rfl rfl⟩
  | interrupted => exact Or.inr ⟨fun _ heq => (by cases heq), [], rfl, rfl⟩
  | failed => exact Or.inr ⟨fun _ heq => (by cases heq), [], rfl, rfl⟩

/-- Calls on a descriptor that is held keep what is held. -/
theorem keeps (os : Os σ) (start : Traced σ) (hmem : fd ∈ held) :
    os.traced.Keeps (fun s => Moves start s held held) fd where
  read _ count _ _ h hcall := h.trans (used (fun state => os.read state fd count) hcall hmem)
  write _ bytes _ _ h hcall := h.trans (used (fun state => os.write state fd bytes) hcall hmem)
  ioctl _ arg _ _ h hcall := h.trans (used (fun state => os.ioctl state fd arg) hcall hmem)
  recv _ count _ _ h hcall := h.trans (used (fun state => os.recv state fd count) hcall hmem)
  send _ bytes _ _ h hcall := h.trans (used (fun state => os.send state fd bytes) hcall hmem)
  realloc _ h := h
  terminationFlag _ h := h
  startReading _ h := h
  stopReading _ h := h
  startWriting _ h := h
  stopWriting _ h := h

end Moves

section

variable {os : Os σ} {fuel fd socketFd : Nat} {proc proc' : Process (Traced σ)}
  {held : List Nat} {ok : Bool}

/-- The request is acted on with the descriptor of the file, and leaves one that
may be a new one, or none. -/
theorem serveRequest_moves {key : List UInt8} {line : Option Ptr} {fileFd : Option Nat}
    (hreturns : serveRequest os.traced fuel fd key proc line = .ok (proc', fileFd, ok)) :
    Moves proc.state proc'.state (fd :: held) (fileFd.elim held (· :: held)) := by
  have hmem : fd ∈ fd :: held := List.mem_cons_self
  have hfile := Moves.keeps os proc.state hmem
  obtain ⟨cells, _, hreturns⟩ := Exec.bind_eq_ok.mp hreturns
  obtain ⟨isSeek, _, hreturns⟩ := Exec.bind_eq_ok.mp hreturns
  cases isSeek with
  | true =>
      obtain ⟨seekto, _, hreturns⟩ := Exec.bind_eq_ok.mp hreturns
      cases seekto with
      | none =>
          cases hreturns
          exact .refl _ _
      | some arg =>
          obtain ⟨⟨state, result⟩, hioctl, heq⟩ := Exec.bind_eq_ok.mp hreturns
          cases heq
          exact hfile.ioctl _ _ _ _ (.refl _ _) hioctl
  | false =>
      obtain ⟨⟨written, okWrite⟩, hwrite, hreturns⟩ := Exec.bind_eq_ok.mp hreturns
      have hwritten := hfile.writeLine hwrite (.refl _ _)
      cases okWrite with
      | false =>
          cases hreturns
          exact hwritten
      | true =>
          obtain ⟨closed, hclose, hreturns⟩ := Exec.bind_eq_ok.mp hreturns
          obtain ⟨⟨state, opened⟩, hopen, hreturns⟩ := Exec.bind_eq_ok.mp hreturns
          have hclosed := hwritten.trans (.closed hclose)
          rcases Moves.opened hopen held with ⟨newFd, rfl, hopened⟩ | ⟨hnone, hopened⟩
          · cases hreturns
            exact hclosed.trans hopened
          · cases opened with
            | done newFd => exact absurd rfl (hnone newFd)
            | interrupted =>
                cases hreturns
                exact hclosed.trans hopened
            | failed =>
                cases hreturns
                exact hclosed.trans hopened

theorem serveDone_moves {line : Option Ptr} {fileFd : Option Nat}
    (hreturns : serveDone os.traced proc line fileFd = .ok proc') :
    Moves proc.state proc'.state (fileFd.elim held (· :: held)) held := by
  obtain ⟨heap, _, hreturns⟩ := Exec.bind_eq_ok.mp hreturns
  cases fileFd with
  | none =>
      cases hreturns
      exact .refl _ _
  | some fd =>
      obtain ⟨state, hclose, heq⟩ := Exec.bind_eq_ok.mp hreturns
      cases heq
      exact .closed hclose

/-- A connection leaves the descriptors held that it found. -/
theorem serve_moves {key : List UInt8} (hsocket : socketFd ∈ held)
    (hreturns : aesdsocketServe os.traced fuel socketFd key proc = .ok (proc', ok)) :
    Moves proc.state proc'.state held held := by
  rcases serve_cases hreturns with ⟨opened, hnone, hopen⟩ |
    ⟨state, fd, received, okRecv, line, requested, fileFd, replied, hopen, hrecv, hrequest, hreply,
      hlast⟩
  · rcases Moves.opened hopen held with ⟨fd, heq, _⟩ | ⟨_, hopened⟩
    · exact absurd heq (hnone fd)
    · exact hopened
  · have hopened : Moves proc.state state held (fd :: held) := by
      rcases Moves.opened hopen held with ⟨fd', heq, hopened⟩ | ⟨hnone, _⟩
      · cases heq
        exact hopened
      · exact absurd rfl (hnone fd)
    have hreceived : Moves proc.state received.state held (fd :: held) :=
      hopened.trans ((Moves.keeps os state (List.mem_cons_of_mem fd hsocket)).recvLine hrecv
        (.refl _ _))
    have hrequested : Moves proc.state requested.state held (fileFd.elim held (· :: held)) := by
      rcases hrequest with ⟨rfl, rfl⟩ | ⟨_, hrequest⟩
      · exact hreceived
      · exact hreceived.trans (serveRequest_moves hrequest)
    refine Moves.trans ?_ (serveDone_moves hlast)
    rcases hreply with rfl | ⟨fd, rfl, hreply⟩
    · exact hrequested
    · exact hrequested.trans ((Moves.keeps os _ List.mem_cons_self).readAndSendFile
        (Moves.keeps os _ (List.mem_cons_of_mem fd hsocket)) hreply (.refl _ _))

end

/-! ## Connections at the same time -/

/-- What `aesdsocket_start_thread` does with its connection: it is served, whatever
comes of that, and closed. -/
def serveAndClose (os : Os σ) (fuel connSockfd : Nat) (seektoCommand : List UInt8)
    (proc : Process σ) : Exec (Process σ) := do
  let (proc, _) ← aesdsocketServe os fuel connSockfd seektoCommand proc
  let state ← os.closeFile proc.state connSockfd
  .ok ⟨state, proc.heap⟩

/-- The acts of a connection, from its `accept` to the end of its thread, in some
environment. As the environment may let any call fail, an initial part of any
run, also of one that does not end, is an initial part of such acts. -/
def ConnectionActs (connSockfd : Nat) (acts : List (Handles.Act Nat)) : Prop :=
  ∃ (σ : Type) (os : Os σ) (fuel : Nat) (seektoCommand : List UInt8) (state : σ) (heap : Heap)
    (proc' : Process (Traced σ)),
    serveAndClose os.traced fuel connSockfd seektoCommand ⟨(state, [.opened connSockfd]), heap⟩ =
      .ok proc' ∧ proc'.state.2 = acts

/-- A connection gives back every descriptor that it got. -/
theorem ConnectionActs.after_eq {connSockfd : Nat} {acts : List (Handles.Act Nat)}
    (h : ConnectionActs connSockfd acts) : after [] acts = some [] := by
  obtain ⟨σ, os, fuel, key, state, heap, proc', hreturns, rfl⟩ := h
  obtain ⟨⟨served, ok⟩, hserve, hreturns⟩ := Exec.bind_eq_ok.mp hreturns
  obtain ⟨closed, hclose, heq⟩ := Exec.bind_eq_ok.mp hreturns
  cases heq
  have hsocket : connSockfd ∈ [connSockfd] := List.mem_singleton_self _
  have hserved := serve_moves hsocket hserve
  obtain ⟨acts, hacts, hafter⟩ := hserved.trans (.closed hclose)
  rw [hacts, after_append, after_singleton]
  exact hafter

/-- Descriptors are private to connections. However the acts of any number of
connections are interleaved, and whichever of their calls fail, a descriptor is
held by one connection at most, the connections use and close only what they
hold, so nothing that was open before, and when all have ended the open
descriptors are those that were open before. -/
theorem descriptors_private {τ : Type} [DecidableEq τ] {connSockfd : τ → Nat}
    {acts : τ → List (Handles.Act Nat)}
    (hacts : ∀ thread, ConnectionActs (connSockfd thread) (acts thread))
    {table table' : Nat → Bool} {events : List (τ × Handles.Act Nat)}
    (hrun : Transition.Run Step table events table')
    (hpart : ∀ thread, actsOf thread events <+: acts thread) :
    ∃ held : τ → List Nat, (∀ thread, after [] (actsOf thread events) = some (held thread)) ∧
      Exclusive (fun fd => table fd = true) held table' ∧
      (∀ thread act fd, actsOf thread events ++ [act] <+: acts thread → act.touched = some fd →
        fd ∈ held thread) ∧
      ((∀ thread, actsOf thread events = acts thread) → table' = table) := by
  choose held hheld using fun thread => after_of_isPrefix (hpart thread) (hacts thread).after_eq
  have hexclusive := exclusive_of_run hrun (exclusive_nil table) hheld
  refine ⟨held, hheld, hexclusive, ?_, ?_⟩
  · intro thread act fd hnext htouched
    obtain ⟨now, hnow⟩ := after_of_isPrefix hnext (hacts thread).after_eq
    rw [after_concat, hheld thread] at hnow
    exact mem_of_hold hnow htouched
  · intro hended
    have hnil : ∀ thread, held thread = [] := fun thread => by
      have heq := hheld thread
      rw [hended thread, (hacts thread).after_eq] at heq
      exact (Option.some.inj heq).symm
    funext fd
    have hopen := hexclusive.open_iff fd
    simp only [hnil, List.not_mem_nil, exists_false, or_false] at hopen
    exact Bool.eq_iff_iff.mpr hopen

/-- An environment without a client: what is received fails, and so does the
opening of the file when it is missing. -/
def lonelyOs (fileFd : CallResult Nat) : Os Unit where
  openFile _ _ := .ok ((), fileFd)
  closeFile _ _ := .ok ()
  read _ _ _ := .ok ((), .done [])
  write _ _ bytes := .ok ((), .done bytes.length)
  ioctl _ _ _ := .ok ((), .done ())
  recv _ _ _ := .ok ((), .failed)
  send _ _ bytes := .ok ((), .done bytes.length)
  realloc _ := ((), .inPlace)
  terminationFlag _ := ((), false)
  startReading := id
  stopReading := id
  startWriting := id
  stopWriting := id

/-- Two connections at once: one that cannot open the file, and one that receives
nothing. -/
theorem descriptors_private_two : ∃ (held : Bool → List Nat) (table : Nat → Bool),
    held true = [7, 4] ∧ held false = [5] ∧
      Exclusive (fun fd => decide (fd = 3) = true) held table := by
  let acts : Bool → List (Handles.Act Nat) := fun thread =>
    if thread then [.opened 4, .opened 7, .used 4, .closed 7, .closed 4] else [.opened 5, .closed 5]
  have hacts : ∀ thread, ConnectionActs (if thread then 4 else 5) (acts thread) := by
    intro thread
    cases thread with
    | true => exact ⟨Unit, lonelyOs (.done 7), 1, [], (), Heap.empty, _, rfl, rfl⟩
    | false => exact ⟨Unit, lonelyOs .failed, 1, [], (), Heap.empty, _, rfl, rfl⟩
  have hrun : Transition.Run Step (fun fd => decide (fd = 3))
      [(true, .opened 4), (false, .opened 5), (true, .opened 7), (true, .used 4)] _ :=
    (((Transition.Run.single (.opened 4 rfl)).snoc (.opened 5 rfl)).snoc (.opened 7 rfl)).snoc
      (.used 4)
  have hpart : ∀ thread, actsOf thread
      [(true, Handles.Act.opened 4), (false, .opened 5), (true, .opened 7), (true, .used 4)] <+:
        acts thread := by
    decide
  obtain ⟨held, hheld, hexclusive, _⟩ := descriptors_private hacts hrun hpart
  exact ⟨held, _, (Option.some.inj (hheld true)).symm, (Option.some.inj (hheld false)).symm,
    hexclusive⟩

end Aesd

import Aesd.Foundation.Service
import Aesd.Server.DeviceReply
import Aesd.Server.Framing

/-!
# One client after another

Clients connect one after another, each with one line cut into pieces. Whatever
the pieces are, the line is received, and what is left is one request to the
file.
-/

namespace Aesd

open CSem LineStream

/-- The line of a client, and the pieces in which its bytes arrive. Something may
follow the line. -/
structure Query where
  text : List UInt8
  pieces : List (List UInt8)
  isLine : IsLine newline text
  fits : text.length < buffsize
  arrives : ∃ back, pieces.flatten = text ++ back
  short : ∀ piece ∈ pieces, piece ≠ [] ∧ 0 ∉ piece ∧ piece.length < buffsize

theorem Query.noNul (query : Query) : 0 ∉ query.text := by
  obtain ⟨back, hcut⟩ := query.arrives
  intro hzero
  have hmem : 0 ∈ query.pieces.flatten := hcut ▸ List.mem_append_left back hzero
  obtain ⟨piece, hpiece, hzero⟩ := List.mem_flatten.mp hmem
  exact (query.short piece hpiece).2.1 hzero

/-- The result of the connection, and what the client was sent. -/
structure Answer where
  ok : Bool
  sent : List UInt8
  deriving DecidableEq, Repr

variable {φ : Type} {ops : FileOps φ} {choices : Choices}

/-- The next client: its pieces are to come, and it was not sent anything. -/
def Process.connect (proc : Process (Machine φ)) (query : Query) : Process (Machine φ) :=
  ⟨{ proc.state with incoming := query.pieces, sent := [] }, proc.heap⟩

/-- One client is served to the end, with this answer. -/
def Answers (ops : FileOps φ) (choices : Choices) (socketFd : Nat) (proc : Process (Machine φ))
    (query : Query) (answer : Answer) (proc' : Process (Machine φ)) : Prop :=
  Settles (fun fuel =>
      aesdsocketServe (Machine.os ops choices) fuel socketFd seektoCommand (proc.connect query))
    (.ok (proc', answer.ok)) ∧ proc'.state.sent = answer.sent

theorem Answers.unique {socketFd : Nat} {proc proc' proc'' : Process (Machine φ)} {query : Query}
    {answer answer' : Answer} (h : Answers ops choices socketFd proc query answer proc')
    (h' : Answers ops choices socketFd proc query answer' proc'') :
    answer = answer' ∧ proc' = proc'' := by
  obtain ⟨hsettles, hsent⟩ := h
  obtain ⟨hsettles', hsent'⟩ := h'
  obtain ⟨hproc, hok⟩ := Prod.mk.inj (Except.ok.inj (hsettles.unique hsettles'))
  subst hproc
  obtain ⟨ok, sent⟩ := answer
  obtain ⟨ok', sent'⟩ := answer'
  dsimp only at hok hsent hsent'
  rw [hok, ← hsent, ← hsent']
  exact ⟨rfl, rfl⟩

/-! ## Reception -/

namespace Machine

section Pieces

variable (ops choices) (fd : Nat) {s : LineBuffer (Machine φ)} {text : List UInt8}
  {pieces : List (List UInt8)}

/-- A round on a piece that fits into the local buffer. -/
theorem recvLineRound_piece {piece : List UInt8} (hne : piece ≠ []) (hfit : piece.length ≤ buffsize)
    (hincoming : s.proc.state.incoming = piece :: pieces) :
    recvLineRound (os ops choices) fd s =
      LineBuffer.collect (os ops choices)
        { s with proc := ⟨{ s.proc.state with incoming := pieces }, s.proc.heap⟩ } piece := by
  have htake : piece.take buffsize = piece := List.take_of_length_le hfit
  simp only [recvLineRound, os, hincoming, htake, if_pos hfit, Exec.ok_bind,
    Bool.false_eq_true, if_false]

/-- A piece with a newline ends the line. -/
theorem round_found (h : s.Gathered text) {front back : List UInt8} (hfront : newline ∉ front)
    (hnul : 0 ∉ front) (hfit : (front ++ newline :: back).length ≤ buffsize)
    (hincoming : s.proc.state.incoming = (front ++ newline :: back) :: pieces) :
    ∃ s', recvLineRound (os ops choices) fd s = .ok (.leave (s', .eol)) ∧
      s'.Gathered (text ++ (front ++ [newline])) := by
  have hround := recvLineRound_piece ops choices fd (by simp) hfit hincoming
  have hcopy : strncpy ((overlay s.buffer (front ++ newline :: back)).map some)
      (front ++ [newline]).length = .ok (front ++ [newline]) := by
    have hsplit : (overlay s.buffer (front ++ newline :: back)).map some =
        (front ++ [newline]).map some ++ (back ++
          s.buffer.drop (front ++ newline :: back).length).map some := by
      simp [overlay]
    rw [hsplit]
    exact strncpy_eq (notMem_line hnul) _
  have hrest : (LineBuffer.mk ⟨{ s.proc.state with incoming := pieces }, s.proc.heap⟩ s.buffer
      s.lineBuffer s.lineBufferSize).Gathered text := h.of_heap
  obtain ⟨s', hcollect, hgathered, _⟩ := hrest.collect (os ops choices) rfl
    (choices.resize_ne_null _) (scan_found s.buffer back hfront hnul) List.length_append hcopy
  exact ⟨s', hround.trans hcollect, hgathered⟩

/-- A piece without a newline is gathered, and the loop goes on. -/
theorem round_more (h : s.Gathered text) (hclean : CleanBuffer s.buffer) {piece : List UInt8}
    (hne : piece ≠ []) (hnul : 0 ∉ piece) (hshort : piece.length < buffsize)
    (hnewline : newline ∉ piece) (hincoming : s.proc.state.incoming = piece :: pieces) :
    ∃ s', recvLineRound (os ops choices) fd s = .ok (.again s') ∧
      s'.Gathered (text ++ piece) ∧ CleanBuffer s'.buffer ∧ s'.proc.state.incoming = pieces := by
  have hround := recvLineRound_piece ops choices fd hne
    (Nat.le_of_lt hshort) hincoming
  have hcopy : strncpy ((overlay s.buffer piece).map some) piece.length = .ok piece := by
    rw [overlay, List.map_append]
    exact strncpy_eq hnul _
  have hrest : (LineBuffer.mk ⟨{ s.proc.state with incoming := pieces }, s.proc.heap⟩ s.buffer
      s.lineBuffer s.lineBufferSize).Gathered text := h.of_heap
  obtain ⟨s', hcollect, hgathered, hstate, hbuffer, _⟩ := hrest.collect (os ops choices) rfl
    (choices.resize_ne_null _) (hclean.scan hshort hnewline) rfl hcopy
  have hbuffer : s'.buffer = overlay s.buffer piece := hbuffer
  exact ⟨s', hround.trans hcollect, hgathered, hbuffer ▸ hclean.overlay hshort hnewline,
    by rw [hstate]⟩

/-- The loop gathers the pieces up to the first newline. -/
theorem loop_gathers
    (hpieces : ∀ piece ∈ pieces, piece ≠ [] ∧ 0 ∉ piece ∧ piece.length < buffsize)
    {front back : List UInt8} (hcut : pieces.flatten = front ++ newline :: back)
    (hfront : newline ∉ front) (h : s.Gathered text) (hclean : CleanBuffer s.buffer)
    (hincoming : s.proc.state.incoming = pieces) :
    ∃ fuel s', loop (recvLineRound (os ops choices) fd) fuel s = .ok (s', .eol) ∧
      s'.Gathered (text ++ (front ++ [newline])) := by
  induction pieces generalizing s text front with
  | nil => simp at hcut
  | cons piece pieces ih =>
      obtain ⟨⟨hne, hnul, hshort⟩, hothers⟩ := List.forall_mem_cons.mp hpieces
      rw [List.flatten_cons] at hcut
      by_cases hnewline : newline ∈ piece
      · obtain ⟨front', back', rfl, hfront'⟩ := List.eq_append_cons_of_mem hnewline
        -- both decompositions cut the stream at its first newline
        rw [List.append_assoc, List.cons_append] at hcut
        obtain rfl := front_unique hfront hfront' hcut
        obtain ⟨s', hround, hgathered⟩ := round_found ops choices fd h hfront
          (fun hmem => hnul (List.mem_append_left _ hmem)) (Nat.le_of_lt hshort) hincoming
        exact ⟨1, s', loop.leave hround 0, hgathered⟩
      · obtain ⟨front', rfl, hrest⟩ := front_of_notMem hnewline hcut
        obtain ⟨middle, hround, hgathered, hclean', hincoming'⟩ := round_more ops choices fd h
          hclean hne hnul hshort hnewline hincoming
        obtain ⟨fuel, s', hloop, hgathered'⟩ := ih hothers hrest
          (fun hmem => hfront (List.mem_append_right _ hmem)) hgathered hclean' hincoming'
        refine ⟨fuel + 1, s', (loop.again hround fuel).trans hloop, ?_⟩
        rw [List.append_assoc] at hgathered' ⊢
        exact hgathered'

end Pieces

/-- The line of a client is received, and the file and what was sent are as they
were. -/
theorem recvLine_query (ops : FileOps φ) (choices : Choices) (fd : Nat)
    (proc : Process (Machine φ)) (query : Query) (hincoming : proc.state.incoming = query.pieces) :
    ∃ fuel received p, aesdsocketRecvLine (os ops choices) fuel fd proc none =
        .ok (received, true, some p) ∧
      received.heap.HoldsString p query.text ∧ received.state.file = proc.state.file ∧
      received.state.sent = proc.state.sent := by
  obtain ⟨front, htext, hfront⟩ := query.isLine
  obtain ⟨back, hcut⟩ := query.arrives
  have hnul := query.noNul
  rw [htext] at hnul
  rw [htext, List.append_assoc, List.singleton_append] at hcut
  have hlive : ∀ q, (none : Option Ptr) = some q → (proc.heap.block? q).isSome :=
    fun _ heq => by cases heq
  obtain ⟨fuel, s, hloop, hgathered⟩ := loop_gathers ops choices fd
    query.short hcut hfront (LineBuffer.gathered_start proc hlive) cleanBuffer_start hincoming
  rw [List.nil_append] at hgathered
  have hne : front ++ [newline] ≠ [] := by simp
  obtain ⟨closed, hterminate, hline, _⟩ := hgathered.terminate hne hnul
  obtain ⟨p, hptr, _⟩ := hgathered.holds hne
  rw [hptr] at hline
  have hreturns : aesdsocketRecvLine (os ops choices) fuel fd proc none =
      .ok (⟨s.proc.state, closed⟩, true, some p) := by
    simp only [aesdsocketRecvLine, hloop, hterminate, hptr, Exec.ok_bind]
  obtain ⟨hfile, hsent⟩ := recvLine_keeps hreturns
  exact ⟨fuel, _, p, hreturns, htext ▸ hline, hfile, hsent⟩

end Machine

/-! ## From the request to the answer -/

/-- Once the line is in memory, the request leaves this file behind, and tells
whether there is a reply. -/
def Takes (ops : FileOps φ) (choices : Choices) (file : φ) (text : List UInt8) (file' : φ)
    (ok : Bool) : Prop :=
  ∀ (received : Process (Machine φ)) (p : Ptr), received.heap.HoldsString p text →
    received.state.file = file →
    ∃ fd, Settles (fun fuel =>
        serveRequest (Machine.os ops choices) fuel 0 seektoCommand received (some p))
      (.ok (⟨{ received.state with file := file' }, received.heap⟩, some fd, ok))

theorem takes_line {file file' : φ} {text : List UInt8} (hnot : ¬ seektoCommand <+: text)
    (hne : text ≠ []) (hwrite : ops.write file text = .ok (file', .done text.length)) :
    Takes ops choices file text (ops.openFile file') true := by
  intro received p htext hfile
  rw [← hfile] at hwrite
  exact ⟨0, serveRequest_line choices htext notMem_seektoCommand hnot hne hwrite 0⟩

/-- A cut takes the separator out. -/
theorem length_of_cut {sep : UInt8} {stream front back : List UInt8}
    (hcut : cut sep stream = some (front, back)) :
    front.length < stream.length ∧ back.length < stream.length := by
  rcases cut_cases sep stream with ⟨_, hnone⟩ | ⟨front', back', rfl, _, hsome⟩
  · rw [hnone] at hcut
    cases hcut
  · rw [hsome] at hcut
    cases hcut
    rw [List.length_append, List.length_cons]
    omega

/-- The fields of a command are shorter than it. -/
theorem length_seektoFields_lt {text : List UInt8} {fields : List UInt8 × List UInt8}
    (hfields : seektoFields text = some fields) :
    fields.1.length < text.length ∧ fields.2.length < text.length := by
  obtain ⟨⟨_, behind⟩, hcolon, hfields⟩ := Option.bind_eq_some_iff.mp hfields
  obtain ⟨⟨command, rest⟩, hcomma, hfields⟩ := Option.bind_eq_some_iff.mp hfields
  obtain ⟨⟨offset, _⟩, hend, heq⟩ := Option.bind_eq_some_iff.mp hfields
  cases heq
  have hbehind := (length_of_cut hcolon).2
  have hparts := length_of_cut hcomma
  exact ⟨Nat.lt_trans hparts.1 hbehind,
    Nat.lt_trans (length_of_cut hend).1 (Nat.lt_trans hparts.2 hbehind)⟩

/-- A command goes to the driver if it has both fields, and is dropped otherwise. -/
theorem takes_command {file file' : φ} {text : List UInt8} (hstarts : seektoCommand <+: text)
    (hfit : text.length < buffsize) {result : CallResult Unit}
    (hioctl : (seektoFields text).elim (.ok (file, .done ()))
      (fun fields => ops.ioctl file (toSeekto fields)) = .ok (file', result)) :
    Takes ops choices file text file' (decide (result = .done ())) := by
  intro received p htext hfile
  subst hfile
  obtain ⟨cells, hcells, hcompare⟩ := strncmpEq_command htext notMem_seektoCommand
  rw [decide_eq_true hstarts] at hcompare
  have hparse := parseSeekto_eq htext fun fields hfields => by
    have hlengths := length_seektoFields_lt hfields
    exact ⟨Nat.lt_trans hlengths.1 hfit, Nat.lt_trans hlengths.2 hfit⟩
  refine ⟨0, ?_⟩
  unfold serveRequest
  simp only [hcells, Exec.ok_bind, hcompare, if_true, hparse]
  cases hfields : seektoFields text with
  | none =>
      rw [hfields] at hioctl
      cases hioctl
      exact Settles.const _
  | some fields =>
      rw [hfields] at hioctl
      dsimp only [Option.elim_some] at hioctl
      simp only [Option.map_some, Machine.os, hioctl, Exec.ok_bind]
      exact Settles.const _

section

variable {proc : Process (Machine φ)} {query : Query} {file : φ}

theorem answers_of_takes (socketFd : Nat)
    (htakes : Takes ops choices (ops.openFile proc.state.file) query.text file true)
    {reply : List UInt8} {file' : φ} (hrelay : Relays ops file reply file') :
    ∃ proc', Answers ops choices socketFd proc query ⟨true, reply⟩ proc' ∧
      proc'.state.file = file' := by
  obtain ⟨fuel, received, p, hrecv, htext, hfile, hsent⟩ := Machine.recvLine_query ops choices
    socketFd ((proc.connect query).openFile ops) query rfl
  obtain ⟨fd, hrequest⟩ := htakes received p htext hfile
  obtain ⟨proc', hserve, hfile', hsent'⟩ := serve_of_request hrecv htext hrequest hrelay
  exact ⟨proc', ⟨hserve, by rw [hsent']; simp only [hsent]; rfl⟩, hfile'⟩

variable (proc) in
/-- When the request fails nothing is sent. -/
theorem answers_of_refused (socketFd : Nat)
    (htakes : Takes ops choices (ops.openFile proc.state.file) query.text file false) :
    ∃ proc', Answers ops choices socketFd proc query ⟨false, []⟩ proc' ∧
      proc'.state.file = file := by
  obtain ⟨fuel, received, p, hrecv, htext, hfile, hsent⟩ := Machine.recvLine_query ops choices
    socketFd ((proc.connect query).openFile ops) query rfl
  obtain ⟨fd, hrequest⟩ := htakes received p htext hfile
  obtain ⟨heap, hfree, _⟩ := Heap.free_spec htext.isSome
  have hreception : Settles (fun fuel => aesdsocketRecvLine (Machine.os ops choices) fuel socketFd
      ((proc.connect query).openFile ops) none) (.ok (received, true, some p)) := by
    obtain ⟨⟨s, lineEnd⟩, hloop, hreturns⟩ := Exec.bind_eq_ok.mp hrecv
    exact (Settles.of_loop hloop).bind ((Settles.const _).of_eq hreturns)
  refine ⟨⟨{ received.state with file := file }, heap⟩, ⟨?_, hsent⟩, rfl⟩
  unfold aesdsocketServe
  refine Settles.bind (Settles.const _) (hreception.bind (hrequest.bind ?_))
  simp only [serveDone, Heap.freeNonNull, hfree, Exec.ok_bind, Machine.os, Bool.false_eq_true,
    if_false]
  exact Settles.const _

end

end Aesd

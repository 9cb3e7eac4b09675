import Aesd.Driver.StreamLaw
import Aesd.Foundation.Following
import Aesd.Server.CharFile

/-!
# Replies while others write

One client reads its reply line by line while other clients commit lines. Its
position counts from the oldest entry, so a write that evicts an entry between
two of its reads can make the next read start inside a line.
-/

namespace Aesd

open CSem LineStream Transition Following

/-- Where the client is in the loop of `aesdsocket_read_and_send_file`. -/
inductive Phase
  | reading
  | sending (eof : Bool)
  | finished
  deriving DecidableEq

/-- The client with the file it shares, its line variable and its place in the
loop. -/
structure Session where
  proc : Process (Machine CharFile)
  line : Option Ptr
  phase : Phase

/-- A call of `aesdsocket_read_line`, sending what it handed over, or a write of
another client. -/
inductive Act
  | read
  | send
  | write (text : List UInt8)
  deriving DecidableEq

/-- A complete line without NULs that fits in the server's buffer. -/
def ShortLine (line : List UInt8) : Prop :=
  IsLine newline line ∧ 0 ∉ line ∧ line.length < buffsize

/-- A session starts before the first read, with the descriptor at the start. -/
def Session.open (k : Kernel) : Session :=
  ⟨⟨⟨⟨k, 0⟩, [], [], 0⟩, Heap.empty⟩, none, .reading⟩

namespace Session

variable (seek : FixedSizeLlseek) (moves : Kernel → Bool) (choices : Choices)
  (socketFd fileFd : Nat)

/-- One step of the client or of another one. A write is that of a complete line
and succeeds, whatever the outcomes of its kernel services were. -/
inductive Step : Session → Act → Session → Prop
  | read {proc proc' : Process (Machine CharFile)} {line line' : Option Ptr} {eof : Bool}
      (hreturns : Settles (fun fuel => aesdsocketReadLine
        (Machine.os (CharFile.ops seek moves) choices) fuel fileFd proc line false)
        (.ok (proc', true, line', eof))) :
      Step ⟨proc, line, .reading⟩ .read ⟨proc', line', .sending eof⟩
  | send {proc proc' : Process (Machine CharFile)} {line : Option Ptr} {eof : Bool}
      (hreturns : Settles (fun fuel => sendNonEmpty
        (Machine.os (CharFile.ops seek moves) choices) fuel socketFd proc line)
        (.ok (proc', true))) :
      Step ⟨proc, line, .sending eof⟩ .send ⟨proc', line, if eof then .finished else .reading⟩
  | write {m : Machine CharFile} {heap : Heap} {line : Option Ptr} {phase : Phase}
      {text : List UInt8} {outcome : WriteOutcome} {fPos : Int} {kernel : Kernel} {reply : Reply}
      (htext : ShortLine text)
      (hreturns : aesdWrite m.file.kernel outcome text fPos = .ok (kernel, reply))
      (hretval : reply.retval = text.length) :
      Step ⟨⟨m, heap⟩, line, phase⟩ (.write text)
        ⟨⟨{ m with file := { m.file with kernel := kernel } }, heap⟩, line, phase⟩

end Session

/-- What a step is for a reader of the committed lines. -/
def follow (r : Reader UInt8) : Act → Reader UInt8
  | .read => r.take 10
  | .send => r.pass
  | .write text => r.push 10 text

/-- The string that the client has to send in this phase. -/
def Session.HoldsPiece (s : Session) (piece : Option (Piece UInt8)) : Prop :=
  match s.phase with
  | .sending _ => HoldsLine s.proc.heap s.line ((piece.map Piece.text).getD [])
  | _ => piece = none ∧ ∃ old, HoldsLine s.proc.heap s.line old

/-- The session is that of a reader of the committed lines. -/
structure Session.Follows (s : Session) (r : Reader UInt8) : Prop where
  device : ∃ es log, s.proc.state.file.kernel.Holds es log ∧
    log.committed = r.retained 10 ∧ log.pending = []
  short : ∀ line ∈ r.history, ShortLine line
  position : s.proc.state.file.fPos = (r.position : Nat)
  bound : r.position < 2 ^ 63
  sent : s.proc.state.sent = (r.pieces.map Piece.text).flatten
  piece : s.HoldsPiece r.held

namespace Session

variable {seek : FixedSizeLlseek} {moves : Kernel → Bool} {choices : Choices}
  {socketFd fileFd : Nat} {s s' : Session} {r : Reader UInt8}

theorem Follows.log_short (h : s.Follows r) {log : Log} (hcommitted : log.committed = r.retained 10)
    (hpending : log.pending = []) : log.Short := by
  intro segment hsegment
  rcases List.mem_append.mp hsegment with hmem | hmem
  · rw [hcommitted] at hmem
    exact (h.short segment (List.mem_of_mem_drop hmem)).2
  · rw [List.mem_singleton.mp hmem, hpending]
    exact ⟨List.not_mem_nil, Nat.zero_lt_succ _⟩

/-- The line at the position of a reader. -/
theorem Follows.lineOf (h : s.Follows r) (seek : FixedSizeLlseek) (moves : Kernel → Bool) :
    LineOf (CharFile.ops seek moves) s.proc.state.file
      { s.proc.state.file with fPos := ((r.take 10).position : Nat) } (r.next 10)
      (decide (r.next 10 = [])) ∧
      (r.take 10).position < 2 ^ 63 := by
  obtain ⟨es, log, hholds, hcommitted, hpending⟩ := h.device
  have hshort := h.log_short hcommitted hpending
  have hsegments : log.segments.map List.length = (r.retained 10).map List.length ++ [0] := by
    rw [Log.segments, hcommitted, hpending, List.map_append]
    rfl
  have hfile : s.proc.state.file = ⟨s.proc.state.file.kernel, (r.position : Nat)⟩ := by
    rw [← h.position]
  have hlocate : log.locate r.position =
      Segments.locate ((r.retained 10).map List.length) r.position := by
    rw [Log.locate, hsegments, Segments.locate_append]
    cases Segments.locate ((r.retained 10).map List.length) r.position with
    | some found => rfl
    | none => rw [Segments.locate_cons_of_ge _ (Nat.not_lt_zero _)]; rfl
  unfold Reader.take Reader.next
  rw [hfile]
  cases hfound : Segments.locate ((r.retained 10).map List.length) r.position with
  | none =>
      rw [hfound] at hlocate
      exact ⟨hholds.lineOf_atEnd seek moves hshort h.bound hlocate, h.bound⟩
  | some found =>
      obtain ⟨index, offset⟩ := found
      rw [hfound] at hlocate
      obtain ⟨hindex, hinside, hposition⟩ := Segments.locate_eq_some_iff.mp hfound
      have hlt : index < log.committed.length := by
        rw [hcommitted]
        simpa using hindex
      have hsegment : (r.retained 10).getD index [] = log.committed[index] := by
        simp only [← hcommitted]
        rw [List.getD_eq_getElem?_getD, List.getElem?_eq_getElem hlt, Option.getD_some]
      have hline := hholds.lineOf_committed seek moves hshort h.bound hlocate hlt
      have hne : log.committed[index].drop offset ≠ [] := by
        rw [List.getElem_map] at hinside
        apply List.ne_nil_of_length_pos
        rw [List.length_drop]
        simp only [hcommitted]
        omega
      simp only [hsegment, if_neg hne, decide_eq_false hne]
      refine ⟨hline, ?_⟩
      have hle := hshort _ (List.mem_append_left _ (List.getElem_mem hlt))
      have hdrop : log.segments.flatten.drop r.position = _ :=
        Segments.drop_flatten_of_locate hlocate
      have hsum := congrArg List.length hdrop
      rw [log.getD_segments_of_lt hlt, Log.flatten_segments, List.length_drop,
        List.length_append] at hsum
      have hcontents := Nat.lt_trans hshort.length_contents_lt (by decide : 11 * buffsize < 2 ^ 63)
      have hpos := List.length_pos_of_ne_nil hne
      omega

/-- The client reads the rest of the line at its position. -/
theorem Follows.read {proc : Process (Machine CharFile)} {line : Option Ptr}
    (h : Follows ⟨proc, line, .reading⟩ r) (seek : FixedSizeLlseek) (moves : Kernel → Bool)
    (choices : Choices) (fileFd : Nat) :
    ∃ proc' line', Settles (fun fuel => aesdsocketReadLine
        (Machine.os (CharFile.ops seek moves) choices) fuel fileFd proc line false)
        (.ok (proc', true, line', decide (r.next 10 = []))) ∧
      Follows ⟨proc', line', .sending (decide (r.next 10 = []))⟩ (r.take 10) := by
  obtain ⟨hnone, old, hline⟩ := h.piece
  obtain ⟨hlineOf, hbound⟩ := h.lineOf seek moves
  obtain ⟨proc', line', hreturns, hread⟩ :=
    hlineOf.readLine choices rfl hline fileFd false
  refine ⟨proc', line', hreturns, ?_⟩
  have hhistory : (r.take 10).history = r.history := by
    unfold Reader.take
    split <;> rfl
  have hpieces : (r.take 10).pieces = r.pieces := by
    unfold Reader.take
    split <;> rfl
  have htext : (((r.take 10).held).map Piece.text).getD [] = r.next 10 := by
    unfold Reader.take
    split
    next hend => rw [hnone, hend]; rfl
    next => rfl
  obtain ⟨es, log, hholds, hcommitted, hpending⟩ := h.device
  refine ⟨⟨es, log, ?_, ?_, hpending⟩, ?_, ?_, hbound, ?_, ?_⟩
  · simp only [hread.file]
    exact hholds
  · rw [hcommitted, Reader.retained, Reader.retained, hhistory]
  · rw [hhistory]
    exact h.short
  · rw [hread.file]
  · rw [hpieces, hread.sent]
    exact h.sent
  · simp only [HoldsPiece, htext]
    exact hread.holds

/-- What was read is sent. -/
theorem Follows.send {proc : Process (Machine CharFile)} {line : Option Ptr} {eof : Bool}
    (h : Follows ⟨proc, line, .sending eof⟩ r) (hsound : Sound 10 r) (seek : FixedSizeLlseek)
    (moves : Kernel → Bool) (choices : Choices) (socketFd : Nat) :
    ∃ proc', Settles (fun fuel => sendNonEmpty
        (Machine.os (CharFile.ops seek moves) choices) fuel socketFd proc line)
        (.ok (proc', true)) ∧
      Follows ⟨proc', line, if eof then .finished else .reading⟩ r.pass := by
  have hpiece : HoldsLine proc.heap line ((r.held.map Piece.text).getD []) := h.piece
  have hlt : ((r.held.map Piece.text).getD []).length < 2 ^ 64 := by
    cases hheld : r.held with
    | none => exact Nat.two_pow_pos 64
    | some piece =>
        -- the piece is part of a line of the history, which is short
        obtain ⟨segment, hsegment, hfrom⟩ := hsound.held hheld
        have hshort := (h.short segment hsegment).2.2
        have hle := hfrom.2.1.length_le
        have hwidth : buffsize < 2 ^ 64 := by decide
        simp only [Option.map_some, Option.getD_some]
        omega
  refine ⟨_, sendNonEmpty_settles (CharFile.ops seek moves) choices hpiece hlt socketFd, ⟨h.device, h.short, h.position, h.bound, ?_, ?_⟩⟩
  · have hsent : proc.state.sent = (r.pieces.map Piece.text).flatten := h.sent
    simp only [Process.send, hsent, Reader.pass, List.map_append, List.flatten_append]
    cases r.held with
    | none => rfl
    | some piece => simp
  · cases eof with
    | true => exact ⟨rfl, _, hpiece⟩
    | false => exact ⟨rfl, _, hpiece⟩

/-- A line of another client is committed. -/
theorem Follows.write {m : Machine CharFile} {heap : Heap} {line : Option Ptr} {phase : Phase}
    (h : Follows ⟨⟨m, heap⟩, line, phase⟩ r) {text : List UInt8} (htext : ShortLine text)
    {outcome : WriteOutcome} {fPos : Int} {kernel : Kernel} {reply : Reply}
    (hreturns : aesdWrite m.file.kernel outcome text fPos = .ok (kernel, reply))
    (hretval : reply.retval = text.length) :
    Follows ⟨⟨{ m with file := { m.file with kernel := kernel } }, heap⟩, line, phase⟩
      (r.push 10 text) := by
  obtain ⟨hline, hnul, hlength⟩ := htext
  have hmem : newline ∈ text := by
    obtain ⟨body, rfl, _⟩ := hline
    exact List.mem_append_right _ (List.mem_singleton_self _)
  have hwidth : buffsize < 2 ^ 63 := by decide
  obtain ⟨es, log, hholds, hcommitted, hpending⟩ := h.device
  obtain ⟨kernel', reply', hwrite, heffect⟩ :=
    hholds.toStores.aesdWrite_effect outcome (Nat.lt_trans hlength hwidth) fPos
  obtain ⟨rfl, rfl⟩ := Prod.mk.inj (Except.ok.inj (hwrite.symm.trans hreturns))
  have hnonneg : 0 ≤ reply'.retval := by omega
  have hzero := heffect.unterminatedSize_eq_zero hmem hnonneg
  have hsafe : KreallocSafe m.file.kernel outcome text := by
    intro _ _ _
    rw [hholds.pending_size, hpending]
    rfl
  obtain ⟨es', h'⟩ := heffect.holds hholds hsafe (by rw [hzero]; exact Nat.two_pow_pos 63)
  rw [if_pos hnonneg, Log.accept_of_mem _ hmem] at h'
  refine ⟨⟨es', _, h', ?_, rfl⟩, ?_, h.position, h.bound, h.sent, h.piece⟩
  · simp only [Log.commit, hpending, List.nil_append, Log.consumed_of_isLine hline, hcommitted,
      Reader.retained, Reader.push, BoundedQueue.push_rtake]
  · intro line' hline'
    rcases List.mem_append.mp hline' with hold | hnew
    · exact h.short line' hold
    · rw [List.mem_singleton.mp hnew]
      exact ⟨hline, hnul, hlength⟩

/-- Every step is one of the reader. -/
theorem Follows.step (h : s.Follows r) (hsound : Sound 10 r) {act : Act}
    (hstep : Step seek moves choices socketFd fileFd s act s') :
    s'.Follows (follow r act) ∧ Sound 10 (follow r act) := by
  cases hstep with
  | read hreturns =>
      obtain ⟨proc, line, hreturns', hfollows⟩ := h.read seek moves choices fileFd
      cases hreturns.unique hreturns'
      exact ⟨hfollows, hsound.take h.piece.1⟩
  | send hreturns =>
      obtain ⟨proc, hreturns', hfollows⟩ := h.send hsound seek moves choices socketFd
      cases hreturns.unique hreturns'
      exact ⟨hfollows, hsound.pass⟩
  | write htext hreturns hretval => exact ⟨h.write htext hreturns hretval, hsound.push _⟩

theorem Follows.run {acts : List Act} (h : s.Follows r) (hsound : Sound 10 r)
    (hrun : Run (Step seek moves choices socketFd fileFd) s acts s') :
    s'.Follows (acts.foldl follow r) ∧ Sound 10 (acts.foldl follow r) := by
  induction hrun with
  | nil => exact ⟨h, hsound⟩
  | snoc _ last ih =>
      rw [List.foldl_append]
      obtain ⟨hfollows, hsound'⟩ := ih
      exact hfollows.step hsound' last

/-- A session with a device that stores short lines and has nothing pending. -/
theorem follows_open (seek : FixedSizeLlseek) {d : Driver} (hreach : Driver.Reachable seek d)
    {lines : List (List UInt8)} (hlines : d.kernel.committedBytes = .ok lines)
    (hshort : ∀ line ∈ lines, ShortLine line) (hsize : d.kernel.dev.unterminatedSize = 0) :
    (Session.open d.kernel).Follows (Reader.start lines) := by
  obtain ⟨events, hrun⟩ := hreach
  obtain ⟨es, hstores⟩ := Driver.stores_of_run hrun
  have hlength : lines.length ≤ 10 := by
    have hten := hstores.ring.length_le
    have hsame := (hstores.entryHolds_of_committedBytes hlines).length_eq
    omega
  let log : Log :=
    { committed := lines, pending := [], isLine := fun line hmem => (hshort line hmem).1,
      length_le := hlength, notMem := List.not_mem_nil }
  refine ⟨⟨es, log, hstores.holds_of_committedBytes hlines hsize rfl, ?_, rfl⟩, hshort, rfl,
    Nat.two_pow_pos 63, rfl, rfl, [], rfl⟩
  have hnone : lines.length - 10 = 0 := by omega
  simp [log, Reader.retained, Reader.start, List.rtake, hnone]

section

variable (seek : FixedSizeLlseek) (moves : Kernel → Bool) (choices : Choices)
  (socketFd fileFd : Nat)

/-- Another client can always commit a line. -/
theorem Follows.exists_write (h : s.Follows r) {text : List UInt8} (htext : ShortLine text) :
    ∃ s', Step seek moves choices socketFd fileFd s (.write text) s' ∧ s'.phase = s.phase := by
  obtain ⟨⟨m, heap⟩, line, phase⟩ := s
  obtain ⟨es, log, hholds, _⟩ := h.device
  have hwidth : buffsize < 2 ^ 63 := by decide
  obtain ⟨kernel, reply, hwrite, heffect⟩ :=
    hholds.toStores.aesdWrite_effect ⟨true, .moved, text.length⟩ (Nat.lt_trans htext.2.2 hwidth) 0
  have hnonneg := heffect.nonneg_of_succeeds
    ⟨htext.1.ne_nil, rfl, Resize.noConfusion, Nat.le_refl _⟩
  have hretval : reply.retval = text.length := by
    rcases heffect.reply_cases with ⟨hneg, _⟩ | ⟨_, hretval, _⟩
    · omega
    · rw [hretval, Log.consumed_of_isLine htext.1]
  exact ⟨_, .write htext hwrite hretval, rfl⟩

/-- The client reads and sends one more line. -/
theorem Follows.exists_round (h : s.Follows r) (hsound : Sound 10 r) (hphase : s.phase = .reading)
    (hne : r.next 10 ≠ []) :
    ∃ middle s', Step seek moves choices socketFd fileFd s .read middle ∧
      Step seek moves choices socketFd fileFd middle .send s' ∧ s'.phase = .reading := by
  obtain ⟨proc, line, phase⟩ := s
  subst hphase
  obtain ⟨proc', line', hread, hfollows⟩ := h.read seek moves choices fileFd
  obtain ⟨proc'', hsend, _⟩ := hfollows.send (hsound.take h.piece.1) seek moves
    choices socketFd
  exact ⟨_, _, .read hread, .send hsend, by rw [decide_eq_false hne]; rfl⟩

theorem exists_writes {start : Session} (h : start.Follows r) (hsound : Sound 10 r)
    {texts : List (List UInt8)} (htexts : ∀ text ∈ texts, ShortLine text) :
    ∃ s, Run (Step seek moves choices socketFd fileFd) start (texts.map .write) s ∧
      s.phase = start.phase := by
  induction texts using List.reverseRecOn with
  | nil => exact ⟨start, .nil _, rfl⟩
  | append_singleton texts text ih =>
      obtain ⟨s, hrun, hphase⟩ := ih fun text hmem => htexts text (List.mem_append_left _ hmem)
      obtain ⟨s', hstep, hphase'⟩ := (h.run hsound hrun).1.exists_write seek moves choices socketFd fileFd
        (htexts text (List.mem_append_right _ List.mem_cons_self))
      rw [List.map_append]
      exact ⟨s', .snoc hrun hstep, hphase'.trans hphase⟩

end

/-- Under concurrent writers the reply consists of pieces of different committed
lines, in the order in which these were committed. A piece is the end of its
line, and the whole of it unless a write evicted an entry between the read
before and the read of the piece. -/
theorem reply_of_pieces (seek : FixedSizeLlseek) (moves : Kernel → Bool) (choices : Choices)
    (socketFd fileFd : Nat) {d : Driver} (hreach : Driver.Reachable seek d)
    {lines : List (List UInt8)} (hlines : d.kernel.committedBytes = .ok lines)
    (hshort : ∀ line ∈ lines, ShortLine line) (hsize : d.kernel.dev.unterminatedSize = 0)
    {acts : List Act} {s : Session}
    (hrun : Run (Step seek moves choices socketFd fileFd) (Session.open d.kernel) acts s) :
    let r := acts.foldl follow (Reader.start lines)
    s.proc.state.sent = (r.pieces.map Piece.text).flatten ∧
      ∃ segments, segments.Sublist r.history ∧
        List.Forall₂ Piece.ComesFrom r.pieces segments := by
  obtain ⟨hfollows, hsound⟩ :=
    (follows_open seek hreach hlines hshort hsize).run (sound_start lines) hrun
  exact ⟨hfollows.sent, hsound.pieces⟩

/-- A reply of one line, committed before the client reads. -/
theorem reply_of_pieces_oneLine : ∃ s, Run (Step .reference (fun _ => true)
      ⟨fun _ => 1, fun _ => true⟩ 4 3) (Session.open Driver.init.kernel)
      [.write [97, 10], .read, .send] s ∧
    s.proc.state.sent = [97, 10] := by
  have hstart : (Session.open Driver.init.kernel).Follows (Reader.start []) :=
    follows_open .reference ⟨[], .nil _⟩ (by decide +kernel) nofun rfl
  have htexts : ∀ text ∈ ([[97, 10]] : List (List UInt8)), ShortLine text := by
    intro text hmem
    rw [List.mem_singleton.mp hmem]
    exact ⟨⟨[97], rfl, by decide⟩, by decide, by decide⟩
  obtain ⟨filled, hfilled, hphase⟩ := exists_writes .reference (fun _ => true)
    ⟨fun _ => 1, fun _ => true⟩ 4 3 hstart (sound_start []) htexts
  obtain ⟨h, hsound⟩ := hstart.run (sound_start []) hfilled
  obtain ⟨_, s, hread, hsend, _⟩ := h.exists_round .reference (fun _ => true)
    ⟨fun _ => 1, fun _ => true⟩ 4 3 hsound hphase (by decide +kernel)
  have hrun := (hfilled.snoc hread).snoc hsend
  refine ⟨s, hrun, ?_⟩
  have hempty : Driver.init.kernel.committedBytes = .ok [] := by decide +kernel
  have hreply := reply_of_pieces .reference (fun _ => true) ⟨fun _ => 1, fun _ => true⟩ 4 3
    ⟨[], .nil Driver.init⟩ hempty nofun rfl hrun
  rw [hreply.1]
  decide +kernel

/-! ## A fragment -/

/-- Ten lines: "a\n", "bcd\n" and eight times "x\n". -/
def tenLines : List (List UInt8) :=
  [97, 10] :: [98, 99, 100, 10] :: List.replicate 8 [120, 10]

theorem shortLine_tenLines : ∀ line ∈ tenLines, ShortLine line := by
  intro line hmem
  simp only [tenLines, List.mem_cons, List.mem_replicate] at hmem
  rcases hmem with rfl | rfl | ⟨_, rfl⟩
  · exact ⟨⟨[97], rfl, by decide⟩, by decide, by decide⟩
  · exact ⟨⟨[98, 99, 100], rfl, by decide⟩, by decide, by decide⟩
  · exact ⟨⟨[120], rfl, by decide⟩, by decide, by decide⟩

/-- When "a\n" is evicted after the client has read it, the next read starts two
bytes into "bcd\n" and the client gets "d\n". -/
theorem fragment_sent : ¬ ∀ (seek : FixedSizeLlseek) (moves : Kernel → Bool) (choices : Choices)
    (socketFd fileFd : Nat) (d : Driver), Driver.Reachable seek d →
    ∀ lines, d.kernel.committedBytes = .ok lines → (∀ line ∈ lines, ShortLine line) →
    d.kernel.dev.unterminatedSize = 0 → ∀ acts s,
    Run (Step seek moves choices socketFd fileFd) (Session.open d.kernel) acts s →
    ∃ segments : List (List UInt8), segments.Sublist (acts.foldl follow (Reader.start lines)).history ∧
      s.proc.state.sent = segments.flatten := by
  intro hall
  have hstart : (Session.open Driver.init.kernel).Follows (Reader.start []) :=
    follows_open .reference ⟨[], .nil _⟩ (by decide +kernel) nofun rfl
  have hsound : Sound 10 (Reader.start ([] : List (List UInt8))) := sound_start []
  obtain ⟨filled, hfilled, hphase⟩ := exists_writes .reference (fun _ => true)
    ⟨fun _ => 1, fun _ => true⟩ 4 3 hstart hsound shortLine_tenLines
  obtain ⟨h₁, hsound₁⟩ := hstart.run hsound hfilled
  obtain ⟨_, once, hread, hsend, hphase₁⟩ :=
    h₁.exists_round .reference (fun _ => true) ⟨fun _ => 1, fun _ => true⟩ 4 3 hsound₁ hphase
      (by decide +kernel)
  have hrun₂ := (hfilled.snoc hread).snoc hsend
  obtain ⟨h₂, hsound₂⟩ := hstart.run hsound hrun₂
  have hnew : ShortLine [121, 10] := ⟨⟨[121], rfl, by decide⟩, by decide, by decide⟩
  obtain ⟨evicted, hwrite, hphase₂⟩ := h₂.exists_write .reference (fun _ => true)
    ⟨fun _ => 1, fun _ => true⟩ 4 3 hnew
  have hrun₃ := hrun₂.snoc hwrite
  obtain ⟨h₃, hsound₃⟩ := hstart.run hsound hrun₃
  obtain ⟨_, twice, hread', hsend', _⟩ :=
    h₃.exists_round .reference (fun _ => true) ⟨fun _ => 1, fun _ => true⟩ 4 3 hsound₃
      (hphase₂.trans hphase₁) (by decide +kernel)
  have hrun₄ := (hrun₃.snoc hread').snoc hsend'
  obtain ⟨h₄, _⟩ := hstart.run hsound hrun₄
  obtain ⟨segments, hsub, hsent⟩ := hall _ _ _ _ _ Driver.init ⟨[], .nil _⟩ [] (by decide +kernel)
    nofun rfl _ twice hrun₄
  have hbytes : segments.flatten = [97, 10, 100, 10] := by
    rw [← hsent, h₄.sent]
    decide +kernel
  have hlines : ∀ line ∈ segments, IsLine newline line :=
    fun line hmem => (h₄.short line (hsub.subset hmem)).1
  have hsplit := split_flatten_append hlines (List.not_mem_nil (a := newline))
  rw [List.append_nil, hbytes] at hsplit
  have hfragment : [100, 10] ∈ segments := by
    rw [← (Prod.mk.inj hsplit).1]
    decide +kernel
  exact absurd (hsub.subset hfragment) (by decide +kernel)

end Session

end Aesd

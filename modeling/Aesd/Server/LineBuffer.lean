import Aesd.Server.Aesdsocket

/-!
# The line buffer

A line is gathered in a block that is resized for every piece of it, and closed
with a NUL at the end. Everything here holds for any implementation of the calls
as long as the resizes are met.
-/

namespace Aesd

open CSem

/-- The line variable holds a string; while it is null it counts as empty. -/
def HoldsLine (heap : Heap) (line : Option Ptr) (text : List UInt8) : Prop :=
  match line with
  | none => text = []
  | some p => heap.HoldsString p text

theorem HoldsLine.live {heap : Heap} {line : Option Ptr} {text : List UInt8}
    (h : HoldsLine heap line text) : ∀ q, line = some q → (heap.block? q).isSome := by
  intro q heq
  subst heq
  exact h.isSome

/-- What happens to the line variable leaves all other blocks alone. -/
def KeepsOthers (heap : Heap) (line : Option Ptr) (heap' : Heap) (line' : Option Ptr) : Prop :=
  ∀ q, (heap.block? q).isSome → line ≠ some q → heap'.block? q = heap.block? q ∧ line' ≠ some q

theorem KeepsOthers.refl (heap : Heap) (line : Option Ptr) : KeepsOthers heap line heap line :=
  fun _ _ hne => ⟨rfl, hne⟩

theorem KeepsOthers.trans {heap middle heap' : Heap} {line between line' : Option Ptr}
    (hfront : KeepsOthers heap line middle between)
    (hlast : KeepsOthers middle between heap' line') : KeepsOthers heap line heap' line' := by
  intro q hlive hne
  obtain ⟨hblock, hbetween⟩ := hfront q hlive hne
  obtain ⟨hblock', hline'⟩ := hlast q (by rwa [hblock]) hbetween
  exact ⟨hblock'.trans hblock, hline'⟩

namespace LineBuffer

variable {σ : Type} {s : LineBuffer σ} {text : List UInt8}

/-- The bytes gathered so far, with room for a NUL behind them. -/
structure Gathered (s : LineBuffer σ) (text : List UInt8) : Prop where
  size : s.lineBufferSize = text.length
  live : ∀ q, s.lineBuffer = some q → (s.proc.heap.block? q).isSome
  holds : text ≠ [] → ∃ p, s.lineBuffer = some p ∧ s.proc.heap.Holds p 0 text ∧
    s.proc.heap.blockSize p = text.length + 1

theorem gathered_start (proc : Process σ) {line : Option Ptr}
    (hlive : ∀ q, line = some q → (proc.heap.block? q).isSome) :
    (start proc line).Gathered [] :=
  ⟨rfl, hlive, fun hne => absurd rfl hne⟩

/-- The line buffer depends on the heap of the process only. -/
theorem Gathered.of_heap (h : s.Gathered text) {state : σ} {buffer : List UInt8} :
    Gathered ⟨⟨state, s.proc.heap⟩, buffer, s.lineBuffer, s.lineBufferSize⟩ text :=
  ⟨h.size, h.live, h.holds⟩

/-- What the scan finds is what the search for a newline in the local buffer finds. -/
theorem scan_eq_ok_iff {bytes : List UInt8} {scan : Scan} :
    s.scan bytes = .ok scan ↔
      strchr terminatorCharacter ((bytes ++ s.buffer.drop bytes.length).map some) =
        .ok scan.newlinePointer ∧
      scan.buffer = bytes ++ s.buffer.drop bytes.length ∧
      scan.usefulBytes = scan.newlinePointer.elim bytes.length (· + 1) := by
  unfold LineBuffer.scan
  constructor
  · intro hscan
    obtain ⟨found, hfound, hscan⟩ := Exec.bind_eq_ok.mp hscan
    cases hscan
    cases found with
    | none => exact ⟨hfound, rfl, rfl⟩
    | some position => exact ⟨hfound, rfl, rfl⟩
  · rintro ⟨hfound, hbuffer, huseful⟩
    obtain ⟨buffer, found, usefulBytes⟩ := scan
    dsimp only at hfound hbuffer huseful
    subst hbuffer huseful
    simp only [hfound, Exec.ok_bind]
    cases found with
    | none => rfl
    | some position => rfl

/-- Bytes are appended to the line, given what the scan for a newline finds and
what it takes from the local buffer. -/
theorem Gathered.collect (h : s.Gathered text) (os : Os σ) {bytes useful : List UInt8}
    {found : Option Nat} {state : σ} {answer : Resize} (hrealloc : os.realloc s.proc.state = (state, answer))
    (hanswer : answer ≠ .null)
    (hscan : strchr terminatorCharacter ((bytes ++ s.buffer.drop bytes.length).map some) =
      .ok found)
    (hlength : useful.length = found.elim bytes.length (· + 1))
    (hcopy : strncpy ((bytes ++ s.buffer.drop bytes.length).map some) useful.length =
      .ok useful) :
    ∃ s' : LineBuffer σ, s.collect os bytes =
        .ok (if found.isSome then .leave (s', .eol) else .again s') ∧
      s'.Gathered (text ++ useful) ∧ s'.proc.state = state ∧
      s'.buffer = bytes ++ s.buffer.drop bytes.length ∧
      (∃ p, s'.lineBuffer = some p) ∧
      KeepsOthers s.proc.heap s.lineBuffer s'.proc.heap s'.lineBuffer := by
  have hroom : s.lineBufferSize + useful.length ≤ s.lineBufferSize + useful.length + 1 :=
    Nat.le_succ _
  obtain ⟨grown, heap, p, hgrown, hstore, hsize, hholds, hother, hname, hfront⟩ :=
    Heap.realloc_store h.live hroom hanswer
  have hwhole : heap.Holds p 0 (text ++ useful) := by
    rw [h.size] at hholds hfront
    by_cases hnil : text = []
    · subst hnil
      exact hholds
    · obtain ⟨q, hptr, hold, _⟩ := h.holds hnil
      exact (hfront q text hptr (Nat.le_refl _) hold).append (by rwa [Nat.zero_add])
  refine ⟨⟨⟨state, heap⟩, bytes ++ s.buffer.drop bytes.length, some p,
    s.lineBufferSize + useful.length⟩, ?_, ⟨?_, ?_, fun _ => ⟨p, rfl, hwhole, ?_⟩⟩, rfl, rfl,
    ⟨p, rfl⟩, ?_⟩
  · have hscanned : s.scan bytes =
        .ok ⟨bytes ++ s.buffer.drop bytes.length, found, useful.length⟩ :=
      scan_eq_ok_iff.mpr ⟨hscan, rfl, hlength⟩
    simp only [LineBuffer.collect, hscanned, hrealloc, hgrown, hcopy, hstore, Exec.ok_bind]
  · simp only [h.size, List.length_append]
  · intro q heq
    cases heq
    obtain ⟨cells, hblock, _⟩ := hwhole
    rw [hblock]
    rfl
  · rw [hsize, h.size, List.length_append]
  -- a block in use elsewhere is neither the old line nor one that was just allocated
  · intro q hlive hne
    have hqp : q ≠ p := by
      rintro rfl
      rcases hname with heq | hdead
      · exact hne heq.symm
      · rw [hdead] at hlive
        cases hlive
    refine ⟨?_, fun heq => hqp (Option.some.inj heq).symm⟩
    rw [hother q hqp, if_neg fun heq => hne heq.symm]

/-- What collecting bytes can do: it makes one resize, and ends the loop when that
fails or a newline was found. -/
theorem collect_eq_ok {os : Os σ} {bytes : List UInt8}
    {round : Round (LineBuffer σ) (LineBuffer σ × LineEnd)}
    (hcollect : s.collect os bytes = .ok round) :
    ∃ (found : Option Nat) (s' : LineBuffer σ),
      strchr terminatorCharacter ((bytes ++ s.buffer.drop bytes.length).map some) = .ok found ∧
      s'.proc.state = (os.realloc s.proc.state).1 ∧
      s'.buffer = bytes ++ s.buffer.drop bytes.length ∧
      (((os.realloc s.proc.state).2 = .null ∧ round = .leave (s', .failed)) ∨
        ((os.realloc s.proc.state).2 ≠ .null ∧
          round = if found.isSome then .leave (s', .eol) else .again s')) := by
  unfold LineBuffer.collect at hcollect
  obtain ⟨⟨_, found, usefulBytes⟩, hscan, hcollect⟩ := Exec.bind_eq_ok.mp hcollect
  obtain ⟨hscan, hbuffer, _⟩ := scan_eq_ok_iff.mp hscan
  obtain ⟨⟨heap, lineBuffer⟩, hrealloc, hcollect⟩ := Exec.bind_eq_ok.mp hcollect
  have hnull := Heap.realloc_isNone_iff hrealloc
  cases lineBuffer with
  | none =>
      cases hcollect
      exact ⟨found, _, hscan, rfl, hbuffer, Or.inl ⟨hnull.mp rfl, rfl⟩⟩
  | some p =>
      obtain ⟨useful, _, hcollect⟩ := Exec.bind_eq_ok.mp hcollect
      obtain ⟨heap', _, hcollect⟩ := Exec.bind_eq_ok.mp hcollect
      cases hcollect
      have hmet : (os.realloc s.proc.state).2 ≠ .null := by
        intro heq
        cases hnull.mpr heq
      exact ⟨found, _, hscan, rfl, hbuffer, Or.inr ⟨hmet, rfl⟩⟩

/-- The environment after a round. -/
def stateAfter : Round (LineBuffer σ) (LineBuffer σ × LineEnd) → σ
  | .again s => s.proc.state
  | .leave (s, _) => s.proc.state

/-- Whether a round ends the loop with an error. -/
def hasFailed : Round (LineBuffer σ) (LineBuffer σ × LineEnd) → Bool
  | .again _ => false
  | .leave (_, lineEnd) => decide (lineEnd = .failed)

/-- Collecting bytes changes the environment by one resize, and fails with it. -/
theorem collect_state {os : Os σ} {bytes : List UInt8}
    {round : Round (LineBuffer σ) (LineBuffer σ × LineEnd)}
    (hcollect : s.collect os bytes = .ok round) :
    stateAfter round = (os.realloc s.proc.state).1 ∧
      hasFailed round = decide ((os.realloc s.proc.state).2 = .null) := by
  obtain ⟨found, s', _, hstate, _, hround⟩ := collect_eq_ok hcollect
  rcases hround with ⟨hnull, rfl⟩ | ⟨hmet, rfl⟩
  · exact ⟨hstate, (decide_eq_true hnull).symm⟩
  · rw [decide_eq_false hmet]
    cases found with
    | none => exact ⟨hstate, rfl⟩
    | some position => exact ⟨hstate, rfl⟩

/-- The local variables after a round. -/
def roundBuffer : Round (LineBuffer σ) (LineBuffer σ × LineEnd) → LineBuffer σ
  | .again s => s
  | .leave (s, _) => s

/-- Unless memory runs out, what the scan takes is behind the line afterwards, as
`strncpy` copies it from the local buffer. -/
theorem collect_appends {os : Os σ} {bytes : List UInt8} {scan : Scan}
    {round : Round (LineBuffer σ) (LineBuffer σ × LineEnd)} (hscan : s.scan bytes = .ok scan)
    (hcollect : s.collect os bytes = .ok round) (hmet : hasFailed round = false) :
    ∃ useful p, strncpy (scan.buffer.map some) scan.usefulBytes = .ok useful ∧
      (roundBuffer round).lineBuffer = some p ∧
      (roundBuffer round).lineBufferSize = s.lineBufferSize + scan.usefulBytes ∧
      (roundBuffer round).proc.heap.Holds p s.lineBufferSize useful := by
  have hanswer : (os.realloc s.proc.state).2 ≠ .null := by
    rw [(collect_state hcollect).2] at hmet
    exact of_decide_eq_false hmet
  unfold LineBuffer.collect at hcollect
  simp only [hscan, Exec.ok_bind] at hcollect
  obtain ⟨⟨heap, lineBuffer⟩, hrealloc, hcollect⟩ := Exec.bind_eq_ok.mp hcollect
  cases lineBuffer with
  | none => exact absurd ((Heap.realloc_isNone_iff hrealloc).mp rfl) hanswer
  | some p =>
      obtain ⟨useful, hcopy, hcollect⟩ := Exec.bind_eq_ok.mp hcollect
      obtain ⟨stored, hstore, hcollect⟩ := Exec.bind_eq_ok.mp hcollect
      have hroom : s.lineBufferSize + useful.length ≤ s.lineBufferSize + scan.usefulBytes + 1 := by
        rw [strncpy_length hcopy]
        exact Nat.le_succ _
      obtain ⟨grown, heap', q, hgrown, hstored, _, hholds, _⟩ :=
        Heap.realloc_store (Heap.live_of_realloc hrealloc hanswer) hroom hanswer
      rw [hrealloc] at hgrown
      cases hgrown
      rw [hstore] at hstored
      cases hstored
      refine ⟨useful, p, hcopy, ?_⟩
      cases hfound : scan.newlinePointer with
      | none =>
          rw [hfound] at hcollect
          cases hcollect
          exact ⟨rfl, rfl, hholds⟩
      | some position =>
          rw [hfound] at hcollect
          cases hcollect
          exact ⟨rfl, rfl, hholds⟩

/-- Without memory the loop ends with an error. -/
theorem collect_of_null {os : Os σ} {bytes : List UInt8} {found : Option Nat} {state : σ}
    (hrealloc : os.realloc s.proc.state = (state, .null))
    (hscan : strchr terminatorCharacter ((bytes ++ s.buffer.drop bytes.length).map some) =
      .ok found) :
    s.collect os bytes = .ok (.leave (⟨⟨state, s.proc.heap⟩,
      bytes ++ s.buffer.drop bytes.length, none, s.lineBufferSize⟩, .failed)) := by
  have hscanned : s.scan bytes = .ok ⟨bytes ++ s.buffer.drop bytes.length, found,
      found.elim bytes.length (· + 1)⟩ := scan_eq_ok_iff.mpr ⟨hscan, rfl, rfl⟩
  simp only [LineBuffer.collect, hscanned, hrealloc, Heap.realloc, Exec.ok_bind]

/-- There is room to close a line that is not empty. -/
theorem Gathered.terminate_ok (h : s.Gathered text) (hne : text ≠ []) :
    ∃ heap, s.terminate = .ok heap := by
  obtain ⟨p, hptr, hholds, hsize⟩ := h.holds hne
  have hroom : text.length + [(0 : UInt8)].length ≤ s.proc.heap.blockSize p := by
    rw [hsize, List.length_singleton]
  obtain ⟨heap, hstore, _⟩ := Heap.store_append hholds hroom
  exact ⟨heap, by simp only [LineBuffer.terminate, hptr, h.size, hstore]⟩

/-- A live line buffer can be released. -/
theorem release_ok (hlive : ∀ q, s.lineBuffer = some q → (s.proc.heap.block? q).isSome)
    (line : Option Ptr) : ∃ heap, s.release line = .ok heap := by
  unfold LineBuffer.release
  split
  · cases hbuffer : s.lineBuffer with
    | none => exact ⟨s.proc.heap, rfl⟩
    | some q =>
        obtain ⟨heap, hfree, _⟩ := Heap.free_spec (hlive q hbuffer)
        exact ⟨heap, hfree⟩
  · exact ⟨s.proc.heap, rfl⟩

/-- Closing the line makes it a string. -/
theorem Gathered.terminate (h : s.Gathered text) (hne : text ≠ []) (hnul : 0 ∉ text) :
    ∃ heap, s.terminate = .ok heap ∧ HoldsLine heap s.lineBuffer text ∧
      KeepsOthers s.proc.heap s.lineBuffer heap s.lineBuffer := by
  obtain ⟨p, hptr, hholds, hsize⟩ := h.holds hne
  have hroom : text.length + [(0 : UInt8)].length ≤ s.proc.heap.blockSize p := by
    rw [hsize, List.length_singleton]
  obtain ⟨heap, hstore, hstring, hother⟩ := Heap.store_append hholds hroom
  refine ⟨heap, ?_, ?_, ?_⟩
  · simp only [LineBuffer.terminate, hptr, h.size, hstore]
  · rw [hptr]
    exact ⟨hstring, hnul⟩
  · intro q _ hother'
    exact ⟨hother q fun heq => hother' (heq ▸ hptr), hother'⟩

/-- With nothing gathered, closing the line empties it. -/
theorem terminate_empty {old : List UInt8} (hline : HoldsLine s.proc.heap s.lineBuffer old)
    (hsize : s.lineBufferSize = 0) :
    ∃ heap, s.terminate = .ok heap ∧ HoldsLine heap s.lineBuffer [] ∧
      KeepsOthers s.proc.heap s.lineBuffer heap s.lineBuffer := by
  unfold LineBuffer.terminate
  rw [hsize]
  cases hbuffer : s.lineBuffer with
  | none => exact ⟨s.proc.heap, rfl, rfl, .refl _ _⟩
  | some p =>
      rw [hbuffer] at hline
      obtain ⟨cells, hblock, hbound, _⟩ := hline.holds
      rw [List.length_append, List.length_singleton] at hbound
      have hfront : s.proc.heap.Holds p 0 [] := Heap.holds_nil hblock (Nat.zero_le _)
      have hroom : ([] : List UInt8).length + [(0 : UInt8)].length ≤ s.proc.heap.blockSize p := by
        rw [Heap.blockSize, hblock, Option.getD_some, List.length_nil, List.length_singleton]
        omega
      obtain ⟨heap, hstore, hstring, hother⟩ := Heap.store_append hfront hroom
      refine ⟨heap, hstore, ⟨hstring, List.not_mem_nil⟩, ?_⟩
      intro q _ hne
      exact ⟨hother q fun heq => hne (heq ▸ rfl), hne⟩

end LineBuffer

end Aesd

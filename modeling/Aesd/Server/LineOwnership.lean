import Aesd.Foundation.Owner
import Aesd.Server.Reception
import Aesd.Server.SystemCalls

/-!
# Who owns the line

`aesdsocket_read_and_send_file` passes the same line variable to every call of
`aesdsocket_read_line`, and each call may resize its block. The variable is
updated only when a call succeeds, so a call that fails after its block was moved
leaves a pointer to a released block behind, and the moved block to nobody.
-/

namespace Aesd

open CSem Relation

variable {σ : Type}

/-- The calls of one `aesdsocket_read_line` do not lose the line it was given: they
succeed; or there was a line and its block was not moved; or there was none and
no resize failed, or every one did. -/
def KeepsLine (line : Option Ptr) (calls : List SystemCall) : Prop :=
  (∀ call ∈ calls, call.isFailure = false) ∨
    (line ≠ none ∧ .realloc .moved ∉ calls) ∨
    (line = none ∧ (.realloc .null ∉ calls ∨ ∀ answer, .realloc answer ∈ calls → answer = .null))

section

variable {calls : List SystemCall}

theorem not_forall_of_failure {last : SystemCall} (hlast : last.isFailure = true) :
    ¬ ∀ call ∈ calls ++ [last], call.isFailure = false := by
  intro hnone
  have hfalse := hnone last (List.mem_append_right _ (List.mem_singleton_self _))
  rw [hlast] at hfalse
  cases hfalse

/-- A call that fails keeps the line it was given when it did not move its block. -/
theorem keepsLine_some_iff {last : SystemCall} (hlast : last.isFailure = true) (p : Ptr) :
    KeepsLine (some p) (calls ++ [last]) ↔ .realloc .moved ∉ calls := by
  have hother : .realloc .moved ≠ last := by
    rintro rfl
    cases hlast
  unfold KeepsLine
  rw [or_iff_right (not_forall_of_failure hlast), or_iff_left (by simp), List.mem_append,
    List.mem_singleton, or_iff_left hother]
  exact and_iff_right (by simp)

/-- Without a line, a read that fails loses nothing. -/
theorem keepsLine_none_of_read (hnone : ∀ call ∈ calls, call.isFailure = false) :
    KeepsLine none (calls ++ [.read .failed]) := by
  refine Or.inr (Or.inr ⟨rfl, Or.inl fun hmem => ?_⟩)
  rcases List.mem_append.mp hmem with hmem | hmem
  · cases hnone _ hmem
  · simp at hmem

/-- Without a line, a resize that fails loses nothing when it is the first. -/
theorem keepsLine_none_of_resize (hnone : ∀ call ∈ calls, call.isFailure = false) :
    KeepsLine none (calls ++ [.realloc .null]) ↔ ∀ answer, .realloc answer ∉ calls := by
  unfold KeepsLine
  rw [or_iff_right (not_forall_of_failure rfl), or_iff_right (by simp), and_iff_right rfl,
    or_iff_right (by simp)]
  constructor
  · intro hall answer hmem
    obtain rfl := hall answer (List.mem_append_left _ hmem)
    cases hnone _ hmem
  · intro hnot answer hmem
    rcases List.mem_append.mp hmem with hmem | hmem
    · exact absurd hmem (hnot answer)
    · exact SystemCall.realloc.inj (List.mem_singleton.mp hmem)

end

/-- In the middle of a call: the line buffer owns its block, and the calls so far
tell whether this is still the block that the caller knows. -/
structure LineBuffer.Owned (others : Ptr → Prop) (line : Option Ptr) (calls : List SystemCall)
    (s : LineBuffer (Logged σ)) : Prop where
  owns : s.proc.heap.Owns others s.lineBuffer
  older : ∀ p, line = some p → ¬ others p ∧ p < s.proc.heap.blocks.length
  same_iff : ∀ p, line = some p → (s.lineBuffer = some p ↔ .realloc .moved ∉ calls)
  null_iff : line = none → (s.lineBuffer = none ↔ ∀ answer, .realloc answer ∉ calls)
  noFailure : ∀ call ∈ calls, call.isFailure = false

namespace LineBuffer.Owned

variable {others : Ptr → Prop} {line : Option Ptr} {calls more : List SystemCall}
  {s : LineBuffer (Logged σ)}

theorem start {proc : Process (Logged σ)} (h : proc.heap.Owns others line) (state : Logged σ) :
    Owned others line [.startReading] (.start ⟨state, proc.heap⟩ line) where
  owns := h
  older p heq := by
    subst heq
    exact ⟨h.apart p rfl, h.lt_length⟩
  same_iff p heq := iff_of_true heq (by decide)
  null_iff heq := iff_of_true heq (by simp)
  noFailure call hmem := by
    rw [List.mem_singleton.mp hmem]
    rfl

/-- Calls that neither fail nor resize change nothing. -/
theorem append (h : Owned others line calls s)
    (hmore : ∀ call ∈ more, call.isFailure = false ∧ ∀ answer, call ≠ .realloc answer)
    (state : Logged σ) :
    Owned others line (calls ++ more) { s with proc := ⟨state, s.proc.heap⟩ } where
  owns := h.owns
  older := h.older
  same_iff p heq := by
    have hnot : .realloc .moved ∉ more := fun hmem => (hmore _ hmem).2 _ rfl
    rw [List.mem_append, or_iff_left hnot]
    exact h.same_iff p heq
  null_iff heq := by
    have hnot : ∀ answer, .realloc answer ∉ more := fun answer hmem => (hmore _ hmem).2 _ rfl
    simp only [List.mem_append, hnot, or_false]
    exact h.null_iff heq
  noFailure call hmem := by
    rcases List.mem_append.mp hmem with hmem | hmem
    · exact h.noFailure call hmem
    · exact (hmore call hmem).1

/-- A resize that is met changes the block or not, as its answer says. -/
theorem resize (h : Owned others line calls s) {size : Nat} {answer : Resize} {heap : Heap} {q : Ptr}
    (hrealloc : s.proc.heap.realloc s.lineBuffer size answer = .ok (heap, some q))
    {s' : LineBuffer (Logged σ)} (hbuffer : s'.lineBuffer = some q)
    (hlength : s'.proc.heap.blocks.length = heap.blocks.length)
    (hlive : ∀ r, (s'.proc.heap.block? r).isSome ↔ (heap.block? r).isSome) :
    Owned others line (calls ++ [.realloc answer]) s' where
  owns := by
    rw [hbuffer]
    exact (h.owns.realloc hrealloc).congr hlive
  older p heq := by
    have hlt := (h.older p heq).2
    refine ⟨(h.older p heq).1, ?_⟩
    rw [hlength]
    rcases Heap.realloc_cases hrealloc with ⟨_, _, hsame, _⟩ | ⟨_, _, hmore, _⟩
    · rwa [hsame]
    · rw [hmore]
      exact Nat.lt_succ_of_lt hlt
  same_iff p heq := by
    have hlt := (h.older p heq).2
    rw [hbuffer, List.mem_append, List.mem_singleton, not_or]
    rcases Heap.realloc_cases hrealloc with ⟨rfl, hptr, _, _⟩ | ⟨hanswer, rfl, _, _⟩
    · rw [← h.same_iff p heq, hptr]
      exact (and_iff_left (by simp)).symm
    · refine iff_of_false (fun hnew => ?_) ?_
      · exact Nat.ne_of_gt hlt (Option.some.inj hnew)
      · rintro ⟨hkept, hmoved⟩
        rcases hanswer with hnull | rfl
        · rw [← h.same_iff p heq, hnull] at hkept
          cases hkept
        · exact hmoved rfl
  null_iff heq := by
    rw [hbuffer]
    refine iff_of_false (by simp) fun hnone => hnone answer ?_
    exact List.mem_append_right _ (List.mem_singleton_self _)
  noFailure call hmem := by
    rcases List.mem_append.mp hmem with hmem | hmem
    · exact h.noFailure call hmem
    · rw [List.mem_singleton.mp hmem]
      have hmet : answer ≠ .null := fun heq => by
        cases (Heap.realloc_isNone_iff hrealloc).mpr heq
      cases answer with
      | null => exact absurd rfl hmet
      | inPlace => rfl
      | moved => rfl

end LineBuffer.Owned

/-- How the loop that reads a line can end: without a failure, with a read that
failed, or with a resize that failed. -/
inductive LineBuffer.EndedWith (others : Ptr → Prop) (line : Option Ptr) :
    List SystemCall → LineBuffer (Logged σ) → LineEnd → Prop
  | finished {calls : List SystemCall} {s : LineBuffer (Logged σ)} {lineEnd : LineEnd}
      (h : Owned others line calls s) (hend : lineEnd ≠ .failed) : EndedWith others line calls s lineEnd
  | readFailed {calls : List SystemCall} {s : LineBuffer (Logged σ)}
      (h : Owned others line calls s) :
      EndedWith others line (calls ++ [.read .failed]) s .failed
  | resizeFailed {calls : List SystemCall} {s s' : LineBuffer (Logged σ)}
      (h : Owned others line calls s) (hheap : s'.proc.heap = s.proc.heap)
      (hbuffer : s'.lineBuffer = none) :
      EndedWith others line (calls ++ [.realloc .null]) s' .failed

section

variable {os : Os σ} {fuel fd : Nat} {others : Ptr → Prop} {line : Option Ptr}
  {calls : List SystemCall} {s : LineBuffer (Logged σ)}

/-- Collecting bytes resizes the block, or fails to. -/
theorem collect_owned (h : s.Owned others line calls) {bytes : List UInt8}
    {round : Round (LineBuffer (Logged σ)) (LineBuffer (Logged σ) × LineEnd)}
    (hcollect : s.collect os.logged bytes = .ok round) :
    (∃ s' answer, round = .again s' ∧ Adds s.proc.state s'.proc.state [.realloc answer] ∧
      s'.Owned others line (calls ++ [.realloc answer])) ∨
    ∃ s' lineEnd answer, round = .leave (s', lineEnd) ∧
      Adds s.proc.state s'.proc.state [.realloc answer] ∧
      s'.EndedWith others line (calls ++ [.realloc answer]) lineEnd := by
  unfold LineBuffer.collect at hcollect
  obtain ⟨⟨buffer, found, usefulBytes⟩, _, hcollect⟩ := Exec.bind_eq_ok.mp hcollect
  obtain ⟨⟨heap, lineBuffer⟩, hrealloc, hcollect⟩ := Exec.bind_eq_ok.mp hcollect
  have hadds : Adds s.proc.state (os.logged.realloc s.proc.state).1
    [.realloc (os.logged.realloc s.proc.state).2] := rfl
  generalize (os.logged.realloc s.proc.state).1 = state at hcollect hadds
  generalize (os.logged.realloc s.proc.state).2 = answer at hrealloc hadds
  cases lineBuffer with
  | none =>
      obtain rfl := (Heap.realloc_isNone_iff hrealloc).mp rfl
      cases hrealloc
      cases hcollect
      exact Or.inr ⟨_, _, _, rfl, hadds, .resizeFailed h rfl rfl⟩
  | some p =>
      obtain ⟨useful, _, hcollect⟩ := Exec.bind_eq_ok.mp hcollect
      obtain ⟨heap', hstore, hcollect⟩ := Exec.bind_eq_ok.mp hcollect
      obtain ⟨hlength, hlive⟩ := Heap.store_eq_ok hstore
      cases found with
      | none =>
          cases hcollect
          exact Or.inl ⟨_, answer, rfl, hadds, h.resize hrealloc rfl hlength hlive⟩
      | some position =>
          cases hcollect
          exact Or.inr ⟨_, _, answer, rfl, hadds,
            .finished (h.resize hrealloc rfl hlength hlive) LineEnd.noConfusion⟩

/-- A round reads, and collects what came. -/
theorem readLineRound_owned (h : s.Owned others line calls)
    {round : Round (LineBuffer (Logged σ)) (LineBuffer (Logged σ) × LineEnd)}
    (hround : readLineRound os.logged fuel fd s = .ok round) :
    (∃ s' more, round = .again s' ∧ Adds s.proc.state s'.proc.state more ∧
      s'.Owned others line (calls ++ more)) ∨
    ∃ s' lineEnd more, round = .leave (s', lineEnd) ∧ Adds s.proc.state s'.proc.state more ∧
      s'.EndedWith others line (calls ++ more) lineEnd := by
  obtain ⟨⟨state, result⟩, hread, hround⟩ := Exec.bind_eq_ok.mp hround
  have hread : retryOnEintr (logCall .read fun state => os.read state fd buffsize) fuel
      s.proc.state = .ok (state, result) := hread
  obtain ⟨count, hadds⟩ := retryOnEintr_adds hread
  have hinterrupted : ∀ call ∈ List.replicate count (SystemCall.read .interrupted),
      call.isFailure = false ∧ ∀ answer, call ≠ .realloc answer := by
    intro call hmem
    rw [List.eq_of_mem_replicate hmem]
    exact ⟨rfl, fun answer heq => by cases heq⟩
  have hbefore := h.append hinterrupted state
  cases result with
  | none =>
      cases hround
      refine Or.inr ⟨_, _, _, rfl, hadds, ?_⟩
      rw [← List.append_assoc]
      exact .readFailed hbefore
  | some bytes =>
      have hread : ∀ call ∈ [SystemCall.read (.done bytes)],
          call.isFailure = false ∧ ∀ answer, call ≠ .realloc answer := by
        simp [SystemCall.isFailure]
      have hafter := hbefore.append hread state
      rw [List.append_assoc] at hafter
      cases bytes with
      | nil =>
          cases hround
          exact Or.inr ⟨_, _, _, rfl, hadds, .finished hafter LineEnd.noConfusion⟩
      | cons byte bytes =>
          rcases collect_owned hafter hround with
            ⟨s', answer, rfl, hmore, hnext⟩ | ⟨s', lineEnd, answer, rfl, hmore, hended⟩
          · refine Or.inl ⟨s', _, rfl, hadds.trans hmore, ?_⟩
            rw [← List.append_assoc]
            exact hnext
          · refine Or.inr ⟨s', lineEnd, _, rfl, hadds.trans hmore, ?_⟩
            rw [← List.append_assoc]
            exact hended

/-- What a call leaves in the line variable when it succeeds. -/
theorem LineBuffer.EndedWith.terminate {lineEnd : LineEnd} (h : s.EndedWith others line calls lineEnd)
    (hend : lineEnd ≠ .failed) {heap : Heap} (hterminate : s.terminate = .ok heap) :
    heap.Owns others s.lineBuffer ∧ ∀ call ∈ calls, call.isFailure = false := by
  cases h with
  | finished h =>
      refine ⟨?_, h.noFailure⟩
      unfold LineBuffer.terminate at hterminate
      cases hbuffer : s.lineBuffer with
      | none =>
          rw [hbuffer] at hterminate
          cases hterminate
          exact hbuffer ▸ h.owns
      | some p =>
          rw [hbuffer] at hterminate
          exact (hbuffer ▸ h.owns).store hterminate
  | readFailed => exact absurd rfl hend
  | resizeFailed => exact absurd rfl hend

/-- What a call leaves behind when it fails. -/
theorem LineBuffer.EndedWith.release (h : s.EndedWith others line calls .failed) {heap : Heap}
    (hrelease : s.release line = .ok heap) : heap.Releasable others line ↔ KeepsLine line calls := by
  unfold LineBuffer.release at hrelease
  cases h with
  | finished _ hend => exact absurd rfl hend
  | readFailed h =>
      cases line with
      | none =>
          exact iff_of_true (h.owns.free hrelease).releasable (keepsLine_none_of_read h.noFailure)
      | some p =>
          cases hrelease
          rw [h.owns.releasable_some_iff (h.older p rfl).1, h.same_iff p rfl, keepsLine_some_iff rfl]
  | resizeFailed h hheap hbuffer =>
      cases line with
      | none =>
          rw [if_pos rfl, hbuffer] at hrelease
          cases hrelease
          rw [hheap, h.owns.releasable_none_iff, h.null_iff rfl, keepsLine_none_of_resize h.noFailure]
      | some p =>
          cases hrelease
          rw [hheap, h.owns.releasable_some_iff (h.older p rfl).1, h.same_iff p rfl,
            keepsLine_some_iff rfl]

/-- One call: when it succeeds the line owns its block, and otherwise the line is
null or live exactly when the calls kept it. -/
theorem readLine_owned {proc proc' : Process (Logged σ)} {line' : Option Ptr} {eof eof' ok : Bool}
    (h : proc.heap.Owns others line)
    (hreturns : aesdsocketReadLine os.logged fuel fd proc line eof = .ok (proc', ok, line', eof')) :
    (ok = true → proc'.heap.Owns others line') ∧
      ∃ calls, Adds proc.state proc'.state calls ∧
        (proc'.heap.Releasable others line' ↔ KeepsLine line calls) := by
  obtain ⟨⟨s, lineEnd⟩, hloop, hreturns⟩ := Exec.bind_eq_ok.mp hreturns
  have hstarted : Adds proc.state (os.logged.startReading proc.state) [.startReading] := rfl
  obtain ⟨calls, hadds, hended⟩ : ∃ calls, Adds proc.state s.proc.state calls ∧
      s.EndedWith others line calls lineEnd := by
    refine loop.sound
      (fun t => ∃ calls, Adds proc.state t.proc.state calls ∧ t.Owned others line calls)
      (fun r => ∃ calls, Adds proc.state r.1.proc.state calls ∧ r.1.EndedWith others line calls r.2)
      ?_ ?_ ⟨_, hstarted, .start h _⟩ hloop
    · rintro t next ⟨calls, hadds, howned⟩ hround
      rcases readLineRound_owned howned hround with
        ⟨s', more, heq, hmore, hnext⟩ | ⟨s', lineEnd, more, heq, _⟩
      · cases heq
        exact ⟨_, hadds.trans hmore, hnext⟩
      · cases heq
    · rintro t result ⟨calls, hadds, howned⟩ hround
      rcases readLineRound_owned howned hround with
        ⟨s', more, heq, _⟩ | ⟨s', lineEnd, more, heq, hmore, hlast⟩
      · cases heq
      · cases heq
        exact ⟨_, hadds.trans hmore, hlast⟩
  by_cases hfailed : lineEnd = .failed
  · subst hfailed
    obtain ⟨heap, hrelease, heq⟩ := Exec.bind_eq_ok.mp hreturns
    cases heq
    exact ⟨fun hok => Bool.noConfusion hok, calls, hadds, hended.release hrelease⟩
  · have hreturns : (do
        let heap ← s.terminate
        .ok (⟨os.logged.stopReading s.proc.state, heap⟩, true, s.lineBuffer,
          decide (lineEnd = .ended)) : Exec _) = .ok (proc', ok, line', eof') := by
      cases lineEnd with
      | failed => exact absurd rfl hfailed
      | eol => exact hreturns
      | ended => exact hreturns
    obtain ⟨heap, hterminate, heq⟩ := Exec.bind_eq_ok.mp hreturns
    cases heq
    obtain ⟨howns, hnone⟩ := hended.terminate hfailed hterminate
    have hstopped : Adds s.proc.state (os.logged.stopReading s.proc.state) [.stopReading] := rfl
    refine ⟨fun _ => howns, _, hadds.trans hstopped, iff_of_true howns.releasable (Or.inl ?_)⟩
    intro call hmem
    rcases List.mem_append.mp hmem with hmem | hmem
    · exact hnone call hmem
    · rw [List.mem_singleton.mp hmem]
      rfl

theorem sendNonEmpty_heap {proc proc' : Process (Logged σ)} {ok : Bool}
    (hreturns : sendNonEmpty os.logged fuel fd proc line = .ok (proc', ok)) :
    proc'.heap = proc.heap := by
  cases line with
  | none =>
      cases hreturns
      rfl
  | some p =>
      obtain ⟨cells, _, hreturns⟩ := Exec.bind_eq_ok.mp hreturns
      obtain ⟨length, _, hreturns⟩ := Exec.bind_eq_ok.mp hreturns
      split at hreturns
      next => exact sendLine_heap hreturns
      next =>
        cases hreturns
        rfl

/-- A round leaves the memory and the line as its call of `aesdsocket_read_line`
does, and it goes on only when this succeeds. -/
theorem readAndSendRound_reads {socketFd fileFd : Nat} {s : Process (Logged σ) × Option Ptr}
    {round : Round (Process (Logged σ) × Option Ptr) (Process (Logged σ) × Option Ptr × Bool)}
    (hround : readAndSendRound os.logged fuel socketFd fileFd s = .ok round) :
    ∃ proc ok line eof,
      aesdsocketReadLine os.logged fuel fileFd s.1 s.2 false = .ok (proc, ok, line, eof) ∧
      round.elim (fun next => ok = true ∧ next.1.heap = proc.heap ∧ next.2 = line)
        (fun last => last.1.heap = proc.heap ∧ last.2.1 = line) := by
  obtain ⟨⟨proc, ok, line, eof⟩, hread, hround⟩ := Exec.bind_eq_ok.mp hround
  refine ⟨proc, ok, line, eof, hread, ?_⟩
  cases ok with
  | false =>
      cases hround
      exact ⟨rfl, rfl⟩
  | true =>
      obtain ⟨⟨sent, okSend⟩, hsend, hround⟩ := Exec.bind_eq_ok.mp hround
      have hheap := sendNonEmpty_heap hsend
      cases okSend with
      | false =>
          cases hround
          exact ⟨hheap, rfl⟩
      | true =>
          cases eof with
          | true =>
              cases hround
              exact ⟨hheap, rfl⟩
          | false =>
              cases hround
              exact ⟨rfl, hheap, rfl⟩

/-- Between two calls the line owns its block. -/
theorem owns_of_rounds {socketFd fileFd : Nat} {start : Process (Logged σ)}
    {s : Process (Logged σ) × Option Ptr}
    (hrounds : ReflTransGen (loop.Again (readAndSendRound os.logged fuel socketFd fileFd))
      (start, none) s) :
    s.1.heap.Owns (fun q => (start.heap.block? q).isSome) s.2 := by
  induction hrounds with
  | refl => exact Heap.owns_none start.heap
  | tail _ hround ih =>
      obtain ⟨proc, ok, line, eof, hread, hok, hheap, hline⟩ := readAndSendRound_reads hround
      rw [hheap, hline]
      exact (readLine_owned ih hread).1 hok

end

/-- Every call of `aesdsocket_read_line` that `aesdsocket_read_and_send_file` makes
is given a line that is null or live. It returns one, with nothing lost, exactly
when its reads and resizes keep the line. What the last call returns is what the
final release gets, which then leaves no block of these calls live. -/
theorem line_ownership_iff (os : Os σ) (fuel socketFd fileFd : Nat) (start : Process (Logged σ)) :
    (∀ s, ReflTransGen (loop.Again (readAndSendRound os.logged fuel socketFd fileFd))
        (start, none) s →
      s.1.heap.Releasable (fun q => (start.heap.block? q).isSome) s.2 ∧
      ∀ proc ok line eof,
        aesdsocketReadLine os.logged fuel fileFd s.1 s.2 false = .ok (proc, ok, line, eof) →
        ∃ calls, Adds s.1.state proc.state calls ∧
          (proc.heap.Releasable (fun q => (start.heap.block? q).isSome) line ↔
            KeepsLine s.2 calls)) ∧
    ∀ last line ok,
      loop (readAndSendRound os.logged fuel socketFd fileFd) fuel (start, none) =
        .ok (last, line, ok) →
      ∃ s proc okRead eof calls,
        ReflTransGen (loop.Again (readAndSendRound os.logged fuel socketFd fileFd)) (start, none) s ∧
        aesdsocketReadLine os.logged fuel fileFd s.1 s.2 false = .ok (proc, okRead, line, eof) ∧
        Adds s.1.state proc.state calls ∧
        (last.heap.Releasable (fun q => (start.heap.block? q).isSome) line ↔
          KeepsLine s.2 calls) := by
  constructor
  · intro s hrounds
    have howns := owns_of_rounds hrounds
    refine ⟨howns.releasable, fun proc ok line eof hread => ?_⟩
    exact (readLine_owned howns hread).2
  · intro last line ok hloop
    obtain ⟨s, hrounds, hleave⟩ := loop.exists_last hloop
    obtain ⟨proc, okRead, line', eof, hread, hheap, hline⟩ := readAndSendRound_reads hleave
    obtain rfl : line = line' := hline
    obtain ⟨calls, hadds, hiff⟩ := (readLine_owned (owns_of_rounds hrounds) hread).2
    exact ⟨s, proc, okRead, eof, calls, hrounds, hread, hadds, hheap ▸ hiff⟩

/-- A source whose client takes everything. -/
def relayOs (answers : Nat → Resize) : Os Source :=
  { Source.os answers with send := fun s _ bytes => .ok (s, .done bytes.length) }

def relayStart (arrivals : List Arrival) : Process (Logged Source) :=
  ⟨(⟨arrivals, 0⟩, []), Heap.empty⟩

/-- A second call resizes the line it is given in place, and hands it back when its
next read fails. -/
theorem line_ownership_second :
    let os := relayOs fun _ => .inPlace
    let start := relayStart [.piece [97, 10], .piece [98], .failed]
    ∃ s proc : Process (Logged Source),
      readAndSendRound os.logged 5 4 3 (start, none) = .ok (.again (s, some 0)) ∧
      aesdsocketReadLine os.logged 5 3 s (some 0) false = .ok (proc, false, some 0, false) ∧
      proc.heap.Releasable (fun q => (Heap.empty.block? q).isSome) (some 0) := by
  intro os start
  let s : Process (Logged Source) := ⟨(⟨[.piece [98], .failed], 1⟩,
    [.startReading, .read (.done [97, 10]), .realloc .inPlace, .stopReading,
      .send [97, 10] (.done 2)]), ⟨[some [some 97, some 10, some 0]]⟩⟩
  let calls : List SystemCall :=
    [.startReading, .read (.done [98]), .realloc .inPlace, .read .failed]
  have hround : readAndSendRound os.logged 5 4 3 (start, none) = .ok (.again (s, some 0)) := rfl
  have hread : aesdsocketReadLine os.logged 5 3 s (some 0) false =
      .ok (⟨(⟨[], 2⟩, s.state.2 ++ calls), ⟨[some [some 98, some 10]]⟩⟩, false, some 0, false) := by
    decide +kernel
  obtain ⟨hcalls, _⟩ := line_ownership_iff os 5 4 3 start
  obtain ⟨_, hcall⟩ := hcalls (s, some 0) (.single hround)
  obtain ⟨more, hadds, hiff⟩ := hcall _ _ _ _ hread
  have hadds' : Adds s.state (⟨[], 2⟩, s.state.2 ++ calls) calls := rfl
  obtain rfl := hadds.unique hadds'
  exact ⟨s, _, hround, hread, hiff.mpr (Or.inr (Or.inl ⟨Option.some_ne_none 0, by decide⟩))⟩

/-- A read of "a\n", a read of "b" that moves the block, and a read that fails: the
line still points to the old block, and releasing it is a fault. -/
theorem line_ownership_moved : ∃ last,
    loop (readAndSendRound (relayOs fun _ => .moved).logged 5 4 3) 5
      (relayStart [.piece [97, 10], .piece [98], .failed], none) = .ok (last, some 0, false) ∧
    last.heap.block? 0 = none ∧ (last.heap.block? 1).isSome ∧
    aesdsocketReadAndSendFile (relayOs fun _ => .moved).logged 5 4 3
      (relayStart [.piece [97, 10], .piece [98], .failed]) = .error .deadBlock := by
  refine ⟨⟨(⟨[], 2⟩, [.startReading, .read (.done [97, 10]), .realloc .moved, .stopReading,
    .send [97, 10] (.done 2), .startReading, .read (.done [98]), .realloc .moved,
    .read .failed]), ⟨[none, some [some 98, some 10]]⟩⟩, ?_⟩
  decide +kernel

end Aesd

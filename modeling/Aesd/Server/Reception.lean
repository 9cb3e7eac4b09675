import Aesd.Driver.Log
import Aesd.Foundation.Settles
import Aesd.Server.LineBuffer
import Mathlib.Logic.Relation

/-!
# What a line is collected from

Data arrives in pieces, between interrupted and failed calls. The local buffer
keeps what earlier pieces left behind the last one, and the scan for a newline
reads on into it.
-/

namespace Aesd

open CSem Relation

/-- What one `recv` or `read` comes back with. -/
inductive Arrival
  | interrupted
  | failed
  | piece (bytes : List UInt8)
  deriving DecidableEq, Repr

/-- The results still to come, and the number of resizes made. -/
structure Source where
  arrivals : List Arrival
  reallocs : Nat
  deriving DecidableEq, Repr

/-- The next result. When nothing is left the peer has shut down its side, or the
file is at its end. -/
def Source.next (s : Source) : Source × CallResult (List UInt8) :=
  match s.arrivals with
  | [] => (s, .done [])
  | .interrupted :: arrivals => ({ s with arrivals := arrivals }, .interrupted)
  | .failed :: arrivals => ({ s with arrivals := arrivals }, .failed)
  | .piece bytes :: arrivals => ({ s with arrivals := arrivals }, .done bytes)

/-- The calls of a source. Resizes are answered in a given order, and every call
that does not bring in data fails. -/
def Source.os (answers : Nat → Resize) : Os Source where
  openFile s _ := .ok (s, .failed)
  closeFile s _ := .ok s
  read s _ _ := .ok s.next
  write s _ _ := .ok (s, .failed)
  ioctl s _ _ := .ok (s, .failed)
  recv s _ _ := .ok s.next
  send s _ _ := .ok (s, .failed)
  realloc s := ({ s with reallocs := s.reallocs + 1 }, answers s.reallocs)
  terminationFlag s := (s, false)
  startReading := id
  stopReading := id
  startWriting := id
  stopWriting := id

/-- The local buffer after a piece has been stored at its front. -/
def overlay (buffer bytes : List UInt8) : List UInt8 := bytes ++ buffer.drop bytes.length

/-- The local buffer after all results so far; at first it is all zeros. -/
def localBuffer (arrivals : List Arrival) : List UInt8 :=
  arrivals.foldl (fun buffer arrival =>
    match arrival with
    | .piece bytes => overlay buffer bytes
    | _ => buffer) (List.replicate buffsize 0)

theorem localBuffer_append_piece (arrivals : List Arrival) (bytes : List UInt8) :
    localBuffer (arrivals ++ [.piece bytes]) = overlay (localBuffer arrivals) bytes := by
  rw [localBuffer, List.foldl_append]
  rfl

theorem localBuffer_append_interrupted (arrivals : List Arrival) (count : Nat) :
    localBuffer (arrivals ++ List.replicate count .interrupted) = localBuffer arrivals := by
  induction count with
  | zero => rw [List.replicate_zero, List.append_nil]
  | succ count ih =>
      rw [List.replicate_succ', ← List.append_assoc, localBuffer, List.foldl_append]
      exact ih

@[simp] theorem overlay_nil (buffer : List UInt8) : overlay buffer [] = buffer := rfl

/-- The collection of a line with other results still to come. -/
def LineBuffer.advance (s : LineBuffer Source) (arrivals : List Arrival) : LineBuffer Source :=
  { s with proc := ⟨⟨arrivals, s.proc.state.reallocs⟩, s.proc.heap⟩ }

/-! ## Rounds -/

/-- A call that is repeated while it is interrupted takes the next result that is
not an interruption. -/
theorem retryOnEintr_next {fuel : Nat} {s s' : Source} {bytes : List UInt8}
    (hretry : retryOnEintr (fun s : Source => .ok s.next) fuel s = .ok (s', some bytes)) :
    ∃ count, s.arrivals = List.replicate count .interrupted ++ s'.arrivals ∧ bytes = [] ∨
      s.arrivals = List.replicate count .interrupted ++ .piece bytes :: s'.arrivals := by
  obtain ⟨⟨arrivals, reallocs⟩, ⟨count, heq⟩, hcall⟩ := retryOnEintr_sound
    (fun t : Source => ∃ count, s.arrivals = List.replicate count .interrupted ++ t.arrivals)
    (by
      rintro ⟨arrivals, reallocs⟩ next ⟨count, heq⟩ hcall
      rcases arrivals with _ | ⟨⟨⟩ | ⟨⟩ | bytes, arrivals⟩ <;> cases hcall
      refine ⟨count + 1, ?_⟩
      rw [heq, List.replicate_succ', List.append_assoc]
      rfl)
    ⟨0, rfl⟩ hretry
  rcases arrivals with _ | ⟨⟨⟩ | ⟨⟩ | piece, arrivals⟩ <;> cases hcall
  · exact ⟨count, Or.inl ⟨heq, rfl⟩⟩
  · exact ⟨count, Or.inr heq⟩

/-- Interruptions are passed over. -/
theorem retryOnEintr_interrupted {s : Source} {count : Nat} {bytes : List UInt8}
    {arrivals : List Arrival}
    (harrivals : s.arrivals = List.replicate count .interrupted ++ .piece bytes :: arrivals) :
    retryOnEintr (fun s : Source => .ok s.next) (count + 1) s =
      .ok (⟨arrivals, s.reallocs⟩, some bytes) := by
  obtain ⟨_, reallocs⟩ := s
  subst harrivals
  induction count with
  | zero => rfl
  | succ count ih => exact ih

section

variable (answers : Nat → Resize) (fd : Nat)

/-- A round of `aesdsocket_recv_line` on a piece that is not empty collects it. -/
theorem recvLineRound_piece {s : LineBuffer Source} {arrivals : List Arrival} {bytes : List UInt8}
    (hne : bytes ≠ []) (harrivals : s.proc.state.arrivals = .piece bytes :: arrivals) :
    recvLineRound (Source.os answers) fd s =
      (s.advance arrivals).collect (Source.os answers) bytes := by
  obtain ⟨⟨⟨_, reallocs⟩, heap⟩, buffer, line, size⟩ := s
  subst harrivals
  cases bytes with
  | nil => exact absurd rfl hne
  | cons byte bytes => rfl

/-- And so does a round of `aesdsocket_read_line`, after the interruptions. -/
theorem readLineRound_piece {s : LineBuffer Source} {arrivals : List Arrival} {bytes : List UInt8}
    {count : Nat} (hne : bytes ≠ [])
    (harrivals : s.proc.state.arrivals =
      List.replicate count .interrupted ++ .piece bytes :: arrivals) :
    Settles (fun fuel => readLineRound (Source.os answers) fuel fd s)
      ((s.advance arrivals).collect (Source.os answers) bytes) := by
  have hread : Settles (fun fuel => retryOnEintr (fun s : Source => .ok s.next) fuel s.proc.state)
      (.ok (⟨arrivals, s.proc.state.reallocs⟩, some bytes)) :=
    Settles.of_loop (retryOnEintr_interrupted harrivals)
  refine hread.bind ?_
  cases bytes with
  | nil => exact absurd rfl hne
  | cons byte bytes => exact Settles.const _

/-- A round of `aesdsocket_recv_line` after which the loop goes on. -/
def RecvAgain (s s' : LineBuffer Source) : Prop :=
  recvLineRound (Source.os answers) fd s = .ok (.again s')

/-- A round of `aesdsocket_read_line` after which the loop goes on. -/
def ReadAgain (s s' : LineBuffer Source) : Prop :=
  ∃ fuel, readLineRound (Source.os answers) fuel fd s = .ok (.again s')

/-- The results that have come in are in the local buffer, and the others are
still to come. -/
def LineBuffer.Received (arrivals : List Arrival) (s : LineBuffer Source) : Prop :=
  ∃ received, arrivals = received ++ s.proc.state.arrivals ∧ s.buffer = localBuffer received

variable {answers fd} {arrivals : List Arrival} {s s' : LineBuffer Source}

theorem LineBuffer.Received.collect (h : s.Received arrivals) {state : Source} {bytes : List UInt8}
    {count : Nat}
    (hnext : s.proc.state.arrivals =
      List.replicate count .interrupted ++ .piece bytes :: state.arrivals)
    (hcollect : LineBuffer.collect (Source.os answers) { s with proc := ⟨state, s.proc.heap⟩ }
      bytes = .ok (.again s')) : s'.Received arrivals := by
  obtain ⟨received, harrivals, hbuffer⟩ := h
  obtain ⟨found, collected, _, hstate, hoverlay, hround⟩ := LineBuffer.collect_eq_ok hcollect
  have hsame : s' = collected := by
    rcases hround with ⟨_, heq⟩ | ⟨_, heq⟩
    · cases heq
    · cases found with
      | none => exact Round.again.inj heq
      | some position => cases heq
  subst hsame
  refine ⟨received ++ List.replicate count .interrupted ++ [.piece bytes], ?_, ?_⟩
  · rw [harrivals, hnext, hstate]
    simp [Source.os]
  · rw [localBuffer_append_piece, localBuffer_append_interrupted, ← hbuffer]
    exact hoverlay

theorem RecvAgain.received (hround : RecvAgain answers fd s s') (h : s.Received arrivals) :
    s'.Received arrivals := by
  obtain ⟨⟨⟨others, reallocs⟩, heap⟩, buffer, line, size⟩ := s
  have hreceived := h
  obtain ⟨received, harrivals, hbuffer⟩ := h
  rcases others with _ | ⟨⟨⟩ | ⟨⟩ | bytes, others⟩
  · cases hround
    exact ⟨received, harrivals, hbuffer⟩
  · cases hround
    refine ⟨received ++ [.interrupted], by rw [harrivals, List.append_assoc]; rfl, ?_⟩
    rw [hbuffer]
    exact (localBuffer_append_interrupted received 1).symm
  · cases hround
  · cases bytes with
    | nil =>
        cases hround
        refine ⟨received ++ [.piece []], by rw [harrivals, List.append_assoc]; rfl, ?_⟩
        rw [localBuffer_append_piece, ← hbuffer]
        rfl
    | cons byte bytes =>
        have hnext : .piece (byte :: bytes) :: others = List.replicate 0 .interrupted ++
            .piece (byte :: bytes) :: (Source.mk others reallocs).arrivals := rfl
        exact hreceived.collect hnext hround

theorem ReadAgain.received (hround : ReadAgain answers fd s s') (h : s.Received arrivals) :
    s'.Received arrivals := by
  obtain ⟨fuel, hround⟩ := hround
  obtain ⟨⟨state, result⟩, hread, hround⟩ := Exec.bind_eq_ok.mp hround
  rcases result with _ | ⟨_ | ⟨byte, bytes⟩⟩
  · cases hround
  · cases hround
  · obtain ⟨count, hcase⟩ := retryOnEintr_next hread
    rcases hcase with ⟨_, hnil⟩ | hnext
    · cases hnil
    · exact h.collect hnext hround

theorem LineBuffer.Received.run (h : s.Received arrivals)
    (hrun : ReflTransGen (RecvAgain answers fd) s s' ∨ ReflTransGen (ReadAgain answers fd) s s') :
    s'.Received arrivals := by
  rcases hrun with hrun | hrun
  · induction hrun with
    | refl => exact h
    | tail _ hround ih => exact hround.received ih
  · induction hrun with
    | refl => exact h
    | tail _ hround ih => exact hround.received ih

end

/-! ## The scan for a newline -/

/-- When these bytes come in, the scan stays inside the local buffer and takes no
more than has come in, and what is appended to the line is copied from them. -/
def LineBuffer.ScanContained {σ : Type} (os : Os σ) (s : LineBuffer σ) (bytes : List UInt8) :
    Prop :=
  ∃ scan, s.scan bytes = .ok scan ∧ scan.usefulBytes ≤ bytes.length ∧
    ∀ round, s.collect os bytes = .ok round → hasFailed round = false →
      ∃ useful p, strncpy (bytes.map some) scan.usefulBytes = .ok useful ∧
        (roundBuffer round).lineBuffer = some p ∧
        (roundBuffer round).lineBufferSize = s.lineBufferSize + scan.usefulBytes ∧
        (roundBuffer round).proc.heap.Holds p s.lineBufferSize useful

/-- The bytes end the scan themselves, or what lies behind them does with a NUL. -/
def EndsScan (bytes behind : List UInt8) : Prop :=
  newline ∈ bytes ∨ 0 ∈ bytes ∨ ∃ front back, behind = front ++ 0 :: back ∧ newline ∉ front

/-- Where the scan ends, and whether it has taken more than has come in. -/
theorem LineBuffer.scan_iff {σ : Type} (s : LineBuffer σ) (bytes : List UInt8) :
    (∃ scan, s.scan bytes = .ok scan ∧ scan.usefulBytes ≤ bytes.length) ↔
      EndsScan bytes (s.buffer.drop bytes.length) := by
  have hscan : (∃ scan, s.scan bytes = .ok scan ∧ scan.usefulBytes ≤ bytes.length) ↔
      ∃ found, strchr terminatorCharacter ((overlay s.buffer bytes).map some) = .ok found ∧
        found.elim bytes.length (· + 1) ≤ bytes.length := by
    constructor
    · rintro ⟨scan, hscan, hle⟩
      obtain ⟨hfound, _, huseful⟩ := scan_eq_ok_iff.mp hscan
      exact ⟨_, hfound, huseful ▸ hle⟩
    · rintro ⟨found, hfound, hle⟩
      exact ⟨⟨_, found, _⟩, scan_eq_ok_iff.mpr ⟨hfound, rfl, rfl⟩, hle⟩
  rw [hscan]
  unfold EndsScan overlay
  by_cases hstop : newline ∈ bytes ∨ 0 ∈ bytes
  · obtain ⟨found, hfound, hlt⟩ := strchr_append_of_stop hstop (s.buffer.drop bytes.length)
    refine iff_of_true ⟨found, hfound, ?_⟩ (hstop.imp_right Or.inl)
    cases found with
    | none => exact Nat.le_refl _
    | some position => exact hlt position rfl
  · rw [not_or] at hstop
    have hnot : terminatorCharacter ∉ bytes := hstop.1
    have hbehind : strchr terminatorCharacter ((s.buffer.drop bytes.length).map some) = .ok none ↔
        ∃ front back, s.buffer.drop bytes.length = front ++ 0 :: back ∧ newline ∉ front :=
      strchr_eq_none_iff (by decide)
    rw [strchr_append_of_clear hnot hstop.2, ← hbehind]
    simp only [hstop.1, hstop.2, false_or]
    cases strchr terminatorCharacter ((s.buffer.drop bytes.length).map some) with
    | error fault => simp [Except.map]
    | ok found =>
        cases found with
        | none => simp [Except.map]
        | some position =>
            -- a newline behind the bytes makes the line too long
            simp only [Except.map, Option.map_some, Except.ok.injEq, exists_eq_left',
              Option.elim_some, reduceCtorEq, iff_false]
            omega

theorem LineBuffer.scanContained_iff {σ : Type} (os : Os σ) (s : LineBuffer σ)
    (bytes : List UInt8) :
    s.ScanContained os bytes ↔ EndsScan bytes (s.buffer.drop bytes.length) := by
  rw [← s.scan_iff bytes]
  constructor
  · rintro ⟨scan, hscan, hle, _⟩
    exact ⟨scan, hscan, hle⟩
  · rintro ⟨scan, hscan, hle⟩
    refine ⟨scan, hscan, hle, fun round hcollect hmet => ?_⟩
    obtain ⟨useful, p, hcopy, hptr, hsize, hholds⟩ := collect_appends hscan hcollect hmet
    obtain ⟨_, hbuffer, _⟩ := scan_eq_ok_iff.mp hscan
    -- the copy ends before what the piece has left in place
    rw [hbuffer, List.map_append, strncpy_append hle] at hcopy
    exact ⟨useful, p, hcopy, hptr, hsize, hholds⟩

theorem length_overlay {buffer bytes : List UInt8} (hle : bytes.length ≤ buffer.length) :
    (overlay buffer bytes).length = buffer.length := by
  rw [overlay, List.length_append, List.length_drop]
  omega

theorem length_localBuffer {arrivals : List Arrival}
    (hsize : ∀ bytes, .piece bytes ∈ arrivals → bytes.length ≤ buffsize) :
    (localBuffer arrivals).length = buffsize := by
  induction arrivals using List.reverseRecOn with
  | nil => exact List.length_replicate
  | append_singleton arrivals arrival ih =>
      have ih := ih fun bytes hmem => hsize bytes (List.mem_append_left _ hmem)
      cases arrival with
      | piece bytes =>
          have hle := hsize bytes (List.mem_append_right _ List.mem_cons_self)
          rw [localBuffer_append_piece, length_overlay (ih ▸ hle), ih]
      | interrupted =>
          rw [← ih, localBuffer, List.foldl_append]
          rfl
      | failed =>
          rw [← ih, localBuffer, List.foldl_append]
          rfl

/-- In every round of both loops, the piece that comes up is collected, and its
scan is contained exactly when the piece has a newline or a NUL, or the bytes that
earlier pieces left behind it reach a NUL before a newline. -/
theorem scan_contained_iff (answers : Nat → Resize) (fd : Nat) {arrivals : List Arrival}
    (hsize : ∀ bytes, .piece bytes ∈ arrivals → bytes.length ≤ buffsize)
    {proc : Process Source} (harrivals : proc.state.arrivals = arrivals) (line : Option Ptr)
    {s : LineBuffer Source}
    (hrun : ReflTransGen (RecvAgain answers fd) (.start proc line) s ∨
      ReflTransGen (ReadAgain answers fd) (.start proc line) s)
    {count : Nat} {bytes : List UInt8} {rest : List Arrival}
    (hnext : s.proc.state.arrivals = List.replicate count .interrupted ++ .piece bytes :: rest) :
    ∃ received, arrivals = received ++ .piece bytes :: rest ∧
      (overlay s.buffer bytes).length = buffsize ∧
      (bytes ≠ [] → count = 0 → recvLineRound (Source.os answers) fd s =
        (s.advance rest).collect (Source.os answers) bytes) ∧
      (bytes ≠ [] → Settles (fun fuel => readLineRound (Source.os answers) fuel fd s)
        ((s.advance rest).collect (Source.os answers) bytes)) ∧
      ((s.advance rest).ScanContained (Source.os answers) bytes ↔
        EndsScan bytes ((localBuffer received).drop bytes.length)) := by
  have hstart : (LineBuffer.start proc line).Received arrivals := ⟨[], harrivals.symm, rfl⟩
  obtain ⟨received, heq, hbuffer⟩ := hstart.run hrun
  rw [hnext, ← List.append_assoc] at heq
  refine ⟨received ++ List.replicate count .interrupted, heq, ?_, ?_, ?_, ?_⟩
  · have hlength : (localBuffer received).length = buffsize :=
      length_localBuffer fun bytes hmem =>
        hsize bytes (heq ▸ List.mem_append_left _ (List.mem_append_left _ hmem))
    have hle := hsize bytes (heq ▸ List.mem_append_right _ List.mem_cons_self)
    rw [hbuffer, length_overlay (hlength ▸ hle), hlength]
  · rintro hne rfl
    exact recvLineRound_piece answers fd hne hnext
  · exact fun hne => readLineRound_piece answers fd hne hnext
  · rw [LineBuffer.scanContained_iff, localBuffer_append_interrupted, ← hbuffer]
    rfl

/-- A line comes in two pieces, the second of which lies over the first. -/
theorem scan_contained_iff_line :
    ∃ s : LineBuffer Source, recvLineRound (Source.os fun _ => .moved) 4
        (.start ⟨⟨[.piece [97, 98], .piece [99, 10]], 0⟩, Heap.empty⟩ none) = .ok (.again s) ∧
      s.buffer.take 3 = [97, 98, 0] ∧
      (s.advance []).ScanContained (Source.os fun _ => .moved) [99, 10] := by
  have hsize : ∀ bytes, .piece bytes ∈ [Arrival.piece [97, 98], .piece [99, 10]] →
      bytes.length ≤ buffsize := by
    intro bytes hmem
    simp only [List.mem_cons, Arrival.piece.injEq, List.not_mem_nil, or_false] at hmem
    rcases hmem with rfl | rfl <;> decide
  have harrivals : (⟨⟨[.piece [97, 98], .piece [99, 10]], 0⟩, Heap.empty⟩ :
      Process Source).state.arrivals = [.piece [97, 98], .piece [99, 10]] := rfl
  let s : LineBuffer Source := ⟨⟨⟨[.piece [99, 10]], 1⟩, ⟨[some [some 97, some 98, none]]⟩⟩,
    [97, 98] ++ List.replicate 1022 0, some 0, 2⟩
  have hround : recvLineRound (Source.os fun _ => .moved) 4
      (.start ⟨⟨[.piece [97, 98], .piece [99, 10]], 0⟩, Heap.empty⟩ none) = .ok (.again s) := rfl
  have hnext : s.proc.state.arrivals =
    List.replicate 0 .interrupted ++ .piece [99, 10] :: [] := rfl
  obtain ⟨_, _, _, _, _, hiff⟩ := scan_contained_iff (fun _ => .moved) 4 hsize harrivals none
    (Or.inl (.single hround)) hnext
  exact ⟨s, hround, by decide, hiff.mpr (Or.inl (by decide))⟩

/-- A piece as long as the local buffer, of letters only, is scanned beyond it. -/
theorem fullPiece_not_contained : ¬ ∀ (answers : Nat → Resize) (fd : Nat)
    (arrivals : List Arrival),
    (∀ bytes, .piece bytes ∈ arrivals → 0 < bytes.length ∧ bytes.length ≤ buffsize) →
    ∀ (proc : Process Source), proc.state.arrivals = arrivals → ∀ line s,
    (ReflTransGen (RecvAgain answers fd) (.start proc line) s ∨
      ReflTransGen (ReadAgain answers fd) (.start proc line) s) →
    ∀ count bytes rest,
      s.proc.state.arrivals = List.replicate count .interrupted ++ .piece bytes :: rest →
      (s.advance rest).ScanContained (Source.os answers) bytes := by
  intro hall
  have hsize : ∀ bytes, .piece bytes ∈ [Arrival.piece (List.replicate buffsize 97)] →
      0 < bytes.length ∧ bytes.length ≤ buffsize := by
    intro bytes hmem
    cases List.mem_singleton.mp hmem
    rw [List.length_replicate]
    decide
  have hcontained := hall (fun _ => .moved) 4 _ hsize
    ⟨⟨[.piece (List.replicate buffsize 97)], 0⟩, Heap.empty⟩ rfl none _ (Or.inl .refl) 0 _ [] rfl
  rw [LineBuffer.scanContained_iff, EndsScan] at hcontained
  rcases hcontained with hmem | hmem | ⟨front, back, hbehind, _⟩
  · exact absurd (List.eq_of_mem_replicate hmem) (by decide)
  · exact absurd (List.eq_of_mem_replicate hmem) (by decide)
  · have hnil : (LineBuffer.start (⟨⟨[.piece (List.replicate buffsize 97)], 0⟩, Heap.empty⟩ :
        Process Source) none).buffer.drop (List.replicate buffsize (97 : UInt8)).length = [] := by
      rw [List.length_replicate]
      exact List.drop_eq_nil_of_le (Nat.le_of_eq List.length_replicate)
    have hbehind := hnil.symm.trans hbehind
    exact absurd hbehind.symm (by simp)

end Aesd

import Aesd.Driver.Log
import Aesd.Server.LineBuffer
import Aesd.Server.Machine

/-!
# Reading one line

What `aesdsocket_read_line` hands over depends on the block that its first read
fetches: nothing, the front of the block up to its first newline, or a short
block without a newline. A full block without a newline is scanned beyond its
end.
-/

namespace Aesd

open CSem

variable {φ : Type} {ops : FileOps φ}

/-- One line of a file: what is read, the file after it, and whether its end was
seen. -/
inductive LineOf (ops : FileOps φ) : φ → φ → List UInt8 → Bool → Prop
  | atEnd {file file' : φ} (hread : ops.read file buffsize = .ok (file', .done [])) :
      LineOf ops file file' [] true
  | line {file file' : φ} {front back : List UInt8}
      (hread : ops.read file buffsize = .ok (file', .done (front ++ newline :: back)))
      (hfront : newline ∉ front) (hnul : 0 ∉ front) (hshort : front.length < buffsize) :
      LineOf ops file file' (front ++ [newline]) false
  | unterminated {file middle file' : φ} {bytes : List UInt8}
      (hread : ops.read file buffsize = .ok (middle, .done bytes)) (hne : bytes ≠ [])
      (hnewline : newline ∉ bytes) (hnul : 0 ∉ bytes) (hshort : bytes.length < buffsize)
      (hend : ops.read middle buffsize = .ok (file', .done [])) :
      LineOf ops file file' bytes true

theorem LineOf.length_le {file file' : φ} {text : List UInt8} {ended : Bool}
    (h : LineOf ops file file' text ended) : text.length ≤ buffsize := by
  cases h with
  | atEnd => exact Nat.zero_le _
  | line _ _ _ hshort =>
      rw [List.length_append, List.length_singleton]
      exact hshort
  | unterminated _ _ _ _ hshort => exact Nat.le_of_lt hshort

/-- A full block without a newline and without a NUL. -/
def Overrun (ops : FileOps φ) (file : φ) : Prop :=
  ∃ file' bytes, ops.read file buffsize = .ok (file', .done bytes) ∧ bytes.length = buffsize ∧
    newline ∉ bytes ∧ 0 ∉ bytes

/-- The state after a line was read: the line variable holds it. -/
structure LineRead (proc : Process (Machine φ)) (line : Option Ptr) (file : φ)
    (text : List UInt8) (proc' : Process (Machine φ)) (line' : Option Ptr) : Prop where
  file : proc'.state.file = file
  sent : proc'.state.sent = proc.state.sent
  holds : HoldsLine proc'.heap line' text
  keeps : KeepsOthers proc.heap line proc'.heap line'

/-! ## One round -/

section

variable (choices : Choices)

theorem readLineRound_atEnd (s : LineBuffer (Machine φ)) {file : φ}
    (hread : ops.read s.proc.state.file buffsize = .ok (file, .done [])) (fd : Nat) :
    Settles (fun fuel => readLineRound (Machine.os ops choices) fuel fd s)
      (.ok (.leave ({ s with proc := ⟨{ s.proc.state with file := file }, s.proc.heap⟩ },
        .ended))) :=
  (Machine.read_settles ops choices hread fd).bind (Settles.const _)

theorem readLineRound_bytes (s : LineBuffer (Machine φ)) {file : φ} {bytes : List UInt8}
    (hread : ops.read s.proc.state.file buffsize = .ok (file, .done bytes)) (hne : bytes ≠ [])
    (fd : Nat) :
    Settles (fun fuel => readLineRound (Machine.os ops choices) fuel fd s)
      (LineBuffer.collect (Machine.os ops choices)
        { s with proc := ⟨{ s.proc.state with file := file }, s.proc.heap⟩ } bytes) := by
  refine (Machine.read_settles ops choices hread fd).bind ?_
  cases bytes with
  | nil => exact absurd rfl hne
  | cons byte bytes => exact Settles.const _

/-- The first round on a block, given what the scan for a newline finds. -/
theorem readLineRound_collect (proc : Process (Machine φ)) {line : Option Ptr}
    {old bytes useful : List UInt8} {found : Option Nat} {file : φ}
    (hline : HoldsLine proc.heap line old)
    (hread : ops.read proc.state.file buffsize = .ok (file, .done bytes)) (hne : bytes ≠ [])
    (hscan : strchr terminatorCharacter
      ((bytes ++ (List.replicate buffsize 0).drop bytes.length).map some) = .ok found)
    (hlength : useful.length = found.elim bytes.length (· + 1))
    (hcopy : strncpy ((bytes ++ (List.replicate buffsize 0).drop bytes.length).map some)
      useful.length = .ok useful) (fd : Nat) :
    ∃ s : LineBuffer (Machine φ),
      Settles (fun fuel => readLineRound (Machine.os ops choices) fuel fd (.start proc line))
        (.ok (if found.isSome then .leave (s, .eol) else .again s)) ∧
      s.Gathered useful ∧ s.proc.state.file = file ∧ s.proc.state.sent = proc.state.sent ∧
      KeepsOthers proc.heap line s.proc.heap s.lineBuffer := by
  have hstart : (LineBuffer.mk ⟨{ proc.state with file := file }, proc.heap⟩
      (List.replicate buffsize 0) line 0).Gathered [] :=
    (LineBuffer.gathered_start proc hline.live).of_heap
  obtain ⟨s, hcollect, hgathered, hstate, _, _, hkeeps⟩ :=
    hstart.collect (Machine.os ops choices) rfl (choices.resize_ne_null _) hscan hlength
      hcopy
  refine ⟨s, ?_, hgathered, by rw [hstate], by rw [hstate], hkeeps⟩
  rw [← hcollect]
  exact readLineRound_bytes choices (.start proc line) hread hne fd

/-! ## A whole call -/

/-- After a loop that did not fail, the line buffer is closed and handed over. -/
theorem readLine_of_loop {choices : Choices} {proc : Process (Machine φ)} {line : Option Ptr} {fd : Nat}
    {s : LineBuffer (Machine φ)} {lineEnd : LineEnd} {heap : Heap}
    (hloop : LoopSettles (fun fuel => readLineRound (Machine.os ops choices) fuel fd)
      (.start proc line) (.ok (s, lineEnd)))
    (hend : lineEnd ≠ .failed) (hterminate : s.terminate = .ok heap) (eof : Bool) :
    Settles (fun fuel => aesdsocketReadLine (Machine.os ops choices) fuel fd proc line eof)
      (.ok (⟨s.proc.state, heap⟩, true, s.lineBuffer, decide (lineEnd = .ended))) := by
  refine hloop.settles.bind ?_
  cases lineEnd with
  | failed => exact absurd rfl hend
  | eol =>
      simp only [hterminate, Exec.ok_bind]
      exact Settles.const _
  | ended =>
      simp only [hterminate, Exec.ok_bind]
      exact Settles.const _

/-- A line of the file is handed over. -/
theorem LineOf.readLine {file file' : φ} {text old : List UInt8} {ended : Bool}
    (h : LineOf ops file file' text ended) {proc : Process (Machine φ)} {line : Option Ptr}
    (hfile : proc.state.file = file) (hline : HoldsLine proc.heap line old) (fd : Nat)
    (eof : Bool) :
    ∃ proc' line',
      Settles (fun fuel => aesdsocketReadLine (Machine.os ops choices) fuel fd proc line eof)
        (.ok (proc', true, line', ended)) ∧
      LineRead proc line file' text proc' line' := by
  subst hfile
  cases h with
  | atEnd hread =>
      have hround := readLineRound_atEnd choices (.start proc line) hread fd
      have hempty : HoldsLine (LineBuffer.start proc line).proc.heap
          (LineBuffer.start proc line).lineBuffer old := hline
      obtain ⟨heap, hterminate, hholds, hkeeps⟩ :=
        LineBuffer.terminate_empty hempty rfl
      exact ⟨_, _, readLine_of_loop (.leave hround) LineEnd.noConfusion hterminate eof,
        rfl, rfl, hholds, hkeeps⟩
  | @line _ front back hread hfront hnul _ =>
      have hsplit : ((front ++ newline :: back) ++
          (List.replicate buffsize 0).drop (front ++ newline :: back).length).map some =
          front.map some ++ some newline :: (back ++
            (List.replicate buffsize 0).drop (front ++ newline :: back).length).map some := by
        simp
      have hscan := strchr_found hfront hnul ((back ++
        (List.replicate buffsize 0).drop (front ++ newline :: back).length).map some)
      have hcopy := strncpy_eq (notMem_line hnul) ((back ++
        (List.replicate buffsize 0).drop (front ++ newline :: back).length).map some)
      rw [List.map_append, List.append_assoc, List.map_singleton, List.singleton_append,
        ← hsplit] at hcopy
      rw [← hsplit] at hscan
      obtain ⟨s, hround, hgathered, hstate, hsent, hkeeps⟩ :=
        readLineRound_collect choices proc hline hread (by simp) hscan List.length_append hcopy fd
      obtain ⟨heap, hterminate, hholds, hclosed⟩ :=
        hgathered.terminate (by simp) (notMem_line hnul)
      exact ⟨_, _, readLine_of_loop (.leave hround) LineEnd.noConfusion hterminate eof,
        hstate, hsent, hholds, hkeeps.trans hclosed⟩
  | @unterminated middle _ _ hread hne hnewline hnul hshort hend =>
      -- the block is followed by the zeros the local buffer starts with
      have hsplit : (text ++ (List.replicate buffsize 0).drop text.length).map some =
          text.map some ++ some 0 :: (List.replicate (buffsize - text.length - 1) 0).map some := by
        rw [List.drop_replicate, List.map_append, ← List.map_cons, ← List.replicate_succ]
        congr 3
        omega
      have hscan := strchr_none (by decide : terminatorCharacter ≠ 0) hnewline hnul
        ((List.replicate (buffsize - text.length - 1) 0).map some)
      have hcopy := strncpy_eq hnul
        (some 0 :: (List.replicate (buffsize - text.length - 1) 0).map some)
      rw [← hsplit] at hscan hcopy
      obtain ⟨s, hround, hgathered, hstate, hsent, hkeeps⟩ :=
        readLineRound_collect choices proc hline hread hne hscan rfl hcopy fd
      have hlast := readLineRound_atEnd choices s (hstate ▸ hend) fd
      obtain ⟨heap, hterminate, hholds, hclosed⟩ := hgathered.terminate hne hnul
      exact ⟨_, _, readLine_of_loop (.again hround (.leave hlast)) LineEnd.noConfusion
        hterminate eof, rfl, hsent, hholds, hkeeps.trans hclosed⟩

/-- The scan of a full block without a newline leaves the local buffer. -/
theorem Overrun.readLine {file : φ} (h : Overrun ops file) {proc : Process (Machine φ)}
    (hfile : proc.state.file = file) (line : Option Ptr) (fd : Nat) (eof : Bool) :
    Settles (fun fuel => aesdsocketReadLine (Machine.os ops choices) fuel fd proc line eof)
      (.error .outOfBounds) := by
  subst hfile
  obtain ⟨file', bytes, hread, hfull, hnewline, hnul⟩ := h
  have hbuffer : bytes ++ (List.replicate buffsize 0).drop bytes.length = bytes := by
    rw [hfull, List.drop_eq_nil_of_le (Nat.le_of_eq List.length_replicate), List.append_nil]
  have hne : bytes ≠ [] := by
    rintro rfl
    exact absurd hfull (by decide)
  have hcollect : LineBuffer.collect (Machine.os ops choices)
      ⟨⟨{ proc.state with file := file' }, proc.heap⟩, List.replicate buffsize 0, line, 0⟩ bytes =
      .error .outOfBounds := by
    have hscan : strchr terminatorCharacter (bytes.map some) = .error .outOfBounds :=
      strchr_overrun hnewline hnul
    unfold LineBuffer.collect LineBuffer.scan
    simp only [hbuffer, hscan, Exec.error_bind]
  have hround := readLineRound_bytes choices (.start proc line) hread hne fd
  exact (LoopSettles.fault (hround.of_eq hcollect)).settles.fault_bind

end

end Aesd

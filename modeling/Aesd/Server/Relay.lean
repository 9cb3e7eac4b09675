import Aesd.Server.ReadLine
import Aesd.Server.SendLine

/-!
# Relaying a file

`aesdsocket_read_and_send_file` sends the lines that `aesdsocket_read_line`
hands over, one after the other, up to the one at the end of the file.
-/

namespace Aesd

open CSem

variable {φ : Type} {ops : FileOps φ}

/-- The lines of a file up to its end, put together. -/
inductive Relays (ops : FileOps φ) : φ → List UInt8 → φ → Prop
  | last {file file' : φ} {text : List UInt8} (hline : LineOf ops file file' text true) :
      Relays ops file text file'
  | more {file middle file' : φ} {text others : List UInt8}
      (hline : LineOf ops file middle text false) (hrest : Relays ops middle others file') :
      Relays ops file (text ++ others) file'

/-- Some lines, and then a block whose scan leaves the local buffer. -/
inductive Overruns (ops : FileOps φ) : φ → Prop
  | here {file : φ} (hover : Overrun ops file) : Overruns ops file
  | later {file middle : φ} {text : List UInt8} (hline : LineOf ops file middle text false)
      (hrest : Overruns ops middle) : Overruns ops file

section

variable (choices : Choices)

/-- A round reads a line and sends it. -/
theorem readAndSendRound_settles {file file' : φ} {text old : List UInt8} {ended : Bool}
    (h : LineOf ops file file' text ended) {proc : Process (Machine φ)} {line : Option Ptr}
    (hfile : proc.state.file = file) (hline : HoldsLine proc.heap line old)
    (socketFd fileFd : Nat) :
    ∃ proc' line',
      Settles (fun fuel =>
          readAndSendRound (Machine.os ops choices) fuel socketFd fileFd (proc, line))
        (.ok (if ended then .leave (proc'.send text, line', true)
          else .again (proc'.send text, line'))) ∧
      LineRead proc line file' text proc' line' := by
  obtain ⟨proc', line', hread, hline'⟩ :=
    h.readLine choices hfile hline fileFd false
  refine ⟨proc', line', ?_, hline'⟩
  have hlt : text.length < 2 ^ 64 := Nat.lt_of_le_of_lt h.length_le (by decide)
  refine hread.bind ?_
  refine (sendNonEmpty_settles ops choices hline'.holds hlt socketFd).bind ?_
  cases ended with
  | false => exact Settles.const _
  | true => exact Settles.const _

/-- The relay loop sends all lines. -/
theorem Relays.loop {file file' : φ} {reply : List UInt8} (h : Relays ops file reply file')
    {old : List UInt8} {proc : Process (Machine φ)} {line : Option Ptr}
    (hfile : proc.state.file = file) (hline : HoldsLine proc.heap line old)
    (socketFd fileFd : Nat) :
    ∃ proc' line' text,
      LoopSettles (fun fuel => readAndSendRound (Machine.os ops choices) fuel socketFd fileFd)
        (proc, line) (.ok (proc', line', true)) ∧
      proc'.state.file = file' ∧ proc'.state.sent = proc.state.sent ++ reply ∧
      HoldsLine proc'.heap line' text ∧ KeepsOthers proc.heap line proc'.heap line' := by
  induction h generalizing old proc line with
  | last hone =>
      obtain ⟨proc', line', hround, hread⟩ :=
        readAndSendRound_settles choices hone hfile hline socketFd fileFd
      refine ⟨_, line', _, .leave hround, hread.file, ?_, hread.holds, hread.keeps⟩
      simp only [Process.send, hread.sent]
  | @more _ _ _ text others hone _ ih =>
      obtain ⟨middle, between, hround, hread⟩ :=
        readAndSendRound_settles choices hone hfile hline socketFd fileFd
      have hnext : (middle.send text).state.file = _ := hread.file
      have hbetween : HoldsLine (middle.send text).heap between text := hread.holds
      obtain ⟨proc', line', last, hloop, hfile', hsent, hholds, hkeeps⟩ := ih hnext hbetween
      refine ⟨proc', line', last, .again hround hloop, hfile', ?_, hholds,
        hread.keeps.trans hkeeps⟩
      rw [hsent]
      simp only [Process.send, hread.sent, List.append_assoc]

/-- The whole function sends all lines and gives its line buffer back. -/
theorem Relays.readAndSendFile {file file' : φ} {reply : List UInt8}
    (h : Relays ops file reply file') (proc : Process (Machine φ))
    (hfile : proc.state.file = file) (socketFd fileFd : Nat) :
    ∃ proc',
      Settles (fun fuel =>
          aesdsocketReadAndSendFile (Machine.os ops choices) fuel socketFd fileFd proc)
        (.ok (proc', true)) ∧
      proc'.state.file = file' ∧ proc'.state.sent = proc.state.sent ++ reply ∧
      ∀ q, (proc.heap.block? q).isSome → proc'.heap.block? q = proc.heap.block? q := by
  have hnone : HoldsLine proc.heap none [] := rfl
  obtain ⟨proc', line', text, hloop, hfile', hsent, hholds, hkeeps⟩ :=
    h.loop choices hfile hnone socketFd fileFd
  obtain ⟨heap, hfree⟩ : ∃ heap, proc'.heap.freeNonNull line' = .ok heap := by
    cases line' with
    | none => exact ⟨_, rfl⟩
    | some p =>
        obtain ⟨heap, hfree, _⟩ := Heap.free_spec (hholds.live p rfl)
        exact ⟨heap, hfree⟩
  refine ⟨⟨proc'.state, heap⟩, hloop.settles.bind ?_, hfile', hsent, ?_⟩
  · simp only [hfree, Exec.ok_bind]
    exact Settles.const _
  · intro q hlive
    obtain ⟨hblock, hne⟩ := hkeeps q hlive nofun
    rw [← hblock]
    exact Heap.block?_freeNonNull hfree hne

theorem Overruns.loop {file : φ} (h : Overruns ops file) {old : List UInt8}
    {proc : Process (Machine φ)} {line : Option Ptr} (hfile : proc.state.file = file)
    (hline : HoldsLine proc.heap line old) (socketFd fileFd : Nat) :
    LoopSettles (fun fuel => readAndSendRound (Machine.os ops choices) fuel socketFd fileFd)
      (proc, line) (.error .outOfBounds) := by
  induction h generalizing old proc line with
  | here hover => exact .fault (hover.readLine choices hfile line fileFd false).fault_bind
  | @later _ _ text hone _ ih =>
      obtain ⟨middle, between, hround, hread⟩ :=
        readAndSendRound_settles choices hone hfile hline socketFd fileFd
      have hnext : (middle.send text).state.file = _ := hread.file
      have hbetween : HoldsLine (middle.send text).heap between text := hread.holds
      exact .again hround (ih hnext hbetween)

theorem Overruns.readAndSendFile {file : φ} (h : Overruns ops file)
    (proc : Process (Machine φ)) (hfile : proc.state.file = file) (socketFd fileFd : Nat) :
    Settles (fun fuel =>
        aesdsocketReadAndSendFile (Machine.os ops choices) fuel socketFd fileFd proc)
      (.error .outOfBounds) := by
  have hnone : HoldsLine proc.heap none [] := rfl
  exact (h.loop choices hfile hnone socketFd fileFd).settles.fault_bind

end

end Aesd

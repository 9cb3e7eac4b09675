import Aesd.Foundation.MachineInt
import Aesd.Server.LineBuffer
import Aesd.Server.Machine

/-!
# Passing a line on

A loop passes on what is left of a line, the last bytes of the string, until
nothing is left.
-/

namespace Aesd

open CSem

variable {φ : Type} {heap : Heap} {p : Ptr} {text : List UInt8} (ops : FileOps φ)
  (choices : Choices)

/-- The bytes that are left are the last ones of the string. -/
theorem remainingBytes_eq (h : heap.HoldsString p text) {count : Nat} (hle : count ≤ text.length) :
    remainingBytes heap (some p) count = .ok (text.drop (text.length - count)) := by
  obtain ⟨cells, hcells, hlength⟩ := h.exists_strlen
  unfold remainingBytes
  rw [hcells, Exec.ok_bind, hlength, Exec.ok_bind,
    if_neg (Nat.not_lt.mpr hle), h.load (by omega)]
  rw [List.take_of_length_le (by rw [List.length_drop]; omega)]

/-- Bytes sent to the client. -/
def Process.send (proc : Process (Machine φ)) (bytes : List UInt8) : Process (Machine φ) :=
  ⟨{ proc.state with sent := proc.state.sent ++ bytes }, proc.heap⟩

/-- One round sends the next bytes, and at least one of them. -/
theorem sendLineRound_again {proc : Process (Machine φ)} (h : proc.heap.HoldsString p text)
    {count : Nat} (hpos : 0 < count) (hle : count ≤ text.length) (hlt : text.length < 2 ^ 64)
    (fd : Nat) :
    ∃ sent, 0 < sent ∧ sent ≤ count ∧
      Settles (fun fuel => sendLineRound (Machine.os ops choices) fuel fd (some p) (proc, count))
        (.ok (.again (proc.send ((text.drop (text.length - count)).take sent), count - sent))) := by
  have hoffered : (text.drop (text.length - count)).length = count := by
    rw [List.length_drop]
    omega
  obtain ⟨hsent, hbound⟩ := choices.sendCount_bounds proc.state.sent.length hpos
  refine ⟨choices.sendCount proc.state.sent.length count, hsent, hbound, ?_⟩
  have hcall := Machine.send_settles ops choices proc.state (text.drop (text.length - count)) fd
  have hleft : u64 ((count : Int) - (choices.sendCount proc.state.sent.length count : Nat)) =
      count - choices.sendCount proc.state.sent.length count := u64_sub hbound (by omega)
  unfold sendLineRound
  simp only [if_neg (Nat.ne_of_gt hpos), remainingBytes_eq h hle, Exec.ok_bind]
  rw [hoffered] at hcall
  refine hcall.bind ?_
  simp only [hleft]
  exact Settles.const _

/-- The loop sends all that is left. -/
theorem sendLine_loop {proc : Process (Machine φ)} (h : proc.heap.HoldsString p text) {count : Nat}
    (hle : count ≤ text.length) (hlt : text.length < 2 ^ 64) (fd : Nat) :
    LoopSettles (fun fuel => sendLineRound (Machine.os ops choices) fuel fd (some p)) (proc, count)
      (.ok (proc.send (text.drop (text.length - count)), true)) := by
  induction count using Nat.strong_induction_on generalizing proc with
  | _ count ih =>
    by_cases hzero : count = 0
    · subst hzero
      have hnone : proc.send (text.drop (text.length - 0)) = proc := by
        rw [Nat.sub_zero, List.drop_length, Process.send, List.append_nil]
      rw [hnone]
      exact .leave (Settles.const _)
    · obtain ⟨sent, hsent, hbound, hround⟩ :=
        sendLineRound_again ops choices h (by omega) hle hlt fd
      have hnext : (proc.send ((text.drop (text.length - count)).take sent)).heap.HoldsString p
          text := h
      have hrest := ih (count - sent) (by omega) hnext (by omega)
      have hwhole : (proc.send ((text.drop (text.length - count)).take sent)).send
          (text.drop (text.length - (count - sent))) =
          proc.send (text.drop (text.length - count)) := by
        have hdrop : text.drop (text.length - (count - sent)) =
            (text.drop (text.length - count)).drop sent := by
          rw [List.drop_drop]
          congr 1
          omega
        rw [hdrop]
        simp only [Process.send, List.append_assoc, List.take_append_drop]
      rw [← hwhole]
      exact .again hround hrest

/-- A line that is not empty is sent, and an empty one needs no sending. -/
theorem sendNonEmpty_settles {proc : Process (Machine φ)} {line : Option Ptr}
    (h : HoldsLine proc.heap line text) (hlt : text.length < 2 ^ 64) (fd : Nat) :
    Settles (fun fuel => sendNonEmpty (Machine.os ops choices) fuel fd proc line)
      (.ok (proc.send text, true)) := by
  have hnone : proc.send [] = proc := by rw [Process.send, List.append_nil]
  cases line with
  | none =>
      rw [show text = [] from h, hnone]
      exact Settles.const _
  | some p =>
      have hstring : proc.heap.HoldsString p text := h
      obtain ⟨cells, hcells, hlength⟩ := hstring.exists_strlen
      unfold sendNonEmpty aesdsocketSendLine
      simp only [hcells, Exec.ok_bind, hlength]
      by_cases hempty : text.length = 0
      · rw [List.eq_nil_of_length_eq_zero hempty, hnone]
        exact Settles.const _
      · simp only [ne_eq, hempty, not_false_eq_true, if_true]
        have hloop := sendLine_loop ops choices hstring (Nat.le_refl _) hlt fd
        rw [Nat.sub_self, List.drop_zero] at hloop
        exact hloop.settles

/-- A line that the file takes in one write is written once. -/
theorem writeLine_settles {proc : Process (Machine φ)} (h : proc.heap.HoldsString p text)
    (hne : text ≠ []) {file : φ}
    (hwrite : ops.write proc.state.file text = .ok (file, .done text.length)) (fd : Nat) :
    Settles (fun fuel => aesdsocketWriteLine (Machine.os ops choices) fuel fd proc (some p))
      (.ok (⟨{ proc.state with file := file }, proc.heap⟩, true)) := by
  have hpos : 0 < text.length := List.length_pos_of_ne_nil hne
  have hcall := Machine.write_settles ops choices (m := proc.state) hwrite fd
  have hbytes := remainingBytes_eq h (Nat.le_refl text.length)
  rw [Nat.sub_self, List.drop_zero] at hbytes
  have hround : Settles (fun fuel => writeLineRound (Machine.os ops choices) fuel fd (some p)
      (proc, text.length)) (.ok (.again (⟨{ proc.state with file := file }, proc.heap⟩, 0))) := by
    unfold writeLineRound
    simp only [if_neg (Nat.ne_of_gt hpos), hbytes, Exec.ok_bind]
    refine hcall.bind ?_
    simp only [Int.sub_self]
    exact Settles.const _
  obtain ⟨cells, hcells, hlength⟩ := h.exists_strlen
  unfold aesdsocketWriteLine
  simp only [hcells, Exec.ok_bind, hlength]
  exact (LoopSettles.again hround (.leave (Settles.const _))).settles.bind (Settles.const _)

end Aesd

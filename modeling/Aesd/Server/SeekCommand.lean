import Aesd.Foundation.Lines
import Aesd.Foundation.MachineInt
import Aesd.Server.LineBuffer
import Mathlib.Data.List.TakeWhile

/-!
# The seek command

The server looks for a colon, a comma behind it and a newline behind that, and
takes what stands between them for the two numbers of the command.
-/

namespace Aesd

open CSem LineStream

/-- What stands between the first colon and the first comma after it, and from
there up to the next newline. -/
def seektoFields (line : List UInt8) : Option (List UInt8 × List UInt8) := do
  let (_, fields) ← cut 58 line
  let (command, rest) ← cut 44 fields
  let (offset, _) ← cut 10 rest
  some (command, offset)

/-- The command that two fields stand for. -/
def toSeekto (fields : List UInt8 × List UInt8) : AesdSeekto :=
  ⟨UInt32.ofNat (u32 (atoi fields.1)), UInt32.ofNat (u32 (atoi fields.2))⟩

/-- When a line is a command with all its separators, both fields leave room for
a NUL in the array. -/
def FieldsFit (seektoCommand line : List UInt8) : Prop :=
  seektoCommand <+: line → ∀ fields, seektoFields line = some fields →
    fields.1.length < buffsize ∧ fields.2.length < buffsize

/-- Where the colon, the comma and the newline of a command are found. -/
def separators (heap : Heap) (line : Option Ptr) : Exec (Option (Nat × Nat × Nat)) := do
  match ← lineStrchr heap line 0 58 with
  | none => .ok none
  | some colon => do
      match ← lineStrchr heap line (colon + 1) 44 with
      | none => .ok none
      | some comma => do
          match ← lineStrchr heap line (comma + 1) 10 with
          | none => .ok none
          | some newline => .ok (some (colon, comma, newline))

/-- Take the numbers of a command from between its separators. -/
def parseFields (heap : Heap) (line : Option Ptr) :
    Option (Nat × Nat × Nat) → Exec (Option AesdSeekto)
  | none => .ok none
  | some (colon, comma, newline) => do
      let commandBuffer ← copyField heap line (colon + 1) (comma - (colon + 1))
        (List.replicate buffsize 0)
      let writeCmd := u32 (atoi commandBuffer)
      let commandBuffer ← copyField heap line (comma + 1) (newline - (comma + 1)) commandBuffer
      let writeCmdOffset := u32 (atoi commandBuffer)
      .ok (some ⟨UInt32.ofNat writeCmd, UInt32.ofNat writeCmdOffset⟩)

/-- First all separators are looked for, then the fields are copied. -/
theorem parseSeekto_eq_bind (heap : Heap) (line : Option Ptr) :
    parseSeekto heap line = separators heap line >>= parseFields heap line := by
  unfold parseSeekto separators
  cases lineStrchr heap line 0 58 with
  | error fault => rfl
  | ok found =>
      cases found with
      | none => rfl
      | some colon =>
          simp only [Exec.ok_bind]
          cases lineStrchr heap line (colon + 1) 44 with
          | error fault => rfl
          | ok found =>
              cases found with
              | none => rfl
              | some comma =>
                  simp only [Exec.ok_bind]
                  cases lineStrchr heap line (comma + 1) 10 with
                  | error fault => rfl
                  | ok found =>
                      cases found with
                      | none => rfl
                      | some newline => rfl

/-! ## Numbers -/

/-- Characters in front of a NUL decide on the number. -/
theorem strtol_append_nul (field rest : List UInt8) :
    strtol (field ++ 0 :: rest) = strtol field := by
  have hspaces : (field ++ 0 :: rest).dropWhile isSpace = field.dropWhile isSpace ++ 0 :: rest := by
    induction field with
    | nil => rfl
    | cons char field ih =>
        rw [List.cons_append, List.dropWhile_cons, List.dropWhile_cons, ih]
        split
        · rfl
        · rfl
  have hdigits : ∀ text : List UInt8,
      (text ++ 0 :: rest).takeWhile isDigit = text.takeWhile isDigit := by
    intro text
    induction text with
    | nil => rfl
    | cons char text ih =>
        rw [List.cons_append, List.takeWhile_cons, List.takeWhile_cons, ih]
  unfold strtol
  rw [hspaces]
  cases field.dropWhile isSpace with
  | nil => rfl
  | cons char text =>
      have hall := hdigits (char :: text)
      rw [List.cons_append] at hall ⊢
      by_cases hminus : char = 45
      · subst hminus
        simp only [hdigits]
      · by_cases hplus : char = 43
        · subst hplus
          simp only [hdigits]
        · simp only [List.cons.injEq, hminus, hplus, false_and, imp_self, implies_true, hall]

theorem isDigit_bounds {char : UInt8} (hdigit : isDigit char = true) : 48 ≤ char ∧ char ≤ 57 := by
  unfold isDigit at hdigit
  simpa using hdigit

/-- A sequence of digits is its decimal value, unless that is out of range. -/
theorem strtol_digits {digits : List UInt8} (hdigits : ∀ char ∈ digits, isDigit char = true)
    (hlt : decimal digits < 2 ^ 63) : strtol digits = decimal digits := by
  have htake : digits.takeWhile isDigit = digits := List.takeWhile_eq_self_iff.mpr hdigits
  have hvalue : ∀ value : Int, value = decimal digits →
      (if value < -2 ^ 63 then -2 ^ 63 else if 2 ^ 63 ≤ value then 2 ^ 63 - 1 else value) =
        (decimal digits : Int) := by
    rintro _ rfl
    rw [if_neg (by omega), if_neg (by omega)]
  cases digits with
  | nil => rfl
  | cons char digits =>
      obtain ⟨hlower, hupper⟩ := isDigit_bounds (hdigits char List.mem_cons_self)
      have hspace : isSpace char = false := by
        unfold isSpace
        simp only [Bool.or_eq_false_iff, decide_eq_false_iff_not, Bool.and_eq_false_iff]
        rw [UInt8.le_iff_toNat_le] at hlower hupper
        refine ⟨?_, Or.inr ?_⟩
        · rintro rfl
          exact absurd hlower (by decide)
        · rw [UInt8.le_iff_toNat_le]
          exact Nat.not_le.mpr (Nat.lt_of_lt_of_le (by decide) hlower)
      have hminus : char ≠ 45 := by
        rintro rfl
        exact absurd hlower (by decide)
      have hplus : char ≠ 43 := by
        rintro rfl
        exact absurd hlower (by decide)
      unfold strtol
      rw [List.dropWhile_cons, if_neg (by simp [hspace])]
      simp only [List.cons.injEq, hminus, hplus, false_and, imp_self, implies_true, htake]
      exact hvalue _ rfl

/-- A field of digits stands for its value. -/
theorem u32_atoi_digits {digits : List UInt8} (hdigits : ∀ char ∈ digits, isDigit char = true)
    (hlt : decimal digits < 2 ^ 32) : u32 (atoi digits) = decimal digits := by
  unfold atoi
  rw [strtol_digits hdigits (by omega)]
  unfold u32 s32
  omega

/-! ## Fields -/

section

variable {heap : Heap} {p : Ptr} {line : List UInt8}

/-- A search in a line finds where the line is cut. -/
theorem lineStrchr_eq (h : heap.HoldsString p line) {char : UInt8} (hchar : char ≠ 0)
    {offset : Nat} (hle : offset ≤ line.length) :
    lineStrchr heap (some p) offset char =
      .ok ((cut char (line.drop offset)).map fun parts => parts.1.length + offset) := by
  obtain ⟨cells, hcells⟩ := h.cellsAt hle
  have hnul : 0 ∉ line.drop offset := fun hmem => h.noNul (List.mem_of_mem_drop hmem)
  unfold lineStrchr
  rw [hcells, Exec.ok_bind]
  rcases cut_cases char (line.drop offset) with ⟨hnot, hcut⟩ | ⟨front, back, hsplit, hnot, hcut⟩
  · rw [strchr_none hchar hnot hnul, hcut]
    rfl
  · rw [hsplit] at hnul
    have hfront : 0 ∉ front := fun hmem => hnul (List.mem_append_left _ hmem)
    rw [hcut, hsplit, List.map_append, List.map_cons, List.append_assoc, List.cons_append,
      strchr_found hnot hfront]
    rfl

/-- What is copied of a line from some place on, up to a separator. -/
theorem cellsAt_of_drop (h : heap.HoldsString p line) {start : Nat} {field rest : List UInt8}
    {char : UInt8} (hdrop : line.drop start = field ++ char :: rest) :
    ∃ cells, heap.cellsAt (some p) start = .ok (field.map some ++ cells) ∧ 0 ∉ field := by
  have hle : start ≤ line.length := by
    by_contra hgt
    rw [List.drop_eq_nil_of_le (Nat.le_of_not_le hgt)] at hdrop
    exact absurd hdrop.symm (by simp)
  obtain ⟨cells, hcells⟩ := h.cellsAt hle
  rw [hdrop, List.map_append, List.append_assoc] at hcells
  refine ⟨_, hcells, fun hmem => h.noNul (List.mem_of_mem_drop (i := start) ?_)⟩
  rw [hdrop]
  exact List.mem_append_left _ hmem

/-- Copying a field puts it, with a NUL, in front of what the array held. -/
theorem copyField_eq (h : heap.HoldsString p line) {start : Nat} {field rest : List UInt8}
    {char : UInt8} (hdrop : line.drop start = field ++ char :: rest) {commandBuffer : List UInt8}
    (hbuffer : commandBuffer.length = buffsize) (hfit : field.length < buffsize) :
    copyField heap (some p) start field.length commandBuffer =
      .ok (field ++ 0 :: commandBuffer.drop (field.length + 1)) := by
  obtain ⟨cells, hcells, hfield⟩ := cellsAt_of_drop h hdrop
  unfold copyField storeLocal
  rw [hcells, Exec.ok_bind, strncpy_eq hfield, Exec.ok_bind, if_pos (by omega), Exec.ok_bind]
  simp only [List.take_zero, List.nil_append, Nat.zero_add, List.length_append,
    List.length_drop, List.length_singleton]
  rw [if_pos (by omega), List.take_left' rfl, List.drop_append, List.drop_eq_nil_of_le (by omega),
    List.nil_append, List.drop_drop, List.append_assoc]
  rw [List.singleton_append]
  congr 4
  omega

theorem length_copied {field commandBuffer : List UInt8} (hbuffer : commandBuffer.length = buffsize)
    (hfit : field.length < buffsize) :
    (field ++ 0 :: commandBuffer.drop (field.length + 1)).length = buffsize := by
  rw [List.length_append, List.length_cons, List.length_drop]
  omega

/-- The separators of a line are found, or one of them is missing. -/
theorem separators_cases (h : heap.HoldsString p line) :
    (seektoFields line = none ∧ separators heap (some p) = .ok none) ∨
      ∃ colon command rest offset back,
        line.drop (colon + 1) = command ++ 44 :: rest ∧
        line.drop (command.length + (colon + 1) + 1) = offset ++ 10 :: back ∧
        seektoFields line = some (command, offset) ∧
        separators heap (some p) = .ok (some (colon, command.length + (colon + 1),
          offset.length + (command.length + (colon + 1) + 1))) := by
  unfold separators seektoFields
  rw [lineStrchr_eq h (by decide) (Nat.zero_le _), List.drop_zero]
  rcases cut_cases 58 line with ⟨_, hcolon⟩ | ⟨front, fields, hline, _, hcolon⟩
  · exact Or.inl (by simp [hcolon])
  have hfront : (front ++ [58]).length = front.length + 1 := List.length_append
  rw [List.append_cons] at hline
  have hdropColon : line.drop (front.length + 1) = fields := by
    rw [hline, ← hfront, List.drop_left]
  have hleColon : front.length + 1 ≤ line.length := by
    rw [hline, List.length_append, hfront]
    exact Nat.le_add_right _ _
  simp only [hcolon, Option.map_some, Exec.ok_bind, Option.bind_eq_bind, Option.bind_some,
    Nat.add_zero]
  rw [lineStrchr_eq h (by decide) hleColon, hdropColon]
  rcases cut_cases 44 fields with ⟨_, hcomma⟩ | ⟨command, rest, hfields, _, hcomma⟩
  · exact Or.inl (by simp [hcomma])
  have hcommand : (command ++ [44]).length = command.length + 1 := List.length_append
  have hdropComma : line.drop (command.length + (front.length + 1) + 1) = rest := by
    rw [Nat.add_right_comm, Nat.add_comm, ← List.drop_drop, hdropColon, hfields, List.append_cons,
      ← hcommand, List.drop_left]
  have hleComma : command.length + (front.length + 1) + 1 ≤ line.length := by
    rw [hline, List.length_append, hfront, hfields, List.append_cons, List.length_append, hcommand]
    omega
  simp only [hcomma, Option.map_some, Exec.ok_bind, Option.bind_some]
  rw [lineStrchr_eq h (by decide) hleComma, hdropComma]
  rcases cut_cases 10 rest with ⟨_, hnewline⟩ | ⟨offset, back, hrest, _, hnewline⟩
  · exact Or.inl (by simp [hnewline])
  refine Or.inr ⟨front.length, command, rest, offset, back, ?_, ?_, ?_, ?_⟩
  · rw [hdropColon, hfields]
  · rw [hdropComma, hrest]
  · rw [hnewline]
    rfl
  · rw [hnewline]
    rfl

/-- The server reads the fields of a command, if they fit in its array. -/
theorem parseSeekto_eq (h : heap.HoldsString p line)
    (hfit : ∀ fields, seektoFields line = some fields →
      fields.1.length < buffsize ∧ fields.2.length < buffsize) :
    parseSeekto heap (some p) = .ok ((seektoFields line).map toSeekto) := by
  rw [parseSeekto_eq_bind]
  rcases separators_cases h with
    ⟨hnone, hsearch⟩ | ⟨colon, command, rest, offset, back, hcolon, hcomma, hfields, hsearch⟩
  · rw [hnone, hsearch]
    rfl
  · obtain ⟨hcommand, hoffset⟩ := hfit _ hfields
    have hzeros : (List.replicate buffsize (0 : UInt8)).length = buffsize := List.length_replicate
    rw [hfields, hsearch, Exec.ok_bind, parseFields, Nat.add_sub_cancel, Nat.add_sub_cancel,
      copyField_eq h hcolon hzeros hcommand, Exec.ok_bind,
      copyField_eq h hcomma (length_copied hzeros hcommand) hoffset, Exec.ok_bind]
    simp only [atoi, strtol_append_nul]
    rfl

end

end Aesd

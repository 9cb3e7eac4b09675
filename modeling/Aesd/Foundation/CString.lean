import Aesd.Foundation.Heap

/-! # Strings of the C library

The string functions read cell after cell from a pointer on and stop where C
says they stop. Running off the cells, or over one that was never stored, is a
fault.
-/

namespace CSem

def strlen : List Cell → Exec Nat
  | [] => .error .outOfBounds
  | none :: _ => .error .uninitialized
  | some byte :: cells => if byte = 0 then .ok 0 else (strlen cells).map (· + 1)

/-- The index of the first occurrence of a character, if it comes before the
end of the string. -/
def strchr (char : UInt8) : List Cell → Exec (Option Nat)
  | [] => .error .outOfBounds
  | none :: _ => .error .uninitialized
  | some byte :: cells =>
      if byte = char then .ok (some 0)
      else if byte = 0 then .ok none
      else (strchr char cells).map fun found => found.map (· + 1)

/-- The bytes that `strncpy` stores: the string, cut off or padded with NULs. -/
def strncpy : List Cell → Nat → Exec (List UInt8)
  | _, 0 => .ok []
  | [], _ + 1 => .error .outOfBounds
  | none :: _, _ + 1 => .error .uninitialized
  | some byte :: cells, count + 1 =>
      if byte = 0 then .ok (List.replicate (count + 1) 0)
      else (strncpy cells count).map (byte :: ·)

/-- Whether `strncmp` finds two strings equal. -/
def strncmpEq : List Cell → List Cell → Nat → Exec Bool
  | _, _, 0 => .ok true
  | [], _, _ + 1 => .error .outOfBounds
  | none :: _, _, _ + 1 => .error .uninitialized
  | some _ :: _, [], _ + 1 => .error .outOfBounds
  | some _ :: _, none :: _, _ + 1 => .error .uninitialized
  | some byte :: cells, some byte' :: cells', count + 1 =>
      if byte ≠ byte' then .ok false
      else if byte = 0 then .ok true
      else strncmpEq cells cells' count

/-- Store into a local array. -/
def storeLocal (array : List UInt8) (offset : Nat) (bytes : List UInt8) : Exec (List UInt8) :=
  if offset + bytes.length ≤ array.length then
    .ok (array.take offset ++ bytes ++ array.drop (offset + bytes.length))
  else .error .outOfBounds

section Specs

variable {text : List UInt8}

theorem strlen_eq (hnul : 0 ∉ text) (cells : List Cell) :
    strlen (text.map some ++ some 0 :: cells) = .ok text.length := by
  induction text with
  | nil => rfl
  | cons byte text ih =>
      simp only [List.mem_cons, not_or] at hnul
      rw [List.map_cons, List.cons_append, strlen, if_neg (Ne.symm hnul.1), ih hnul.2]
      rfl

/-- The length of an array of bytes is found exactly when it holds a NUL. -/
theorem exists_strlen_iff : (∃ length, strlen (text.map some) = .ok length) ↔ 0 ∈ text := by
  induction text with
  | nil => simp [strlen]
  | cons byte text ih =>
      rw [List.map_cons, strlen, List.mem_cons]
      by_cases hnul : byte = 0
      · rw [if_pos hnul]
        exact iff_of_true ⟨0, rfl⟩ (Or.inl hnul.symm)
      · rw [if_neg hnul, ← ih]
        cases strlen (text.map some) with
        | error fault => simp [Except.map, Ne.symm hnul]
        | ok length => simp [Except.map]

theorem strchr_found {char : UInt8} (hnot : char ∉ text) (hnul : 0 ∉ text) (cells : List Cell) :
    strchr char (text.map some ++ some char :: cells) = .ok (some text.length) := by
  induction text with
  | nil => exact if_pos rfl
  | cons byte text ih =>
      simp only [List.mem_cons, not_or] at hnot hnul
      rw [List.map_cons, List.cons_append, strchr, if_neg (Ne.symm hnot.1),
        if_neg (Ne.symm hnul.1), ih hnot.2 hnul.2]
      rfl

theorem strchr_none {char : UInt8} (hchar : char ≠ 0) (hnot : char ∉ text) (hnul : 0 ∉ text)
    (cells : List Cell) : strchr char (text.map some ++ some 0 :: cells) = .ok none := by
  induction text with
  | nil =>
      rw [List.map_nil, List.nil_append, strchr, if_neg (Ne.symm hchar), if_pos rfl]
  | cons byte text ih =>
      simp only [List.mem_cons, not_or] at hnot hnul
      rw [List.map_cons, List.cons_append, strchr, if_neg (Ne.symm hnot.1),
        if_neg (Ne.symm hnul.1), ih hnot.2 hnul.2]
      rfl

/-- Cells without the character and without a NUL do not stop the search. -/
theorem strchr_overrun {char : UInt8} (hnot : char ∉ text) (hnul : 0 ∉ text) :
    strchr char (text.map some) = .error .outOfBounds := by
  induction text with
  | nil => rfl
  | cons byte text ih =>
      simp only [List.mem_cons, not_or] at hnot hnul
      rw [List.map_cons, strchr, if_neg (Ne.symm hnot.1), if_neg (Ne.symm hnul.1),
        ih hnot.2 hnul.2]
      rfl

/-- With the character or a NUL in front, the search ends there. -/
theorem strchr_append_of_stop {char : UInt8} (hstop : char ∈ text ∨ 0 ∈ text)
    (back : List UInt8) :
    ∃ found, strchr char ((text ++ back).map some) = .ok found ∧
      ∀ position, found = some position → position < text.length := by
  induction text with
  | nil => simp at hstop
  | cons byte text ih =>
      rw [List.cons_append, List.map_cons, strchr]
      by_cases hchar : byte = char
      · rw [if_pos hchar]
        exact ⟨some 0, rfl, fun position heq => Option.some.inj heq ▸ Nat.zero_lt_succ _⟩
      · by_cases hnul : byte = 0
        · rw [if_neg hchar, if_pos hnul]
          exact ⟨none, rfl, nofun⟩
        · simp only [List.mem_cons, Ne.symm hchar, Ne.symm hnul, false_or] at hstop
          obtain ⟨found, hfound, hlt⟩ := ih hstop
          rw [if_neg hchar, if_neg hnul, hfound]
          refine ⟨found.map (· + 1), rfl, fun position heq => ?_⟩
          obtain ⟨inner, hinner, rfl⟩ := Option.map_eq_some_iff.mp heq
          exact Nat.succ_lt_succ (hlt inner hinner)

/-- With neither in front, the search goes on behind it. -/
theorem strchr_append_of_clear {char : UInt8} (hnot : char ∉ text) (hnul : 0 ∉ text)
    (back : List UInt8) :
    strchr char ((text ++ back).map some) =
      (strchr char (back.map some)).map fun found => found.map (· + text.length) := by
  induction text with
  | nil =>
      rw [List.nil_append]
      cases strchr char (back.map some) with
      | error fault => rfl
      | ok found => simp [Except.map]
  | cons byte text ih =>
      simp only [List.mem_cons, not_or] at hnot hnul
      rw [List.cons_append, List.map_cons, strchr, if_neg (Ne.symm hnot.1),
        if_neg (Ne.symm hnul.1), ih hnot.2 hnul.2]
      cases strchr char (back.map some) with
      | error fault => rfl
      | ok found =>
          simp only [Except.map, Option.map_map, List.length_cons]
          rfl

/-- The search fails exactly when a NUL comes before the character. -/
theorem strchr_eq_none_iff {char : UInt8} (hchar : char ≠ 0) :
    strchr char (text.map some) = .ok none ↔
      ∃ front back, text = front ++ 0 :: back ∧ char ∉ front := by
  constructor
  · intro hnone
    induction text with
    | nil => cases hnone
    | cons byte text ih =>
        rw [List.map_cons, strchr] at hnone
        split at hnone
        next => cases hnone
        next hne =>
          split at hnone
          next hnul =>
            subst hnul
            exact ⟨[], text, rfl, List.not_mem_nil⟩
          next =>
            cases hrest : strchr char (text.map some) with
            | error fault =>
                rw [hrest] at hnone
                cases hnone
            | ok found =>
                rw [hrest] at hnone
                have hfound : found = none := Option.map_eq_none_iff.mp (Except.ok.inj hnone)
                obtain ⟨front, back, rfl, hfront⟩ := ih (hfound ▸ hrest)
                exact ⟨byte :: front, back, rfl, by simp [Ne.symm hne, hfront]⟩
  · rintro ⟨front, back, rfl, hfront⟩
    by_cases hnul : 0 ∈ front
    · -- the first NUL is the one that counts
      obtain ⟨before, after, rfl, hbefore⟩ := List.eq_append_cons_of_mem hnul
      have hnot : char ∉ before := fun hmem => hfront (List.mem_append_left _ hmem)
      rw [List.append_assoc, List.map_append]
      exact strchr_none hchar hnot hbefore _
    · rw [List.map_append]
      exact strchr_none hchar hfront hnul _

theorem strchr_lt {char : UInt8} {position : Nat}
    (hfound : strchr char (text.map some) = .ok (some position)) : position < text.length := by
  induction text generalizing position with
  | nil => cases hfound
  | cons byte text ih =>
      rw [List.map_cons, strchr] at hfound
      split at hfound
      next =>
        cases hfound
        exact Nat.zero_lt_succ _
      next =>
        split at hfound
        next => cases hfound
        next =>
          cases hrest : strchr char (text.map some) with
          | error fault =>
              rw [hrest] at hfound
              cases hfound
          | ok found =>
              rw [hrest] at hfound
              obtain ⟨inner, rfl, rfl⟩ := Option.map_eq_some_iff.mp (Except.ok.inj hfound)
              exact Nat.succ_lt_succ (ih hrest)

/-- `strncpy` of no more than there is. -/
theorem strncpy_of_le {count : Nat} (hle : count ≤ text.length) :
    ∃ copied, strncpy (text.map some) count = .ok copied ∧ copied.length = count := by
  induction text generalizing count with
  | nil =>
      obtain rfl : count = 0 := Nat.le_zero.mp hle
      exact ⟨[], rfl, rfl⟩
  | cons byte text ih =>
      cases count with
      | zero => exact ⟨[], rfl, rfl⟩
      | succ count =>
          rw [List.map_cons, strncpy]
          by_cases hnul : byte = 0
          · rw [if_pos hnul]
            exact ⟨_, rfl, List.length_replicate⟩
          · obtain ⟨copied, hcopied, hlength⟩ := ih (Nat.le_of_succ_le_succ hle)
            rw [if_neg hnul, hcopied]
            exact ⟨byte :: copied, rfl, congrArg Nat.succ hlength⟩

theorem strncpy_length {cells : List Cell} {count : Nat} {copied : List UInt8}
    (hcopied : strncpy cells count = .ok copied) : copied.length = count := by
  induction cells generalizing count copied with
  | nil =>
      cases count with
      | zero =>
          cases hcopied
          rfl
      | succ count => cases hcopied
  | cons cell cells ih =>
      cases count with
      | zero =>
          cases cell <;>
          · cases hcopied
            rfl
      | succ count =>
          cases cell with
          | none => cases hcopied
          | some byte =>
              rw [strncpy] at hcopied
              by_cases hnul : byte = 0
              · rw [if_pos hnul] at hcopied
                cases hcopied
                exact List.length_replicate
              · rw [if_neg hnul] at hcopied
                cases hrest : strncpy cells count with
                | error fault =>
                    rw [hrest] at hcopied
                    cases hcopied
                | ok rest =>
                    rw [hrest] at hcopied
                    cases hcopied
                    exact congrArg Nat.succ (ih hrest)

/-- Cells behind those that are copied do not matter. -/
theorem strncpy_append {count : Nat} (hle : count ≤ text.length) (cells : List Cell) :
    strncpy (text.map some ++ cells) count = strncpy (text.map some) count := by
  induction text generalizing count with
  | nil =>
      obtain rfl : count = 0 := Nat.le_zero.mp hle
      cases cells <;> rfl
  | cons byte text ih =>
      cases count with
      | zero => rfl
      | succ count =>
          rw [List.map_cons, List.cons_append, strncpy, strncpy,
            ih (Nat.le_of_succ_le_succ hle)]

theorem strncpy_eq (hnul : 0 ∉ text) (cells : List Cell) :
    strncpy (text.map some ++ cells) text.length = .ok text := by
  induction text with
  | nil =>
      cases cells <;> rfl
  | cons byte text ih =>
      simp only [List.mem_cons, not_or] at hnul
      rw [List.map_cons, List.cons_append, List.length_cons, strncpy, if_neg (Ne.symm hnul.1),
        ih hnul.2]
      rfl

/-- `strncpy` copies a NUL exactly when there is one in what it copies. -/
theorem zero_mem_strncpy_iff {copied : List UInt8}
    (hcopied : strncpy (text.map some) text.length = .ok copied) : 0 ∈ copied ↔ 0 ∈ text := by
  induction text generalizing copied with
  | nil =>
      cases hcopied
      exact Iff.rfl
  | cons byte text ih =>
      rw [List.map_cons, List.length_cons, strncpy] at hcopied
      by_cases hnul : byte = 0
      · rw [if_pos hnul] at hcopied
        cases hcopied
        exact iff_of_true List.mem_cons_self (hnul ▸ List.mem_cons_self)
      · rw [if_neg hnul] at hcopied
        cases hrest : strncpy (text.map some) text.length with
        | error fault =>
            rw [hrest] at hcopied
            cases hcopied
        | ok rest =>
            rw [hrest] at hcopied
            cases hcopied
            rw [List.mem_cons, List.mem_cons, ih hrest]

theorem storeLocal_eq_ok_iff {array bytes array' : List UInt8} {offset : Nat} :
    storeLocal array offset bytes = .ok array' ↔
      offset + bytes.length ≤ array.length ∧
        array.take offset ++ bytes ++ array.drop (offset + bytes.length) = array' := by
  unfold storeLocal
  split
  next hle => rw [Except.ok.injEq, and_iff_right hle]
  next hgt => exact iff_of_false (fun heq => by cases heq) fun h => hgt h.1

/-- A common front of the compared length is found equal. -/
theorem strncmpEq_same (cells cells' : List Cell) :
    strncmpEq (text.map some ++ cells) (text.map some ++ cells') text.length = .ok true := by
  induction text with
  | nil => cases cells <;> rfl
  | cons byte text ih =>
      rw [List.map_cons, List.cons_append, List.cons_append, List.length_cons, strncmpEq,
        if_neg (not_not.mpr rfl), ih, ite_self]

/-- A string with its NUL is found different from one it does not start with. -/
theorem strncmpEq_of_not_prefix {key : List UInt8} (hnul : 0 ∉ text) (hkey : 0 ∉ key)
    (hnot : ¬ key <+: text) (cells cells' : List Cell) :
    strncmpEq (text.map some ++ some 0 :: cells) (key.map some ++ cells') key.length =
      .ok false := by
  induction key generalizing text with
  | nil => exact absurd List.nil_prefix hnot
  | cons byte' key ih =>
      simp only [List.mem_cons, not_or] at hkey
      cases text with
      | nil =>
          rw [List.map_nil, List.nil_append, List.map_cons, List.cons_append, List.length_cons,
            strncmpEq, if_pos hkey.1]
      | cons byte text =>
          simp only [List.mem_cons, not_or] at hnul
          rw [List.map_cons, List.cons_append, List.map_cons, List.cons_append,
            List.length_cons, strncmpEq]
          by_cases heq : byte = byte'
          · subst heq
            rw [List.cons_prefix_cons] at hnot
            rw [if_neg (not_not.mpr rfl), if_neg (Ne.symm hnul.1)]
            exact ih hnul.2 hkey.2 fun hprefix => hnot ⟨rfl, hprefix⟩
          · rw [if_pos heq]

end Specs

namespace Heap

/-- The cells from a pointer on, to the end of its block. -/
def cellsAt (heap : Heap) (p : Option Ptr) (offset : Nat) : Exec (List Cell) :=
  match p with
  | none => .error .nullPointer
  | some p =>
      match heap.block? p with
      | none => .error .deadBlock
      | some cells =>
          if offset ≤ cells.length then .ok (cells.drop offset) else .error .outOfBounds

/-- The block holds a string and its NUL. -/
structure HoldsString (heap : Heap) (p : Ptr) (text : List UInt8) : Prop where
  holds : heap.Holds p 0 (text ++ [0])
  noNul : 0 ∉ text

variable {heap heap' : Heap} {p : Ptr} {text : List UInt8}

theorem HoldsString.congr (h : heap.HoldsString p text) (hblock : heap'.block? p = heap.block? p) :
    heap'.HoldsString p text :=
  ⟨h.holds.congr hblock, h.noNul⟩

theorem HoldsString.isSome (h : heap.HoldsString p text) : (heap.block? p).isSome := by
  obtain ⟨cells, hblock, _⟩ := h.holds
  simp [hblock]

/-- From a place inside the string on there is the rest of it, and the NUL. -/
theorem HoldsString.cellsAt (h : heap.HoldsString p text) {offset : Nat}
    (hle : offset ≤ text.length) :
    ∃ cells, heap.cellsAt (some p) offset = .ok ((text.drop offset).map some ++ some 0 :: cells) := by
  obtain ⟨cells, hblock, hbound, heq⟩ := h.holds
  rw [List.length_append, List.length_singleton, Nat.zero_add] at hbound
  have hsplit : cells = text.map some ++ some 0 :: cells.drop (text.length + 1) := by
    conv_lhs => rw [← List.take_append_drop (text.length + 1) cells]
    rw [List.drop_zero, List.length_append, List.length_singleton] at heq
    rw [heq]
    simp
  refine ⟨cells.drop (text.length + 1), ?_⟩
  unfold Heap.cellsAt
  simp only [hblock]
  rw [if_pos (by omega)]
  conv_lhs => rw [hsplit]
  rw [List.drop_append_of_le_length (by rwa [List.length_map]), List.map_drop]

/-- The length of a string that a block holds. -/
theorem HoldsString.exists_strlen (h : heap.HoldsString p text) :
    ∃ cells, heap.cellsAt (some p) 0 = .ok cells ∧ strlen cells = .ok text.length := by
  obtain ⟨cells, hcells⟩ := h.cellsAt (Nat.zero_le _)
  exact ⟨_, hcells, strlen_eq h.noNul cells⟩

/-- The bytes of a string from a place inside it on. -/
theorem HoldsString.load (h : heap.HoldsString p text) {offset count : Nat}
    (hle : offset + count ≤ text.length) :
    heap.load (some p) offset count = .ok ((text.drop offset).take count) := by
  have hslice := h.holds.slice offset count (by rw [List.length_append]; omega)
  rw [List.drop_append_of_le_length (by omega), List.take_append_of_le_length
    (by rw [List.length_drop]; omega), Nat.zero_add] at hslice
  have hload := hslice.load
  rwa [List.length_take, List.length_drop, Nat.min_eq_left (by omega)] at hload

end Heap

end CSem

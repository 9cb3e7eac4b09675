import Aesd.Server.Relay

/-!
# Replies from a regular file

The relay makes one line of each block it reads, and what follows the first
newline of a block is not sent. So a reply from a regular file is complete only
if its newlines end the blocks.
-/

namespace Aesd

open CSem

/-- A regular file with the position of its descriptor. -/
structure RegularFile where
  content : List UInt8
  fPos : Nat

namespace RegularFile

/-- The bytes from the position on. -/
def remaining (file : RegularFile) : List UInt8 := file.content.drop file.fPos

/-- A read fetches what is left, as far as asked for; writes append. -/
def ops : FileOps RegularFile where
  openFile file := { file with fPos := 0 }
  read file count :=
    let bytes := file.remaining.take count
    .ok ({ file with fPos := file.fPos + bytes.length }, .done bytes)
  write file bytes :=
    let content := file.content ++ bytes
    .ok (⟨content, content.length⟩, .done bytes.length)
  ioctl file _ := .ok (file, .failed)

/-- The bytes that one read of the relay fetches, counted from the start. -/
def block (content : List UInt8) (index : Nat) : List UInt8 :=
  (content.drop (buffsize * index)).take buffsize

/-- In every block a newline is the last byte, and a full block has one. -/
def NewlinesEndBlocks (content : List UInt8) : Prop :=
  ∀ index, newline ∉ (block content index).dropLast ∧
    ((block content index).length = buffsize → newline ∈ block content index)

theorem newlinesEndBlocks_iff (content : List UInt8) :
    NewlinesEndBlocks content ↔
      (newline ∉ (content.take buffsize).dropLast ∧
        ((content.take buffsize).length = buffsize → newline ∈ content.take buffsize)) ∧
      NewlinesEndBlocks (content.drop buffsize) := by
  have hshift : ∀ index, block (content.drop buffsize) index = block content (index + 1) := by
    intro index
    rw [block, block, List.drop_drop, Nat.mul_succ, Nat.add_comm]
  have hfirst : block content 0 = content.take buffsize := rfl
  constructor
  · intro h
    refine ⟨hfirst ▸ h 0, fun index => ?_⟩
    rw [hshift]
    exact h (index + 1)
  · rintro ⟨hblock, hrest⟩ index
    cases index with
    | zero => exact hblock
    | succ index =>
        rw [← hshift]
        exact hrest index

theorem newlinesEndBlocks_nil : NewlinesEndBlocks [] := by
  intro index
  rw [block, List.drop_nil, List.take_nil]
  exact ⟨List.not_mem_nil, fun hfull => absurd hfull (by decide)⟩

/-- The descriptor after a block was read. -/
def advance (file : RegularFile) : RegularFile :=
  { file with fPos := file.fPos + (file.remaining.take buffsize).length }

theorem read_eq (file : RegularFile) :
    ops.read file buffsize = .ok (file.advance, .done (file.remaining.take buffsize)) := rfl

theorem remaining_advance (file : RegularFile) :
    file.advance.remaining = file.remaining.drop buffsize := by
  unfold advance remaining
  rw [← List.drop_drop, List.length_take]
  by_cases hle : buffsize ≤ (file.content.drop file.fPos).length
  · rw [Nat.min_eq_left hle]
  · rw [Nat.min_eq_right (by omega), List.drop_length, List.drop_eq_nil_of_le (by omega)]

/-- The first newline of a block ends the line. The rest of the block is passed
over, so the line is the whole block only if nothing follows. -/
theorem lineOf_of_mem {file : RegularFile} {front back : List UInt8}
    (hnul : 0 ∉ file.remaining)
    (hblock : file.remaining.take buffsize = front ++ newline :: back) (hnot : newline ∉ front) :
    LineOf ops file file.advance (front ++ [newline]) false := by
  have hlength := congrArg List.length hblock
  rw [List.length_take, List.length_append, List.length_cons] at hlength
  have hread : ops.read file buffsize = .ok (file.advance, .done (front ++ newline :: back)) := by
    rw [read_eq, hblock]
  refine .line hread hnot ?_ (by omega)
  intro hmem
  apply hnul
  apply List.mem_of_mem_take (i := buffsize)
  rw [hblock]
  exact List.mem_append_left _ hmem

/-- A short block without a newline is the end of the file. -/
theorem relays_of_short {file : RegularFile} (hnul : 0 ∉ file.remaining)
    (hnot : newline ∉ file.remaining) (hshort : file.remaining.length < buffsize) :
    ∃ file', Relays ops file file.remaining file' := by
  have hblock : file.remaining.take buffsize = file.remaining :=
    List.take_of_length_le (Nat.le_of_lt hshort)
  have hend : file.advance.remaining = [] := by
    rw [remaining_advance, List.drop_eq_nil_of_le (Nat.le_of_lt hshort)]
  by_cases hnil : file.remaining = []
  · refine ⟨file.advance, .last ?_⟩
    rw [hnil]
    exact .atEnd (by rw [read_eq, hnil, List.take_nil])
  · have hread : ops.read file buffsize = .ok (file.advance, .done file.remaining) := by
      rw [read_eq, hblock]
    refine ⟨file.advance.advance, .last (.unterminated hread hnil hnot hnul hshort ?_)⟩
    rw [read_eq, hend, List.take_nil]

/-- Either all that is left is relayed, or the relay overruns its buffer, or it
loses bytes. -/
theorem relay_cases (file : RegularFile) (hnul : 0 ∉ file.remaining) :
    (NewlinesEndBlocks file.remaining ∧ ∃ file', Relays ops file file.remaining file') ∨
      (¬ NewlinesEndBlocks file.remaining ∧
        (Overruns ops file ∨
          ∃ reply file', Relays ops file reply file' ∧ reply.length < file.remaining.length)) := by
  induction hleft : file.remaining.length using Nat.strong_induction_on generalizing file with
  | _ left ih =>
    rw [newlinesEndBlocks_iff]
    by_cases hmem : newline ∈ file.remaining.take buffsize
    · obtain ⟨front, back, hblock, hnot⟩ := List.eq_append_cons_of_mem hmem
      have hline := lineOf_of_mem hnul hblock hnot
      have hlength := congrArg List.length hblock
      rw [List.length_take, List.length_append, List.length_cons] at hlength
      have hrest := remaining_advance file
      have hfewer : file.advance.remaining.length =
          file.remaining.length - buffsize := by rw [hrest, List.length_drop]
      have hnext := ih file.advance.remaining.length (by omega) file.advance
        (fun hzero => hnul (List.mem_of_mem_drop (hrest ▸ hzero))) rfl
      rw [hrest] at hnext
      rcases hnext with ⟨haligned, file', hrelays⟩ | ⟨hbroken, hover | ⟨reply, file', hrelays, hlost⟩⟩
      · cases back with
        | nil =>
            -- the newline ends the block, and nothing of the block is lost
            refine Or.inl ⟨⟨⟨?_, fun _ => hmem⟩, haligned⟩, file', ?_⟩
            · rw [hblock, List.dropLast_concat]
              exact hnot
            · have hwhole := Relays.more hline hrelays
              rwa [← hblock, List.take_append_drop] at hwhole
        | cons byte back =>
            refine Or.inr ⟨fun h => h.1.1 ?_, Or.inr ⟨_, file', .more hline hrelays, ?_⟩⟩
            · rw [hblock, List.dropLast_append_of_ne_nil (List.cons_ne_nil _ _),
                List.dropLast_cons_cons]
              exact List.mem_append_right _ List.mem_cons_self
            · rw [List.length_cons] at hlength
              rw [List.length_append, List.length_append, List.length_singleton, List.length_drop]
              omega
      · exact Or.inr ⟨fun h => hbroken h.2, Or.inl (.later hline hover)⟩
      · refine Or.inr ⟨fun h => hbroken h.2, Or.inr ⟨_, file', .more hline hrelays, ?_⟩⟩
        rw [List.length_drop] at hlost
        rw [List.length_append, List.length_append, List.length_singleton]
        omega
    · by_cases hfull : (file.remaining.take buffsize).length = buffsize
      · refine Or.inr ⟨fun h => hmem (h.1.2 hfull), Or.inl (.here ?_)⟩
        exact ⟨file.advance, _, read_eq file, hfull, hmem,
          fun hzero => hnul (List.mem_of_mem_take hzero)⟩
      · have hshort : file.remaining.length < buffsize := by
          rw [List.length_take] at hfull
          omega
        rw [List.take_of_length_le (Nat.le_of_lt hshort)] at hmem hfull ⊢
        rw [List.drop_eq_nil_of_le (Nat.le_of_lt hshort)]
        refine Or.inl ⟨⟨⟨fun h => hmem (List.dropLast_subset _ h), fun h => absurd h hfull⟩,
          newlinesEndBlocks_nil⟩, relays_of_short hnul hmem hshort⟩

/-- The reply is the content of the file: every byte once and in order. -/
def Complete (choices : Choices) (proc : Process (Machine RegularFile)) (socketFd fileFd : Nat) :
    Prop :=
  ∃ proc', Settles (fun fuel =>
      aesdsocketReadAndSendFile (Machine.os ops choices) fuel socketFd fileFd proc)
    (.ok (proc', true)) ∧
  proc'.state.sent = proc.state.sent ++ proc.state.file.content

/-- From the start of a file without NULs the reply is complete exactly if the
newlines end the blocks. -/
theorem complete_iff (choices : Choices) (proc : Process (Machine RegularFile))
    (socketFd fileFd : Nat) (hstart : proc.state.file.fPos = 0)
    (hnul : 0 ∉ proc.state.file.content) :
    Complete choices proc socketFd fileFd ↔ NewlinesEndBlocks proc.state.file.content := by
  have hall : proc.state.file.remaining = proc.state.file.content := by
    rw [remaining, hstart, List.drop_zero]
  have hcases := relay_cases proc.state.file (hall ▸ hnul)
  rw [hall] at hcases
  constructor
  · rintro ⟨proc', hsettles, hsent⟩
    rcases hcases with ⟨haligned, _⟩ | ⟨_, hover | ⟨reply, file', hrelays, hlost⟩⟩
    · exact haligned
    · have hfault := hover.readAndSendFile choices proc rfl socketFd fileFd
      cases hsettles.unique hfault
    · obtain ⟨proc'', hsettles', _, hsent', _⟩ :=
        hrelays.readAndSendFile choices proc rfl socketFd fileFd
      cases hsettles.unique hsettles'
      rw [List.append_cancel_left (hsent.symm.trans hsent')] at hlost
      exact absurd hlost (Nat.lt_irrefl _)
  · intro haligned
    rcases hcases with ⟨_, file', hrelays⟩ | ⟨hbroken, _⟩
    · obtain ⟨proc', hsettles, _, hsent, _⟩ :=
        hrelays.readAndSendFile choices proc rfl socketFd fileFd
      exact ⟨proc', hsettles, hsent⟩
    · exact absurd haligned hbroken

/-- A machine on which nothing happened yet. -/
def fresh (content : List UInt8) : Process (Machine RegularFile) :=
  ⟨⟨⟨content, 0⟩, [], [], 0⟩, Heap.empty⟩

theorem complete_iff_twoLines :
    (fresh [97, 10, 98, 10]).state.file.fPos = 0 ∧
      0 ∉ (fresh [97, 10, 98, 10]).state.file.content ∧
      (Complete ⟨fun _ => 1, fun _ => true⟩ (fresh [97, 10, 98, 10]) 4 3 ↔
        NewlinesEndBlocks [97, 10, 98, 10]) :=
  ⟨rfl, by decide, complete_iff ⟨fun _ => 1, fun _ => true⟩ _ 4 3 rfl (by decide)⟩

/-- Of "a\nb\n" only the first line is sent. -/
theorem twoLines_not_complete :
    ¬ ∀ (choices : Choices) (proc : Process (Machine RegularFile)) (socketFd fileFd : Nat),
      proc.state.file.fPos = 0 → 0 ∉ proc.state.file.content →
        Complete choices proc socketFd fileFd := by
  intro hall
  obtain ⟨proc', hsettles, hsent⟩ :=
    hall ⟨fun _ => 1, fun _ => true⟩ (fresh [97, 10, 98, 10]) 4 3 rfl (by decide)
  have hread : ops.read ⟨[97, 10, 98, 10], 0⟩ buffsize =
      .ok (⟨[97, 10, 98, 10], 4⟩, .done ([97] ++ newline :: [98, 10])) := rfl
  have hrelays : Relays ops ⟨[97, 10, 98, 10], 0⟩ ([97, 10] ++ []) ⟨[97, 10, 98, 10], 4⟩ :=
    .more (.line hread (by decide) (by decide) (by decide)) (.last (.atEnd rfl))
  obtain ⟨proc'', hsettles', _, hsent', _⟩ :=
    hrelays.readAndSendFile ⟨fun _ => 1, fun _ => true⟩ (fresh [97, 10, 98, 10]) rfl 4 3
  cases hsettles.unique hsettles'
  exact absurd (hsent.symm.trans hsent') (by decide)

end RegularFile

end Aesd

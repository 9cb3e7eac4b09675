import Aesd.Server.Recognition

/-!
# The command buffer

`aesdsocket_serve` copies the two fields of a seek command into an array of fixed
size. How long a field is depends only on where the client put the separators,
so a command can be too long for the array.
-/

namespace Aesd

open CSem LineStream

section

variable {heap : Heap} {p : Ptr} {line : List UInt8}

/-- A field without room for its NUL is stored past the end of the array. -/
theorem copyField_overrun (h : heap.HoldsString p line) {start : Nat} {field rest : List UInt8}
    {char : UInt8} (hdrop : line.drop start = field ++ char :: rest) {commandBuffer : List UInt8}
    (hbuffer : commandBuffer.length = buffsize) (hover : buffsize ≤ field.length) :
    copyField heap (some p) start field.length commandBuffer = .error .outOfBounds := by
  obtain ⟨cells, hcells, hfield⟩ := cellsAt_of_drop h hdrop
  unfold copyField storeLocal
  rw [hcells, Exec.ok_bind, strncpy_eq hfield, Exec.ok_bind]
  by_cases hfull : field.length ≤ buffsize
  · -- the field just fits, and the NUL does not
    rw [if_pos (by omega), Exec.ok_bind]
    apply if_neg
    simp only [List.length_append, List.length_drop, List.length_take, List.length_singleton]
    omega
  · rw [if_neg (by omega)]
    rfl

/-- A command with a field that does not fit is stored past the end of the array. -/
theorem parseSeekto_overrun (h : heap.HoldsString p line) {fields : List UInt8 × List UInt8}
    (hfields : seektoFields line = some fields)
    (hover : ¬ (fields.1.length < buffsize ∧ fields.2.length < buffsize)) :
    parseSeekto heap (some p) = .error .outOfBounds := by
  rw [parseSeekto_eq_bind]
  rcases separators_cases h with
    ⟨hnone, _⟩ | ⟨colon, command, rest, offset, back, hcolon, hcomma, hsome, hsearch⟩
  · rw [hnone] at hfields
    cases hfields
  · obtain rfl := Option.some.inj (hsome.symm.trans hfields)
    have hzeros : (List.replicate buffsize (0 : UInt8)).length = buffsize := List.length_replicate
    rw [hsearch, Exec.ok_bind, parseFields, Nat.add_sub_cancel, Nat.add_sub_cancel]
    by_cases hcommand : command.length < buffsize
    · have hoffset : buffsize ≤ offset.length := Nat.le_of_not_lt fun hlt => hover ⟨hcommand, hlt⟩
      rw [copyField_eq h hcolon hzeros hcommand, Exec.ok_bind,
        copyField_overrun h hcomma (length_copied hzeros hcommand) hoffset]
      rfl
    · rw [copyField_overrun h hcolon hzeros (Nat.le_of_not_lt hcommand)]
      rfl

/-- The parser of a line comes back exactly when it has no fields that do not fit. -/
theorem parseSeekto_returns_iff (h : heap.HoldsString p line) :
    (∃ seekto, parseSeekto heap (some p) = .ok seekto) ↔
      ∀ fields, seektoFields line = some fields →
        fields.1.length < buffsize ∧ fields.2.length < buffsize := by
  constructor
  · rintro ⟨seekto, hparse⟩ fields hfields
    by_contra hover
    rw [parseSeekto_overrun h hfields hover] at hparse
    cases hparse
  · exact fun hfit => ⟨_, parseSeekto_eq h hfit⟩

end

section

variable {σ : Type} (os : Os σ)

/-- What a request does with a command once it is parsed. -/
def requestSeek (fileFd : Nat) (proc : Process σ) :
    Option AesdSeekto → Exec (Process σ × Option Nat × Bool)
  | none => .ok (proc, some fileFd, true)
  | some seektoArg => do
      let (state, result) ← os.ioctl proc.state fileFd seektoArg
      .ok (⟨state, proc.heap⟩, some fileFd, decide (result = .done ()))

/-- What a request does with a line that is no command. -/
def requestWrite (fuel fileFd : Nat) (proc : Process σ) (line : Option Ptr) :
    Exec (Process σ × Option Nat × Bool) := do
  let (proc, ok) ← aesdsocketWriteLine os fuel fileFd proc line
  if ok = false then .ok (proc, some fileFd, false)
  else do
    let state ← os.closeFile proc.state fileFd
    let (state, opened) ← os.openFile state false
    match opened with
    | .done fileFd => .ok (⟨state, proc.heap⟩, some fileFd, true)
    | _ => .ok (⟨state, proc.heap⟩, none, false)

variable {proc : Process σ} {p : Ptr} {line key : List UInt8}

/-- A request parses its line exactly when this is a command, and then goes on with
what the parser says. -/
theorem serveRequest_eq (h : proc.heap.HoldsString p line) (hkey : 0 ∉ key) (fuel fd : Nat) :
    serveRequest os fuel fd key proc (some p) =
      if key <+: line then parseSeekto proc.heap (some p) >>= requestSeek os fd proc
      else requestWrite os fuel fd proc (some p) := by
  obtain ⟨cells, hcells, hcompare⟩ := strncmpEq_command h hkey
  unfold serveRequest
  rw [hcells, Exec.ok_bind, hcompare, Exec.ok_bind]
  by_cases hstarts : key <+: line
  · rw [if_pos (decide_eq_true hstarts), if_pos hstarts]
    rfl
  · rw [if_neg (by simpa using hstarts), if_neg hstarts]
    rfl

/-- A request parses its line exactly when this is a command, and the parser stores
inside the command buffer exactly when the line is no command or its two fields
leave room for a NUL. The request then goes on with the values of the fields, and
otherwise it runs into the store past the end. -/
theorem command_buffer_iff (h : proc.heap.HoldsString p line) (hkey : 0 ∉ key) :
    ((key <+: line → ∃ seekto, parseSeekto proc.heap (some p) = .ok seekto) ↔
      FieldsFit key line) ∧
    ∀ fuel fd,
      (¬ key <+: line →
        serveRequest os fuel fd key proc (some p) = requestWrite os fuel fd proc (some p)) ∧
      (key <+: line → FieldsFit key line → serveRequest os fuel fd key proc (some p) =
        requestSeek os fd proc ((seektoFields line).map toSeekto)) ∧
      (¬ FieldsFit key line →
        serveRequest os fuel fd key proc (some p) = .error .outOfBounds) := by
  refine ⟨forall_congr' fun _ => parseSeekto_returns_iff h, fun fuel fd => ⟨?_, ?_, ?_⟩⟩
  · intro hnot
    rw [serveRequest_eq os h hkey, if_neg hnot]
  · intro hstarts hfit
    rw [serveRequest_eq os h hkey, if_pos hstarts, parseSeekto_eq h (hfit hstarts), Exec.ok_bind]
  · intro hover
    unfold FieldsFit at hover
    simp only [not_forall] at hover
    obtain ⟨hstarts, fields, hfields, hover⟩ := hover
    rw [serveRequest_eq os h hkey, if_pos hstarts, parseSeekto_overrun h hfields hover]
    rfl

end

/-- The command for byte 1 of entry 0 is parsed, and asks for that seek. -/
theorem command_buffer_seektoLine : ∃ proc : Process (Logged (Machine Unit)),
    proc.heap.HoldsString 0 (seektoLine [48] [49]) ∧
      FieldsFit seektoCommand (seektoLine [48] [49]) ∧
      serveRequest sinkOs.logged 5 3 seektoCommand proc (some 0) =
        requestSeek sinkOs.logged 3 proc (some ⟨0, 1⟩) := by
  let proc : Process (Logged (Machine Unit)) :=
    ⟨(sinkClient []).state, ⟨[some ((seektoLine [48] [49] ++ [0]).map some)]⟩⟩
  have hstring : proc.heap.HoldsString 0 (seektoLine [48] [49]) :=
    ⟨⟨_, rfl, by decide, by decide +kernel⟩, by decide⟩
  have hparse : parseSeekto proc.heap (some 0) = .ok (some ⟨0, 1⟩) := by decide +kernel
  have hfields : (seektoFields (seektoLine [48] [49])).map toSeekto = some ⟨0, 1⟩ := by
    decide +kernel
  obtain ⟨hiff, hserve⟩ := command_buffer_iff sinkOs.logged hstring notMem_seektoCommand
  have hfit := hiff.mp fun _ => ⟨_, hparse⟩
  have hseek := (hserve 5 3).2.1 (List.prefix_append _ _) hfit
  rw [hfields] at hseek
  exact ⟨proc, hstring, hfit, hseek⟩

/-- A command whose entry number has 1024 digits. -/
def longCommand : List UInt8 := seektoLine (List.replicate 1024 48) [48]

/-- A client that sends it in two pieces, with these calls made before. -/
def longCommandClient (calls : List SystemCall) : Process (Logged (Machine Unit)) :=
  ⟨(⟨(), [longCommand.take 1000, longCommand.drop 1000], [], 0⟩, calls), Heap.empty⟩

/-- The line is received, and the parser stores the terminator of the entry number
to place 1024. -/
theorem command_buffer_overrun :
    0 ∉ longCommand ∧ IsLine newline longCommand ∧
      (∃ received, aesdsocketRecvLine sinkOs.logged 5 4 (longCommandClient [.openFile (.done 0)])
          none = .ok (received, true, some 1) ∧
        received.heap.HoldsString 1 longCommand ∧
        (∃ field commandBuffer, strncpy ((longCommand.drop 19).map some) 1024 = .ok field ∧
          storeLocal (List.replicate buffsize 0) 0 field = .ok commandBuffer ∧
          storeLocal commandBuffer 1024 [0] = .error .outOfBounds) ∧
        parseSeekto received.heap (some 1) = .error .outOfBounds) ∧
      aesdsocketServe sinkOs.logged 5 4 seektoCommand (longCommandClient []) =
        .error .outOfBounds := by
  refine ⟨by decide +kernel, ⟨longCommand.dropLast, by decide +kernel, by decide +kernel⟩,
    ⟨⟨(⟨(), [], [], 2⟩, [.openFile (.done 0), .recv (.done (longCommand.take 1000)),
      .realloc .moved, .recv (.done (longCommand.drop 1000)), .realloc .moved]),
      ⟨[none, some ((longCommand ++ [0]).map some)]⟩⟩, by decide +kernel, ?_, ?_,
      by decide +kernel⟩, by decide +kernel⟩
  · exact ⟨⟨_, rfl, by decide +kernel, by decide +kernel⟩, by decide +kernel⟩
  · exact ⟨List.replicate 1024 48, List.replicate 1024 48, by decide +kernel, by decide +kernel,
      by decide +kernel⟩

end Aesd

import Aesd.Driver.StreamLaw
import Aesd.Server.CharFile
import Aesd.Server.Serve

/-!
# Requests to the device

A seek command moves the descriptor and leaves the device as it is; any other
line is committed. Either way the reply is the contents of the device from the
position of the descriptor on.
-/

namespace Aesd

open CSem LineStream

/-- `SEEKTO_COMMAND`, that is "AESDCHAR_IOCSEEKTO". -/
def seektoCommand : List UInt8 :=
  [65, 69, 83, 68, 67, 72, 65, 82, 95, 73, 79, 67, 83, 69, 69, 75, 84, 79]

theorem notMem_seektoCommand : 0 ∉ seektoCommand := by decide

/-- The line of a seek command with these two numerals. -/
def seektoLine (command offset : List UInt8) : List UInt8 :=
  seektoCommand ++ 58 :: (command ++ 44 :: (offset ++ [newline]))

/-- A numeral: digits, and at least one. -/
def IsNumeral (text : List UInt8) : Prop := text ≠ [] ∧ ∀ char ∈ text, isDigit char = true

theorem IsNumeral.notMem {text : List UInt8} (h : IsNumeral text) {char : UInt8}
    (hchar : isDigit char = false) : char ∉ text := by
  intro hmem
  rw [h.2 char hmem] at hchar
  cases hchar

theorem seektoFields_seektoLine {command offset : List UInt8} (hcommand : IsNumeral command)
    (hoffset : IsNumeral offset) :
    seektoFields (seektoLine command offset) = some (command, offset) := by
  unfold seektoFields seektoLine
  rw [cut_append (by decide)]
  simp only [Option.bind_eq_bind, Option.bind_some]
  rw [cut_append (hcommand.notMem rfl)]
  simp only [Option.bind_some]
  rw [cut_append (hoffset.notMem rfl)]
  rfl

/-! ## What the request does -/

/-- Whether the line starts with the command decides on the branch. -/
theorem strncmpEq_command {heap : Heap} {p : Ptr} {text key : List UInt8}
    (h : heap.HoldsString p text) (hkey : 0 ∉ key) :
    ∃ cells, heap.cellsAt (some p) 0 = .ok cells ∧
      strncmpEq cells ((key ++ [0]).map some) key.length = .ok (decide (key <+: text)) := by
  obtain ⟨cells, hcells⟩ := h.cellsAt (Nat.zero_le _)
  refine ⟨_, hcells, ?_⟩
  rw [List.drop_zero, List.map_append]
  by_cases hprefix : key <+: text
  · rw [decide_eq_true hprefix]
    obtain ⟨others, rfl⟩ := hprefix
    rw [List.map_append, List.append_assoc]
    exact strncmpEq_same _ _
  · rw [decide_eq_false hprefix]
    exact strncmpEq_of_not_prefix h.noNul hkey hprefix _ _

section

variable {φ : Type} {ops : FileOps φ} (choices : Choices) {proc : Process (Machine φ)} {p : Ptr}
  {text : List UInt8}

/-- A command with both fields goes to the driver. -/
theorem serveRequest_seekto (h : proc.heap.HoldsString p text) {key : List UInt8} (hkey : 0 ∉ key)
    (hstarts : key <+: text) {fields : List UInt8 × List UInt8}
    (hfields : seektoFields text = some fields) (hcommand : fields.1.length < buffsize)
    (hoffset : fields.2.length < buffsize) {file : φ}
    (hioctl : ops.ioctl proc.state.file (toSeekto fields) = .ok (file, .done ())) (fd : Nat) :
    Settles (fun fuel => serveRequest (Machine.os ops choices) fuel fd key proc (some p))
      (.ok (⟨{ proc.state with file := file }, proc.heap⟩, some fd, true)) := by
  obtain ⟨cells, hcells, hcompare⟩ := strncmpEq_command h hkey
  have hparse := parseSeekto_eq h (by
    intro fields' hfields'
    obtain rfl : fields = fields' := Option.some.inj (hfields.symm.trans hfields')
    exact ⟨hcommand, hoffset⟩)
  rw [decide_eq_true hstarts] at hcompare
  rw [hfields] at hparse
  unfold serveRequest
  simp only [hcells, Exec.ok_bind, hcompare, if_true, hparse, Option.map_some, Machine.os, hioctl]
  exact Settles.const _

/-- Any other line that the file takes in one write is written, and the file
opened again. -/
theorem serveRequest_line (h : proc.heap.HoldsString p text) {key : List UInt8} (hkey : 0 ∉ key)
    (hnot : ¬ key <+: text) (hne : text ≠ []) {file : φ}
    (hwrite : ops.write proc.state.file text = .ok (file, .done text.length)) (fd : Nat) :
    Settles (fun fuel => serveRequest (Machine.os ops choices) fuel fd key proc (some p))
      (.ok (⟨{ proc.state with file := ops.openFile file }, proc.heap⟩, some 0, true)) := by
  obtain ⟨cells, hcells, hcompare⟩ := strncmpEq_command h hkey
  rw [decide_eq_false hnot] at hcompare
  unfold serveRequest
  simp only [hcells, Exec.ok_bind, hcompare, Bool.false_eq_true, if_false]
  exact (writeLine_settles ops choices h hne hwrite fd).bind (Settles.const _)

end

namespace Kernel.Holds

variable {k : Kernel} {es : List BufferEntry} {log : Log} (seek : FixedSizeLlseek)
  (moves : Kernel → Bool)

/-- A command that names a byte moves the descriptor to it. -/
theorem ioctl_eq (h : k.Holds es log) (hshort : log.Short) {seekto : AesdSeekto}
    (hindex : seekto.writeCmd.toNat < log.committed.length)
    (hoffset : seekto.writeCmdOffset.toNat < log.committed[seekto.writeCmd.toNat].length)
    (fPos : Int) :
    (CharFile.ops seek moves).ioctl ⟨k, fPos⟩ seekto =
      .ok (⟨k, (Segments.position (log.committed.map List.length) seekto.writeCmd.toNat
        seekto.writeCmdOffset.toNat : Nat)⟩, .done ()) := by
  have hsum : (entrySizes es).sum < 2 ^ 63 := by
    have hfit := Nat.lt_trans hshort.length_contents_lt (by decide : 11 * buffsize < 2 ^ 63)
    rw [h.sum_entrySizes]
    rw [Log.contents, List.length_append] at hfit
    omega
  have hes : seekto.writeCmd.toNat < es.length := h.length_eq ▸ hindex
  have hten := log.length_le
  have hnames : NamesByte es (seekto.writeCmd.toNat % 256) seekto.writeCmdOffset.toNat := by
    rw [Nat.mod_eq_of_lt (by omega)]
    obtain ⟨_, _, hsize, _⟩ := h.getElem_holds hes hindex
    exact ⟨hes, hsize ▸ hoffset⟩
  simp only [CharFile.ops, h.toStores.aesdIoctl_eq hsum, Exec.ok_bind]
  rw [seekReply, if_pos hnames, Nat.mod_eq_of_lt (by omega), h.entrySizes_eq]
  simp only
  rw [if_neg (Int.not_lt.mpr (Int.natCast_nonneg _))]

/-- A line is written in one call, and the device holds the next log. -/
theorem write_eq (h : k.Holds es log) {line : List UInt8} (hline : IsLine newline line)
    (hlength : line.length < 2 ^ 63) (fPos : Int) :
    ∃ k' es' fPos', (CharFile.ops seek moves).write ⟨k, fPos⟩ line =
        .ok (⟨k', fPos'⟩, .done line.length) ∧ k'.Holds es' (log.commit line hline) := by
  have hmem : newline ∈ line := by
    obtain ⟨body, rfl, _⟩ := hline
    exact List.mem_append_right _ (List.mem_singleton_self _)
  generalize hanswer : (if moves k then Resize.moved else Resize.inPlace) = answer
  have hnull : answer ≠ .null := by
    rw [← hanswer]
    split
    · exact Resize.noConfusion
    · exact Resize.noConfusion
  obtain ⟨k', reply, hwrite, heffect⟩ :=
    h.toStores.aesdWrite_effect ⟨true, answer, line.length⟩ hlength fPos
  have hnonneg := heffect.nonneg_of_succeeds ⟨hline.ne_nil, rfl, hnull, Nat.le_refl _⟩
  have hzero : k'.dev.unterminatedSize = 0 := heffect.unterminatedSize_eq_zero hmem hnonneg
  obtain ⟨es', h'⟩ := heffect.holds h (fun _ _ heq => absurd heq hnull) (by rw [hzero]; decide)
  rw [if_pos hnonneg, Log.accept_of_mem _ hmem] at h'
  have hconsumed := Log.consumed_of_isLine hline
  have hretval : reply.retval = line.length := by
    rcases heffect.reply_cases with ⟨hneg, _⟩ | ⟨_, hretval, _⟩
    · omega
    · rw [hretval, hconsumed]
  refine ⟨k', es', reply.fPos, ?_, ?_⟩
  · simp only [CharFile.ops, hanswer, hwrite, Exec.ok_bind, hretval]
    rw [if_neg (Int.not_lt.mpr (Int.natCast_nonneg _)), Int.toNat_natCast]
  · simpa only [hconsumed] using h'

end Kernel.Holds

/-! ## The contract -/

namespace CharFile

/-- The connection is served to the end: the device holds these lines and
pending bytes then, and the client was sent the reply. -/
def Serves (seek : FixedSizeLlseek) (moves : Kernel → Bool) (choices : Choices) (socketFd : Nat)
    (proc : Process (Machine CharFile)) (lines : List (List UInt8)) (rest reply : List UInt8) :
    Prop :=
  ∃ proc', Settles (fun fuel =>
      aesdsocketServe (Machine.os (ops seek moves) choices) fuel socketFd seektoCommand proc)
    (.ok (proc', true)) ∧
  proc'.state.file.kernel.committedBytes = .ok lines ∧
  proc'.state.file.kernel.pendingBytes = .ok rest ∧
  proc'.state.sent = proc.state.sent ++ reply

section

variable {seek : FixedSizeLlseek} {moves : Kernel → Bool} {choices : Choices} {socketFd fuel : Nat}
  {proc received : Process (Machine CharFile)} {p : Ptr} {k : Kernel} {es : List BufferEntry}
  {log : Log}

/-- A seek command is answered with the contents from the named byte on. -/
theorem serves_seekto (h : k.Holds es log) (hshort : log.Short)
    (hdevice : proc.state.file.kernel = k) {command offset : List UInt8}
    (hrecv : aesdsocketRecvLine (Machine.os (ops seek moves) choices) fuel socketFd
      (proc.openFile (ops seek moves)) none = .ok (received, true, some p))
    (htext : received.heap.HoldsString p (seektoLine command offset))
    (hcommand : IsNumeral command) (hoffset : IsNumeral offset)
    (hfit : command.length < buffsize ∧ offset.length < buffsize)
    (hindex : decimal command < log.committed.length)
    (hinside : decimal offset < log.committed[decimal command].length) :
    Serves seek moves choices socketFd proc log.committed log.pending
      (log.contents.drop (Segments.position (log.committed.map List.length) (decimal command)
        (decimal offset))) := by
  obtain ⟨hfile, hsent⟩ := Machine.recvLine_keeps hrecv
  replace hfile : received.state.file = ⟨k, 0⟩ := by
    rw [hfile, ← hdevice]
    rfl
  have hten := log.length_le
  have hbytes := (hshort _ (List.mem_append_left _ (List.getElem_mem hindex))).2
  have hcmd : (toSeekto (command, offset)).writeCmd.toNat = decimal command := by
    rw [toSeekto, u32_atoi_digits hcommand.2 (by omega)]
    exact Nat.mod_eq_of_lt (by omega)
  have hoff : (toSeekto (command, offset)).writeCmdOffset.toNat = decimal offset := by
    have hwidth : buffsize < 2 ^ 32 := by decide
    rw [toSeekto, u32_atoi_digits hoffset.2 (by omega)]
    exact Nat.mod_eq_of_lt (by omega)
  have hcmdIndex : (toSeekto (command, offset)).writeCmd.toNat < log.committed.length := by
    rwa [hcmd]
  have hioctl := h.ioctl_eq seek moves hshort hcmdIndex
    (by simpa only [hcmd, hoff] using hinside) 0
  rw [← hfile, hcmd, hoff] at hioctl
  have hrequest := serveRequest_seekto choices htext notMem_seektoCommand
    (List.prefix_append _ _) (seektoFields_seektoLine hcommand hoffset) hfit.1 hfit.2
    hioctl 0
  have hposition : Segments.position (log.committed.map List.length) (decimal command)
      (decimal offset) < 2 ^ 63 := by
    have hsizes : decimal command < (log.committed.map List.length).length := by
      rwa [List.length_map]
    have hlt := Segments.position_lt_sum hsizes (by rwa [List.getElem_map])
    have hcontents := Nat.lt_trans hshort.length_contents_lt (by decide : 11 * buffsize < 2 ^ 63)
    rw [← List.length_flatten] at hlt
    rw [Log.contents, List.length_append] at hcontents
    omega
  obtain ⟨file, hrelay, hkernel⟩ := h.relays seek moves hshort hposition
  obtain ⟨proc', hserve, hfile', hsent'⟩ := serve_of_request hrecv htext hrequest hrelay
  refine ⟨proc', hserve, ?_, ?_, ?_⟩
  · rw [hfile', hkernel, h.committedBytes_eq]
  · rw [hfile', hkernel, h.pendingBytes_eq]
  · rw [hsent']
    simp only [hsent]
    rfl

/-- Any other line is committed, and answered with the new contents. -/
theorem serves_line (h : k.Holds es log) (hshort : log.Short)
    (hdevice : proc.state.file.kernel = k) {line : List UInt8}
    (hrecv : aesdsocketRecvLine (Machine.os (ops seek moves) choices) fuel socketFd
      (proc.openFile (ops seek moves)) none = .ok (received, true, some p))
    (htext : received.heap.HoldsString p line) (hline : IsLine newline line)
    (hnot : ¬ seektoCommand <+: line) (hfit : (log.pending ++ line).length < buffsize) :
    Serves seek moves choices socketFd proc
      (BoundedQueue.push 10 log.committed (log.pending ++ line)).1 []
      (BoundedQueue.push 10 log.committed (log.pending ++ line)).1.flatten := by
  obtain ⟨hfile, hsent⟩ := Machine.recvLine_keeps hrecv
  replace hfile : received.state.file = ⟨k, 0⟩ := by
    rw [hfile, ← hdevice]
    rfl
  have hlength : line.length < 2 ^ 63 := by
    have hwidth : buffsize < 2 ^ 63 := by decide
    rw [List.length_append] at hfit
    omega
  obtain ⟨k', es', fPos, hwrite, h'⟩ :=
    h.write_eq seek moves hline hlength 0
  rw [← hfile] at hwrite
  have hrequest := serveRequest_line choices htext notMem_seektoCommand hnot hline.ne_nil hwrite 0
  have hshort' : (log.commit line hline).Short := by
    intro segment hsegment
    rcases List.mem_append.mp hsegment with hcommitted | hpending
    · have hmem : segment ∈ log.committed ++ [log.pending ++ line] := by
        simp only [Log.commit, BoundedQueue.push] at hcommitted
        split at hcommitted
        · exact hcommitted
        · exact List.mem_of_mem_tail hcommitted
      rcases List.mem_append.mp hmem with hold | hnew
      · exact hshort segment (List.mem_append_left _ hold)
      · rw [List.mem_singleton.mp hnew]
        refine ⟨?_, hfit⟩
        rw [List.mem_append, not_or]
        exact ⟨(hshort _ (List.mem_append_right _ (List.mem_singleton_self _))).1, htext.noNul⟩
    · rw [List.mem_singleton.mp hpending]
      exact ⟨List.not_mem_nil, Nat.zero_lt_succ _⟩
  obtain ⟨file, hrelay, hkernel⟩ :=
    h'.relays seek moves hshort' (Nat.two_pow_pos 63)
  obtain ⟨proc', hserve, hfile', hsent'⟩ := serve_of_request hrecv htext hrequest hrelay
  refine ⟨proc', hserve, ?_, ?_, ?_⟩
  · rw [hfile', hkernel, h'.committedBytes_eq]
    rfl
  · rw [hfile', hkernel, h'.pendingBytes_eq]
    rfl
  · rw [hsent', List.drop_zero]
    simp only [hsent, Log.contents, Log.commit, List.append_nil]
    rfl

end

/-- The contract of the server over the device. A client that is alone and whose
line was received gets the contents from the byte that a seek command names, or
has its line committed and gets all contents. -/
theorem request_contract (seek : FixedSizeLlseek) (moves : Kernel → Bool) (choices : Choices)
    (socketFd : Nat) {d : Driver} (hreach : Driver.SafelyReachable seek d)
    {lines : List (List UInt8)} {rest : List UInt8}
    (hlines : d.kernel.committedBytes = .ok lines) (hrest : d.kernel.pendingBytes = .ok rest)
    (hshort : ∀ text ∈ lines ++ [rest], 0 ∉ text ∧ text.length ≤ 1023)
    {proc received : Process (Machine CharFile)} (hdevice : proc.state.file.kernel = d.kernel)
    {fuel : Nat} {p : Ptr} {line : List UInt8}
    (hrecv : aesdsocketRecvLine (Machine.os (ops seek moves) choices) fuel socketFd
      (proc.openFile (ops seek moves)) none = .ok (received, true, some p))
    (hline : received.heap.HoldsString p line) :
    (∀ command offset, IsNumeral command → IsNumeral offset →
      command.length < buffsize ∧ offset.length < buffsize → line = seektoLine command offset →
      (∃ hindex : decimal command < lines.length,
        decimal offset < lines[decimal command].length) →
      Serves seek moves choices socketFd proc lines rest
        ((lines.flatten ++ rest).drop (Segments.position (lines.map List.length)
          (decimal command) (decimal offset)))) ∧
    (IsLine newline line → ¬ seektoCommand <+: line → (rest ++ line).length ≤ 1023 →
      Serves seek moves choices socketFd proc (BoundedQueue.push 10 lines (rest ++ line)).1 []
        (BoundedQueue.push 10 lines (rest ++ line)).1.flatten) := by
  obtain ⟨events, hrun⟩ := hreach
  obtain ⟨es, h⟩ := Driver.holds_of_safeRun hrun
  generalize Log.ofStream (acceptedBy events) = log at h
  obtain rfl : log.committed = lines := Except.ok.inj (h.committedBytes_eq.symm.trans hlines)
  obtain rfl : log.pending = rest := Except.ok.inj (h.pendingBytes_eq.symm.trans hrest)
  have hlog : log.Short := fun segment hmem =>
    ⟨(hshort segment hmem).1, Nat.lt_succ_of_le (hshort segment hmem).2⟩
  constructor
  · rintro command offset hcommand hoffset hfit rfl ⟨hindex, hinside⟩
    exact serves_seekto h hlog hdevice hrecv hline hcommand hoffset hfit hindex hinside
  · intro hisLine hnot hfit
    exact serves_line h hlog hdevice hrecv hline hisLine hnot (Nat.lt_succ_of_le hfit)

/-- A client that sends "AESDCHAR_IOCSEEKTO:0,1\n" to a device with the line "a\n". -/
def seekClient : Process (Machine CharFile) :=
  ⟨⟨⟨Driver.oneLine.kernel, 0⟩, [seektoLine [48] [49]], [], 0⟩, Heap.empty⟩

theorem request_contract_seekClient :
    Serves .reference (fun _ => true) ⟨fun _ => 1, fun _ => true⟩ 4 seekClient [[97, 10]] []
      [10] := by
  have hrecv : aesdsocketRecvLine (Machine.os (ops .reference fun _ => true)
        ⟨fun _ => 1, fun _ => true⟩) 1 4 (seekClient.openFile (ops .reference fun _ => true)) none =
      .ok (⟨⟨⟨Driver.oneLine.kernel, 0⟩, [], [], 1⟩,
        ⟨[some ((seektoLine [48] [49] ++ [0]).map some)]⟩⟩, true, some 0) := by
    decide +kernel
  have hlines : Driver.oneLine.kernel.committedBytes = .ok [[97, 10]] := by decide +kernel
  have hrest : Driver.oneLine.kernel.pendingBytes = .ok [] := by decide +kernel
  have hdevice : seekClient.state.file.kernel = Driver.oneLine.kernel := rfl
  have hstring : (⟨[some ((seektoLine [48] [49] ++ [0]).map some)]⟩ : Heap).HoldsString 0
      (seektoLine [48] [49]) :=
    ⟨⟨_, rfl, by decide, by decide +kernel⟩, by decide⟩
  have hcontract := request_contract .reference (fun _ => true) ⟨fun _ => 1, fun _ => true⟩ 4
    (Driver.oneLine_safelyReachable .reference) hlines hrest (by decide) hdevice hrecv hstring
  have hdigit : ∀ char, isDigit char = true → IsNumeral [char] := fun char hdigit =>
    ⟨List.cons_ne_nil _ _, List.forall_mem_singleton.mpr hdigit⟩
  exact hcontract.1 [48] [49] (hdigit 48 rfl) (hdigit 49 rfl) ⟨by decide, by decide⟩ rfl
    ⟨by decide, by decide⟩

end CharFile

end Aesd

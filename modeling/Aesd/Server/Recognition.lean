import Aesd.Server.DeviceReply
import Aesd.Server.WrittenLine

/-!
# Which lines are commands

What a connection does to the file, read off its system calls. A line that starts
with the keyword is never written: it asks for one seek, or for nothing when a
separator is missing. Every other line is written once.
-/

namespace Aesd

open CSem LineStream

variable {σ : Type}

/-- What a line comes to. A line with the keyword is not written, and the text
between its separators makes the seek; another line is written once, as far as
the writes succeed. -/
structure Disposed (line : List UInt8) (fd : Nat) (calls : List SystemCall) : Prop where
  command : seektoCommand <+: line →
    (∀ call ∈ calls, call.isWrite = false) ∧
      seeks calls = ((seektoFields line).map fun fields => (fd, toSeekto fields)).toList
  numerals : ∀ command offset, IsNumeral command → IsNumeral offset → decimal command < 2 ^ 32 →
    decimal offset < 2 ^ 32 → line = seektoLine command offset →
    seeks calls = [(fd, ⟨UInt32.ofNat (decimal command), UInt32.ofNat (decimal offset)⟩)]
  other : ¬ seektoCommand <+: line →
    seeks calls = [] ∧ written fd calls <+: line ∧
      ((∀ call ∈ calls, call.isFailedWrite = false) → written fd calls = line)

/-! ## The request -/

namespace Disposed

variable {line : List UInt8} {fd : Nat} {calls front back : List SystemCall}

/-- Calls before and after that leave the file alone do not matter. -/
theorem surround (h : Disposed line fd calls) (hfront : ∀ call ∈ front, call.isQuiet = true)
    (hback : ∀ call ∈ back, call.isQuiet = true) : Disposed line fd (front ++ calls ++ back) := by
  have hseeks : seeks (front ++ calls ++ back) = seeks calls := by
    rw [seeks_append, seeks_append, seeks_of_quiet hfront, seeks_of_quiet hback, List.nil_append,
      List.append_nil]
  have hwritten : written fd (front ++ calls ++ back) = written fd calls := by
    rw [written_append, written_append, written_of_quiet hfront fd, written_of_quiet hback fd,
      List.nil_append, List.append_nil]
  have hnoWrite : ∀ call : SystemCall, call.isQuiet = true → call.isWrite = false := by
    intro call hquiet
    cases call with
    | write => cases hquiet
    | _ => rfl
  constructor
  · intro hstarts
    obtain ⟨hwrites, hseek⟩ := h.command hstarts
    refine ⟨fun call hmem => ?_, hseeks.trans hseek⟩
    rcases List.mem_append.mp hmem with hmem | hmem
    · rcases List.mem_append.mp hmem with hmem | hmem
      · exact hnoWrite call (hfront call hmem)
      · exact hwrites call hmem
    · exact hnoWrite call (hback call hmem)
  · intro command offset hcommand hoffset hlt hlt' heq
    exact hseeks.trans (h.numerals command offset hcommand hoffset hlt hlt' heq)
  · intro hnot
    obtain ⟨hseek, hpart, hwhole⟩ := h.other hnot
    rw [hseeks, hwritten]
    refine ⟨hseek, hpart, fun hnone => hwhole fun call hmem => ?_⟩
    exact hnone call (List.mem_append_left _ (List.mem_append_right _ hmem))

/-- A line that is not a command is disposed of by writing it. -/
theorem of_written (hnot : ¬ seektoCommand <+: line) (hseeks : seeks calls = [])
    (hpart : written fd calls <+: line)
    (hall : (∀ call ∈ calls, call.isFailedWrite = false) → written fd calls = line) :
    Disposed line fd calls where
  command hstarts := absurd hstarts hnot
  numerals command offset _ _ _ _ heq := by
    rw [heq] at hnot
    exact absurd (List.prefix_append _ _) hnot
  other _ := ⟨hseeks, hpart, hall⟩

/-- A line with the keyword is disposed of by the seek that its fields make. -/
theorem of_seek (hstarts : seektoCommand <+: line)
    (hwrites : ∀ call ∈ calls, call.isWrite = false)
    (hseeks : seeks calls = ((seektoFields line).map fun fields => (fd, toSeekto fields)).toList) :
    Disposed line fd calls where
  command _ := ⟨hwrites, hseeks⟩
  numerals command offset hcommand hoffset hlt hlt' heq := by
    rw [hseeks, heq, seektoFields_seektoLine hcommand hoffset, Option.map_some, toSeekto,
      u32_atoi_digits hcommand.2 hlt, u32_atoi_digits hoffset.2 hlt']
    rfl
  other hnot := absurd hstarts hnot

end Disposed

section

variable {os : Os σ} {fuel fd : Nat} {proc : Process (Logged σ)} {p : Ptr} {line : List UInt8}

/-- What is done with a line once it is received. -/
theorem serveRequest_disposed (hanswers : os.Answers) (h : proc.heap.HoldsString p line)
    (hlt : line.length < 2 ^ 64) (hfit : FieldsFit seektoCommand line)
    {result : Process (Logged σ) × Option Nat × Bool}
    (hreturns : serveRequest os.logged fuel fd seektoCommand proc (some p) = .ok result) :
    ∃ calls, Adds proc.state result.1.state calls ∧ Disposed line fd calls := by
  obtain ⟨cells, hcells, hcompare⟩ := strncmpEq_command h notMem_seektoCommand
  unfold serveRequest at hreturns
  rw [hcells, Exec.ok_bind, hcompare, Exec.ok_bind] at hreturns
  by_cases hstarts : seektoCommand <+: line
  · rw [decide_eq_true hstarts, if_pos rfl, parseSeekto_eq h (hfit hstarts), Exec.ok_bind] at hreturns
    cases hfields : seektoFields line with
    | none =>
        rw [hfields] at hreturns
        cases hreturns
        refine ⟨[], .refl _, .of_seek hstarts nofun ?_⟩
        rw [hfields]
        rfl
    | some fields =>
        rw [hfields] at hreturns
        obtain ⟨⟨state, answer⟩, hioctl, heq⟩ := Exec.bind_eq_ok.mp hreturns
        have hioctl : logCall (.ioctl fd (toSeekto fields))
          (fun state => os.ioctl state fd (toSeekto fields)) proc.state = .ok (state, answer) := hioctl
        cases heq
        refine ⟨_, logCall_adds hioctl, .of_seek hstarts ?_ ?_⟩
        · intro call hmem
          rw [List.mem_singleton.mp hmem]
          rfl
        · rw [hfields]
          rfl
  · rw [decide_eq_false hstarts, if_neg Bool.false_ne_true] at hreturns
    obtain ⟨⟨wrote, ok⟩, hwrite, hreturns⟩ := Exec.bind_eq_ok.mp hreturns
    obtain ⟨calls, hadds, hseeks, hpart, hall⟩ := writeLine_written hanswers h hlt hwrite
    have hdisposed := Disposed.of_written hstarts hseeks hpart hall
    cases ok with
    | false =>
        cases hreturns
        exact ⟨calls, hadds, hdisposed⟩
    | true =>
        obtain ⟨closed, hclose, hreturns⟩ := Exec.bind_eq_ok.mp hreturns
        obtain ⟨⟨state, opened⟩, hopen, hreturns⟩ := Exec.bind_eq_ok.mp hreturns
        have hopen : logCall .openFile (fun state => os.openFile state false) closed =
          .ok (state, opened) := hopen
        have hquiet : Quiet wrote.state state :=
          (Quiet.single (closeFile_adds hclose) rfl).trans (.single (logCall_adds hopen) rfl)
        obtain ⟨others, hothers, hquiet⟩ := hquiet
        have hsurround : Disposed line fd ([] ++ calls ++ others) := hdisposed.surround nofun hquiet
        cases opened with
        | done value =>
            cases hreturns
            exact ⟨_, hadds.trans hothers, hsurround⟩
        | interrupted =>
            cases hreturns
            exact ⟨_, hadds.trans hothers, hsurround⟩
        | failed =>
            cases hreturns
            exact ⟨_, hadds.trans hothers, hsurround⟩

/-- The request comes back. -/
theorem serveRequest_returns (hanswers : os.Answers) (h : proc.heap.HoldsString p line)
    (hlt : line.length < 2 ^ 64) (hfit : FieldsFit seektoCommand line) :
    ∃ result, Settles (fun fuel =>
      serveRequest os.logged fuel fd seektoCommand proc (some p)) (.ok result) := by
  obtain ⟨cells, hcells, hcompare⟩ := strncmpEq_command h notMem_seektoCommand
  unfold serveRequest
  simp only [hcells, Exec.ok_bind, hcompare]
  by_cases hstarts : seektoCommand <+: line
  · simp only [decide_eq_true hstarts, if_true, parseSeekto_eq h (hfit hstarts), Exec.ok_bind]
    cases seektoFields line with
    | none => exact ⟨_, Settles.const _⟩
    | some fields =>
        obtain ⟨⟨state, answer⟩, hioctl⟩ := hanswers.seeks proc.state.1 fd (toSeekto fields)
        have hlogged : os.logged.ioctl proc.state fd (toSeekto fields) =
            .ok ((state, proc.state.2 ++ [.ioctl fd (toSeekto fields) answer]), answer) := by
          simp only [Os.logged, logCall, hioctl, Exec.ok_bind]
        simp only [Option.map_some, hlogged, Exec.ok_bind]
        exact ⟨_, Settles.const _⟩
  · simp only [decide_eq_false hstarts, Bool.false_eq_true, if_false]
    obtain ⟨wrote, ok, hwrite⟩ : ∃ wrote ok, Settles (fun fuel =>
        aesdsocketWriteLine os.logged fuel fd proc (some p)) (.ok (wrote, ok)) :=
      writeLine_returns hanswers h hlt
    cases ok with
    | false => exact ⟨_, hwrite.bind (Settles.const _)⟩
    | true =>
        obtain ⟨closed, hclose⟩ := hanswers.closes wrote.state.1 fd
        obtain ⟨⟨state, opened⟩, hopen⟩ := hanswers.opens closed false
        cases opened with
        | done value =>
            exact ⟨_, hwrite.bind ((Settles.const _).of_eq
              (by simp only [Os.logged, logCall, hclose, hopen, Exec.ok_bind]; rfl))⟩
        | interrupted =>
            exact ⟨_, hwrite.bind ((Settles.const _).of_eq
              (by simp only [Os.logged, logCall, hclose, hopen, Exec.ok_bind]; rfl))⟩
        | failed =>
            exact ⟨_, hwrite.bind ((Settles.const _).of_eq
              (by simp only [Os.logged, logCall, hclose, hopen, Exec.ok_bind]; rfl))⟩

/-- What the server does with a received line. In an environment that answers, the
request comes back, and in any run of the connection that comes back it is the
only part that touches the file: a line with the keyword is not written and asks
for the seek that its fields make, two numerals for exactly their values, and any
other line asks for no seek and is written once, up to a write that fails. -/
theorem seek_recognition (hanswers : os.Answers) {socketFd : Nat}
    {start received : Process (Logged σ)} {opened : Logged σ}
    (hopen : os.logged.openFile start.state true = .ok (opened, .done fd))
    (hrecv : aesdsocketRecvLine os.logged fuel socketFd ⟨opened, start.heap⟩ none =
      .ok (received, true, some p))
    (htext : received.heap.HoldsString p line) (hlt : line.length < 2 ^ 64)
    (hfit : FieldsFit seektoCommand line) :
    (∃ result calls, Settles (fun fuel =>
        serveRequest os.logged fuel fd seektoCommand received (some p)) (.ok result) ∧
      Adds received.state result.1.state calls ∧ Disposed line fd calls) ∧
    ∀ fuel' last ok,
      aesdsocketServe os.logged fuel' socketFd seektoCommand start = .ok (last, ok) →
      ∃ calls, Adds start.state last.state calls ∧ Disposed line fd calls := by
  constructor
  · obtain ⟨result, hsettles⟩ := serveRequest_returns hanswers htext hlt hfit
    obtain ⟨enough, hreturns⟩ := id hsettles
    obtain ⟨calls, hadds, hdisposed⟩ :=
      serveRequest_disposed hanswers htext hlt hfit (hreturns enough (Nat.le_refl _))
    exact ⟨result, calls, hsettles, hadds, hdisposed⟩
  · intro fuel' last ok hserve
    unfold aesdsocketServe at hserve
    rw [hopen, Exec.ok_bind] at hserve
    obtain ⟨⟨received', okRecv, line'⟩, hrecv', hserve⟩ := Exec.bind_eq_ok.mp hserve
    -- the same reception, whatever the bound on its rounds
    have hsame : (received', okRecv, line') = (received, true, some p) := by
      obtain ⟨_, hloop, hreturns⟩ := Exec.bind_eq_ok.mp hrecv
      obtain ⟨_, hloop', hreturns'⟩ := Exec.bind_eq_ok.mp hrecv'
      cases (Settles.of_loop hloop').unique (Settles.of_loop hloop)
      exact Except.ok.inj (hreturns'.symm.trans hreturns)
    cases hsame
    obtain ⟨⟨requested, fileFd, okRequest⟩, hrequest, hserve⟩ := Exec.bind_eq_ok.mp hserve
    have hrequest : serveRequest os.logged fuel' fd seektoCommand received (some p) =
      .ok (requested, fileFd, okRequest) := hrequest
    obtain ⟨calls, hadds, hdisposed⟩ := serveRequest_disposed hanswers htext hlt hfit hrequest
    have hopen : logCall .openFile (fun state => os.openFile state true) start.state =
      .ok (opened, .done fd) := hopen
    have hopened : Quiet start.state opened := .single (logCall_adds hopen) rfl
    obtain ⟨replied, okReply, hreplied, hdone⟩ : ∃ replied okReply,
        Quiet requested.state replied.state ∧ (do
          let proc ← serveDone os.logged replied (some p) fileFd
          .ok (proc, okReply) : Exec (Process (Logged σ) × Bool)) = .ok (last, ok) := by
      cases fileFd with
      | none => exact ⟨requested, false, .refl _, hserve⟩
      | some fd =>
          cases okRequest with
          | true =>
              obtain ⟨⟨replied, okReply⟩, hreply, hdone⟩ := Exec.bind_eq_ok.mp hserve
              exact ⟨replied, okReply, readAndSendFile_quiet hreply, hdone⟩
          | false => exact ⟨requested, false, .refl _, hserve⟩
    obtain ⟨finished, hfinished, heq⟩ := Exec.bind_eq_ok.mp hdone
    cases heq
    obtain ⟨front, hfront, hquiet⟩ := hopened.trans (recvLine_quiet hrecv)
    obtain ⟨back, hback, hquiet'⟩ := hreplied.trans (serveDone_quiet hfinished)
    exact ⟨_, (hfront.trans hadds).trans hback, hdisposed.surround hquiet hquiet'⟩

end

/-! ## A client of its own -/

/-- A file that takes every write and every seek, and reads as empty. -/
def sinkOps : FileOps Unit where
  openFile := id
  read file _ := .ok (file, .done [])
  write file bytes := .ok (file, .done bytes.length)
  ioctl file _ := .ok (file, .done ())

def sinkOs : Os (Machine Unit) := Machine.os sinkOps ⟨fun _ => 1, fun _ => true⟩

theorem sinkOs_answers : sinkOs.Answers where
  writes state fd bytes := by
    have htaken : sinkOps.write state.file bytes = .ok ((), .done bytes.length) := rfl
    obtain ⟨enough, hsettles⟩ := Machine.write_settles sinkOps ⟨fun _ => 1, fun _ => true⟩ htaken fd
    exact ⟨enough, _, hsettles enough (Nat.le_refl _)⟩
  takes state fd bytes state' count hwrite := by
    cases hwrite
    exact ⟨Nat.le_refl _, List.length_pos_of_ne_nil⟩
  seeks _ _ _ := ⟨_, rfl⟩
  closes _ _ := ⟨_, rfl⟩
  opens _ _ := ⟨_, rfl⟩

/-- A client that sends one message. -/
def sinkClient (text : List UInt8) : Process (Logged (Machine Unit)) :=
  ⟨(⟨(), [text], [], 0⟩, []), Heap.empty⟩

/-- Its whole connection. -/
def sinkServe (text : List UInt8) : Exec (Process (Logged (Machine Unit)) × Bool) :=
  aesdsocketServe sinkOs.logged 5 4 seektoCommand (sinkClient text)

theorem seek_recognition_seektoLine : ∃ last ok calls,
    sinkServe (seektoLine [48] [49]) = .ok (last, ok) ∧
      Adds (sinkClient (seektoLine [48] [49])).state last.state calls ∧
      Disposed (seektoLine [48] [49]) 0 calls := by
  have hstring : (⟨[some ((seektoLine [48] [49] ++ [0]).map some)]⟩ : Heap).HoldsString 0
      (seektoLine [48] [49]) :=
    ⟨⟨_, rfl, by decide, by decide +kernel⟩, by decide⟩
  have hrecv : aesdsocketRecvLine sinkOs.logged 5 4
      ⟨(⟨(), [seektoLine [48] [49]], [], 0⟩, [.openFile (.done 0)]), Heap.empty⟩ none =
      .ok (⟨(⟨(), [], [], 1⟩, [.openFile (.done 0), .recv (.done (seektoLine [48] [49])),
        .realloc .moved]), ⟨[some ((seektoLine [48] [49] ++ [0]).map some)]⟩⟩, true, some 0) := by
    decide +kernel
  have hreturns : (sinkServe (seektoLine [48] [49])).isOk = true := by decide +kernel
  have hfit : FieldsFit seektoCommand (seektoLine [48] [49]) := by
    intro _ fields hfields
    have heq : seektoFields (seektoLine [48] [49]) = some ([48], [49]) := by decide +kernel
    cases hfields.symm.trans heq
    decide
  cases hserve : sinkServe (seektoLine [48] [49]) with
  | error fault =>
      rw [hserve] at hreturns
      cases hreturns
  | ok result =>
      obtain ⟨last, ok⟩ := result
      have hopen : sinkOs.logged.openFile (sinkClient (seektoLine [48] [49])).state true =
        .ok ((⟨(), [seektoLine [48] [49]], [], 0⟩, [.openFile (.done 0)]), .done 0) := rfl
      obtain ⟨calls, hadds, hdisposed⟩ := (seek_recognition sinkOs_answers hopen hrecv hstring
        (by decide) hfit).2 5 last ok hserve
      exact ⟨last, ok, calls, rfl, hadds, hdisposed⟩

/-- The line "AESDCHAR_IOCSEEKTO\n" is not a command, and it is not written. -/
theorem command_dropped : ¬ ∀ text : List UInt8, 0 ∉ text → IsLine newline text →
    (∀ fields, seektoFields text = some fields →
      fields.1.length < buffsize ∧ fields.2.length < buffsize) →
    (¬ ∃ command offset, IsNumeral command ∧ IsNumeral offset ∧ decimal command < 2 ^ 32 ∧
      decimal offset < 2 ^ 32 ∧ text = seektoLine command offset) →
    ∀ last ok, sinkServe text = .ok (last, ok) →
      seeks last.state.2 = [] ∧ written 0 last.state.2 = text := by
  intro hall
  have hfields : seektoFields (seektoCommand ++ [newline]) = none := by decide +kernel
  have hnot : ¬ ∃ command offset, IsNumeral command ∧ IsNumeral offset ∧
      decimal command < 2 ^ 32 ∧ decimal offset < 2 ^ 32 ∧
      seektoCommand ++ [newline] = seektoLine command offset := by
    rintro ⟨command, offset, hcommand, hoffset, _, _, heq⟩
    rw [heq, seektoFields_seektoLine hcommand hoffset] at hfields
    cases hfields
  have hserve : sinkServe (seektoCommand ++ [newline]) =
      .ok (⟨(⟨(), [], [], 1⟩, [.openFile (.done 0), .recv (.done (seektoCommand ++ [newline])),
        .realloc .moved, .startReading, .read (.done []), .stopReading, .closeFile 0]),
        ⟨[none]⟩⟩, true) := by decide +kernel
  have hwritten := (hall _ (by decide) ⟨seektoCommand, rfl, by decide⟩
    (fun fields heq => by rw [hfields] at heq; cases heq) hnot _ _ hserve).2
  exact absurd hwritten (by decide)

end Aesd

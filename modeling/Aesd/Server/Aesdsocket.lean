import Aesd.Server.Os

/-!
# The server

The functions of the server that handle one connection. Each loop has a bound on
its rounds, and the loops inside it have the same bound.
-/

namespace Aesd

open CSem

/-- `BUFFSIZE`. -/
def buffsize : Nat := 1024

variable {σ : Type} (os : Os σ)

/-! ## Collecting a line -/

/-- The local variables with which a line is collected. -/
structure LineBuffer (σ : Type) where
  proc : Process σ
  buffer : List UInt8
  lineBuffer : Option Ptr
  lineBufferSize : Nat

/-- How the loop that collects a line ends: with a newline, because there is
nothing more, or with an error. -/
inductive LineEnd
  | eol
  | ended
  | failed
  deriving DecidableEq, Repr

def LineBuffer.start (proc : Process σ) (line : Option Ptr) : LineBuffer σ :=
  ⟨proc, List.replicate buffsize 0, line, 0⟩

/-- The local buffer with the bytes that have come in, what the scan for a newline
finds in it, and how many bytes are taken for the line. -/
structure Scan where
  buffer : List UInt8
  newlinePointer : Option Nat
  usefulBytes : Nat
  deriving DecidableEq, Repr

/-- Bytes arrive in the local buffer, which is searched for a newline. The search
reads the buffer as a string, from its first byte on. -/
def LineBuffer.scan (s : LineBuffer σ) (bytes : List UInt8) : Exec Scan := do
  let buffer := bytes ++ s.buffer.drop bytes.length
  let newlinePointer ← strchr terminatorCharacter (buffer.map some)
  let usefulBytes := match newlinePointer with
    | some position => position + 1
    | none => bytes.length
  .ok ⟨buffer, newlinePointer, usefulBytes⟩

/-- What the scan takes from the local buffer is appended to the line buffer, and
a newline ends the line. -/
def LineBuffer.collect (s : LineBuffer σ) (bytes : List UInt8) :
    Exec (Round (LineBuffer σ) (LineBuffer σ × LineEnd)) := do
  let scan ← s.scan bytes
  let (state, answer) := os.realloc s.proc.state
  let (heap, lineBuffer) ←
    s.proc.heap.realloc s.lineBuffer (s.lineBufferSize + scan.usefulBytes + 1) answer
  match lineBuffer with
  | none => .ok (.leave (⟨⟨state, heap⟩, scan.buffer, none, s.lineBufferSize⟩, .failed))
  | some p => do
      let useful ← strncpy (scan.buffer.map some) scan.usefulBytes
      let heap ← heap.store (some p) s.lineBufferSize useful
      let s := ⟨⟨state, heap⟩, scan.buffer, some p, s.lineBufferSize + scan.usefulBytes⟩
      .ok (if scan.newlinePointer.isSome then .leave (s, .eol) else .again s)

/-- The code after the loop when it succeeded: the line buffer, when there is
one, is closed with a NUL. -/
def LineBuffer.terminate (s : LineBuffer σ) : Exec Heap :=
  match s.lineBuffer with
  | none => .ok s.proc.heap
  | some p => s.proc.heap.store (some p) s.lineBufferSize [0]

/-- The code at `done` when it failed: the line buffer is released if the caller
did not bring one. -/
def LineBuffer.release (s : LineBuffer σ) (line : Option Ptr) : Exec Heap :=
  if line = none then s.proc.heap.freeNonNull s.lineBuffer else .ok s.proc.heap

/-- One round of `aesdsocket_recv_line`. -/
def recvLineRound (socketFd : Nat) (s : LineBuffer σ) :
    Exec (Round (LineBuffer σ) (LineBuffer σ × LineEnd)) :=
  let (state, terminated) := os.terminationFlag s.proc.state
  let s : LineBuffer σ := { s with proc := ⟨state, s.proc.heap⟩ }
  if terminated then .ok (.leave (s, .ended))
  else do
    let (state, result) ← os.recv s.proc.state socketFd buffsize
    let s : LineBuffer σ := { s with proc := ⟨state, s.proc.heap⟩ }
    match result with
    | .interrupted => .ok (.again s)
    | .failed => .ok (.leave (s, .failed))
    | .done [] => .ok (.again s)
    | .done bytes => s.collect os bytes

/-- `aesdsocket_recv_line`: its result and what it leaves in `*line`. -/
def aesdsocketRecvLine (fuel socketFd : Nat) (proc : Process σ) (line : Option Ptr) :
    Exec (Process σ × Bool × Option Ptr) := do
  let (s, lineEnd) ← loop (recvLineRound os socketFd) fuel (.start proc line)
  match lineEnd with
  | .failed => do
      let heap ← s.release line
      .ok (⟨s.proc.state, heap⟩, false, line)
  | _ => do
      let heap ← s.terminate
      .ok (⟨s.proc.state, heap⟩, true, s.lineBuffer)

/-- One round of `aesdsocket_read_line`. -/
def readLineRound (fuel fileFd : Nat) (s : LineBuffer σ) :
    Exec (Round (LineBuffer σ) (LineBuffer σ × LineEnd)) := do
  let (state, result) ← retryOnEintr (fun state => os.read state fileFd buffsize) fuel s.proc.state
  let s : LineBuffer σ := { s with proc := ⟨state, s.proc.heap⟩ }
  match result with
  | none => .ok (.leave (s, .failed))
  | some [] => .ok (.leave (s, .ended))
  | some bytes => s.collect os bytes

/-- `aesdsocket_read_line`: its result and what it leaves in `*line` and `*eof`.
On an error it leaves both alone and does not stop reading. -/
def aesdsocketReadLine (fuel fileFd : Nat) (proc : Process σ) (line : Option Ptr) (eof : Bool) :
    Exec (Process σ × Bool × Option Ptr × Bool) := do
  let proc : Process σ := { proc with state := os.startReading proc.state }
  let (s, lineEnd) ← loop (readLineRound os fuel fileFd) fuel (.start proc line)
  match lineEnd with
  | .failed => do
      let heap ← s.release line
      .ok (⟨s.proc.state, heap⟩, false, line, eof)
  | _ => do
      let heap ← s.terminate
      .ok (⟨os.stopReading s.proc.state, heap⟩, true, s.lineBuffer, decide (lineEnd = .ended))

/-! ## Passing a line on -/

/-- The bytes of a line that are left to pass on: the last ones of the string. -/
def remainingBytes (heap : Heap) (line : Option Ptr) (count : Nat) : Exec (List UInt8) := do
  let length ← (← heap.cellsAt line 0) |> strlen
  if length < count then .error .outOfBounds
  else heap.load line (length - count) count

/-- One round of `aesdsocket_write_line`. -/
def writeLineRound (fuel fileFd : Nat) (line : Option Ptr) (s : Process σ × Nat) :
    Exec (Round (Process σ × Nat) (Process σ × Bool)) :=
  if s.2 = 0 then .ok (.leave (s.1, true))
  else do
    let bytes ← remainingBytes s.1.heap line s.2
    let (state, written) ← retryOnEintr (fun state => os.write state fileFd bytes) fuel s.1.state
    let proc : Process σ := ⟨state, s.1.heap⟩
    match written with
    | none => .ok (.leave (proc, false))
    | some bytesWritten => .ok (.again (proc, u64 (s.2 - bytesWritten)))

/-- `aesdsocket_write_line`. On an error it does not stop writing. -/
def aesdsocketWriteLine (fuel fileFd : Nat) (proc : Process σ) (line : Option Ptr) :
    Exec (Process σ × Bool) := do
  let bytesToWrite ← (← proc.heap.cellsAt line 0) |> strlen
  let proc : Process σ := { proc with state := os.startWriting proc.state }
  let (proc, ok) ← loop (writeLineRound os fuel fileFd line) fuel (proc, bytesToWrite)
  if ok then .ok (⟨os.stopWriting proc.state, proc.heap⟩, true)
  else .ok (proc, false)

/-- One round of `aesdsocket_send_line`. -/
def sendLineRound (fuel socketFd : Nat) (line : Option Ptr) (s : Process σ × Nat) :
    Exec (Round (Process σ × Nat) (Process σ × Bool)) :=
  if s.2 = 0 then .ok (.leave (s.1, true))
  else
    let (state, terminated) := os.terminationFlag s.1.state
    if terminated then .ok (.leave (⟨state, s.1.heap⟩, true))
    else do
      let bytes ← remainingBytes s.1.heap line s.2
      let (state, sent) ← retryOnEintr (fun state => os.send state socketFd bytes) fuel state
      let proc : Process σ := ⟨state, s.1.heap⟩
      match sent with
      | none => .ok (.leave (proc, false))
      | some bytesSent => .ok (.again (proc, u64 (s.2 - bytesSent)))

/-- `aesdsocket_send_line`. -/
def aesdsocketSendLine (fuel socketFd : Nat) (proc : Process σ) (line : Option Ptr) :
    Exec (Process σ × Bool) := do
  let bytesToSend ← (← proc.heap.cellsAt line 0) |> strlen
  loop (sendLineRound os fuel socketFd line) fuel (proc, bytesToSend)

/-- The second half of a round of `aesdsocket_read_and_send_file`: a line that
is not empty is sent. -/
def sendNonEmpty (fuel socketFd : Nat) (proc : Process σ) (line : Option Ptr) :
    Exec (Process σ × Bool) :=
  match line with
  | none => .ok (proc, true)
  | some p => do
      let length ← (← proc.heap.cellsAt (some p) 0) |> strlen
      if length ≠ 0 then aesdsocketSendLine os fuel socketFd proc (some p) else .ok (proc, true)

/-- One round of `aesdsocket_read_and_send_file`, as long as the end of the file
was not seen. -/
def readAndSendRound (fuel socketFd fileFd : Nat) (s : Process σ × Option Ptr) :
    Exec (Round (Process σ × Option Ptr) (Process σ × Option Ptr × Bool)) := do
  let (proc, ok, line, eof) ← aesdsocketReadLine os fuel fileFd s.1 s.2 false
  if ok = false then .ok (.leave (proc, line, false))
  else do
    let (proc, ok) ← sendNonEmpty os fuel socketFd proc line
    if ok = false then .ok (.leave (proc, line, false))
    else if eof then .ok (.leave (proc, line, true))
    else .ok (.again (proc, line))

/-- `aesdsocket_read_and_send_file`. -/
def aesdsocketReadAndSendFile (fuel socketFd fileFd : Nat) (proc : Process σ) :
    Exec (Process σ × Bool) := do
  let (proc, line, ok) ← loop (readAndSendRound os fuel socketFd fileFd) fuel (proc, none)
  let heap ← proc.heap.freeNonNull line
  .ok (⟨proc.state, heap⟩, ok)

/-! ## Serving a connection -/

def isSpace (char : UInt8) : Bool := char = 32 || (9 ≤ char && char ≤ 13)

def isDigit (char : UInt8) : Bool := 48 ≤ char && char ≤ 57

/-- The value of a sequence of decimal digits. -/
def decimal (digits : List UInt8) : Nat :=
  digits.foldl (fun value digit => 10 * value + (digit.toNat - 48)) 0

/-- `strtol` in base ten, which stops at the ends of its range. -/
def strtol (text : List UInt8) : Int :=
  let text := text.dropWhile isSpace
  let (negative, text) := match text with
    | 45 :: rest => (true, rest)
    | 43 :: rest => (false, rest)
    | _ => (false, text)
  let magnitude : Int := decimal (text.takeWhile isDigit)
  let value := if negative then -magnitude else magnitude
  if value < -2 ^ 63 then -2 ^ 63 else if 2 ^ 63 ≤ value then 2 ^ 63 - 1 else value

/-- `atoi` takes the result of `strtol` as an `int`. -/
def atoi (text : List UInt8) : Int := s32 (strtol text)

/-- Copy a field of a command into `command_buffer` and close it with a NUL. -/
def copyField (heap : Heap) (line : Option Ptr) (offset size : Nat) (commandBuffer : List UInt8) :
    Exec (List UInt8) := do
  let field ← strncpy (← heap.cellsAt line offset) size
  let commandBuffer ← storeLocal commandBuffer 0 field
  storeLocal commandBuffer size [0]

/-- `strchr` from an offset of a line on; the result is an offset of the line. -/
def lineStrchr (heap : Heap) (line : Option Ptr) (offset : Nat) (char : UInt8) :
    Exec (Option Nat) := do
  let found ← strchr char (← heap.cellsAt line offset)
  .ok (found.map (· + offset))

/-- The fields of a seek command, when the line has the separators it needs. -/
def parseSeekto (heap : Heap) (line : Option Ptr) : Exec (Option AesdSeekto) := do
  match ← lineStrchr heap line 0 58 with
  | none => .ok none
  | some colon => do
      match ← lineStrchr heap line (colon + 1) 44 with
      | none => .ok none
      | some comma => do
          match ← lineStrchr heap line (comma + 1) 10 with
          | none => .ok none
          | some newline => do
              let commandBuffer ← copyField heap line (colon + 1) (comma - (colon + 1))
                (List.replicate buffsize 0)
              let writeCmd := u32 (atoi commandBuffer)
              let commandBuffer ← copyField heap line (comma + 1) (newline - (comma + 1))
                commandBuffer
              let writeCmdOffset := u32 (atoi commandBuffer)
              .ok (some ⟨UInt32.ofNat writeCmd, UInt32.ofNat writeCmdOffset⟩)

/-- The part of `aesdsocket_serve` between reception and reply: a seek command
goes to the driver, any other line is written and the file opened anew. The
result has the file descriptor, which is missing when that open fails. -/
def serveRequest (fuel fileFd : Nat) (seektoCommand : List UInt8) (proc : Process σ)
    (line : Option Ptr) : Exec (Process σ × Option Nat × Bool) := do
  let cells ← proc.heap.cellsAt line 0
  if ← strncmpEq cells ((seektoCommand ++ [0]).map some) seektoCommand.length then
    match ← parseSeekto proc.heap line with
    | none => .ok (proc, some fileFd, true)
    | some seektoArg => do
        let (state, result) ← os.ioctl proc.state fileFd seektoArg
        .ok (⟨state, proc.heap⟩, some fileFd, decide (result = .done ()))
  else do
    let (proc, ok) ← aesdsocketWriteLine os fuel fileFd proc line
    if ok = false then .ok (proc, some fileFd, false)
    else do
      let state ← os.closeFile proc.state fileFd
      let (state, opened) ← os.openFile state false
      match opened with
      | .done fileFd => .ok (⟨state, proc.heap⟩, some fileFd, true)
      | _ => .ok (⟨state, proc.heap⟩, none, false)

/-- The code at `done` of `aesdsocket_serve`. -/
def serveDone (proc : Process σ) (line : Option Ptr) (fileFd : Option Nat) :
    Exec (Process σ) := do
  let heap ← proc.heap.freeNonNull line
  match fileFd with
  | none => .ok ⟨proc.state, heap⟩
  | some fd => do
      let state ← os.closeFile proc.state fd
      .ok ⟨state, heap⟩

/-- `aesdsocket_serve`. -/
def aesdsocketServe (fuel socketFd : Nat) (seektoCommand : List UInt8) (proc : Process σ) :
    Exec (Process σ × Bool) := do
  let (state, opened) ← os.openFile proc.state true
  let proc : Process σ := ⟨state, proc.heap⟩
  match opened with
  | .done fileFd => do
      let (proc, ok, line) ← aesdsocketRecvLine os fuel socketFd proc none
      let (proc, fileFd, ok) ←
        if ok = false then .ok (proc, some fileFd, false)
        else if line = none then .ok (proc, some fileFd, true)
        else serveRequest os fuel fileFd seektoCommand proc line
      let (proc, ok) ← match fileFd with
        | some fd =>
            if ok then aesdsocketReadAndSendFile os fuel socketFd fd proc else .ok (proc, false)
        | none => .ok (proc, false)
      let proc ← serveDone os proc line fileFd
      .ok (proc, ok)
  | _ => .ok (proc, false)

end Aesd

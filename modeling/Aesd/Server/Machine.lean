import Aesd.Server.Aesdsocket
import Aesd.Foundation.Settles

/-!
# A machine whose services work

One client and one file, without failing or interrupted calls and without a
request to terminate. What the system may still choose is left open: how a
message is cut into pieces on its way in and out, and when a block moves.
-/

namespace Aesd

open CSem

variable {φ : Type}

/-- The operations of an open file, on the file together with its position. -/
structure FileOps (φ : Type) where
  openFile : φ → φ
  read : φ → (count : Nat) → Exec (φ × CallResult (List UInt8))
  write : φ → List UInt8 → Exec (φ × CallResult Nat)
  ioctl : φ → AesdSeekto → Exec (φ × CallResult Unit)

/-- What the program cannot foresee: how many bytes a send takes when so many
were sent before, and whether the next block that is resized moves. -/
structure Choices where
  taken : (sent : Nat) → Nat
  moves : (reallocs : Nat) → Bool

/-- The file, the pieces in which the client's bytes arrive, and the bytes sent
to the client. -/
structure Machine (φ : Type) where
  file : φ
  incoming : List (List UInt8)
  sent : List UInt8
  reallocs : Nat
  deriving DecidableEq

/-- A send takes at least one byte and at most those it is offered. -/
def Choices.sendCount (choices : Choices) (sent offered : Nat) : Nat :=
  min (max 1 (choices.taken sent)) offered

def Choices.resize (choices : Choices) (reallocs : Nat) : Resize :=
  if choices.moves reallocs then .moved else .inPlace

/-- The services of the machine. The descriptor of the file is always the same,
and when all bytes have arrived the client has shut down its side. -/
def Machine.os (ops : FileOps φ) (choices : Choices) : Os (Machine φ) where
  openFile m _ := .ok ({ m with file := ops.openFile m.file }, .done 0)
  closeFile m _ := .ok m
  read m _ count := do
    let (file, result) ← ops.read m.file count
    .ok ({ m with file := file }, result)
  write m _ bytes := do
    let (file, result) ← ops.write m.file bytes
    .ok ({ m with file := file }, result)
  ioctl m _ arg := do
    let (file, result) ← ops.ioctl m.file arg
    .ok ({ m with file := file }, result)
  recv m _ count :=
    match m.incoming with
    | [] => .ok (m, .done [])
    | piece :: pieces =>
        let others := if piece.length ≤ count then pieces else piece.drop count :: pieces
        .ok ({ m with incoming := others }, .done (piece.take count))
  send m _ bytes :=
    let count := choices.sendCount m.sent.length bytes.length
    .ok ({ m with sent := m.sent ++ bytes.take count }, .done count)
  realloc m := ({ m with reallocs := m.reallocs + 1 }, choices.resize m.reallocs)
  terminationFlag m := (m, false)
  startReading := id
  stopReading := id
  startWriting := id
  stopWriting := id

theorem Choices.resize_ne_null (choices : Choices) (reallocs : Nat) :
    choices.resize reallocs ≠ .null := by
  unfold resize
  split
  · exact Resize.noConfusion
  · exact Resize.noConfusion

theorem Choices.sendCount_bounds (choices : Choices) (sent : Nat) {offered : Nat}
    (hoffered : 0 < offered) :
    0 < choices.sendCount sent offered ∧ choices.sendCount sent offered ≤ offered := by
  unfold sendCount
  omega

/-- A call that is not interrupted is made once. -/
theorem retryOnEintr_done {σ α : Type} {call : σ → Exec (σ × CallResult α)} {state state' : σ}
    {value : α} (hcall : call state = .ok (state', .done value)) :
    Settles (fun fuel => retryOnEintr call fuel state) (.ok (state', some value)) := by
  apply Settles.of_loop
  exact loop.leave (by simp only [hcall, Exec.ok_bind]) 0

namespace Machine

variable (ops : FileOps φ) (choices : Choices)

theorem read_settles {m : Machine φ} {file : φ} {count : Nat} {bytes : List UInt8}
    (hread : ops.read m.file count = .ok (file, .done bytes)) (fd : Nat) :
    Settles (fun fuel => retryOnEintr (fun m => (os ops choices).read m fd count) fuel m)
      (.ok ({ m with file := file }, some bytes)) := by
  apply retryOnEintr_done
  simp only [os, hread, Exec.ok_bind]

theorem write_settles {m : Machine φ} {file : φ} {bytes : List UInt8} {written : Nat}
    (hwrite : ops.write m.file bytes = .ok (file, .done written)) (fd : Nat) :
    Settles (fun fuel => retryOnEintr (fun m => (os ops choices).write m fd bytes) fuel m)
      (.ok ({ m with file := file }, some written)) := by
  apply retryOnEintr_done
  simp only [os, hwrite, Exec.ok_bind]

theorem send_settles (m : Machine φ) (bytes : List UInt8) (fd : Nat) :
    Settles (fun fuel => retryOnEintr (fun m => (os ops choices).send m fd bytes) fuel m)
      (.ok ({ m with sent := m.sent ++ bytes.take (choices.sendCount m.sent.length bytes.length) },
        some (choices.sendCount m.sent.length bytes.length))) :=
  retryOnEintr_done rfl

end Machine

end Aesd

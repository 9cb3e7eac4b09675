import Aesd.Driver.Device
import Aesd.Foundation.CString

/-!
# The environment of the server

The server is modelled over any implementation of the calls it makes. A call
maps the state of the environment to its next state and a result; a fault of the
environment, such as one inside the driver, is a fault of the server's run.
-/

namespace Aesd

open CSem

/-- The result of a system call that returns -1 on an error. -/
inductive CallResult (α : Type)
  | done (value : α)
  | interrupted
  | failed
  deriving DecidableEq, Repr

/-- The calls that the server makes. `realloc` only decides how the allocator
answers; the monitor functions only change the environment. -/
structure Os (σ : Type) where
  openFile : σ → (writable : Bool) → Exec (σ × CallResult Nat)
  closeFile : σ → (fd : Nat) → Exec σ
  read : σ → (fd count : Nat) → Exec (σ × CallResult (List UInt8))
  write : σ → (fd : Nat) → List UInt8 → Exec (σ × CallResult Nat)
  ioctl : σ → (fd : Nat) → AesdSeekto → Exec (σ × CallResult Unit)
  recv : σ → (fd count : Nat) → Exec (σ × CallResult (List UInt8))
  send : σ → (fd : Nat) → List UInt8 → Exec (σ × CallResult Nat)
  realloc : σ → σ × Resize
  terminationFlag : σ → σ × Bool
  startReading : σ → σ
  stopReading : σ → σ
  startWriting : σ → σ
  stopWriting : σ → σ

/-- A thread of the server: the environment and the memory it allocates from. -/
structure Process (σ : Type) where
  state : σ
  heap : Heap
  deriving DecidableEq

/-- `TRYC_RETRY_ON_EINTR`: a call is repeated while it is interrupted, and
another error gives no value. -/
def retryOnEintr {σ α : Type} (call : σ → Exec (σ × CallResult α)) (fuel : Nat) (state : σ) :
    Exec (σ × Option α) :=
  loop (fun state => do
    let (state, result) ← call state
    match result with
    | .done value => .ok (.leave (state, some value))
    | .interrupted => .ok (.again state)
    | .failed => .ok (.leave (state, none))) fuel state

/-- The last of the repeated calls is the first that is not interrupted, and what the
interrupted ones keep holds before it. -/
theorem retryOnEintr_sound {σ α : Type} {call : σ → Exec (σ × CallResult α)} (invariant : σ → Prop)
    (hinterrupted : ∀ state state', invariant state → call state = .ok (state', .interrupted) →
      invariant state')
    {fuel : Nat} {state state' : σ} {result : Option α} (hstate : invariant state)
    (hretry : retryOnEintr call fuel state = .ok (state', result)) :
    ∃ before, invariant before ∧ call before = .ok (state', result.elim .failed .done) := by
  refine loop.sound invariant
    (fun r => ∃ before, invariant before ∧ call before = .ok (r.1, r.2.elim .failed .done))
    ?_ ?_ hstate hretry
  · intro before next hbefore hround
    obtain ⟨⟨after, answer⟩, hcall, hround⟩ := Exec.bind_eq_ok.mp hround
    cases answer with
    | interrupted =>
        cases hround
        exact hinterrupted before next hbefore hcall
    | done value => cases hround
    | failed => cases hround
  · rintro before ⟨last, value⟩ hbefore hround
    obtain ⟨⟨after, answer⟩, hcall, hround⟩ := Exec.bind_eq_ok.mp hround
    cases answer with
    | interrupted => cases hround
    | done value =>
        cases hround
        exact ⟨before, hbefore, hcall⟩
    | failed =>
        cases hround
        exact ⟨before, hbefore, hcall⟩

/-- A call whose interruptions lower a measure comes back. -/
theorem retryOnEintr_total {σ α : Type} {call : σ → Exec (σ × CallResult α)} (measure : σ → Nat)
    (hcall : ∀ state, ∃ state' result, call state = .ok (state', result) ∧
      (result = .interrupted → measure state' < measure state)) (state : σ) :
    ∃ fuel result, retryOnEintr call fuel state = .ok result := by
  have hloop : ∃ result, retryOnEintr call (measure state + 1) state = .ok result ∧ True := by
    refine loop.total (fun _ => True) measure (fun _ => True) ?_ trivial (Nat.lt_succ_self _)
    intro before _
    obtain ⟨after, result, hresult, hless⟩ := hcall before
    cases result with
    | interrupted => exact Or.inl ⟨after, by simp only [hresult, Exec.ok_bind], trivial, hless rfl⟩
    | done value => exact Or.inr ⟨(after, some value), by simp only [hresult, Exec.ok_bind], trivial⟩
    | failed => exact Or.inr ⟨(after, none), by simp only [hresult, Exec.ok_bind], trivial⟩
  obtain ⟨result, hresult, _⟩ := hloop
  exact ⟨_, result, hresult⟩

end Aesd

import Aesd.Foundation.Exec

/-! # Executions with enough fuel

When one bound is given to every loop of a program, the program settles on a
result if all bounds from some point on give that result. The rules settle
sequences and loops without naming a bound.
-/

namespace CSem

variable {σ α β : Type}

/-- From some bound on, the result does not depend on the fuel. -/
def Settles (f : Nat → Exec α) (result : Exec α) : Prop :=
  ∃ enough, ∀ fuel, enough ≤ fuel → f fuel = result

namespace Settles

variable {f : Nat → Exec α} {g : Nat → α → Exec β} {result result' : Exec α} {fault : Fault}

theorem const (x : Exec α) : Settles (fun _ => x) x := ⟨0, fun _ _ => rfl⟩

theorem unique (h : Settles f result) (h' : Settles f result') : result = result' := by
  obtain ⟨enough, hresult⟩ := h
  obtain ⟨enough', hresult'⟩ := h'
  rw [← hresult (max enough enough') (Nat.le_max_left _ _),
    hresult' (max enough enough') (Nat.le_max_right _ _)]

theorem of_eq (h : Settles f result) (heq : result = result') : Settles f result' := heq ▸ h

theorem bind {a : α} {last : Exec β} (hf : Settles f (.ok a))
    (hg : Settles (fun fuel => g fuel a) last) :
    Settles (fun fuel => f fuel >>= g fuel) last := by
  obtain ⟨enough, hfirst⟩ := hf
  obtain ⟨enough', hlast⟩ := hg
  refine ⟨max enough enough', fun fuel hle => ?_⟩
  have hbind := congrArg (· >>= g fuel) (hfirst fuel (by omega))
  exact hbind.trans ((Exec.ok_bind a (g fuel)).trans (hlast fuel (by omega)))

theorem fault_bind (hf : Settles f (.error fault)) :
    Settles (fun fuel => f fuel >>= g fuel) (.error fault) := by
  obtain ⟨enough, hfault⟩ := hf
  exact ⟨enough, fun fuel hle => (congrArg (· >>= g fuel) (hfault fuel hle)).trans
    (Exec.error_bind fault (g fuel))⟩

/-- A loop whose rounds need no fuel settles on what it ever returned. -/
theorem of_loop {body : σ → Exec (Round σ α)} {fuel : Nat} {state : σ} {a : α}
    (hloop : loop body fuel state = .ok a) :
    Settles (fun fuel => loop body fuel state) (.ok a) :=
  ⟨fuel, fun _ hle => loop.mono hloop hle⟩

end Settles

/-- A loop settles on a result when the bound on its rounds and the fuel of each
round are both large enough. -/
def LoopSettles (body : Nat → σ → Exec (Round σ α)) (state : σ) (result : Exec α) : Prop :=
  ∃ enough, ∀ fuel rounds, enough ≤ fuel → enough ≤ rounds →
    loop (body fuel) rounds state = result

namespace LoopSettles

variable {body : Nat → σ → Exec (Round σ α)} {state next : σ} {result : Exec α}

theorem leave {a : α} (hbody : Settles (fun fuel => body fuel state) (.ok (.leave a))) :
    LoopSettles body state (.ok a) := by
  obtain ⟨enough, hround⟩ := hbody
  refine ⟨enough + 1, fun fuel rounds hfuel hrounds => ?_⟩
  obtain ⟨rounds, rfl⟩ : ∃ others, rounds = others + 1 := ⟨rounds - 1, by omega⟩
  exact loop.leave (hround fuel (by omega)) rounds

theorem fault {fault : Fault} (hbody : Settles (fun fuel => body fuel state) (.error fault)) :
    LoopSettles body state (.error fault) := by
  obtain ⟨enough, hround⟩ := hbody
  refine ⟨enough + 1, fun fuel rounds hfuel hrounds => ?_⟩
  obtain ⟨rounds, rfl⟩ : ∃ others, rounds = others + 1 := ⟨rounds - 1, by omega⟩
  exact loop.fault (hround fuel (by omega)) rounds

/-- One round more in front of a loop that settles. -/
theorem again (hbody : Settles (fun fuel => body fuel state) (.ok (.again next)))
    (hnext : LoopSettles body next result) : LoopSettles body state result := by
  obtain ⟨enough, hround⟩ := hbody
  obtain ⟨enough', hrest⟩ := hnext
  refine ⟨max enough enough' + 1, fun fuel rounds hfuel hrounds => ?_⟩
  obtain ⟨rounds, rfl⟩ : ∃ others, rounds = others + 1 := ⟨rounds - 1, by omega⟩
  rw [loop.again (hround fuel (by omega))]
  exact hrest fuel rounds (by omega) (by omega)

/-- A loop settles when its rounds do and those after which it goes on lower a
measure. -/
theorem total (invariant : σ → Prop) (measure : σ → Nat)
    (hround : ∀ state, invariant state → ∃ round,
      Settles (fun fuel => body fuel state) (.ok round) ∧
      ∀ next, round = .again next → invariant next ∧ measure next < measure state)
    {state : σ} (hstate : invariant state) : ∃ a, LoopSettles body state (.ok a) := by
  generalize hsize : measure state = size
  induction size using Nat.strongRecOn generalizing state with
  | ind size ih =>
      obtain ⟨round, hsettles, hnext⟩ := hround state hstate
      cases round with
      | again next =>
          obtain ⟨hkeeps, hless⟩ := hnext next rfl
          obtain ⟨a, hrest⟩ := ih (measure next) (hsize ▸ hless) hkeeps rfl
          exact ⟨a, .again hsettles hrest⟩
      | leave a => exact ⟨a, .leave hsettles⟩

/-- The bound on the rounds may be the fuel itself. -/
theorem settles (h : LoopSettles body state result) :
    Settles (fun fuel => loop (body fuel) fuel state) result := by
  obtain ⟨enough, hloop⟩ := h
  exact ⟨enough, fun fuel hle => hloop fuel fuel hle hle⟩

end LoopSettles

end CSem

import Mathlib.Data.List.Count
import Mathlib.Tactic.Common

/-! # Ledgers of resources

A ledger lists in order what was acquired and what was released, with notes of
other things that happened. It is in balance with what is owed if every resource
was acquired as often as it was released or is still to be released.
-/

namespace Ledger

inductive Entry (ρ ν : Type)
  | acquired (r : ρ)
  | released (r : ρ)
  | note (n : ν)
  deriving DecidableEq, Repr

variable {ρ ν : Type} [DecidableEq ρ] [DecidableEq ν]

/-- How often a resource was acquired. -/
def acquisitions (entries : List (Entry ρ ν)) (r : ρ) : Nat := entries.count (.acquired r)

/-- How often a resource was released. -/
def releases (entries : List (Entry ρ ν)) (r : ρ) : Nat := entries.count (.released r)

section Counting

variable (r r' : ρ) (n : ν) (entries front back : List (Entry ρ ν))

@[simp] theorem acquisitions_nil : acquisitions ([] : List (Entry ρ ν)) r = 0 := rfl

@[simp] theorem acquisitions_acquired : acquisitions (.acquired r' :: entries) r =
    acquisitions entries r + if r' = r then 1 else 0 := by
  simp [acquisitions, List.count_cons]

@[simp] theorem acquisitions_released :
    acquisitions (.released r' :: entries) r = acquisitions entries r := by
  simp [acquisitions]

@[simp] theorem acquisitions_note :
    acquisitions (.note n :: entries) r = acquisitions entries r := by
  simp [acquisitions]

@[simp] theorem acquisitions_append :
    acquisitions (front ++ back) r = acquisitions front r + acquisitions back r :=
  List.count_append

@[simp] theorem releases_nil : releases ([] : List (Entry ρ ν)) r = 0 := rfl

@[simp] theorem releases_acquired :
    releases (.acquired r' :: entries) r = releases entries r := by
  simp [releases]

@[simp] theorem releases_released : releases (.released r' :: entries) r =
    releases entries r + if r' = r then 1 else 0 := by
  simp [releases, List.count_cons]

@[simp] theorem releases_note : releases (.note n :: entries) r = releases entries r := by
  simp [releases]

@[simp] theorem releases_append :
    releases (front ++ back) r = releases front r + releases back r := List.count_append

theorem acquisitions_pos_iff {r : ρ} {entries : List (Entry ρ ν)} :
    0 < acquisitions entries r ↔ .acquired r ∈ entries := List.count_pos_iff

theorem releases_pos_iff {r : ρ} {entries : List (Entry ρ ν)} :
    0 < releases entries r ↔ .released r ∈ entries := List.count_pos_iff

end Counting

/-- All that was acquired was released exactly once. -/
def Settled (log : List (Entry ρ ν)) : Prop := ∀ r, .acquired r ∈ log → releases log r = 1

/-- Nothing was acquired twice. -/
def Once (log : List (Entry ρ ν)) : Prop := ∀ r, acquisitions log r ≤ 1

/-- The acquisitions are the releases so far and those still owed. -/
def Balanced (log : List (Entry ρ ν)) (owed : ρ → Nat) : Prop :=
  ∀ r, releases log r + owed r = acquisitions log r

variable {log : List (Entry ρ ν)} {owed owed' : ρ → Nat}

/-- When nothing is owed any more, all is settled. -/
theorem Balanced.settled (h : Balanced log owed) (honce : Once log) (hzero : ∀ r, owed r = 0) :
    Settled log := by
  intro r hmem
  have hpos := acquisitions_pos_iff.mpr hmem
  have hle := honce r
  have hr := h r
  rw [hzero r] at hr
  omega

/-- The ledger grows, and what is owed with it. -/
theorem Balanced.append (h : Balanced log owed) {extra : List (Entry ρ ν)}
    (hextra : ∀ r, releases extra r + owed' r = owed r + acquisitions extra r) :
    Balanced (log ++ extra) owed' := by
  intro r
  have hr := h r
  have hmore := hextra r
  rw [releases_append, acquisitions_append]
  omega

theorem Balanced.notMem_released (h : Balanced log owed) {r : ρ} (hnew : .acquired r ∉ log) :
    .released r ∉ log := by
  intro hmem
  have hpos := releases_pos_iff.mpr hmem
  have hr := h r
  have hzero : ¬ 0 < acquisitions log r := mt acquisitions_pos_iff.mp hnew
  omega

/-- Something new is acquired. -/
theorem Once.acquire (h : Once log) {r' : ρ} (hnew : .acquired r' ∉ log) :
    Once (log ++ [.acquired r']) := by
  intro r
  have hr := h r
  rw [acquisitions_append, acquisitions_acquired, acquisitions_nil]
  split
  next heq =>
    subst heq
    have hzero : ¬ 0 < acquisitions log r' := mt acquisitions_pos_iff.mp hnew
    omega
  next => exact hr

theorem Once.append (h : Once log) {extra : List (Entry ρ ν)} (hextra : Once extra)
    (hnew : ∀ r, .acquired r ∈ extra → .acquired r ∉ log) : Once (log ++ extra) := by
  intro r
  have hr := h r
  have hmore := hextra r
  rw [acquisitions_append]
  by_cases hmem : .acquired r ∈ extra
  · have hzero : ¬ 0 < acquisitions log r := mt acquisitions_pos_iff.mp (hnew r hmem)
    omega
  · have hzero : ¬ 0 < acquisitions extra r := mt acquisitions_pos_iff.mp hmem
    omega

end Ledger

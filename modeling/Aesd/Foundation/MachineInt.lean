import Mathlib.Algebra.Order.Ring.Int
import Mathlib.Tactic.Common

/-! # Conversions to the fixed-width integer types of C

Unsigned values are naturals and signed values are integers. The conversions
below are applied wherever C converts: to an unsigned type by reduction modulo
the width, to a signed one by two's complement.
-/

namespace CSem

/-- Conversion to `uint8_t`. -/
def u8 (value : Int) : Nat := (value % 2 ^ 8).toNat

/-- Conversion to `unsigned` or `uint32_t`. -/
def u32 (value : Int) : Nat := (value % 2 ^ 32).toNat

/-- Conversion to `size_t` on a 64-bit machine. -/
def u64 (value : Int) : Nat := (value % 2 ^ 64).toNat

/-- Conversion to `int`. -/
def s32 (value : Int) : Int := (value + 2 ^ 31) % 2 ^ 32 - 2 ^ 31

/-- Conversion to `ssize_t`, `long` or `loff_t` on a 64-bit machine. -/
def s64 (value : Int) : Int := (value + 2 ^ 63) % 2 ^ 64 - 2 ^ 63

theorem u8_of_lt {value : Int} (hnonneg : 0 ≤ value) (hlt : value < 2 ^ 8) :
    u8 value = value.toNat := by
  unfold u8
  omega

theorem u8_natCast {value : Nat} (hlt : value < 2 ^ 8) : u8 value = value := by
  rw [u8_of_lt (by omega) (by omega)]
  omega

theorem u32_of_lt {value : Int} (hnonneg : 0 ≤ value) (hlt : value < 2 ^ 32) :
    u32 value = value.toNat := by
  unfold u32
  omega

theorem u32_add_one {value : Nat} (hlt : value + 1 < 2 ^ 32) : u32 (value + 1) = value + 1 := by
  rw [u32_of_lt (by omega) (by omega)]
  omega

theorem u32_sub_one {value : Nat} (hpos : 0 < value) (hlt : value < 2 ^ 32) :
    u32 (value - 1) = value - 1 := by
  rw [u32_of_lt (by omega) (by omega)]
  omega

theorem u64_of_lt {value : Int} (hnonneg : 0 ≤ value) (hlt : value < 2 ^ 64) :
    u64 value = value.toNat := by
  unfold u64
  omega

theorem u64_natCast {value : Nat} (hlt : value < 2 ^ 64) : u64 value = value := by
  rw [u64_of_lt (by omega) (by omega)]
  omega

/-- A sum of sizes that fits. -/
theorem u64_add {size more : Nat} (hlt : size + more < 2 ^ 64) :
    u64 ((size : Int) + more) = size + more := by
  rw [← Int.natCast_add]
  exact u64_natCast hlt

/-- A difference of sizes that does not wrap. -/
theorem u64_sub {size less : Nat} (hle : less ≤ size) (hlt : size - less < 2 ^ 64) :
    u64 ((size : Int) - less) = size - less := by
  rw [← Int.ofNat_sub hle]
  exact u64_natCast hlt

theorem s64_of_lt {value : Int} (hlower : -2 ^ 63 ≤ value) (hupper : value < 2 ^ 63) :
    s64 value = value := by
  unfold s64
  omega

theorem s64_natCast {value : Nat} (hlt : value < 2 ^ 63) : s64 value = value :=
  s64_of_lt (by omega) (by omega)

end CSem

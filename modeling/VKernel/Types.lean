import Mathlib.Data.Nat.Bitwise
import Mathlib.Algebra.Order.Ring.Nat
import Mathlib.Tactic.NormNum

/-!
# `VKernel.Types`: machine words, rounding helpers and strings of `types.h`

The kernel computes addresses and sizes in `u64`. They are natural numbers here, and
every operation that can leave the range wraps explicitly: `add64`, `sub64`. The rounding
helpers `alignUp` and `alignDown` keep the source's mask form,
`(val + align - 1) & ~(align - 1)`. `alignUp_eq` and `alignDown_eq` turn the mask into
the arithmetic form for a power-of-two alignment, and the other lemmas read off what
callers need: the result is a multiple, it is not below the value, and it is less than one
alignment above it.
-/

set_option autoImplicit false

namespace VKernel

/-- The number of `u64` values. Irreducible, so that the elaborator does not count along
the literal. -/
@[irreducible] def U64 : Nat := 2 ^ 64

theorem U64_eq : U64 = 2 ^ 64 := by
  unfold U64
  rfl

theorem U64_pos : 0 < U64 := by
  rw [U64_eq]
  exact Nat.two_pow_pos 64

/-- `PAGE_SIZE_4K`. -/
def PAGE_SIZE_4K : Nat := 0x1000

/-- `u64` addition. -/
def add64 (a b : Nat) : Nat := (a + b) % U64

/-- `u64` subtraction. -/
def sub64 (a b : Nat) : Nat := if b ≤ a then a - b else U64 - (b - a)

/-- `u64` complement, `~a`. -/
def not64 (a : Nat) : Nat := U64 - 1 - a

/-- `align_up`: `(val + align - 1) & ~(align - 1)`. -/
def alignUp (val align : Nat) : Nat := sub64 (add64 val align) 1 &&& not64 (sub64 align 1)

/-- `align_down`: `val & ~(align - 1)`. -/
def alignDown (val align : Nat) : Nat := val &&& not64 (sub64 align 1)

/-- `is_aligned`: `(val & (align - 1)) == 0`. -/
def isAligned (val align : Nat) : Bool := (val &&& sub64 align 1) == 0

theorem add64_eq {a b : Nat} (h : a + b < U64) : add64 a b = a + b := by
  unfold add64
  exact Nat.mod_eq_of_lt h

theorem add64_lt (a b : Nat) : add64 a b < U64 := by
  unfold add64
  exact Nat.mod_lt _ U64_pos

theorem sub64_eq {a b : Nat} (hb : b ≤ a) : sub64 a b = a - b :=
  if_pos hb

theorem sub64_lt {a : Nat} (b : Nat) (ha : a < U64) : sub64 a b < U64 := by
  unfold sub64
  split <;> omega

/-- A power of two below `2 ^ 64` as a binary exponent. -/
theorem two_pow_lt_U64 {k : Nat} (hk : k < 64) : 2 ^ k < U64 := by
  rw [U64_eq]
  exact Nat.pow_lt_pow_right (by decide) hk

/-- Masking with `~(2 ^ k - 1)` clears the low `k` bits. Both sides agree on every bit:
the mask has exactly the bits from `k` to 63. -/
theorem and_not64_two_pow {x k : Nat} (hx : x < U64) (hk : k < 64) :
    x &&& not64 (2 ^ k - 1) = x / 2 ^ k * 2 ^ k := by
  have hlow : x / 2 ^ k * 2 ^ k = x >>> k <<< k := by
    rw [Nat.shiftLeft_eq, Nat.shiftRight_eq_div_pow]
  have hmask : not64 (2 ^ k - 1) = 2 ^ 64 - 2 ^ k := by
    have hp : 0 < 2 ^ k := Nat.two_pow_pos k
    unfold not64
    rw [U64_eq]
    omega
  have hmask' : 2 ^ 64 - 2 ^ k = (2 ^ (64 - k) - 1) <<< k := by
    rw [Nat.shiftLeft_eq, Nat.sub_mul, Nat.one_mul, ← Nat.pow_add,
      show 64 - k + k = 64 by omega]
  rw [hlow, hmask, hmask']
  apply Nat.eq_of_testBit_eq
  intro i
  simp only [Nat.testBit_and, Nat.testBit_shiftLeft, Nat.testBit_shiftRight,
    Nat.testBit_two_pow_sub_one]
  by_cases hi : k ≤ i
  · by_cases h64 : i < 64
    · have hlt : i - k < 64 - k := by omega
      simp [hi, hlt, show k + (i - k) = i by omega]
    · have hbit : x.testBit i = false :=
        Nat.testBit_lt_two_pow (Nat.lt_of_lt_of_le (U64_eq ▸ hx)
          (Nat.pow_le_pow_right (by decide) (by omega)))
      simp [hi, show k + (i - k) = i by omega, hbit]
  · simp [hi]

/-- `align_down` to a power of two. -/
theorem alignDown_eq {val k : Nat} (hv : val < U64) (hk : k < 64) :
    alignDown val (2 ^ k) = val / 2 ^ k * 2 ^ k := by
  unfold alignDown
  rw [sub64_eq Nat.one_le_two_pow, and_not64_two_pow hv hk]

/-- `align_up` to a power of two, when the sum does not wrap. -/
theorem alignUp_eq {val k : Nat} (hk : k < 64) (hv : val + 2 ^ k ≤ U64) :
    alignUp val (2 ^ k) = (val + 2 ^ k - 1) / 2 ^ k * 2 ^ k := by
  have hp : 0 < 2 ^ k := Nat.two_pow_pos k
  have hsum : sub64 (add64 val (2 ^ k)) 1 = val + 2 ^ k - 1 := by
    rcases Nat.lt_or_ge (val + 2 ^ k) U64 with hlt | hge
    · rw [add64_eq hlt, sub64_eq (by omega)]
    · have heq : val + 2 ^ k = U64 := by omega
      unfold add64 sub64
      rw [heq, Nat.mod_self, U64_eq]
      rfl
  unfold alignUp
  rw [hsum, sub64_eq Nat.one_le_two_pow,
    and_not64_two_pow (by omega) hk]

section Rounding

variable {val k : Nat}

/-- Rounding up a value with no multiple above it in the range gives 0. -/
theorem alignUp_wrapped (hk : k < 64) (hval : val < U64) (hv : U64 < val + 2 ^ k) :
    alignUp val (2 ^ k) = 0 := by
  have hpow := two_pow_lt_U64 hk
  have hsum : add64 val (2 ^ k) = val + 2 ^ k - U64 := by
    unfold add64
    rw [Nat.mod_eq_sub_mod (Nat.le_of_lt hv), Nat.mod_eq_of_lt (by omega)]
  unfold alignUp
  rw [hsum, sub64_eq (by omega), sub64_eq Nat.one_le_two_pow, and_not64_two_pow (by omega) hk,
    Nat.div_eq_of_lt (by omega), Nat.zero_mul]

/-- A rounded-up value is a multiple of the alignment. -/
theorem alignUp_dvd (hk : k < 64) (hv : val + 2 ^ k ≤ U64) : 2 ^ k ∣ alignUp val (2 ^ k) := by
  rw [alignUp_eq hk hv]
  exact Nat.dvd_mul_left _ _

/-- Rounding up does not go below the value. -/
theorem le_alignUp (hk : k < 64) (hv : val + 2 ^ k ≤ U64) : val ≤ alignUp val (2 ^ k) := by
  have hp : 0 < 2 ^ k := Nat.two_pow_pos k
  rw [alignUp_eq hk hv]
  have hmod := Nat.mod_lt (val + 2 ^ k - 1) hp
  have hdm := Nat.div_add_mod (val + 2 ^ k - 1) (2 ^ k)
  rw [Nat.mul_comm] at hdm
  omega

/-- Rounding up stays within one alignment. -/
theorem alignUp_lt (hk : k < 64) (hv : val + 2 ^ k ≤ U64) :
    alignUp val (2 ^ k) < val + 2 ^ k := by
  have hp : 0 < 2 ^ k := Nat.two_pow_pos k
  rw [alignUp_eq hk hv]
  have hle := Nat.div_mul_le_self (val + 2 ^ k - 1) (2 ^ k)
  omega

/-- No multiple between the value and its rounding. -/
theorem alignUp_le_of_dvd (hk : k < 64) (hv : val + 2 ^ k ≤ U64) {m : Nat} (hm : val ≤ m)
    (hd : 2 ^ k ∣ m) : alignUp val (2 ^ k) ≤ m := by
  have hlt := alignUp_lt hk hv
  obtain ⟨a, ha⟩ := alignUp_dvd hk hv
  obtain ⟨b, rfl⟩ := hd
  rw [ha] at hlt ⊢
  apply Nat.mul_le_mul_left
  by_contra hgt
  have : 2 ^ k * (b + 1) ≤ 2 ^ k * a := Nat.mul_le_mul_left _ (by omega)
  rw [Nat.mul_add, Nat.mul_one] at this
  omega

/-- A value that is already a multiple is its own rounding. -/
theorem alignUp_of_dvd (hk : k < 64) (hv : val + 2 ^ k ≤ U64) (hd : 2 ^ k ∣ val) :
    alignUp val (2 ^ k) = val :=
  Nat.le_antisymm (alignUp_le_of_dvd hk hv (Nat.le_refl _) hd) (le_alignUp hk hv)

end Rounding

/-! ### Strings -/

/-- What a reader of a C string gets: the bytes in front of the first NUL. -/
def cstr (bytes : List UInt8) : List UInt8 := bytes.takeWhile (· != 0)

/-- `static_string<Capacity>`. -/
structure StaticString (capacity : Nat) where
  view : List UInt8
  fits : view.length < capacity
  deriving DecidableEq, Repr

/-- `static_string::c_str`. -/
def StaticString.cStr {capacity : Nat} (s : StaticString capacity) : List UInt8 := cstr s.view

end VKernel

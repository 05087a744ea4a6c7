import Mathlib.Algebra.BigOperators.Group.List.Basic
import Mathlib.Algebra.Ring.Nat

/-!
# `VKernel.Lib.EndAroundCarry`: sums of words in one's complement

A word is a number up to `M`, the word with all bits set. `carryAdd` adds two words and adds the
carry in again at the low end. Both 0 and `M` stand for zero there, and only the sum of zeros is
0: `carryFold` is the word that a natural number becomes when all its carries are folded in, and
the sum of a list of words is the folded sum of the numbers (`carrySum_eq`). So no carry is lost
and the order of the words does not matter.

A word and its complement sum up to `M` (`carryFold_add_complement`), and
`carryAdd_eq_top_iff` says which words do.
-/

set_option autoImplicit false

namespace VKernel.Lib

/-- The sum of two words, with the carry added in at the low end. -/
def carryAdd (M x y : Nat) : Nat := if x + y ≤ M then x + y else x + y - M

/-- The sum of a list of words. -/
def carrySum (M : Nat) (words : List Nat) : Nat := words.foldl (carryAdd M) 0

/-- The word that is left of a number when every carry is folded in. -/
def carryFold (M n : Nat) : Nat := if n = 0 then 0 else (n - 1) % M + 1

section Words

variable {M : Nat} (hM : 0 < M)

theorem carryFold_zero : carryFold M 0 = 0 := if_pos rfl

theorem carryFold_of_pos {n : Nat} (hn : 0 < n) : carryFold M n = (n - 1) % M + 1 :=
  if_neg (Nat.pos_iff_ne_zero.mp hn)

include hM in
theorem carryFold_le (n : Nat) : carryFold M n ≤ M := by
  rw [carryFold]
  split
  · exact Nat.zero_le _
  · exact Nat.mod_lt _ hM

theorem carryFold_of_le {n : Nat} (h : n ≤ M) : carryFold M n = n := by
  rcases Nat.eq_zero_or_pos n with rfl | hn
  · exact carryFold_zero
  · rw [carryFold_of_pos hn, Nat.mod_eq_of_lt (by omega)]
    omega

/-- A summand may be folded before the addition. -/
theorem carryFold_add (m n : Nat) : carryFold M (carryFold M m + n) = carryFold M (m + n) := by
  rcases Nat.eq_zero_or_pos m with rfl | hm
  · rw [carryFold_zero]
  · have hleft : (m - 1) % M + 1 + n - 1 = (m - 1) % M + n := by omega
    have hright : m + n - 1 = m - 1 + n := by omega
    rw [carryFold_of_pos hm, carryFold_of_pos (by omega), carryFold_of_pos (by omega), hleft,
      hright, Nat.mod_add_mod]

/-- Two words carry at most once. -/
theorem carryAdd_eq {x y : Nat} (hx : x ≤ M) (hy : y ≤ M) :
    carryAdd M x y = carryFold M (x + y) := by
  rw [carryAdd]
  split
  · rename_i hfits
    exact (carryFold_of_le hfits).symm
  · rename_i hcarry
    have hsplit : x + y - 1 = x + y - M - 1 + M := by omega
    rw [carryFold_of_pos (by omega), hsplit, Nat.add_mod_right, Nat.mod_eq_of_lt (by omega)]
    omega

include hM in
theorem foldl_carryAdd {words : List Nat} (hwords : ∀ x ∈ words, x ≤ M) (n : Nat) :
    words.foldl (carryAdd M) (carryFold M n) = carryFold M (n + words.sum) := by
  induction words generalizing n with
  | nil => rfl
  | cons x rest ih =>
    obtain ⟨hx, hrest⟩ := List.forall_mem_cons.mp hwords
    rw [List.foldl_cons, carryAdd_eq (carryFold_le hM n) hx, carryFold_add, ih hrest,
      List.sum_cons, Nat.add_assoc]

include hM in
/-- The sum of the words is the sum of the numbers with its carries folded in. -/
theorem carrySum_eq {words : List Nat} (hwords : ∀ x ∈ words, x ≤ M) :
    carrySum M words = carryFold M words.sum := by
  have h := foldl_carryAdd hM hwords 0
  rwa [carryFold_zero, Nat.zero_add] at h

include hM in
theorem carrySum_le {words : List Nat} (hwords : ∀ x ∈ words, x ≤ M) : carrySum M words ≤ M := by
  rw [carrySum_eq hM hwords]
  exact carryFold_le hM _

/-- Two words sum up to the word of ones if one is the complement of the other, or if both are
the word of ones. -/
theorem carryAdd_eq_top_iff {x y : Nat} (hx : x ≤ M) (hy : y ≤ M) :
    carryAdd M x y = M ↔ x + y = M ∨ x = M ∧ y = M := by
  rw [carryAdd]
  split <;> omega

include hM in
/-- Adding the complement of a sum to the summands gives the word of ones. -/
theorem carryFold_add_complement (n : Nat) : carryFold M (n + (M - carryFold M n)) = M := by
  have hle := carryFold_le hM n
  have hword : M - carryFold M n ≤ M := Nat.sub_le _ _
  rw [← carryFold_add, ← carryAdd_eq hle hword, carryAdd_eq_top_iff hle hword]
  omega

end Words

end VKernel.Lib

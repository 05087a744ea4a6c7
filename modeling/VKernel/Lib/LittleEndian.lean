import Mathlib.Data.Nat.Basic
import Mathlib.Tactic.Ring

/-!
# `VKernel.Lib.LittleEndian`: numbers in byte-addressed memory

A memory is a function from addresses to bytes. `leValue` reads `n` bytes as a little-endian
number, `leStore` writes them. A read sees the last store to its own bytes
(`leValue_leStore`) and nothing of a store elsewhere (`leValue_congr` with
`leStore_outside`). `leModify` changes a word in place; over words that share no byte, each is
changed once (`leValue_foldl_leModify`).
-/

set_option autoImplicit false

namespace VKernel.Lib

/-- The `n` bytes from address `a` on as a number, the lowest byte first. -/
def leValue (mem : Nat → UInt8) (a : Nat) : Nat → Nat
  | 0 => 0
  | n + 1 => (mem a).toNat + 256 * leValue mem (a + 1) n

/-- Byte `i` of the little-endian form of `w`. -/
def leByte (w i : Nat) : UInt8 := UInt8.ofNat (w / 256 ^ i)

/-- The memory with the `n` low bytes of `w` from address `a` on. -/
def leStore (mem : Nat → UInt8) (a n w : Nat) : Nat → UInt8 :=
  fun i => if a ≤ i ∧ i < a + n then leByte w (i - a) else mem i

/-- The `n` low bytes of `w` as a list. -/
def leBytes (n w : Nat) : List UInt8 := (List.range n).map (leByte w)

theorem leValue_succ (mem : Nat → UInt8) (a n : Nat) :
    leValue mem a (n + 1) = (mem a).toNat + 256 * leValue mem (a + 1) n := rfl

/-- A number of `n` bytes is below `256 ^ n`. -/
theorem leValue_lt (mem : Nat → UInt8) (a n : Nat) : leValue mem a n < 256 ^ n := by
  induction n generalizing a with
  | zero => exact Nat.one_pos
  | succ n ih =>
    have hbyte : (mem a).toNat < 256 := (mem a).toNat_lt
    have hrest := ih (a + 1)
    rw [leValue_succ, Nat.pow_succ]
    omega

/-- A read depends on its own bytes only. -/
theorem leValue_congr {mem mem' : Nat → UInt8} {a b n : Nat}
    (h : ∀ i < n, mem (a + i) = mem' (b + i)) : leValue mem a n = leValue mem' b n := by
  induction n generalizing a b with
  | zero => rfl
  | succ n ih =>
    have hrest : leValue mem (a + 1) n = leValue mem' (b + 1) n := by
      apply ih
      intro i hi
      have := h (i + 1) (by omega)
      rwa [Nat.add_right_comm a, Nat.add_right_comm b]
    rw [leValue_succ, leValue_succ, hrest]
    have hfirst := h 0 (by omega)
    rw [Nat.add_zero, Nat.add_zero] at hfirst
    rw [hfirst]

/-- A store changes its own bytes only. -/
theorem leStore_outside {mem : Nat → UInt8} {a n w i : Nat} (h : i < a ∨ a + n ≤ i) :
    leStore mem a n w i = mem i := by
  unfold leStore
  rw [if_neg (by omega)]

/-- The bytes of a store. -/
theorem leStore_inside {mem : Nat → UInt8} {a n w i : Nat} (h : i < n) :
    leStore mem a n w (a + i) = leByte w i := by
  unfold leStore
  rw [if_pos ⟨by omega, by omega⟩, Nat.add_sub_cancel_left]

/-- The value of the bytes of `w`, from byte `i` on. -/
theorem leValue_of_leByte {mem : Nat → UInt8} {a n w k : Nat}
    (h : ∀ i < n, mem (a + i) = leByte w (k + i)) :
    leValue mem a n = w / 256 ^ k % 256 ^ n := by
  induction n generalizing a k with
  | zero => exact (Nat.mod_one _).symm
  | succ n ih =>
    have hfirst := h 0 (by omega)
    have hrest := ih (a := a + 1) (k := k + 1) (by
      intro i hi
      have := h (i + 1) (by omega)
      rwa [Nat.add_right_comm a, Nat.add_right_comm k])
    rw [Nat.add_zero, Nat.add_zero] at hfirst
    have hpow : 256 ^ (n + 1) = 256 * 256 ^ n := Nat.pow_succ'
    have hdiv : w / 256 ^ (k + 1) = w / 256 ^ k / 256 := by
      rw [Nat.pow_succ, Nat.div_div_eq_div_mul]
    rw [leValue_succ, hrest, hfirst, leByte, UInt8.toNat_ofNat', hdiv, hpow, Nat.mod_mul]

/-- The bytes of a number that was read are those of the memory. -/
theorem leByte_leValue (mem : Nat → UInt8) (a : Nat) {n i : Nat} (h : i < n) :
    leByte (leValue mem a n) i = mem (a + i) := by
  induction n generalizing a i with
  | zero => omega
  | succ n ih =>
    have hbyte : (mem a).toNat < 256 := (mem a).toNat_lt
    cases i with
    | zero =>
      show leByte (leValue mem a (n + 1)) 0 = mem a
      rw [leValue_succ, leByte, Nat.pow_zero, Nat.div_one, ← UInt8.toNat_inj, UInt8.toNat_ofNat']
      omega
    | succ i =>
      have hrest := ih (a := a + 1) (i := i) (by omega)
      rw [leByte] at hrest ⊢
      rw [leValue_succ, Nat.pow_succ', ← Nat.div_div_eq_div_mul,
        show ((mem a).toNat + 256 * leValue mem (a + 1) n) / 256 = leValue mem (a + 1) n by omega,
        hrest, Nat.add_assoc, Nat.add_comm 1]

/-- Reading back a store. -/
theorem leValue_leStore (mem : Nat → UInt8) (a n w : Nat) :
    leValue (leStore mem a n w) a n = w % 256 ^ n := by
  have h : leValue (leStore mem a n w) a n = w / 256 ^ 0 % 256 ^ n := by
    apply leValue_of_leByte
    intro i hi
    rw [leStore_inside hi, Nat.zero_add]
  rwa [Nat.pow_zero, Nat.div_one] at h

/-- Storing what is there. -/
theorem leStore_leValue (mem : Nat → UInt8) (a n : Nat) :
    leStore mem a n (leValue mem a n) = mem := by
  funext i
  unfold leStore
  by_cases hin : a ≤ i ∧ i < a + n
  · rw [if_pos hin, leByte_leValue mem a (by omega), Nat.add_sub_cancel' hin.1]
  · rw [if_neg hin]

/-! ### Words changed in place -/

/-- The memory with `f` applied to the `n` bytes from address `a` on. -/
def leModify (f : Nat → Nat) (n : Nat) (mem : Nat → UInt8) (a : Nat) : Nat → UInt8 :=
  leStore mem a n (f (leValue mem a n))

/-- The words of `n` bytes at the two addresses share no byte. -/
def WordsApart (n a b : Nat) : Prop := a + n ≤ b ∨ b + n ≤ a

instance (n a b : Nat) : Decidable (WordsApart n a b) := inferInstanceAs (Decidable (_ ∨ _))

section Words

variable {f : Nat → Nat} {n : Nat}

theorem leModify_outside {mem : Nat → UInt8} {a i : Nat} (h : i < a ∨ a + n ≤ i) :
    leModify f n mem a i = mem i := leStore_outside h

/-- A change that keeps the word keeps the memory. -/
theorem leModify_id {mem : Nat → UInt8} {a : Nat} (h : f (leValue mem a n) = leValue mem a n) :
    leModify f n mem a = mem := by
  unfold leModify
  rw [h, leStore_leValue]

/-- No byte outside of the words changes. -/
theorem foldl_leModify_outside {i : Nat} : ∀ (words : List Nat) (mem : Nat → UInt8),
    (∀ a ∈ words, i < a ∨ a + n ≤ i) → words.foldl (leModify f n) mem i = mem i := by
  intro words
  induction words with
  | nil => exact fun mem _ => rfl
  | cons a words ih =>
    intro mem h
    rw [List.foldl_cons, ih _ fun b hb => h b (.tail _ hb)]
    exact leModify_outside (h a (.head _))

/-- Every one of some words that share no byte is changed once. -/
theorem leValue_foldl_leModify {a : Nat} (hf : ∀ v, f v < 256 ^ n) :
    ∀ (words : List Nat) (mem : Nat → UInt8), words.Pairwise (WordsApart n) → a ∈ words →
      leValue (words.foldl (leModify f n) mem) a n = f (leValue mem a n) := by
  intro words
  induction words with
  | nil => exact fun mem _ ha => absurd ha List.not_mem_nil
  | cons b words ih =>
    intro mem hapart ha
    obtain ⟨hfirst, hrest⟩ := List.pairwise_cons.mp hapart
    rw [List.foldl_cons]
    rcases List.mem_cons.mp ha with rfl | hmem
    · -- the later words leave it as it is
      have hkept : leValue (words.foldl (leModify f n) (leModify f n mem a)) a n =
          leValue (leModify f n mem a) a n := by
        refine leValue_congr fun i hi => foldl_leModify_outside words _ fun b hb => ?_
        rcases hfirst b hb with hle | hle
        · exact .inl (by omega)
        · exact .inr (by omega)
      rw [hkept]
      show leValue (leStore mem a n _) a n = _
      rw [leValue_leStore, Nat.mod_eq_of_lt (hf _)]
    · -- the first word is not this one
      have hkept : leValue (leModify f n mem b) a n = leValue mem a n := by
        refine leValue_congr fun i hi => leModify_outside ?_
        rcases hfirst a hmem with hle | hle
        · exact .inr (by omega)
        · exact .inl (by omega)
      rw [ih _ hrest hmem, hkept]

end Words

end VKernel.Lib

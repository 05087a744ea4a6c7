import Mathlib.Data.List.GetD

/-!
# `VKernel.Lib.ByteRange`: ranges of byte-addressed memory as lists

`readBytes` is the list of the bytes in a range, `writeBytes` puts a list there. A range read
after a write to it is the list (`readBytes_writeBytes`), and a range apart from it is
unchanged (`readBytes_writeBytes_of_disjoint`).
-/

set_option autoImplicit false

namespace VKernel.Lib

/-- The `n` bytes from address `a` on. -/
def readBytes (mem : Nat → UInt8) (a n : Nat) : List UInt8 :=
  (List.range n).map fun i => mem (a + i)

/-- The memory with the bytes of a list from address `a` on. -/
def writeBytes (mem : Nat → UInt8) (a : Nat) (l : List UInt8) : Nat → UInt8 :=
  fun i => if a ≤ i ∧ i < a + l.length then l.getD (i - a) 0 else mem i

@[simp] theorem length_readBytes (mem : Nat → UInt8) (a n : Nat) :
    (readBytes mem a n).length = n := by
  simp [readBytes]

/-- A range is read in two pieces. -/
theorem readBytes_add (mem : Nat → UInt8) (a m n : Nat) :
    readBytes mem a (m + n) = readBytes mem a m ++ readBytes mem (a + m) n := by
  unfold readBytes
  rw [List.range_add, List.map_append, List.map_map]
  simp [Function.comp_def, Nat.add_assoc]

/-- A range read after a write to it. -/
theorem readBytes_writeBytes (mem : Nat → UInt8) (a : Nat) (l : List UInt8) :
    readBytes (writeBytes mem a l) a l.length = l := by
  refine List.ext_getElem (by simp) fun i h₁ h₂ => ?_
  have hi : i < l.length := h₂
  simp [readBytes, writeBytes, hi]

/-- A range apart from a write. -/
theorem readBytes_writeBytes_of_disjoint (mem : Nat → UInt8) {a b n : Nat} {l : List UInt8}
    (h : b + n ≤ a ∨ a + l.length ≤ b) :
    readBytes (writeBytes mem a l) b n = readBytes mem b n := by
  unfold readBytes
  refine List.map_congr_left fun i hi => ?_
  have hlt := List.mem_range.mp hi
  unfold writeBytes
  rw [if_neg (by omega)]

/-- Two writes next to each other are one. -/
theorem writeBytes_append (mem : Nat → UInt8) (a : Nat) (l m : List UInt8) :
    writeBytes (writeBytes mem a l) (a + l.length) m = writeBytes mem a (l ++ m) := by
  funext i
  rw [writeBytes, writeBytes, writeBytes, List.length_append]
  by_cases hm : a + l.length ≤ i ∧ i < a + l.length + m.length
  · have hsub : i - a - l.length = i - (a + l.length) := by omega
    rw [if_pos hm, if_pos (by omega), List.getD_append_right _ _ _ _ (by omega), hsub]
  · rw [if_neg hm]
    by_cases hl : a ≤ i ∧ i < a + l.length
    · rw [if_pos hl, if_pos (by omega), List.getD_append _ _ _ _ (by omega)]
    · rw [if_neg hl, if_neg (by omega)]

/-- A write inside the range of another replaces a piece of its list. -/
theorem writeBytes_inside (mem : Nat → UInt8) (a : Nat) (front old new rest : List UInt8)
    (h : old.length = new.length) :
    writeBytes (writeBytes mem a (front ++ old ++ rest)) (a + front.length) new =
      writeBytes mem a (front ++ new ++ rest) := by
  funext i
  rw [writeBytes, writeBytes, writeBytes]
  simp only [List.append_assoc, List.length_append]
  by_cases hnew : a + front.length ≤ i ∧ i < a + front.length + new.length
  · have hsub : i - a - front.length = i - (a + front.length) := by omega
    rw [if_pos hnew, if_pos (by omega), List.getD_append_right _ _ _ _ (by omega),
      List.getD_append _ _ _ _ (by omega), hsub]
  · rw [if_neg hnew]
    by_cases hin : a ≤ i ∧ i < a + (front.length + (new.length + rest.length))
    · rw [if_pos (by omega), if_pos hin]
      by_cases hfront : i - a < front.length
      · rw [List.getD_append _ _ _ _ hfront, List.getD_append _ _ _ _ hfront]
      · -- Behind the new piece both lists go on with the rest.
        rw [List.getD_append_right _ _ _ _ (by omega), List.getD_append_right _ _ _ _ (by omega),
          List.getD_append_right _ _ _ _ (by omega), List.getD_append_right _ _ _ _ (by omega), h]
    · rw [if_neg (by omega), if_neg hin]

end VKernel.Lib

import VKernel.Fs.Fat32.Names
import Mathlib.Tactic.IntervalCases

/-!
# `VKernel.Proofs.Fs.Fat32.Slots`: the packed layout of directory slots

Writing a `FatEntry` or an `LfnEntry` to a slot and reading the slot again gives the same
entry: `ofBytes_byte` and `ofEntry_ofBytes_byte`. The latter goes through the layout of the
other structure, since a slot is read as a `FatEntry` first.
-/

set_option autoImplicit false

namespace VKernel.Proofs.Fs

open VKernel.Lib VKernel.Fs VKernel.Fs.Fat32

theorem get_ofFn {α : Type} {n : Nat} (f : Fin n → α) (i : Fin n) :
    (Vector.ofFn f).get i = f i := by
  show (Vector.ofFn f)[i.val] = f i
  rw [Vector.getElem_ofFn]

/-- A `u16` whose two bytes are known. -/
theorem u16At_eq {b : Buffer} {o : Nat} {x : UInt16} (h0 : b o = leByte x.toNat 0)
    (h1 : b (o + 1) = leByte x.toNat 1) : u16At b o = x := by
  have hv : leValue b o 2 = x.toNat / 256 ^ 0 % 256 ^ 2 := by
    apply leValue_of_leByte
    intro i hi
    interval_cases i
    · exact h0
    · exact h1
  have hx := x.toNat_lt
  unfold u16At
  rw [hv, Nat.pow_zero, Nat.div_one, Nat.mod_eq_of_lt (by omega), UInt16.ofNat_toNat]

/-- A `u32` whose four bytes are known. -/
theorem u32At_eq {b : Buffer} {o : Nat} {x : UInt32}
    (h : ∀ i < 4, b (o + i) = leByte x.toNat i) : u32At b o = x := by
  have hv : leValue b o 4 = x.toNat / 256 ^ 0 % 256 ^ 4 := by
    apply leValue_of_leByte
    intro i hi
    rw [h i hi, Nat.zero_add]
  have hx := x.toNat_lt
  unfold u32At
  rw [hv, Nat.pow_zero, Nat.div_one, Nat.mod_eq_of_lt (by omega), UInt32.ofNat_toNat]

/-- The bytes of a `u16` that was read. -/
theorem leByte_u16At (b : Buffer) (o : Nat) {i : Nat} (hi : i < 2) :
    leByte (u16At b o).toNat i = b (o + i) := by
  have hlt := leValue_lt b o 2
  unfold u16At
  rw [UInt16.toNat_ofNat', Nat.mod_eq_of_lt (by omega), leByte_leValue b o hi]

/-- The bytes of a `u32` that was read. -/
theorem leByte_u32At (b : Buffer) (o : Nat) {i : Nat} (hi : i < 4) :
    leByte (u32At b o).toNat i = b (o + i) := by
  have hlt := leValue_lt b o 4
  unfold u32At
  rw [UInt32.toNat_ofNat', Nat.mod_eq_of_lt (by omega), leByte_leValue b o hi]

/-- The name fields of an entry that was read. -/
theorem ofBytes_filename (e : FatEntry) : (FatEntry.ofBytes e.byte).filename = e.filename := by
  apply Vector.ext
  intro i hi
  show (Vector.ofFn fun i : Fin 8 => e.byte i)[i] = e.filename[i]
  rw [Vector.getElem_ofFn]
  unfold FatEntry.byte
  rw [dif_pos hi]
  rfl

theorem ofBytes_extension (e : FatEntry) : (FatEntry.ofBytes e.byte).extension = e.extension := by
  apply Vector.ext
  intro i hi
  show (Vector.ofFn fun i : Fin 3 => e.byte (8 + i))[i] = e.extension[i]
  rw [Vector.getElem_ofFn]
  unfold FatEntry.byte
  rw [dif_neg (by simp), dif_pos (by simp; omega)]
  show e.extension[8 + i - 8] = e.extension[i]
  simp only [Nat.add_sub_cancel_left]

/-- An entry that was written is read back. -/
theorem ofBytes_byte (e : FatEntry) : FatEntry.ofBytes e.byte = e := by
  have hsize : u32At e.byte 28 = e.fileSize := by
    apply u32At_eq
    intro i hi
    interval_cases i <;> rfl
  have h16 : ∀ (o : Nat) (x : UInt16), e.byte o = leByte x.toNat 0 →
      e.byte (o + 1) = leByte x.toNat 1 → u16At e.byte o = x := fun _ _ => u16At_eq
  have hfields : FatEntry.ofBytes e.byte =
      { e with
        filename := (FatEntry.ofBytes e.byte).filename
        extension := (FatEntry.ofBytes e.byte).extension } := by
    unfold FatEntry.ofBytes
    rw [hsize, h16 14 e.creationTime rfl rfl, h16 16 e.creationDate rfl rfl,
      h16 18 e.lastAccessedDate rfl rfl, h16 20 e.firstClusterHigh rfl rfl,
      h16 22 e.modificationTime rfl rfl, h16 24 e.modificationDate rfl rfl,
      h16 26 e.firstClusterLow rfl rfl]
    rfl
  rw [hfields, ofBytes_filename, ofBytes_extension]

/-- The 32 bytes of an entry are the bytes that it was read from. -/
theorem byte_ofBytes (b : Buffer) {i : Nat} (hi : i < 32) : (FatEntry.ofBytes b).byte i = b i := by
  by_cases h8 : i < 8
  · unfold FatEntry.byte
    rw [dif_pos h8]
    exact get_ofFn (fun i : Fin 8 => b i) ⟨i, h8⟩
  by_cases h11 : i < 11
  · unfold FatEntry.byte
    rw [dif_neg h8, dif_pos (by omega)]
    refine (get_ofFn (fun i : Fin 3 => b (8 + i)) ⟨i - 8, by omega⟩).trans ?_
    show b (8 + (i - 8)) = b i
    rw [show 8 + (i - 8) = i by omega]
  -- the rest of the fields, byte by byte
  have hlow : 11 ≤ i := by omega
  interval_cases i
  · rfl
  · rfl
  · rfl
  · exact leByte_u16At b 14 (i := 0) (by decide)
  · exact leByte_u16At b 14 (i := 1) (by decide)
  · exact leByte_u16At b 16 (i := 0) (by decide)
  · exact leByte_u16At b 16 (i := 1) (by decide)
  · exact leByte_u16At b 18 (i := 0) (by decide)
  · exact leByte_u16At b 18 (i := 1) (by decide)
  · exact leByte_u16At b 20 (i := 0) (by decide)
  · exact leByte_u16At b 20 (i := 1) (by decide)
  · exact leByte_u16At b 22 (i := 0) (by decide)
  · exact leByte_u16At b 22 (i := 1) (by decide)
  · exact leByte_u16At b 24 (i := 0) (by decide)
  · exact leByte_u16At b 24 (i := 1) (by decide)
  · exact leByte_u16At b 26 (i := 0) (by decide)
  · exact leByte_u16At b 26 (i := 1) (by decide)
  · exact leByte_u32At b 28 (i := 0) (by decide)
  · exact leByte_u32At b 28 (i := 1) (by decide)
  · exact leByte_u32At b 28 (i := 2) (by decide)
  · exact leByte_u32At b 28 (i := 3) (by decide)

/-- The bytes of a character of a long-name entry. -/
theorem lfn_byte_character (l : LfnEntry) (i : Fin 13) {j : Nat} (hj : j < 2) :
    l.byte (lfnOffset i + j) = leByte (l.characters.get i).toNat j := by
  obtain ⟨i, hi⟩ := i
  interval_cases i <;> interval_cases j <;> simp [LfnEntry.byte, lfnOffset]

/-- A long-name entry that was written is read back. -/
theorem ofEntry_ofBytes_byte (l : LfnEntry) : LfnEntry.ofEntry (.ofBytes l.byte) = l := by
  have hoff : ∀ i : Fin 13, lfnOffset i + 1 < 32 := by decide
  have hchars : ∀ i : Fin 13,
      u16At (FatEntry.ofBytes l.byte).byte (lfnOffset i) = l.characters.get i := by
    intro i
    have hi := hoff i
    apply u16At_eq
    · rw [byte_ofBytes l.byte (by omega)]
      exact lfn_byte_character l i (j := 0) (by decide)
    · rw [byte_ofBytes l.byte (by omega)]
      exact lfn_byte_character l i (by decide)
  have hcluster : u16At (FatEntry.ofBytes l.byte).byte 26 = l.firstClusterLow := by
    apply u16At_eq
    · exact byte_ofBytes l.byte (by decide)
    · exact byte_ofBytes l.byte (by decide)
  have hvec : (Vector.ofFn fun i : Fin 13 =>
      u16At (FatEntry.ofBytes l.byte).byte (lfnOffset i)) = l.characters := by
    apply Vector.ext
    intro i hi
    rw [Vector.getElem_ofFn, hchars ⟨i, hi⟩]
    rfl
  unfold LfnEntry.ofEntry
  rw [hvec, hcluster, byte_ofBytes _ (by decide), byte_ofBytes _ (by decide),
    byte_ofBytes _ (by decide), byte_ofBytes _ (by decide)]
  rfl

theorem firstByte_ofBytes (b : Buffer) : (FatEntry.ofBytes b).firstByte = b 0 := by
  show (Vector.ofFn fun i : Fin 8 => b i).get 0 = b 0
  rw [get_ofFn]
  rfl

/-- The first byte of a long-name slot is its order. -/
theorem ofBytes_lfn_firstByte (l : LfnEntry) :
    (FatEntry.ofBytes l.byte).firstByte = l.order := firstByte_ofBytes l.byte

end VKernel.Proofs.Fs

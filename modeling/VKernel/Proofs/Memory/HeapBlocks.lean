import Mathlib.Data.List.Chain
import VKernel.Lib.Extents
import VKernel.Memory.KernelHeap

/-!
# `VKernel.Proofs.Memory.HeapBlocks`: the heap as a list of blocks

The linked list of the kernel heap, read as a plain list. A block owns the bytes from its
header to the end of its data, so that splitting a block and joining two adjacent ones both
exchange one tiling of a byte range for another (`Tiling.retile`). A new region adds a block
in its place (`Tiling.insert`).

`NoFreePair` is stated for neighbours in the list. The lemmas about it are the shapes in
which the two coalescing steps need it: from both sides of a block that was just freed or
just added.
-/

set_option autoImplicit false

namespace VKernel.Proofs.Memory

open VKernel.Memory VKernel.Lib VKernel.Lib.LinkedList

/-- A header with its address. -/
abbrev Block := Nat × Header

/-- The first byte of a block, which is its header's. -/
def blockLo (b : Block) : Nat := b.1

/-- The byte behind the data of a block. -/
def blockHi (b : Block) : Nat := b.1 + HEADER_SIZE + b.2.size

/-- The byte behind a region. -/
def regionHi (r : Nat × Nat) : Nat := r.1 + r.2

/-- The bytes of a list of blocks, headers included. -/
def bytes (l : List Block) : Nat := (l.map fun b => b.2.size + HEADER_SIZE).sum

/-- The blocks lie in order and fill the regions exactly. -/
structure Tiling (regions : List (Nat × Nat)) (l : List Block) : Prop where
  asc : Ascending blockLo blockHi l
  cover : ∀ x, Covers blockLo blockHi l x ↔ Covers Prod.fst regionHi regions x
  aligned : ∀ b ∈ l, HEAP_MIN_ALIGNMENT ∣ b.1
  pos : ∀ b ∈ l, 0 < b.1
  lt : ∀ b ∈ l, blockHi b < U64

/-- Of two neighbours without a gap, one is used. -/
def Separated (a b : Block) : Prop := blockHi a = b.1 → a.2.used = true ∨ b.2.used = true

/-- No two neighbours in the list are free and without a gap. -/
def NoFreePair (l : List Block) : Prop := l.IsChain Separated

/-- Two lists have the same used blocks. -/
def SameUsed (l l' : List Block) : Prop := ∀ b : Block, b.2.used = true → (b ∈ l' ↔ b ∈ l)

theorem blockLo_lt_blockHi (b : Block) : blockLo b < blockHi b := by
  unfold blockLo blockHi HEADER_SIZE
  omega

/-! ### What a tiling says about the list -/

section Tiling

variable {regions : List (Nat × Nat)} {l l₁ l₂ : List Block}

theorem Tiling.sorted (h : Tiling regions l) : l.Pairwise fun a b => a.1 < b.1 :=
  h.asc.imp fun {a _} hab => Nat.lt_of_lt_of_le (blockLo_lt_blockHi a) hab

/-- The linked list over a tiling can be operated on. -/
theorem Tiling.good (h : Tiling regions l) : Good l where
  null := by
    intro hmem
    obtain ⟨b, hb, h0⟩ := List.mem_map.mp hmem
    exact absurd (h.pos b hb) (by omega)
  nodup := List.pairwise_map.mpr (h.sorted.imp fun hab => Nat.ne_of_lt hab)

/-- The blocks of an ascending list between two bounds do not hold more bytes than lie
between the bounds. -/
theorem bytes_le {a b : Nat} (hasc : Ascending blockLo blockHi l) (hab : a ≤ b)
    (hlo : ∀ c ∈ l, a ≤ blockLo c) (hhi : ∀ c ∈ l, blockHi c ≤ b) : a + bytes l ≤ b := by
  induction l generalizing a with
  | nil => simpa [bytes] using hab
  | cons c l ih =>
    obtain ⟨hc, hl⟩ := List.pairwise_cons.mp hasc
    have hclo := hlo c List.mem_cons_self
    have hchi := hhi c List.mem_cons_self
    have hrest := ih hl hchi hc fun d hd => hhi d (List.mem_cons_of_mem _ hd)
    have hsum : bytes (c :: l) = c.2.size + HEADER_SIZE + bytes l := by simp [bytes]
    unfold blockLo blockHi at *
    omega

theorem Tiling.bytes_lt (h : Tiling regions l) : bytes l < U64 := by
  have hle := bytes_le (a := 0) (b := U64 - 1) h.asc (by omega) (fun _ _ => Nat.zero_le _)
    fun c hc => by have := h.lt c hc; omega
  have := U64_pos
  omega

/-- There are fewer blocks than addresses, so the walks over the list end. -/
theorem Tiling.length_lt (h : Tiling regions l) : l.length < U64 := by
  have hle : l.length ≤ bytes l := by
    clear h
    induction l with
    | nil => exact Nat.zero_le _
    | cons c l ih =>
      simp only [bytes, List.map_cons, List.sum_cons, List.length_cons, HEADER_SIZE] at ih ⊢
      omega
  exact Nat.lt_of_le_of_lt hle h.bytes_lt

/-- The byte at which a region may be added belongs to no block, and neither does any other
byte of the region. -/
theorem Tiling.not_covers (h : Tiling regions l) {r : Nat × Nat} (hr : SubheapOk regions r)
    {x : Nat} (hlo : r.1 ≤ x) (hhi : x < r.1 + r.2) : ¬ Covers blockLo blockHi l x := by
  rw [h.cover]
  rintro ⟨r', hr', hx⟩
  have hapart := hr.apart r' hr'
  unfold Apart at hapart
  unfold regionHi at hx
  omega

/-- A segment of the list may be exchanged for another tiling of its range. -/
theorem Tiling.retile {old new : List Block} {a b : Nat} (h : Tiling regions (l₁ ++ old ++ l₂))
    (hold : Tiles blockLo blockHi a b old) (hne : old ≠ [])
    (hnew : Tiles blockLo blockHi a b new) (hal : ∀ c ∈ new, HEAP_MIN_ALIGNMENT ∣ c.1) :
    Tiling regions (l₁ ++ new ++ l₂) := by
  obtain ⟨⟨x, hx, hxa⟩, y, hy, hyb⟩ := hold.ends hne
  have hold_mem : ∀ c ∈ old, c ∈ l₁ ++ old ++ l₂ := fun c hc => by simp [hc]
  have hxpos := h.pos x (hold_mem x hx)
  have hylt := h.lt y (hold_mem y hy)
  -- A block of the new list is one of the old list, or lies between `a` and `b`.
  have hcases : ∀ c ∈ l₁ ++ new ++ l₂, c ∈ new ∨ c ∈ l₁ ++ old ++ l₂ := by
    intro c hc
    simp only [List.mem_append] at hc ⊢
    tauto
  constructor
  · exact h.asc.retile hold hne hnew
  · intro z
    rw [covers_retile hold hnew z]
    exact h.cover z
  · intro c hc
    rcases hcases c hc with hc | hc
    · exact hal c hc
    · exact h.aligned c hc
  · intro c hc
    rcases hcases c hc with hc | hc
    · have hb := (hnew.bounds hc).1
      unfold blockLo at hb hxa
      omega
    · exact h.pos c hc
  · intro c hc
    rcases hcases c hc with hc | hc
    · have hb := (hnew.bounds hc).2.2
      omega
    · exact h.lt c hc

/-- A block may be marked used or free. -/
theorem Tiling.mark {a : Nat} {v w : Header} (h : Tiling regions (l₁ ++ (a, v) :: l₂))
    (hsize : w.size = v.size) : Tiling regions (l₁ ++ (a, w) :: l₂) := by
  have hlt := blockLo_lt_blockHi (a, v)
  have hhi : blockHi (a, w) = blockHi (a, v) := by simp [blockHi, hsize]
  have h' : Tiling regions (l₁ ++ [(a, v)] ++ l₂) := by simpa using h
  have htiles : Tiles blockLo blockHi a (blockHi (a, v)) [(a, w)] := ⟨rfl, hhi ▸ hlt, hhi⟩
  have hnew := h'.retile ⟨rfl, hlt, rfl⟩ (List.cons_ne_nil _ _) htiles fun c hc => by
    rw [List.mem_singleton.mp hc]
    exact h.aligned (a, v) (by simp)
  simpa using hnew

/-- The block that `absorb` makes of two. -/
def joinBlocks (a c : Block) : Block := (a.1, ⟨a.2.size + (c.2.size + HEADER_SIZE), a.2.used⟩)

theorem blockHi_joinBlocks {a c : Block} (hadj : blockHi a = c.1) :
    blockHi (joinBlocks a c) = blockHi c := by
  unfold blockHi joinBlocks at *
  simp only
  omega

/-- Two adjacent blocks may be joined. -/
theorem Tiling.join {a c : Block} (h : Tiling regions (l₁ ++ a :: c :: l₂))
    (hadj : blockHi a = c.1) : Tiling regions (l₁ ++ joinBlocks a c :: l₂) := by
  have hjoin := blockHi_joinBlocks hadj
  have hlt := blockLo_lt_blockHi (joinBlocks a c)
  have h' : Tiling regions (l₁ ++ [a, c] ++ l₂) := by simpa using h
  have hold : Tiles blockLo blockHi a.1 (blockHi c) [a, c] :=
    ⟨rfl, blockLo_lt_blockHi a, hadj.symm, hadj ▸ blockLo_lt_blockHi c, rfl⟩
  have htiles : Tiles blockLo blockHi a.1 (blockHi c) [joinBlocks a c] := ⟨rfl, hlt, hjoin⟩
  have hnew := h'.retile hold (List.cons_ne_nil _ _) htiles fun d hd => by
    rw [List.mem_singleton.mp hd]
    exact h.aligned a (by simp)
  simpa using hnew

/-- A block may be split behind `n` bytes of data. -/
theorem Tiling.split {a n : Nat} {v : Header} {u u' : Bool}
    (h : Tiling regions (l₁ ++ (a, v) :: l₂)) (hn : n + HEADER_SIZE ≤ v.size)
    (hal : HEAP_MIN_ALIGNMENT ∣ n) :
    Tiling regions (l₁ ++ (a, ⟨n, u⟩) ::
      (a + HEADER_SIZE + n, ⟨v.size - n - HEADER_SIZE, u'⟩) :: l₂) := by
  have hlt := blockLo_lt_blockHi (a, v)
  have h' : Tiling regions (l₁ ++ [(a, v)] ++ l₂) := by simpa using h
  have haligned := h.aligned (a, v) (by simp)
  have htiles : Tiles blockLo blockHi a (blockHi (a, v))
      [(a, ⟨n, u⟩), (a + HEADER_SIZE + n, ⟨v.size - n - HEADER_SIZE, u'⟩)] := by
    refine ⟨rfl, blockLo_lt_blockHi (a, ⟨n, u⟩), rfl, ?_, ?_⟩
    · exact blockLo_lt_blockHi (a + HEADER_SIZE + n, ⟨v.size - n - HEADER_SIZE, u'⟩)
    · show a + HEADER_SIZE + n + HEADER_SIZE + (v.size - n - HEADER_SIZE) = a + HEADER_SIZE + v.size
      omega
  have hnew := h'.retile ⟨rfl, hlt, rfl⟩ (List.cons_ne_nil _ _) htiles fun d hd => by
    simp only [List.mem_cons, List.not_mem_nil, or_false] at hd
    rcases hd with rfl | rfl
    · exact haligned
    · exact Nat.dvd_add (Nat.dvd_add haligned ⟨2, rfl⟩) hal
  simpa using hnew

/-- A region that may be added becomes a block between the blocks below and above it. -/
theorem Tiling.insert {base size : Nat} (h : Tiling regions (l₁ ++ l₂))
    (hr : SubheapOk regions (base, size)) (h0 : base ≠ 0) (hsize : HEADER_SIZE < size)
    (hbelow : ∀ b ∈ l₁, b.1 < base) (habove : ∀ b ∈ l₂, base ≤ b.1) :
    Tiling ((base, size) :: regions)
      (l₁ ++ (base, ⟨size - HEADER_SIZE, false⟩) :: l₂) := by
  have hhi : blockHi (base, ⟨size - HEADER_SIZE, false⟩) = base + size := by
    show base + HEADER_SIZE + (size - HEADER_SIZE) = base + size
    omega
  have hlow : ∀ b ∈ l₁, blockHi b ≤ base := by
    intro b hb
    by_contra hgt
    refine h.not_covers hr (x := base) (Nat.le_refl _) (by simp only; omega) ⟨b, by simp [hb], ?_⟩
    exact ⟨Nat.le_of_lt (hbelow b hb), by omega⟩
  have hhigh : ∀ b ∈ l₂, base + size ≤ b.1 := by
    intro b hb
    by_contra hgt
    refine h.not_covers hr (x := b.1) (habove b hb) (by simp only; omega) ⟨b, by simp [hb], ?_⟩
    exact ⟨Nat.le_refl _, blockLo_lt_blockHi b⟩
  have hasc := h.asc
  unfold Ascending at hasc
  rw [List.pairwise_append] at hasc
  have hmem : ∀ b ∈ l₁ ++ (base, ⟨size - HEADER_SIZE, false⟩) :: l₂,
      b = (base, ⟨size - HEADER_SIZE, false⟩) ∨ b ∈ l₁ ++ l₂ := by
    intro b hb
    simp only [List.mem_append, List.mem_cons] at hb ⊢
    tauto
  constructor
  · refine List.pairwise_append.mpr ⟨hasc.1, List.pairwise_cons.mpr ⟨?_, hasc.2.1⟩, ?_⟩
    · intro b hb
      rw [hhi]
      exact hhigh b hb
    · intro a ha b hb
      rcases List.mem_cons.mp hb with rfl | hb
      · exact hlow a ha
      · exact hasc.2.2 a ha b hb
  · intro x
    rw [covers_append, covers_cons, covers_cons, ← h.cover, covers_append, hhi]
    simp only [blockLo, regionHi]
    tauto
  · intro b hb
    rcases hmem b hb with rfl | hb
    · exact hr.aligned
    · exact h.aligned b hb
  · intro b hb
    rcases hmem b hb with rfl | hb
    · exact Nat.pos_of_ne_zero h0
    · exact h.pos b hb
  · intro b hb
    rcases hmem b hb with rfl | hb
    · rw [hhi]
      exact hr.lt
    · exact h.lt b hb

end Tiling

/-! ### Byte counts and used blocks -/

theorem bytes_append (l₁ l₂ : List Block) : bytes (l₁ ++ l₂) = bytes l₁ + bytes l₂ := by
  simp [bytes]

theorem bytes_cons (b : Block) (l : List Block) :
    bytes (b :: l) = b.2.size + HEADER_SIZE + bytes l := by
  simp [bytes]

theorem bytes_join (l₁ l₂ : List Block) (a c : Block) :
    bytes (l₁ ++ joinBlocks a c :: l₂) = bytes (l₁ ++ a :: c :: l₂) := by
  simp only [bytes_append, bytes_cons, joinBlocks]
  omega

theorem SameUsed.refl (l : List Block) : SameUsed l l := fun _ _ => Iff.rfl

theorem SameUsed.trans {l l' l'' : List Block} (h : SameUsed l l') (h' : SameUsed l' l'') :
    SameUsed l l'' :=
  fun b hb => (h' b hb).trans (h b hb)

/-- Joining free blocks leaves the used ones alone. -/
theorem SameUsed.join {l₁ l₂ : List Block} {a c : Block} (ha : a.2.used = false)
    (hc : c.2.used = false) : SameUsed (l₁ ++ a :: c :: l₂) (l₁ ++ joinBlocks a c :: l₂) := by
  intro b hb
  have hba : b ≠ a := by
    rintro rfl
    exact absurd (ha.symm.trans hb) Bool.false_ne_true
  have hbc : b ≠ c := by
    rintro rfl
    exact absurd (hc.symm.trans hb) Bool.false_ne_true
  have hbj : b ≠ joinBlocks a c := by
    rintro rfl
    exact absurd (ha.symm.trans hb) Bool.false_ne_true
  simp [hba, hbc, hbj]

/-- What coalescing keeps: the bytes of the list, its used blocks and its first address. -/
structure Reshaped (regions : List (Nat × Nat)) (l l' : List Block) : Prop where
  tiling : Tiling regions l'
  bytes_eq : bytes l' = bytes l
  used : SameUsed l l'
  head : headOr 0 l' = headOr 0 l

theorem Reshaped.refl {regions : List (Nat × Nat)} {l : List Block} (h : Tiling regions l) :
    Reshaped regions l l :=
  ⟨h, rfl, SameUsed.refl l, rfl⟩

theorem Reshaped.trans {regions : List (Nat × Nat)} {l l' l'' : List Block}
    (h : Reshaped regions l l') (h' : Reshaped regions l' l'') : Reshaped regions l l'' :=
  ⟨h'.tiling, h'.bytes_eq.trans h.bytes_eq, h.used.trans h'.used, h'.head.trans h.head⟩

theorem Reshaped.join {regions : List (Nat × Nat)} {l₁ l₂ : List Block} {a c : Block}
    (h : Tiling regions (l₁ ++ a :: c :: l₂)) (hadj : blockHi a = c.1)
    (ha : a.2.used = false) (hc : c.2.used = false) :
    Reshaped regions (l₁ ++ a :: c :: l₂) (l₁ ++ joinBlocks a c :: l₂) where
  tiling := h.join hadj
  bytes_eq := bytes_join l₁ l₂ a c
  used := SameUsed.join ha hc
  head := by cases l₁ <;> rfl

/-- A free block with the blocks behind it: it takes in the next one if that is free and begins
where it ends. -/
def joinNext (b : Block) : List Block → List Block
  | [] => [b]
  | c :: l => if c.2.used = false ∧ blockHi b = c.1 then joinBlocks b c :: l else b :: c :: l

/-- The blocks in front of a free block, and that block with the last of them if that is free and
ends where it begins. -/
def joinPrev (l : List Block) (b : Block) : List Block × Block :=
  match l.getLast? with
  | none => (l, b)
  | some p =>
    if p.2.used = false ∧ blockHi p = b.1 then (l.dropLast, joinBlocks p b) else (l, b)

/-- The blocks of a heap that is given one more region. -/
def addFree (l : List Block) (base size : Nat) : List Block :=
  let below := l.takeWhile fun b => b.1 < base
  let above := l.dropWhile fun b => b.1 < base
  let joined := joinPrev below (base, ⟨size - HEADER_SIZE, false⟩)
  joined.1 ++ joinNext joined.2 above

/-- The blocks below and above the region. -/
theorem addFree_eq {l₁ l₂ : List Block} {base : Nat} (size : Nat) (hbelow : ∀ b ∈ l₁, b.1 < base)
    (habove : ∀ b ∈ l₂, base ≤ b.1) :
    addFree (l₁ ++ l₂) base size =
      (joinPrev l₁ (base, ⟨size - HEADER_SIZE, false⟩)).1 ++
        joinNext (joinPrev l₁ (base, ⟨size - HEADER_SIZE, false⟩)).2 l₂ := by
  have hhead : ∀ l : List Block, (∀ b ∈ l, base ≤ b.1) →
      l.takeWhile (fun b => b.1 < base) = [] ∧ l.dropWhile (fun b => b.1 < base) = l := by
    intro l hl
    cases l with
    | nil => exact ⟨rfl, rfl⟩
    | cons c l =>
      have hc : ¬ c.1 < base := Nat.not_lt.mpr (hl c List.mem_cons_self)
      simp [hc]
  obtain ⟨htake, hdrop⟩ := hhead l₂ habove
  have hall : ∀ b ∈ l₁, decide (b.1 < base) = true := fun b hb => decide_eq_true (hbelow b hb)
  unfold addFree
  rw [List.takeWhile_append_of_pos hall, List.dropWhile_append_of_pos hall, htake, hdrop,
    List.append_nil]

/-! ### Free neighbours -/

section NoFreePair

variable {l l₁ l₂ : List Block} {a b c : Block}

/-- Joining with the block behind keeps what is known about the blocks before. -/
theorem NoFreePair.join_left (h : NoFreePair (l₁ ++ [a])) :
    NoFreePair (l₁ ++ [joinBlocks a c]) := by
  unfold NoFreePair at h ⊢
  rw [List.isChain_append] at h ⊢
  refine ⟨h.1, List.isChain_singleton _, ?_⟩
  intro x hx y hy
  have hy' : joinBlocks a c = y := by simpa using hy
  subst hy'
  exact h.2.2 x hx a (by simp)

/-- A joined block has the end of the second one, so it is separated from what follows. -/
theorem NoFreePair.join_right (h : NoFreePair (c :: l)) (hadj : blockHi a = c.1)
    (hc : c.2.used = false) : NoFreePair (joinBlocks a c :: l) := by
  unfold NoFreePair at h ⊢
  rw [List.isChain_cons] at h ⊢
  refine ⟨fun y hy heq => ?_, h.2⟩
  rcases h.1 y hy (blockHi_joinBlocks hadj ▸ heq) with hused | hused
  · exact absurd (hc.symm.trans hused) Bool.false_ne_true
  · exact Or.inr hused

/-- The two halves around a block. -/
theorem noFreePair_split :
    NoFreePair (l₁ ++ b :: l₂) ↔ NoFreePair (l₁ ++ [b]) ∧ NoFreePair (b :: l₂) :=
  List.isChain_split

/-- In an ascending list, blocks without a gap are neighbours. -/
theorem NoFreePair.separated (h : NoFreePair l) (hasc : Ascending blockLo blockHi l) :
    ∀ a ∈ l, ∀ b ∈ l, Separated a b := by
  induction l with
  | nil => exact fun a ha => absurd ha List.not_mem_nil
  | cons d l ih =>
    obtain ⟨hd, hl⟩ := List.pairwise_cons.mp hasc
    obtain ⟨hnext, hchain⟩ := List.isChain_cons.mp h
    have hdlt := blockLo_lt_blockHi d
    intro a ha b hb hadj
    have halt := blockLo_lt_blockHi a
    unfold blockLo at *
    rcases List.mem_cons.mp ha with rfl | ha' <;> rcases List.mem_cons.mp hb with rfl | hb'
    · omega
    · cases l with
      | nil => exact absurd hb' List.not_mem_nil
      | cons c l =>
        rcases List.mem_cons.mp hb' with rfl | hb'
        · exact hnext b (by simp) hadj
        · -- `c` lies between the two, so there is a gap.
          have h₁ := hd c List.mem_cons_self
          have h₂ := (List.pairwise_cons.mp hl).1 b hb'
          have h₃ := blockLo_lt_blockHi c
          unfold blockLo at h₃
          omega
    · have := hd a ha'
      omega
    · exact ih hchain hl a ha' b hb' hadj

end NoFreePair

end VKernel.Proofs.Memory

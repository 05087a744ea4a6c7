import VKernel.Memory.AlignedHeap
import VKernel.Proofs.Memory.HeapRuns

/-!
# `VKernel.Proofs.Memory.AlignedHeap`: the aligned allocations keep the heap's list

`find_aligned_heap_block` takes the first free block that offers a place for the request
(`Offers`, `HeapShape.findAligned`), and `allocate_zero_aligned` makes of it:

* A candidate with a header of its own, whose end does not wrap, is cut into a free block, a used
  one and perhaps another free one (`takeAligned_spec`). The second cut is the one of `allocate`
  (`splitSuffix_eq`).
* A candidate whose data is the block's own is not recognised: the prefix is computed as
  `2 ^ 64 - 32` bytes, and the block is linked to itself (`not_heapShape_of_self`).
* A request that ends at `2 ^ 64` or above is taken for one that fits (`not_heapShape_of_end`,
  `not_alignedOk`).

`allocateZeroAligned_ok_iff` says so for a whole call with its expansions, in terms of the blocks
that the heap has before it.
-/

set_option autoImplicit false

namespace VKernel.Proofs.Memory

open VKernel VKernel.Memory VKernel.Lib VKernel.Lib.LinkedList

/-! ### The place in a block -/

section Place

variable {a e r k p : Nat}

theorem two_pow_dvd_U64 (hk : k < 64) : 2 ^ k ∣ U64 := by
  rw [U64_eq]
  exact Nat.pow_dvd_pow 2 (Nat.le_of_lt hk)

theorem add64_two_pow_dvd (hk : k < 64) (hp : 2 ^ k ∣ p) : 2 ^ k ∣ add64 p (2 ^ k) :=
  (Nat.dvd_mod_iff (two_pow_dvd_U64 hk)).mpr (Nat.dvd_add hp (Nat.dvd_refl _))

/-- Every place is a multiple of the alignment. -/
theorem alignedPlace_dvd {dataStart : Nat} (hk : k < 64) (fuel : Nat) (hp : 2 ^ k ∣ p)
    (hlt : p < U64) :
    2 ^ k ∣ alignedPlace a dataStart e r (2 ^ k) fuel p ∧
      alignedPlace a dataStart e r (2 ^ k) fuel p < U64 := by
  induction fuel generalizing p with
  | zero => exact ⟨hp, hlt⟩
  | succ fuel ih =>
    rw [alignedPlace]
    split_ifs
    · exact ⟨hp, hlt⟩
    · exact ⟨hp, hlt⟩
    · exact ⟨hp, hlt⟩
    · exact ih (add64_two_pow_dvd hk hp) (add64_lt _ _)

/-- One round of the loop, at a place that is not below the data of the block. -/
theorem alignedPlace_succ (al fuel : Nat) (hp : a + 32 ≤ p) :
    alignedPlace a (a + 32) e r al (fuel + 1) p =
      if p = a + 32 ∨ a + 80 ≤ p ∨ add64 p r > e then p
      else alignedPlace a (a + 32) e r al fuel (add64 p al) := by
  have hheader : sub64 p HEADER_SIZE = p - 32 := sub64_eq (by unfold HEADER_SIZE; omega)
  rw [alignedPlace, hheader]
  by_cases hown : p = a + 32
  · rw [if_pos (by omega), if_pos (.inl hown)]
  rw [if_neg (by omega)]
  by_cases hfar : a + 80 ≤ p
  · have hgap : sub64 (p - 32) (a + 32) = p - 32 - (a + 32) := sub64_eq (by omega)
    rw [if_pos ⟨by omega, by rw [hgap]; unfold HEAP_MIN_SPLIT_DATA_SIZE; omega⟩,
      if_pos (.inr (.inl hfar))]
  · rw [if_neg]
    · by_cases hend : add64 p r > e
      · rw [if_pos hend, if_pos (.inr (.inr hend))]
      · rw [if_neg hend, if_neg (by omega)]
    · rintro ⟨hle, hgap⟩
      rw [sub64_eq hle] at hgap
      unfold HEAP_MIN_SPLIT_DATA_SIZE at hgap
      omega

/-- With a place at hand that is neither the block's own data nor leaves room for a block in front,
the alignment is above 16: the next multiple leaves that room. -/
theorem le_next_place (h16 : HEAP_MIN_ALIGNMENT ∣ a) (hp : a + 32 ≤ p)
    (hnext : p < a + 32 + 2 ^ k) (hdvd : 2 ^ k ∣ p) (hown : p ≠ a + 32) : a + 80 ≤ p + 2 ^ k := by
  have h16' : 16 ∣ a := h16
  have h5 : 5 ≤ k := by
    by_contra hsmall
    have hdvd16 : 2 ^ k ∣ a + 32 :=
      Nat.dvd_trans (Nat.pow_dvd_pow 2 (by omega : k ≤ 4)) (by
        show 16 ∣ a + 32
        omega)
    have hdiff : 2 ^ k ∣ p - (a + 32) := Nat.dvd_sub hdvd hdvd16
    have hle := Nat.le_of_dvd (by omega) hdiff
    omega
  have hbig : 2 ^ 5 ≤ 2 ^ k := Nat.pow_le_pow_right (by decide) h5
  have hp32 : 2 ^ 5 ∣ p := Nat.dvd_trans (Nat.pow_dvd_pow 2 h5) hdvd
  omega

/-- The loop makes at most one step: to the multiple behind the nearest one, which is 0 where it
wraps. -/
theorem alignedPlace_eq (h16 : HEAP_MIN_ALIGNMENT ∣ a) (he : e < U64) (hk : k < 64)
    (hp : a + 32 ≤ p) (hnext : p < a + 32 + 2 ^ k) (hdvd : 2 ^ k ∣ p)
    (hlt : p < U64) (fuel : Nat) :
    alignedPlace a (a + 32) e r (2 ^ k) (fuel + 2) p =
      if p = a + 32 ∨ a + 80 ≤ p ∨ add64 p r > e then p else add64 p (2 ^ k) := by
  rw [alignedPlace_succ _ _ hp]
  split_ifs with hstop
  · rfl
  rw [not_or] at hstop
  have hfar := le_next_place h16 hp hnext hdvd hstop.1
  rcases Nat.lt_or_ge (p + 2 ^ k) U64 with hin | hwrap
  · rw [add64_eq hin, alignedPlace_succ _ _ (by omega), if_pos (.inr (.inl hfar))]
  · -- the next multiple is `2 ^ 64`, and the loop ends at 0
    have hsum : p + 2 ^ k = U64 := by
      obtain ⟨c, hc⟩ := Nat.dvd_sub (Nat.dvd_add hdvd (Nat.dvd_refl (2 ^ k))) (two_pow_dvd_U64 hk)
      have hc0 : c = 0 := by
        by_contra hpos
        have hle : 2 ^ k * 1 ≤ 2 ^ k * c := Nat.mul_le_mul_left _ (Nat.pos_of_ne_zero hpos)
        omega
      rw [hc0, Nat.mul_zero] at hc
      omega
    have hzero : add64 p (2 ^ k) = 0 := by
      unfold add64
      rw [hsum, Nat.mod_self]
    have hheader : sub64 0 HEADER_SIZE = U64 - 32 := by
      unfold sub64 HEADER_SIZE
      rw [if_neg (by decide)]
    have hle : a + 32 ≤ U64 - 32 := by omega
    have hgap : sub64 (U64 - 32) (a + 32) ≥ HEAP_MIN_SPLIT_DATA_SIZE := by
      rw [sub64_eq hle]
      unfold HEAP_MIN_SPLIT_DATA_SIZE
      omega
    rw [hzero, alignedPlace, hheader, if_neg (by omega), if_pos ⟨hle, hgap⟩]

end Place

/-! ### The blocks that the search takes -/

/-- The first multiple of the alignment that is not in front of the data of a block. -/
def nearest (alignment : Nat) (b : Block) : Nat :=
  (b.1 + HEADER_SIZE + alignment - 1) / alignment * alignment

/-- Where a request would have its data in a block: at the nearest multiple of the alignment if that
is where the block has its data or if a block fits in front of a header there, and at the next one
otherwise. -/
def place (alignment : Nat) (b : Block) : Nat :=
  if nearest alignment b = b.1 + HEADER_SIZE ∨
      b.1 + 2 * HEADER_SIZE + HEAP_MIN_SPLIT_DATA_SIZE ≤ nearest alignment b then
    nearest alignment b
  else nearest alignment b + alignment

/-- The search takes the block for a request of `rounded` bytes. The ends are compared in 64
bits. -/
structure Offers (alignment rounded : Nat) (b : Block) : Prop where
  free : b.2.used = false
  lt : place alignment b < U64
  near : add64 (nearest alignment b) rounded ≤ blockHi b
  fits : add64 (place alignment b) rounded ≤ blockHi b

/-- The candidate in such a block. -/
def candidateIn (alignment rounded : Nat) (b : Block) : AlignedHeapCandidate where
  block := b.1
  alignedData := place alignment b
  usedHeaderAddr := place alignment b - 32
  prefixDataSize := sub64 (place alignment b - 32) (b.1 + 32)
  suffixTotal := blockHi b - add64 (place alignment b) rounded

instance (alignment rounded : Nat) (b : Block) : Decidable (Offers alignment rounded b) :=
  decidable_of_iff (b.2.used = false ∧ place alignment b < U64 ∧
      add64 (nearest alignment b) rounded ≤ blockHi b ∧
      add64 (place alignment b) rounded ≤ blockHi b)
    ⟨fun ⟨h₁, h₂, h₃, h₄⟩ => ⟨h₁, h₂, h₃, h₄⟩, fun ⟨h₁, h₂, h₃, h₄⟩ => ⟨h₁, h₂, h₃, h₄⟩⟩

section Places

variable {b : Block} {k : Nat}

theorem nearest_dvd (b : Block) (k : Nat) : 2 ^ k ∣ nearest (2 ^ k) b := Nat.dvd_mul_left _ _

theorem nearest_bounds (b : Block) (k : Nat) :
    b.1 + 32 ≤ nearest (2 ^ k) b ∧ nearest (2 ^ k) b < b.1 + 32 + 2 ^ k := by
  have hp : 0 < 2 ^ k := Nat.two_pow_pos k
  have hmod := Nat.mod_lt (b.1 + 32 + 2 ^ k - 1) hp
  have hdm := Nat.div_add_mod (b.1 + 32 + 2 ^ k - 1) (2 ^ k)
  rw [Nat.mul_comm] at hdm
  unfold nearest HEADER_SIZE
  omega

theorem place_dvd (b : Block) (k : Nat) : 2 ^ k ∣ place (2 ^ k) b := by
  unfold place
  split_ifs
  · exact nearest_dvd b k
  · exact Nat.dvd_add (nearest_dvd b k) (Nat.dvd_refl _)

/-- A place that is not the block's own leaves room for a block in front. -/
theorem place_bounds (h16 : HEAP_MIN_ALIGNMENT ∣ b.1) (k : Nat) :
    (place (2 ^ k) b = b.1 + 32 ∨ b.1 + 80 ≤ place (2 ^ k) b) ∧
      nearest (2 ^ k) b ≤ place (2 ^ k) b ∧ place (2 ^ k) b < b.1 + 32 + 2 * 2 ^ k := by
  obtain ⟨hlo, hhi⟩ := nearest_bounds b k
  unfold place HEADER_SIZE HEAP_MIN_SPLIT_DATA_SIZE
  split_ifs with hstop
  · omega
  · rw [not_or] at hstop
    have hfar := le_next_place h16 hlo hhi (nearest_dvd b k) hstop.1
    omega

/-- The place is the block's own data exactly when that is aligned. -/
theorem place_eq_own_iff (b : Block) (k : Nat) :
    place (2 ^ k) b = b.1 + HEADER_SIZE ↔ 2 ^ k ∣ b.1 + HEADER_SIZE := by
  refine ⟨fun heq => heq ▸ place_dvd b k, fun hdvd => ?_⟩
  obtain ⟨hlo, hhi⟩ := nearest_bounds b k
  have hnear : nearest (2 ^ k) b = b.1 + HEADER_SIZE := by
    have hdiff : 2 ^ k ∣ nearest (2 ^ k) b - (b.1 + HEADER_SIZE) :=
      Nat.dvd_sub (nearest_dvd b k) hdvd
    by_contra hne
    unfold HEADER_SIZE at *
    have hle := Nat.le_of_dvd (by omega) hdiff
    omega
  unfold place
  rw [if_pos (.inl hnear), hnear]

/-- A multiple of the alignment below `2 ^ 64` leaves room for another one. -/
theorem le_U64_of_dvd {p : Nat} (hk : k < 64) (hdvd : 2 ^ k ∣ p) (hlt : p < U64) :
    p + 2 ^ k ≤ U64 := by
  have hdiff := Nat.le_of_dvd (by omega) (Nat.dvd_sub (two_pow_dvd_U64 hk) hdvd)
  omega

end Places

/-! ### The search -/

/-- What the search knows about the candidate it found in a block. -/
structure FitOk (b : Block) (size k : Nat) (fit : AlignedHeapCandidate) : Prop where
  free : b.2.used = false
  block : fit.block = b.1
  dvd : 2 ^ k ∣ fit.alignedData
  lt : fit.alignedData < U64
  place : fit.alignedData = b.1 + 32 ∨ b.1 + 80 ≤ fit.alignedData
  near : fit.alignedData < b.1 + 32 + 2 * 2 ^ k
  fits : add64 fit.alignedData size ≤ blockHi b
  header : fit.usedHeaderAddr = fit.alignedData - 32
  gap : fit.prefixDataSize = sub64 (fit.alignedData - 32) (b.1 + 32)
  rest : fit.suffixTotal = blockHi b - add64 fit.alignedData size

section Search

variable {m : Store Header} {l : List Block} {b : Block} {r k : Nat}

theorem U64_fuel : U64 = U64 - 2 + 2 := by
  rw [U64_eq]
  norm_num

/-- The loop body takes exactly the blocks that `Offers` says, with the data at the place. -/
theorem alignedFit_eq (hval : (m b.1).val = b.2) (h16 : HEAP_MIN_ALIGNMENT ∣ b.1)
    (hlt : blockHi b < U64) (hk : k < 64) :
    alignedFit m r (2 ^ k) b.1 =
      if Offers (2 ^ k) r b then some (candidateIn (2 ^ k) r b) else none := by
  have hend : b.1 + 32 + b.2.size < U64 := hlt
  have hhi : blockHi b = b.1 + 32 + b.2.size := rfl
  have hstart : add64 b.1 HEADER_SIZE = b.1 + 32 := add64_eq (by unfold HEADER_SIZE; omega)
  obtain ⟨hp, hnext⟩ := nearest_bounds b k
  obtain ⟨-, hle, -⟩ := place_bounds h16 k
  unfold alignedFit
  rw [hval, hstart]
  dsimp only
  rw [add64_eq hend, ← hhi]
  by_cases hused : b.2.used = true
  · have hno : ¬ Offers (2 ^ k) r b :=
      fun ho => absurd (hused.symm.trans ho.free) Bool.noConfusion
    rw [if_pos hused, if_neg hno]
  rw [if_neg hused]
  rcases Nat.lt_or_ge U64 (b.1 + 32 + 2 ^ k) with hwrap | hroom
  · -- a start that wraps to 0 leaves only places below the block
    have hzero : alignUp (b.1 + 32) (2 ^ k) = 0 := alignUp_wrapped hk (by omega) hwrap
    obtain ⟨hdvd, hbelow⟩ : _ ∧ alignedPlace b.1 (b.1 + 32) (blockHi b) r (2 ^ k) U64 0 < U64 :=
      alignedPlace_dvd hk U64 (Nat.dvd_zero (2 ^ k)) U64_pos
    have hlast := le_U64_of_dvd hk hdvd hbelow
    have hno : ¬ Offers (2 ^ k) r b := by
      intro ho
      have hfits := le_U64_of_dvd hk (nearest_dvd b k) (Nat.lt_of_le_of_lt hle ho.lt)
      omega
    rw [hzero, if_pos (by omega), if_neg hno]
  have hnear : alignUp (b.1 + 32) (2 ^ k) = nearest (2 ^ k) b := alignUp_eq hk hroom
  have hnlt : nearest (2 ^ k) b < U64 := by omega
  have hfree : b.2.used = false := by simpa using hused
  have hheader : sub64 (place (2 ^ k) b) HEADER_SIZE = place (2 ^ k) b - 32 :=
    sub64_eq (by unfold HEADER_SIZE; omega)
  have hstep := alignedPlace_eq (r := r) h16 hlt hk hp hnext (nearest_dvd b k) hnlt (U64 - 2)
  rw [← U64_fuel] at hstep
  rw [hnear]
  by_cases hroomy : nearest (2 ^ k) b = b.1 + 32 ∨ b.1 + 80 ≤ nearest (2 ^ k) b
  · -- the nearest multiple is the place
    have hplace : place (2 ^ k) b = nearest (2 ^ k) b := if_pos hroomy
    rw [if_pos (hroomy.imp_right .inl)] at hstep
    rw [hstep, ← hplace, if_neg (by omega), hheader]
    by_cases hfits : add64 (place (2 ^ k) b) r ≤ blockHi b
    · have ho : Offers (2 ^ k) r b := ⟨hfree, by omega, hplace ▸ hfits, hfits⟩
      rw [if_neg (by omega), if_pos ho, sub64_eq hfits]
      rfl
    · rw [if_pos (by omega), if_neg fun ho => hfits ho.fits]
  -- the one behind it is
  have hplace : place (2 ^ k) b = nearest (2 ^ k) b + 2 ^ k := if_neg hroomy
  rw [not_or] at hroomy
  by_cases hover : add64 (nearest (2 ^ k) b) r > blockHi b
  · have hno : ¬ Offers (2 ^ k) r b := fun ho => Nat.not_le.mpr hover ho.near
    rw [if_pos (.inr (.inr hover))] at hstep
    rw [hstep, if_neg (by omega), if_pos (.inr hover), if_neg hno]
  rw [if_neg (by omega)] at hstep
  rcases Nat.lt_or_ge (nearest (2 ^ k) b + 2 ^ k) U64 with hin | hout
  · rw [add64_eq hin, ← hplace] at hstep
    rw [hstep, if_neg (by omega), hheader]
    by_cases hfits : add64 (place (2 ^ k) b) r ≤ blockHi b
    · have ho : Offers (2 ^ k) r b := ⟨hfree, by omega, by omega, hfits⟩
      rw [if_neg (by omega), if_pos ho, sub64_eq hfits]
      rfl
    · rw [if_pos (by omega), if_neg fun ho => hfits ho.fits]
  · have hsum := le_U64_of_dvd hk (nearest_dvd b k) hnlt
    have hzero : add64 (nearest (2 ^ k) b) (2 ^ k) = 0 := by
      unfold add64
      rw [Nat.le_antisymm hsum hout, Nat.mod_self]
    have hno : ¬ Offers (2 ^ k) r b := fun ho => by
      have := ho.lt
      omega
    rw [hstep, hzero, if_pos (by omega), if_neg hno]

theorem fitOk_candidateIn (h16 : HEAP_MIN_ALIGNMENT ∣ b.1) (ho : Offers (2 ^ k) r b) :
    FitOk b r k (candidateIn (2 ^ k) r b) := by
  obtain ⟨hplace, -, hnear⟩ := place_bounds h16 k
  exact {
    free := ho.free
    block := rfl
    dvd := place_dvd b k
    lt := ho.lt
    place := hplace
    near := hnear
    fits := ho.fits
    header := rfl
    gap := rfl
    rest := rfl }

/-- The search is over the list of blocks. -/
theorem findAlignedHeapBlock_eq {alignment p fuel : Nat} (hseg : Seg m p l 0)
    (h0 : ∀ b ∈ l, 0 < b.1) (hfuel : l.length < fuel) :
    findAlignedHeapBlock m r alignment fuel (headOr 0 l) =
      l.findSome? fun b => alignedFit m r alignment b.1 := by
  induction l generalizing p fuel with
  | nil =>
    cases fuel with
    | zero => rfl
    | succ fuel => rfl
  | cons b l ih =>
    cases fuel with
    | zero => exact absurd hfuel (Nat.not_lt_zero _)
    | succ fuel =>
      obtain ⟨hb, hl⟩ := hseg
      have hb0 : b.1 ≠ 0 := Nat.ne_of_gt (h0 b List.mem_cons_self)
      have hrest := ih hl (fun c hc => h0 c (List.mem_cons_of_mem _ hc))
        (Nat.lt_of_succ_lt_succ hfuel)
      show findAlignedHeapBlock m r alignment (fuel + 1) b.1 = _
      rw [findAlignedHeapBlock, if_neg hb0, List.findSome?_cons]
      cases hfit : alignedFit m r alignment b.1 with
      | some fit => rfl
      | none =>
        rw [hb]
        exact hrest

/-- It finds the first block that offers a place. -/
theorem HeapShape.findAligned {h : KernelHeap} (hshape : HeapShape h l) (hk : k < 64) :
    findAlignedHeapBlock h.mem r (2 ^ k) U64 h.freeList =
      (l.find? fun b => Offers (2 ^ k) r b).map (candidateIn (2 ^ k) r) := by
  rw [hshape.head, findAlignedHeapBlock_eq hshape.seg hshape.tiling.pos hshape.tiling.length_lt]
  have hfit : ∀ b ∈ l, alignedFit h.mem r (2 ^ k) b.1 =
      if Offers (2 ^ k) r b then some (candidateIn (2 ^ k) r b) else none := by
    intro b hb
    refine alignedFit_eq ?_ (hshape.tiling.aligned b hb) (hshape.tiling.lt b hb) hk
    obtain ⟨l₁, l₂, rfl⟩ := List.append_of_mem hb
    rw [hshape.seg.node]
  clear hshape
  induction l with
  | nil => rfl
  | cons b l ih =>
    rw [List.findSome?_cons, List.find?_cons, hfit b List.mem_cons_self]
    by_cases ho : Offers (2 ^ k) r b
    · simp [ho]
    · simp only [ho, if_false, decide_false]
      exact ih fun c hc => hfit c (List.mem_cons_of_mem _ hc)

/-- A candidate lies in a block of the list. -/
theorem HeapShape.fit {h : KernelHeap} {fit : AlignedHeapCandidate} (hshape : HeapShape h l)
    (hk : k < 64) (hfind : findAlignedHeapBlock h.mem r (2 ^ k) U64 h.freeList = some fit) :
    ∃ l₁ b l₂, l = l₁ ++ b :: l₂ ∧ FitOk b r k fit := by
  rw [hshape.findAligned hk] at hfind
  obtain ⟨b, hb, rfl⟩ := Option.map_eq_some_iff.mp hfind
  obtain ⟨ho, l₁, l₂, rfl, -⟩ := List.find?_eq_some_iff_append.mp hb
  exact ⟨l₁, b, l₂, rfl, fitOk_candidateIn (hshape.tiling.aligned b (by simp)) (by simpa using ho)⟩

end Search

/-! ### Cutting a block -/

section Split

variable {m : Store Header} {l₁ l₂ : List Block} {fit : AlignedHeapCandidate} {u r : Nat}
  {w : Header}

/-- A header of its own is put into the list behind the candidate block, which keeps the bytes
up to it. -/
theorem splitPrefix_eq (m : Store Header) (hown : fit.usedHeaderAddr ≠ fit.block) :
    splitPrefix m fit =
      (insertAfter (setVal m fit.block { (m fit.block).val with size := fit.prefixDataSize })
        fit.block fit.usedHeaderAddr (m fit.usedHeaderAddr).val, fit.usedHeaderAddr) := by
  have hold : setVal m fit.block { (m fit.block).val with size := fit.prefixDataSize }
      fit.usedHeaderAddr = m fit.usedHeaderAddr := setVal_of_ne _ hown
  unfold splitPrefix insertAfter
  rw [if_neg fun h => hown h.2]
  simp only [setVal_next, hold]

/-- Behind the prefix, the used block is taken as `allocate` takes one of its size. -/
theorem splitSuffix_eq (hseg : Seg m 0 (l₁ ++ (u, w) :: l₂) 0)
    (hu : 16 ≤ u)
    (hdata : fit.alignedData = u + 32) (hlt : u + 32 + (r + fit.suffixTotal) < U64) :
    splitSuffix m u (headOr 0 l₂) r fit =
      takeBlock (setVal m u ⟨r + fit.suffixTotal, false⟩) u r := by
  have hnode := hseg.node
  have hsum : add64 (add64 r 32) 16 = r + 32 + 16 := by
    rw [add64_eq (a := r) (by omega), add64_eq (by omega)]
  unfold splitSuffix takeBlock
  simp only [setVal_val_self, setVal_setVal, HEADER_SIZE, HEAP_MIN_SPLIT_DATA_SIZE, hsum, hnode]
  by_cases hbig : fit.suffixTotal > 32 + 16
  · rw [if_pos hbig, if_pos (by omega)]
    have hs : add64 fit.alignedData r = u + 32 + r := by
      rw [hdata, add64_eq (by omega)]
    have hs' : add64 (add64 u 32) r = u + 32 + r := by
      rw [add64_eq (a := u) (by omega), add64_eq (by omega)]
    have hleft : sub64 (sub64 (r + fit.suffixTotal) r) 32 = sub64 fit.suffixTotal 32 := by
      rw [sub64_eq (a := r + fit.suffixTotal) (by omega), Nat.add_sub_cancel_left]
    have hus : u ≠ u + 32 + r := by omega
    rw [hs, hs', hleft]
    unfold insertAfter
    simp only [setVal_next, hnode, setVal_setPrev, setVal_setNext, setVal_update_of_ne _ _ hus,
      setVal_setVal, setPrev_val, setNext_val, Function.update_of_ne hus, setVal_val_self]
  · rw [if_neg hbig, if_neg (by omega), add64_eq (by omega)]
    have hnext : (setVal m u ⟨r + fit.suffixTotal, true⟩ u).next = headOr 0 l₂ := by
      rw [setVal_next, hnode]
    rw [setNext_self hnext, setPrev_self]
    intro h0
    rw [setVal_prev]
    exact hseg.prev_rest h0

/-- A candidate with a header of its own leaves a free block in front of the used one. -/
theorem takeAligned_spec {regions : List (Nat × Nat)} {a k : Nat} {v : Header}
    (hseg : Seg m 0 (l₁ ++ (a, v) :: l₂) 0) (ht : Tiling regions (l₁ ++ (a, v) :: l₂))
    (hal : HEAP_MIN_ALIGNMENT ∣ r) (hk : 4 ≤ k) (hfit : FitOk (a, v) r k fit)
    (hown : fit.usedHeaderAddr ≠ fit.block) (hend : fit.alignedData + r < U64) :
    ∃ n l₂', r ≤ n ∧
      Seg (takeAligned m fit r) 0
        (l₁ ++ (a, ⟨fit.prefixDataSize, false⟩) :: (fit.usedHeaderAddr, ⟨n, true⟩) :: l₂') 0 ∧
      Tiling regions
        (l₁ ++ (a, ⟨fit.prefixDataSize, false⟩) :: (fit.usedHeaderAddr, ⟨n, true⟩) :: l₂') ∧
      (NoFreePair (l₁ ++ (a, v) :: l₂) → NoFreePair
        (l₁ ++ (a, ⟨fit.prefixDataSize, false⟩) :: (fit.usedHeaderAddr, ⟨n, true⟩) :: l₂')) ∧
      bytes (l₁ ++ (a, ⟨fit.prefixDataSize, false⟩) :: (fit.usedHeaderAddr, ⟨n, true⟩) :: l₂') =
        bytes (l₁ ++ (a, v) :: l₂) := by
  have hnode := hseg.node
  have hlt : a + 32 + v.size < U64 := ht.lt (a, v) (by simp)
  have ha16 : HEAP_MIN_ALIGNMENT ∣ a := ht.aligned (a, v) (by simp)
  have hp16 : HEAP_MIN_ALIGNMENT ∣ fit.alignedData :=
    Nat.dvd_trans (Nat.pow_dvd_pow 2 hk) hfit.dvd
  have hblock : fit.block = a := hfit.block
  have hplace : fit.alignedData = a + 32 ∨ a + 80 ≤ fit.alignedData := hfit.place
  have hheader := hfit.header
  rw [hblock, hheader] at hown
  have hfits : fit.alignedData + r ≤ a + 32 + v.size := by
    have := hfit.fits
    rw [add64_eq hend] at this
    exact this
  have hgap : fit.prefixDataSize = fit.alignedData - 32 - (a + 32) := by
    rw [hfit.gap]
    exact sub64_eq (by simp only; omega)
  have hrest : fit.suffixTotal = a + 32 + v.size - (fit.alignedData + r) := by
    rw [hfit.rest, add64_eq hend]
    rfl
  have hu : a + 32 + fit.prefixDataSize = fit.alignedData - 32 := by omega
  have hn : v.size - fit.prefixDataSize - 32 = r + fit.suffixTotal := by omega
  -- the block is cut behind the prefix
  have hcut : HEAP_MIN_ALIGNMENT ∣ fit.prefixDataSize := by
    unfold HEAP_MIN_ALIGNMENT at *
    omega
  have ht' : Tiling regions (l₁ ++ (a, ⟨fit.prefixDataSize, false⟩) ::
      (fit.alignedData - 32, ⟨r + fit.suffixTotal, false⟩) :: l₂) := by
    have hsplit : Tiling regions (l₁ ++ (a, ⟨fit.prefixDataSize, false⟩) ::
        (a + 32 + fit.prefixDataSize, ⟨v.size - fit.prefixDataSize - 32, false⟩) :: l₂) :=
      ht.split (by unfold HEADER_SIZE; omega) hcut
    rw [hu, hn] at hsplit
    exact hsplit
  have hset : Seg (setVal m a ⟨fit.prefixDataSize, v.used⟩) 0
      (l₁ ++ (a, ⟨fit.prefixDataSize, v.used⟩) :: l₂) 0 := seg_setVal hseg ht.good
  have hnew : fit.alignedData - 32 ∉
      addrs (l₁ ++ (a, Header.mk fit.prefixDataSize v.used) :: l₂) := by
    have hnd := ht'.good.nodup
    simp only [addrs, List.map_append, List.map_cons, List.nodup_append, List.nodup_cons,
      List.mem_append, List.mem_cons, not_or] at hnd ⊢
    refine ⟨fun hmem => ?_, Ne.symm hnd.2.1.1.1, hnd.2.1.2.1⟩
    exact hnd.2.2 _ hmem _ (Or.inr (Or.inl rfl)) rfl
  have hseg' := seg_insertAfter (v := (m (fit.alignedData - 32)).val) hset
    (ht.good.congr (by simp [addrs])) hnew
  have hfree : v.used = false := hfit.free
  rw [hfree] at hseg'
  have hseg₂ : Seg (insertAfter (setVal m a ⟨fit.prefixDataSize, false⟩) a (fit.alignedData - 32)
      (m (fit.alignedData - 32)).val) 0 ((l₁ ++ [(a, ⟨fit.prefixDataSize, false⟩)]) ++
        (fit.alignedData - 32, (m (fit.alignedData - 32)).val) :: l₂) 0 := by
    simpa using hseg'
  -- and what is behind it is taken as `allocate` takes a block
  have htake : takeAligned m fit r =
      takeBlock (setVal (insertAfter (setVal m a ⟨fit.prefixDataSize, false⟩) a
        (fit.alignedData - 32) (m (fit.alignedData - 32)).val) (fit.alignedData - 32)
          ⟨r + fit.suffixTotal, false⟩)
        (fit.alignedData - 32) r := by
    rw [← splitSuffix_eq hseg₂ (by omega) (by omega) (by omega)]
    unfold takeAligned
    rw [splitPrefix_eq m (by rw [hblock, hheader]; exact hown), hblock, hheader, hnode]
    simp only [hfree]
  have ht₂ : Tiling regions ((l₁ ++ [(a, ⟨fit.prefixDataSize, false⟩)]) ++
      (fit.alignedData - 32, ⟨r + fit.suffixTotal, false⟩) :: l₂) := by
    simpa using ht'
  have hseg₃ := seg_setVal (v := ⟨r + fit.suffixTotal, false⟩) hseg₂
    (ht₂.good.congr (by simp [addrs]))
  obtain ⟨n, l₂', hrn, hseg₄, ht₄, hsep, hbytes, -⟩ :=
    takeBlock_spec hseg₃ ht₂ rfl (Nat.le_add_right r _) hal
  rw [List.append_assoc] at hseg₄ ht₄ hsep hbytes
  rw [htake, hheader]
  refine ⟨n, l₂', hrn, hseg₄, ht₄, fun hfreePair => ?_, ?_⟩
  · obtain ⟨hleft, hright⟩ := noFreePair_split.mp hfreePair
    apply hsep
    · -- the free block in front starts where the old one did
      refine List.isChain_append.mpr ⟨(List.isChain_append.mp hleft).1,
        List.isChain_singleton _, fun x hx y hy hadj => ?_⟩
      obtain rfl : (a, Header.mk fit.prefixDataSize false) = y := by simpa using hy
      have hold := (List.isChain_append.mp hleft).2.2 x hx (a, v) (by simp) hadj
      rw [hfree] at hold
      exact hold
    · -- and what is behind it ends where the old one did
      obtain ⟨hnext, hchain⟩ := List.isChain_cons.mp hright
      refine List.isChain_cons.mpr ⟨fun y hy hadj => ?_, hchain⟩
      have hold := hnext y hy (by unfold blockHi HEADER_SIZE at *; simp only at hadj ⊢; omega)
      rw [hfree] at hold
      exact hold
  · rw [List.append_assoc] at hbytes
    refine hbytes.trans ?_
    simp only [bytes_append, bytes_cons, List.singleton_append]
    unfold HEADER_SIZE
    omega

end Split

/-! ### What the writes touch -/

section Writes

variable {m : Store Header} {fit : AlignedHeapCandidate} {a q u r x : Nat}

/-- What the first part writes unless it takes the prefix for empty. -/
theorem splitPrefix_of_gap (hgap : fit.prefixDataSize ≠ 0) :
    splitPrefix m fit =
      (setPrev
        (setNext
          (Function.update
            (setVal m fit.block { (m fit.block).val with size := fit.prefixDataSize })
            fit.usedHeaderAddr
            ⟨(setVal m fit.block { (m fit.block).val with size := fit.prefixDataSize }
              fit.usedHeaderAddr).val, (m fit.block).next, fit.block⟩)
          fit.block fit.usedHeaderAddr)
        (m fit.block).next fit.usedHeaderAddr, fit.usedHeaderAddr) := by
  unfold splitPrefix
  rw [if_neg fun h => hgap h.1]

theorem splitSuffix_frame (hused : x ≠ u) (hsuffix : x ≠ add64 fit.alignedData r) (hnext : x ≠ q) :
    splitSuffix m u q r fit x = m x := by
  unfold splitSuffix
  split_ifs
  · dsimp only
    rw [setPrev_of_ne hnext, setNext_of_ne _ hused, setVal_of_ne _ hused,
      Function.update_of_ne hsuffix, setVal_of_ne _ hused]
  · dsimp only
    rw [setPrev_of_ne hnext, setNext_of_ne _ hused, setVal_of_ne _ hused, setVal_of_ne _ hused]

/-- `takeAligned` writes to the two headers, the one behind them and the rest of the list. -/
theorem takeAligned_frame (hgap : fit.prefixDataSize ≠ 0) (hblock : x ≠ fit.block)
    (hused : x ≠ fit.usedHeaderAddr) (hsuffix : x ≠ add64 fit.alignedData r)
    (hnext : x ≠ (m fit.block).next) : takeAligned m fit r x = m x := by
  unfold takeAligned
  rw [splitPrefix_of_gap hgap]
  dsimp only
  rw [splitSuffix_frame hused hsuffix hnext, setPrev_of_ne hnext, setNext_of_ne _ hblock,
    Function.update_of_ne hused, setVal_of_ne _ hblock]

/-- A used block without a header of its own gets itself as the block before it. -/
theorem takeAligned_self_prev (hown : fit.usedHeaderAddr = fit.block)
    (hgap : fit.prefixDataSize ≠ 0) (hsuffix : fit.block ≠ add64 fit.alignedData r)
    (hnext : fit.block ≠ (m fit.block).next) :
    (takeAligned m fit r fit.block).prev = fit.block := by
  unfold takeAligned
  rw [splitPrefix_of_gap hgap, hown]
  unfold splitSuffix
  dsimp only
  split_ifs
  · rw [setPrev_of_ne hnext, setNext_prev, setVal_prev, Function.update_of_ne hsuffix, setVal_prev,
      setPrev_of_ne hnext, setNext_prev, Function.update_self]
  · rw [setPrev_of_ne hnext, setNext_prev, setVal_prev, setVal_prev,
      setPrev_of_ne hnext, setNext_prev, Function.update_self]

/-- The candidate block is followed by the used one. -/
theorem takeAligned_next (hown : fit.usedHeaderAddr ≠ fit.block)
    (hsuffix : fit.block ≠ add64 fit.alignedData r) :
    (takeAligned m fit r fit.block).next = fit.usedHeaderAddr := by
  unfold takeAligned
  rw [splitPrefix_eq m hown]
  unfold splitSuffix insertAfter
  dsimp only
  split_ifs
  · rw [setPrev_next, setNext_of_ne _ hown.symm, setVal_next, Function.update_of_ne hsuffix,
      setVal_next, setPrev_next, setNext_next_self]
  · rw [setPrev_next, setNext_of_ne _ hown.symm, setVal_next, setVal_next, setPrev_next,
      setNext_next_self]

/-- The used block has at least the size that was asked for. -/
theorem le_takeAligned_size (hown : fit.usedHeaderAddr ≠ fit.block) (hr : r + 48 < U64) :
    r ≤ (takeAligned m fit r fit.usedHeaderAddr).val.size := by
  unfold takeAligned
  rw [splitPrefix_eq m hown]
  unfold splitSuffix HEADER_SIZE HEAP_MIN_SPLIT_DATA_SIZE
  dsimp only
  split_ifs with hrest
  · rw [setPrev_val, setNext_val, setVal_val_self]
  · rw [setPrev_val, setNext_val, setVal_val_self, add64_eq (by omega)]
    exact Nat.le_add_right _ _

end Writes

/-! ### One search -/

/-- What an aligned allocation promises of the heap that it leaves and the pointer: the links
spell out a list that tiles the regions, and the request lies in one used block of it. -/
def AlignedOk (h : KernelHeap) (ptr size alignment : Nat) : Prop :=
  ∃ l, HeapShape h l ∧
    (ptr = 0 ∨ alignment ∣ ptr ∧ ∃ b ∈ l, b.2.used = true ∧
      b.1 + HEADER_SIZE ≤ ptr ∧ ptr + size ≤ blockHi b)

/-- The used block of the candidate has a header of its own, and neither the rounding of the
size nor the end of the request wraps. -/
structure Sound (fit : AlignedHeapCandidate) (size rounded : Nat) : Prop where
  ownHeader : fit.usedHeaderAddr ≠ fit.block
  ends : fit.alignedData + rounded < U64
  rounded : size ≤ rounded

/-- The bytes in front of what is zeroed are as before. -/
theorem memorySetZero_below {m : Store Header} {dest n x : Nat} (hx : x + HEADER_SIZE ≤ dest) :
    memorySetZero m dest n x = m x :=
  if_neg fun h => Nat.not_lt.mpr hx h.2

section OneSearch

variable {h h' : KernelHeap} {l : List Block} {size r k ptr : Nat} {fit : AlignedHeapCandidate}

/-- A sound candidate keeps the invariant and gets a block of the size. -/
theorem Kept.takeAligned (hshape : HeapShape h l) (hal : HEAP_MIN_ALIGNMENT ∣ r) (hk : 4 ≤ k)
    (hk64 : k < 64) (hfind : findAlignedHeapBlock h.mem r (2 ^ k) U64 h.freeList = some fit)
    (hsound : Sound fit size r) :
    ∃ l', Kept h l { h with mem := memorySetZero (takeAligned h.mem fit r) fit.alignedData r } l' ∧
      2 ^ k ∣ fit.alignedData ∧ ∃ b ∈ l', b.2.used = true ∧
        b.1 + HEADER_SIZE ≤ fit.alignedData ∧ fit.alignedData + size ≤ blockHi b := by
  obtain ⟨l₁, ⟨a, v⟩, l₂, rfl, hfit⟩ := hshape.fit hk64 hfind
  obtain ⟨n, l₂', hrn, hseg, ht, hsep, hbytes⟩ :=
    takeAligned_spec hshape.seg hshape.tiling hal hk hfit hsound.ownHeader hsound.ends
  have hhead : h.freeList = headOr 0 (l₁ ++ (a, ⟨fit.prefixDataSize, false⟩) ::
      (fit.usedHeaderAddr, ⟨n, true⟩) :: l₂') := by
    rw [hshape.head]
    cases l₁ <;> rfl
  have hdata : fit.usedHeaderAddr + HEADER_SIZE = fit.alignedData := by
    have hplace : fit.alignedData = a + 32 ∨ a + 80 ≤ fit.alignedData := hfit.place
    rw [hfit.header]
    unfold HEADER_SIZE
    omega
  have htaken : Kept h (l₁ ++ (a, v) :: l₂) { h with mem := takeAligned h.mem fit r } _ :=
    ⟨⟨hseg, hhead, ht⟩,
      fun hinv => ⟨hseg, hhead, ht, hsep hinv.separated, hbytes.trans hinv.total⟩⟩
  have hmem : (fit.usedHeaderAddr, Header.mk n true) ∈ l₁ ++ (a, ⟨fit.prefixDataSize, false⟩) ::
      (fit.usedHeaderAddr, ⟨n, true⟩) :: l₂' := by simp
  -- the zeroed bytes are data of the used block
  have hmiss : ∀ c ∈ l₁ ++ (a, ⟨fit.prefixDataSize, false⟩) ::
      (fit.usedHeaderAddr, ⟨n, true⟩) :: l₂',
      fit.alignedData + r ≤ c.1 ∨ c.1 + HEADER_SIZE ≤ fit.alignedData := by
    rw [← hdata]
    exact data_misses ht hmem hrn
  refine ⟨_, htaken.trans (Kept.overwrite htaken.shape hmiss), hfit.dvd, _, hmem, rfl,
    Nat.le_of_eq hdata, ?_⟩
  have hsize := hsound.rounded
  unfold blockHi
  rw [hdata]
  simp only
  omega

/-- The list before the candidate block is not written to. -/
theorem before_kept {l₁ l₂ : List Block} {b : Block} (hshape : HeapShape h (l₁ ++ b :: l₂))
    (hfit : FitOk b r k fit) (hgap : fit.prefixDataSize ≠ 0)
    (hsuffix : add64 fit.alignedData r = 0 ∨ b.1 < add64 fit.alignedData r) :
    Seg (memorySetZero (Memory.takeAligned h.mem fit r) fit.alignedData r) 0 l₁ b.1 := by
  have hnode := hshape.seg.node
  obtain ⟨hbefore, -, -⟩ := seg_append.mp hshape.seg
  have hplace := hfit.place
  refine Seg.congr hbefore fun x hx => ?_
  obtain ⟨c, hc, rfl⟩ := List.mem_map.mp hx
  have hsorted := hshape.tiling.sorted
  rw [List.pairwise_append] at hsorted
  have hcb := hsorted.2.2 c hc b List.mem_cons_self
  have hc0 := hshape.tiling.pos c (by simp [hc])
  have hasc := hshape.tiling.asc
  unfold Ascending at hasc
  rw [List.pairwise_append] at hasc
  have hhi : blockHi c ≤ b.1 := hasc.2.2 c hc b List.mem_cons_self
  have hnext : c.1 ≠ (h.mem fit.block).next := by
    rw [hfit.block, hnode]
    intro heq
    cases l₂ with
    | nil =>
      simp only [headOr] at heq
      omega
    | cons d l₂ =>
      have hcd := hsorted.2.2 c hc d (by simp)
      simp only [headOr] at heq
      omega
  unfold memorySetZero overwrite
  unfold blockHi at hhi
  rw [if_neg (by omega)]
  refine takeAligned_frame hgap ?_ ?_ (by omega) hnext
  · rw [hfit.block]
    omega
  · rw [hfit.header]
    unfold HEADER_SIZE at hhi
    omega

/-- What the rounding of a size gives: a multiple of 16 at most 15 above it, or 0. -/
structure RoundedUp (size r : Nat) : Prop where
  dvd : HEAP_MIN_ALIGNMENT ∣ r
  cases : size ≤ r ∧ r < size + 16 ∨ r = 0 ∧ U64 < size + 16

theorem roundedUp_alignUp (hsize : size < U64) :
    RoundedUp size (alignUp size HEAP_MIN_ALIGNMENT) := by
  have hpow : HEAP_MIN_ALIGNMENT = 2 ^ 4 := rfl
  rw [hpow]
  rcases Nat.lt_or_ge U64 (size + 2 ^ 4) with hwrap | hroom
  · rw [alignUp_wrapped (by decide) hsize hwrap]
    exact ⟨Nat.dvd_zero _, .inr ⟨rfl, hwrap⟩⟩
  · exact ⟨alignUp_dvd (by decide) hroom,
      .inl ⟨le_alignUp (by decide) hroom, alignUp_lt (by decide) hroom⟩⟩

/-- The list of the heap that a candidate leaves goes through the candidate block. -/
theorem HeapShape.through {l₁ l₂ l' : List Block} {b : Block}
    (hshape : HeapShape h (l₁ ++ b :: l₂)) (hfit : FitOk b r k fit) (hgap : fit.prefixDataSize ≠ 0)
    (hsuffix : add64 fit.alignedData r = 0 ∨ b.1 < add64 fit.alignedData r)
    (hshape' : HeapShape
      { h with mem := memorySetZero (Memory.takeAligned h.mem fit r) fit.alignedData r } l') :
    ∃ c l₃, l' = l₁ ++ c :: l₃ ∧ c.1 = b.1 := by
  have hbefore := before_kept hshape hfit hgap hsuffix
  have hb0 := hshape.tiling.pos b (by simp)
  have hnull : 0 ∉ addrs l₁ := by
    have h0 := hshape.tiling.good.null
    simp only [addrs, List.map_append, List.mem_append, not_or] at h0
    exact h0.1
  have hhead : headOr 0 l' = headOr b.1 l₁ := by
    rw [← hshape'.head]
    show h.freeList = _
    rw [hshape.head]
    cases l₁ <;> rfl
  obtain ⟨l₂', rfl, hq⟩ := hbefore.eq_append hshape'.seg hnull hhead
  cases l₂' with
  | nil => exact absurd hq (Nat.ne_of_lt hb0)
  | cons c l₃ => exact ⟨c, l₃, rfl, hq⟩

/-- Without a header of its own, the used block names itself as the one before it. -/
theorem not_heapShape_of_self {l' : List Block} (hshape : HeapShape h l)
    (hk64 : k < 64) (hfind : findAlignedHeapBlock h.mem r (2 ^ k) U64 h.freeList = some fit)
    (hown : fit.usedHeaderAddr = fit.block)
    (hsuffix : add64 fit.alignedData r = 0 ∨ fit.block < add64 fit.alignedData r) :
    ¬ HeapShape { h with mem := memorySetZero (Memory.takeAligned h.mem fit r) fit.alignedData r }
      l' := by
  intro hshape'
  obtain ⟨l₁, b, l₂, rfl, hfit⟩ := hshape.fit hk64 hfind
  have hb0 := hshape.tiling.pos b (by simp)
  have hnd := hshape.tiling.good.nodup
  simp only [addrs, List.map_append, List.map_cons, List.nodup_append, List.nodup_cons] at hnd
  have hblock := hfit.block
  have hheader := hfit.header
  have hplace := hfit.place
  have hgap : fit.prefixDataSize ≠ 0 := by
    have hgap := hfit.gap
    unfold sub64 at hgap
    have := hshape.tiling.lt b (by simp)
    unfold blockHi HEADER_SIZE at this
    split_ifs at hgap <;> omega
  rw [hblock] at hsuffix
  obtain ⟨c, l₃, rfl, hca⟩ := hshape.through hfit hgap hsuffix hshape'
  have hcnode : memorySetZero (Memory.takeAligned h.mem fit r) fit.alignedData r c.1 = _ :=
    hshape'.seg.node
  rw [hca, memorySetZero_below (by unfold HEADER_SIZE; omega)] at hcnode
  have hnext : fit.block ≠ (h.mem fit.block).next := by
    rw [hblock, hshape.seg.node]
    rcases headOr_eq_zero_or_mem l₂ with h0 | hmem
    · simp only [h0]
      omega
    · exact fun heq => hnd.2.1.1 (heq ▸ hmem)
  have hprev := takeAligned_self_prev (r := r) hown hgap (by rw [hblock]; omega) hnext
  rw [hblock, hcnode] at hprev
  cases l₁ with
  | nil => exact absurd hprev (Nat.ne_of_lt hb0)
  | cons d l₁ =>
    have hmem := lastOr_mem 0 (List.cons_ne_nil d l₁)
    rw [show lastOr 0 (d :: l₁) = b.1 from hprev] at hmem
    exact hnd.2.2 b.1 hmem b.1 List.mem_cons_self rfl

/-- A request that ends at `2 ^ 64` is more than a block can hold. -/
theorem not_heapShape_of_end {l' : List Block} (hshape : HeapShape h l)
    (hk64 : k < 64) (hfind : findAlignedHeapBlock h.mem r (2 ^ k) U64 h.freeList = some fit)
    (hown : fit.usedHeaderAddr ≠ fit.block) (hend : fit.alignedData + r = U64) :
    ¬ HeapShape { h with mem := memorySetZero (Memory.takeAligned h.mem fit r) fit.alignedData r }
      l' := by
  intro hshape'
  obtain ⟨l₁, b, l₂, rfl, hfit⟩ := hshape.fit hk64 hfind
  have hb16 : 16 ≤ b.1 :=
    Nat.le_of_dvd (hshape.tiling.pos b (by simp)) (hshape.tiling.aligned b (by simp))
  have hblock := hfit.block
  have hheader := hfit.header
  rw [hblock, hheader] at hown
  have hplace := hfit.place
  have hfar : b.1 + 80 ≤ fit.alignedData := by omega
  have hgap : fit.prefixDataSize ≠ 0 := by
    rw [hfit.gap, sub64_eq (by omega)]
    omega
  have hzero : add64 fit.alignedData r = 0 := by
    unfold add64
    rw [hend, Nat.mod_self]
  obtain ⟨c, l₃, rfl, hca⟩ := hshape.through hfit hgap (.inl hzero) hshape'
  rw [← hheader, ← hblock] at hown
  have hcnode : memorySetZero (Memory.takeAligned h.mem fit r) fit.alignedData r c.1 = _ :=
    hshape'.seg.node
  rw [hca, memorySetZero_below (by unfold HEADER_SIZE; omega)] at hcnode
  have hnext := takeAligned_next (m := h.mem) (r := r) hown (by omega)
  have hval := le_takeAligned_size (m := h.mem) (r := r) hown (by omega)
  rw [hblock, hcnode] at hnext
  cases l₃ with
  | nil =>
    have : 0 = fit.usedHeaderAddr := hnext
    omega
  | cons d l₄ =>
    have hdu : d.1 = fit.usedHeaderAddr := hnext
    have hd : Seg (memorySetZero (Memory.takeAligned h.mem fit r) fit.alignedData r) 0
        ((l₁ ++ [c]) ++ d :: l₄) 0 := by
      simpa using hshape'.seg
    have hdnode := hd.node
    rw [hdu, memorySetZero_below (by unfold HEADER_SIZE; omega)] at hdnode
    rw [hdnode] at hval
    have hdlt := hshape'.tiling.lt d (by simp)
    unfold blockHi HEADER_SIZE at hdlt
    simp only at hval
    omega

/-- A candidate that is not sound breaks the list, or its block cannot hold the request. -/
theorem not_alignedOk (hshape : HeapShape h l) (hr : RoundedUp size r) (hk : 4 ≤ k) (hk64 : k < 64)
    (hfind : findAlignedHeapBlock h.mem r (2 ^ k) U64 h.freeList = some fit)
    (hunsound : ¬ Sound fit size r) :
    ¬ AlignedOk { h with mem := memorySetZero (Memory.takeAligned h.mem fit r) fit.alignedData r }
      fit.alignedData size (2 ^ k) := by
  rintro ⟨l', hshape', hptr⟩
  obtain ⟨l₁, b, l₂, rfl, hfit⟩ := hshape.fit hk64 hfind
  have hplace := hfit.place
  have hblock := hfit.block
  have hp16 : 16 ∣ fit.alignedData := Nat.dvd_trans (Nat.pow_dvd_pow 2 hk) hfit.dvd
  have hr16 : 16 ∣ r := hr.dvd
  have hU16 : 16 ∣ U64 := two_pow_dvd_U64 (k := 4) (by decide)
  -- the pointer is not null, and the request ends below `2 ^ 64`
  have hin : fit.alignedData + size < U64 := by
    rcases hptr with h0 | ⟨-, c, hc, -, -, hhi⟩
    · omega
    · exact Nat.lt_of_le_of_lt hhi (hshape'.tiling.lt c hc)
  have hsize : size ≤ r ∧ r < size + 16 := by
    rcases hr.cases with h | h
    · exact h
    · omega
  have hend : fit.alignedData + r ≤ U64 := by omega
  by_cases hown : fit.usedHeaderAddr = fit.block
  · refine not_heapShape_of_self hshape hk64 hfind hown ?_ hshape'
    rcases Nat.lt_or_ge (fit.alignedData + r) U64 with h | h
    · rw [add64_eq h]
      omega
    · have heq : fit.alignedData + r = U64 := Nat.le_antisymm hend h
      unfold add64
      rw [heq, Nat.mod_self]
      exact .inl rfl
  · refine not_heapShape_of_end hshape hk64 hfind hown ?_ hshape'
    by_contra hne
    exact hunsound ⟨hown, by omega, hsize.1⟩

/-- What one search does. -/
theorem tryAllocateAligned_spec (hshape : HeapShape h l) (hr : RoundedUp size r) (hk : 4 ≤ k)
    (hk64 : k < 64) (htry : h.tryAllocateAligned r (2 ^ k) = some (h', ptr)) :
    ∃ fit, findAlignedHeapBlock h.mem r (2 ^ k) U64 h.freeList = some fit ∧
      (AlignedOk h' ptr size (2 ^ k) ↔ Sound fit size r) ∧
      (Sound fit size r → HeapInv h l → ∃ l', HeapInv h' l') := by
  obtain ⟨fit, hfind, heq⟩ := Option.map_eq_some_iff.mp htry
  obtain ⟨rfl, rfl⟩ := Prod.mk.inj heq
  refine ⟨fit, hfind, ⟨fun hok => ?_, fun hsound => ?_⟩, fun hsound hinv => ?_⟩
  · by_contra hunsound
    exact not_alignedOk hshape hr hk hk64 hfind hunsound hok
  · obtain ⟨l', hkept, hptr⟩ := Kept.takeAligned hshape hr.dvd hk hk64 hfind hsound
    exact ⟨l', hkept.shape, .inr hptr⟩
  · obtain ⟨l', hkept, -⟩ := Kept.takeAligned hshape hr.dvd hk hk64 hfind hsound
    exact ⟨l', hkept.inv hinv⟩

end OneSearch

/-! ### The whole call -/

/-- The block can hold what the search would put there: its data is not aligned itself, so that the
used block gets a header of its own, and neither the rounding of the size nor the end wraps. -/
structure Serves (size rounded alignment : Nat) (b : Block) : Prop where
  own : ¬ alignment ∣ b.1 + HEADER_SIZE
  ends : place alignment b + rounded < U64
  rounded : size ≤ rounded

/-- The first free block that the search takes can hold the request. -/
def FirstServes (l : List Block) (size rounded alignment : Nat) : Prop :=
  ∀ b ∈ l.find? fun b => Offers alignment rounded b, Serves size rounded alignment b

/-- When the loop of `allocate_zero_aligned` does what it promises, for the blocks of the heap and
the answers of the physical allocator: without a block for the request, the pages of an answer
join the list as a free block. -/
def ServedBy (size rounded alignment : Nat) : List Block → List Nat → Prop
  | l, [] => FirstServes l size rounded alignment
  | l, phys :: answers =>
    FirstServes l size rounded alignment ∧
      ((∀ b ∈ l, ¬ Offers alignment rounded b) → phys ≠ 0 →
        ∀ grow ∈ expandRequest rounded alignment,
          ServedBy size rounded alignment (addFree l phys grow.1) answers)

/-- When an aligned allocation does what it promises. For an alignment up to 16 it is up to
`allocate`, which for a size that wraps to 0 must find no free block. -/
def AlignedServed (l : List Block) (size alignment : Nat) (answers : List Nat) : Prop :=
  if size = 0 then True
  else if alignment ≤ HEAP_MIN_ALIGNMENT then
    size ≤ alignUp size HEAP_MIN_ALIGNMENT ∨ ∀ b ∈ l, b.2.used = true
  else ServedBy size (alignUp size HEAP_MIN_ALIGNMENT) alignment l answers

section Call

variable {h h' : KernelHeap} {l : List Block} {size r k ptr : Nat} {answers : List Nat}

theorem AlignedOk.null (hshape : HeapShape h l) (size alignment : Nat) :
    AlignedOk h 0 size alignment :=
  ⟨l, hshape, .inl rfl⟩

/-- A candidate is sound when its block can hold it. -/
theorem sound_candidateIn {b : Block} (h16 : HEAP_MIN_ALIGNMENT ∣ b.1) :
    Sound (candidateIn (2 ^ k) r b) size r ↔ Serves size r (2 ^ k) b := by
  obtain ⟨hplace, -, -⟩ := place_bounds h16 k
  have hown : place (2 ^ k) b - 32 ≠ b.1 ↔ ¬ 2 ^ k ∣ b.1 + HEADER_SIZE := by
    rw [← place_eq_own_iff b k]
    unfold HEADER_SIZE
    omega
  exact ⟨fun h => ⟨hown.mp h.ownHeader, h.ends, h.rounded⟩,
    fun h => ⟨hown.mpr h.own, h.ends, h.rounded⟩⟩

/-- A search that finds a candidate. -/
theorem firstServes_of_find {fit : AlignedHeapCandidate} (hshape : HeapShape h l) (hk : k < 64)
    (hfind : findAlignedHeapBlock h.mem r (2 ^ k) U64 h.freeList = some fit) :
    (FirstServes l size r (2 ^ k) ↔ Sound fit size r) ∧ ¬ ∀ b ∈ l, ¬ Offers (2 ^ k) r b := by
  rw [hshape.findAligned hk] at hfind
  obtain ⟨b, hb, rfl⟩ := Option.map_eq_some_iff.mp hfind
  have hmem := List.mem_of_find?_eq_some hb
  have ho : Offers (2 ^ k) r b := by simpa using List.find?_some hb
  rw [sound_candidateIn (hshape.tiling.aligned b hmem), FirstServes, hb]
  exact ⟨by simp, fun hno => hno b hmem ho⟩

/-- A search that finds none. -/
theorem firstServes_of_none (hshape : HeapShape h l) (hk : k < 64)
    (hfind : findAlignedHeapBlock h.mem r (2 ^ k) U64 h.freeList = none) :
    FirstServes l size r (2 ^ k) ∧ ∀ b ∈ l, ¬ Offers (2 ^ k) r b := by
  rw [hshape.findAligned hk, Option.map_eq_none_iff] at hfind
  refine ⟨?_, fun b hb => by simpa using List.find?_eq_none.mp hfind b hb⟩
  rw [FirstServes, hfind]
  exact fun b hb => absurd hb (Option.not_mem_none b)

/-- `expand` fails without a request or without pages. -/
theorem expand_snd_eq_false {size alignment phys : Nat}
    (hexp : (h.expand size alignment phys).2 = false) :
    phys = 0 ∨ expandRequest size alignment = none := by
  unfold KernelHeap.expand at hexp
  cases hreq : expandRequest size alignment with
  | none => exact .inr rfl
  | some grow =>
    refine .inl ?_
    by_contra h0
    have hsize : ¬ grow.1 ≤ HEADER_SIZE := by
      have hle := le_expandRequest hreq
      unfold KERNEL_HEAP_MIN_SUBHEAP_SIZE at hle
      unfold HEADER_SIZE
      omega
    simp [hreq, h0, KernelHeap.addRegion, hsize] at hexp

/-- The loop of `allocate_zero_aligned`, by the rounds it makes. -/
theorem allocateAlignedLoop_spec (hshape : HeapShape h l) (hr : RoundedUp size r) (hk : 4 ≤ k)
    (hk64 : k < 64)
    (hans : ∀ grow ∈ expandRequest r (2 ^ k), AnswersOk grow.1 h.regions answers)
    (hloop : h.allocateAlignedLoop r (2 ^ k) answers = some (h', ptr)) :
    (AlignedOk h' ptr size (2 ^ k) ↔ ServedBy size r (2 ^ k) l answers) ∧
      (ServedBy size r (2 ^ k) l answers → HeapInv h l → ∃ l', HeapInv h' l') := by
  induction answers generalizing h l with
  | nil =>
    obtain ⟨fit, hfind, hiff, hinv⟩ := tryAllocateAligned_spec hshape hr hk hk64 hloop
    have hserves : FirstServes l size r (2 ^ k) ↔ Sound fit size r :=
      (firstServes_of_find hshape hk64 hfind).1
    rw [ServedBy, hserves]
    exact ⟨hiff, hinv⟩
  | cons phys answers ih =>
    unfold KernelHeap.allocateAlignedLoop at hloop
    rw [ServedBy]
    cases htry : h.tryAllocateAligned r (2 ^ k) with
    | some res =>
      rw [htry] at hloop
      obtain ⟨fit, hfind, hiff, hinv⟩ :=
        tryAllocateAligned_spec hshape hr hk hk64 (htry.trans hloop)
      obtain ⟨hserves, hsome⟩ : (FirstServes l size r (2 ^ k) ↔ Sound fit size r) ∧ _ :=
        firstServes_of_find hshape hk64 hfind
      rw [hserves, and_iff_left fun hno => absurd hno hsome]
      exact ⟨hiff, hinv⟩
    | none =>
      have hfind : findAlignedHeapBlock h.mem r (2 ^ k) U64 h.freeList = none :=
        Option.map_eq_none_iff.mp htry
      obtain ⟨hserves, hnone⟩ : FirstServes l size r (2 ^ k) ∧ _ :=
        firstServes_of_none hshape hk64 hfind
      rw [and_iff_right hserves, forall_prop_of_true hnone]
      rw [htry] at hloop
      cases hbusy : h.expanding with
      | true => simp [hbusy] at hloop
      | false =>
        have hflag := Kept.setExpanding hshape true
        obtain ⟨l₁, hkept₁, -, hadded⟩ := expand_spec hflag.shape
          fun grow hgrow => (hans grow hgrow).1
        have hstart := hflag.trans hkept₁
        cases hexp : { h with expanding := true }.expand r (2 ^ k) phys with
        | mk h₁ expanded =>
          rw [hexp] at hstart hadded
          have hgrown := hstart.trans (Kept.setExpanding hstart.shape false)
          simp only [hbusy, hexp] at hloop
          cases expanded with
          | false =>
            simp only [Bool.false_eq_true, if_false, Option.some.injEq,
              Prod.mk.injEq] at hloop
            obtain ⟨rfl, rfl⟩ := hloop
            have hrefused : phys ≠ 0 → ∀ grow ∈ expandRequest r (2 ^ k),
                ServedBy size r (2 ^ k) (addFree l phys grow.1) answers := by
              intro h0 grow hgrow
              rcases expand_snd_eq_false (congrArg Prod.snd hexp) with hnull | hreq
              · exact absurd hnull h0
              · exact absurd (hreq ▸ hgrow) (Option.not_mem_none grow)
            exact ⟨iff_of_true (AlignedOk.null hgrown.shape _ _) hrefused,
              fun _ hinv => ⟨l₁, hgrown.inv hinv⟩⟩
          | true =>
            simp only [Bool.false_eq_true, if_false, if_true] at hloop
            obtain ⟨h0, grow, hgrow, hregions⟩ := expand_regions hexp
            have hans₁ : ∀ grow' ∈ expandRequest r (2 ^ k),
                AnswersOk grow'.1 h₁.regions answers := by
              intro grow' hgrow'
              obtain rfl : grow = grow' := Option.some.inj (hgrow.symm.trans hgrow')
              have hrest := (hans grow hgrow).2
              rw [if_neg h0] at hrest
              rw [hregions]
              exact hrest
            obtain ⟨grow', hgrow', rfl, -⟩ := hadded rfl
            obtain rfl : grow = grow' := Option.some.inj (hgrow.symm.trans hgrow')
            have honly : (phys ≠ 0 → ∀ grow ∈ expandRequest r (2 ^ k),
                ServedBy size r (2 ^ k) (addFree l phys grow.1) answers) ↔
                ServedBy size r (2 ^ k) (addFree l phys grow.1) answers := by
              refine ⟨fun h => h h0 grow hgrow, fun h _ grow' hgrow' => ?_⟩
              obtain rfl : grow = grow' := Option.some.inj (hgrow.symm.trans hgrow')
              exact h
            obtain ⟨hiff, hinv'⟩ := ih hgrown.shape hans₁ hloop
            rw [honly]
            exact ⟨hiff, fun hserved hinv => hinv' hserved (hgrown.inv hinv)⟩

/-- The loop of `allocate`, also while another caller expands the heap. -/
theorem allocateLoop_kept (hshape : HeapShape h l) (hal : HEAP_MIN_ALIGNMENT ∣ r)
    (hans : ∀ grow ∈ expandRequest r HEAP_MIN_ALIGNMENT, AnswersOk grow.1 h.regions answers)
    (hloop : h.allocateLoop r answers = some (h', ptr)) :
    ∃ l', Kept h l h' l' ∧ (ptr = 0 ∨ ∃ b, Granted l l' r ptr b) := by
  cases hbusy : h.expanding with
  | false =>
    obtain ⟨l', hkept, -, hres⟩ := allocateLoop_spec hshape hal hbusy hans hloop
    exact ⟨l', hkept, hres.imp (fun hnull => hnull.1) id⟩
  | true =>
    -- without a block the call waits
    have htry : h.tryAllocate r = some (h', ptr) := by
      cases answers with
      | nil => exact hloop
      | cons phys answers =>
        unfold KernelHeap.allocateLoop at hloop
        cases htry : h.tryAllocate r with
        | some res =>
          rw [htry] at hloop
          exact hloop
        | none => simp [htry, hbusy] at hloop
    obtain ⟨l', b, hkept, hb, -⟩ := tryAllocate_spec hshape hal htry
    exact ⟨l', hkept, .inr ⟨b, hb⟩⟩

/-- A search for 0 bytes finds nothing when there is no free block. -/
theorem findHeapBlock_zero (hshape : HeapShape h l) :
    findHeapBlock h.mem 0 U64 h.freeList = 0 ↔ ∀ b ∈ l, b.2.used = true := by
  rw [hshape.head, findHeapBlock_spec hshape.seg hshape.tiling.pos hshape.tiling.length_lt]
  cases hfind : l.find? fun b => !b.2.used && decide (0 ≤ b.2.size) with
  | none => simpa using List.find?_eq_none.mp hfind
  | some b =>
    have hmem := List.mem_of_find?_eq_some hfind
    have hfree : b.2.used = false := by simpa using List.find?_some hfind
    have hpos : b.1 ≠ 0 := Nat.ne_of_gt (hshape.tiling.pos b hmem)
    refine iff_of_false hpos fun hall => ?_
    exact Bool.false_ne_true (hfree.symm.trans (hall b hmem))

/-- A search for 0 bytes takes the first free block, and `expand` refuses to add 0 bytes. -/
theorem allocateLoop_zero (hshape : HeapShape h l)
    (hloop : h.allocateLoop 0 answers = some (h', ptr)) :
    (ptr = 0 ↔ ∀ b ∈ l, b.2.used = true) ∧ ∃ l', Kept h l h' l' := by
  rw [← findHeapBlock_zero hshape]
  have hans : ∀ grow ∈ expandRequest 0 HEAP_MIN_ALIGNMENT, AnswersOk grow.1 h.regions answers := by
    intro grow hgrow
    exact absurd hgrow (Option.not_mem_none _)
  obtain ⟨l', hkept, hptr⟩ := allocateLoop_kept hshape (Nat.dvd_zero _) hans hloop
  refine ⟨?_, l', hkept⟩
  cases htry : h.tryAllocate 0 with
  | some res =>
    have hres : some res = some (h', ptr) := by
      cases answers with
      | nil => exact htry.symm.trans hloop
      | cons phys answers =>
        unfold KernelHeap.allocateLoop at hloop
        rw [htry] at hloop
        exact hloop
    rw [hres] at htry
    obtain ⟨_, b, _, hb, -⟩ := tryAllocate_spec hshape (Nat.dvd_zero _) htry
    have hfound : findHeapBlock h.mem 0 U64 h.freeList ≠ 0 := by
      intro h0
      simp [KernelHeap.tryAllocate, h0] at htry
    refine iff_of_false ?_ hfound
    rw [hb.ptr_eq]
    exact Nat.succ_ne_zero _
  | none =>
    have hnone : findHeapBlock h.mem 0 U64 h.freeList = 0 := by
      by_contra h0
      simp [KernelHeap.tryAllocate, h0] at htry
    refine iff_of_true ?_ hnone
    cases answers with
    | nil => exact absurd (htry.symm.trans hloop) (Option.some_ne_none _).symm
    | cons phys answers =>
      unfold KernelHeap.allocateLoop at hloop
      simp only [htry, KernelHeap.expand, expandRequest, if_true, Bool.false_eq_true,
        if_false] at hloop
      split_ifs at hloop
      exact (Prod.mk.inj (Option.some.inj hloop)).2.symm

/-- `allocate_zero` for an alignment that every block has. -/
theorem allocateZero_aligned (hshape : HeapShape h l) (hsize : size < U64) (h0 : size ≠ 0)
    (hk : k ≤ 4)
    (hans : ∀ grow ∈ expandRequest (alignUp size HEAP_MIN_ALIGNMENT) HEAP_MIN_ALIGNMENT,
      AnswersOk grow.1 h.regions answers)
    (hcall : h.allocateZero size answers = some (h', ptr)) :
    (AlignedOk h' ptr size (2 ^ k) ↔
      size ≤ alignUp size HEAP_MIN_ALIGNMENT ∨ ∀ b ∈ l, b.2.used = true) ∧
    (size ≤ alignUp size HEAP_MIN_ALIGNMENT ∨ (∀ b ∈ l, b.2.used = true) →
      HeapInv h l → ∃ l', HeapInv h' l') := by
  have hr := roundedUp_alignUp hsize
  unfold KernelHeap.allocateZero KernelHeap.allocate at hcall
  rw [if_neg h0] at hcall
  cases hloop : h.allocateLoop (alignUp size HEAP_MIN_ALIGNMENT) answers with
  | none => simp [hloop] at hcall
  | some res =>
    obtain ⟨h₁, ptr₁⟩ := res
    rw [hloop] at hcall
    have hptr : ptr₁ = ptr := by
      simp only at hcall
      split_ifs at hcall
      · exact (Prod.mk.inj (Option.some.inj hcall)).2
      · exact (Prod.mk.inj (Option.some.inj hcall)).2
    subst hptr
    obtain ⟨l₁, hkept, hres⟩ := allocateLoop_kept hshape hr.dvd hans hloop
    have hnull : ptr₁ = 0 → h₁ = h' := by
      intro hz
      simp only [hz, ne_eq, not_true_eq_false, if_false] at hcall
      exact (Prod.mk.inj (Option.some.inj hcall)).1
    rcases hr.cases with ⟨hle, -⟩ | ⟨hzero, hwrap⟩
    · -- the request fits into the block, and so does what is zeroed
      have hok : ∃ l', Kept h l h' l' ∧ (ptr₁ = 0 ∨ 2 ^ k ∣ ptr₁ ∧ ∃ b ∈ l', b.2.used = true ∧
          b.1 + HEADER_SIZE ≤ ptr₁ ∧ ptr₁ + size ≤ blockHi b) := by
        rcases hres with hz | ⟨b, hb⟩
        · exact ⟨l₁, hnull hz ▸ hkept, .inl hz⟩
        · have hb0 : ptr₁ ≠ 0 := by
            rw [hb.ptr_eq]
            exact Nat.succ_ne_zero _
          simp only [ne_eq, hb0, not_false_eq_true, if_true] at hcall
          obtain ⟨rfl, -⟩ := Prod.mk.inj (Option.some.inj hcall)
          have hzeroed : Kept h₁ l₁ { h₁ with mem := memorySetZero h₁.mem ptr₁ size } l₁ := by
            refine Kept.overwrite hkept.shape ?_
            rw [hb.ptr_eq]
            exact data_misses hkept.shape.tiling hb.mem (Nat.le_trans hle hb.size_le)
          refine ⟨l₁, hkept.trans hzeroed, .inr ⟨?_, b, hb.mem, hb.used, ?_, ?_⟩⟩
          · rw [hb.ptr_eq]
            have h16 : HEAP_MIN_ALIGNMENT ∣ b.1 + HEADER_SIZE :=
              Nat.dvd_add (hkept.shape.tiling.aligned b hb.mem) ⟨2, rfl⟩
            exact Nat.dvd_trans (Nat.pow_dvd_pow 2 hk) h16
          · exact Nat.le_of_eq hb.ptr_eq.symm
          · rw [hb.ptr_eq]
            exact Nat.add_le_add_left (Nat.le_trans hle hb.size_le) _
      obtain ⟨l', hkept', hptr⟩ := hok
      exact ⟨iff_of_true ⟨l', hkept'.shape, hptr⟩ (.inl hle), fun _ hinv => ⟨l', hkept'.inv hinv⟩⟩
    · -- any pointer is wrong for such a size
      rw [hzero] at hloop ⊢
      obtain ⟨hiff, -⟩ := allocateLoop_zero hshape hloop
      have hbig : ¬ size ≤ 0 := by omega
      simp only [hbig, false_or, ← hiff]
      refine ⟨⟨?_, fun hz => ?_⟩, fun hz hinv => ?_⟩
      · rintro ⟨l', hshape', hz | ⟨-, b, hb, -, hlo, hhi⟩⟩
        · exact hz
        · have hlt := hshape'.tiling.lt b hb
          have hb16 : 16 ≤ b.1 := Nat.le_of_dvd (hshape'.tiling.pos b hb)
            (hshape'.tiling.aligned b hb)
          unfold HEADER_SIZE at hlo
          omega
      · obtain rfl := hnull hz
        exact ⟨l₁, hkept.shape, .inl hz⟩
      · obtain rfl := hnull hz
        exact ⟨l₁, hkept.inv hinv⟩

/-- Exactly when an aligned allocation returns null or an aligned pointer to the bytes that were
asked for and leaves a well-formed list. It then keeps the rest of the invariant, too. -/
theorem allocateZeroAligned_ok_iff (hshape : HeapShape h l) (hsize : size < U64) (hk : k < 64)
    (hans : ∀ grow ∈
        expandRequest (alignUp size HEAP_MIN_ALIGNMENT) (max (2 ^ k) HEAP_MIN_ALIGNMENT),
      AnswersOk grow.1 h.regions answers)
    (hcall : h.allocateZeroAligned size (2 ^ k) answers = some (h', ptr)) :
    (AlignedOk h' ptr size (2 ^ k) ↔ AlignedServed l size (2 ^ k) answers) ∧
      (AlignedServed l size (2 ^ k) answers → HeapInv h l → ∃ l', HeapInv h' l') := by
  unfold KernelHeap.allocateZeroAligned at hcall
  unfold AlignedServed
  by_cases h0 : size = 0
  · rw [if_pos h0] at hcall ⊢
    obtain ⟨rfl, rfl⟩ := Prod.mk.inj (Option.some.inj hcall)
    exact ⟨iff_of_true (AlignedOk.null hshape _ _) trivial, fun _ hinv => ⟨l, hinv⟩⟩
  rw [if_neg h0] at hcall ⊢
  by_cases hsmall : 2 ^ k ≤ HEAP_MIN_ALIGNMENT
  · -- Up to 16 bytes every block is aligned as it is.
    rw [if_pos hsmall] at hcall ⊢
    rw [max_eq_right hsmall] at hans
    have hk4 : k ≤ 4 := (Nat.pow_le_pow_iff_right (by decide)).mp hsmall
    exact allocateZero_aligned hshape hsize h0 hk4 hans hcall
  · -- Above that the search puts a prefix in front, and `AlignedServed` says which block it
    -- takes.
    rw [if_neg hsmall] at hcall ⊢
    rw [max_eq_left (Nat.le_of_not_le hsmall)] at hans
    have hk4 : 4 ≤ k := by
      by_contra hlt
      exact hsmall (Nat.pow_le_pow_right (by decide) (by omega : k ≤ 4))
    have hpow : 2 ^ k &&& sub64 (2 ^ k) 1 = 0 := by
      rw [sub64_eq Nat.one_le_two_pow, Nat.and_two_pow_sub_one_eq_mod, Nat.mod_self]
    rw [hpow, if_neg (by simp)] at hcall
    exact allocateAlignedLoop_spec hshape (roundedUp_alignUp hsize) hk4 hk hans hcall

end Call

/-- A heap with one page, at `0x100000`. -/
def onePageHeap : KernelHeap :=
  ((KernelHeap.empty fun _ => ⟨⟨0, false⟩, 0, 0⟩).init 0x100000 0x1000).1

theorem onePageHeap_inv : HeapInv onePageHeap [(0x100000, ⟨0xFE0, false⟩)] :=
  init_spec (by decide) (by decide) ⟨by decide, by with_unfolding_all decide, by simp⟩

/-- A request whose data cannot start where the block's does. -/
theorem allocateZeroAligned_ok_iff_behind :
    ∃ h', onePageHeap.allocateZeroAligned 100 (2 ^ 6) [] = some (h', 0x100080) ∧
      AlignedOk h' 0x100080 100 (2 ^ 6) ∧ ∃ l, HeapInv h' l := by
  have hround : alignUp 100 HEAP_MIN_ALIGNMENT = 112 := by with_unfolding_all decide
  have hfind : findAlignedHeapBlock onePageHeap.mem 112 (2 ^ 6) U64 onePageHeap.freeList =
      some ⟨0x100000, 0x100080, 0x100060, 0x40, 0xF10⟩ := by
    with_unfolding_all decide
  have hcall : onePageHeap.allocateZeroAligned 100 (2 ^ 6) [] = some
      ({ onePageHeap with
          mem := memorySetZero
            (takeAligned onePageHeap.mem ⟨0x100000, 0x100080, 0x100060, 0x40, 0xF10⟩ 112)
            0x100080 112 }, 0x100080) := by
    unfold KernelHeap.allocateZeroAligned
    rw [if_neg (by decide), if_neg (by decide), if_neg (by decide), hround]
    unfold KernelHeap.allocateAlignedLoop KernelHeap.tryAllocateAligned
    rw [hfind]
    rfl
  have hserved : AlignedServed [(0x100000, ⟨0xFE0, false⟩)] 100 (2 ^ 6) [] := by
    have hfirst : [((0x100000, ⟨0xFE0, false⟩) : Block)].find? (fun b => Offers (2 ^ 6) 112 b) =
        some (0x100000, ⟨0xFE0, false⟩) := by
      with_unfolding_all decide
    unfold AlignedServed
    rw [if_neg (by decide), if_neg (by decide), hround, ServedBy, FirstServes, hfirst]
    rintro b ⟨⟩
    exact ⟨by decide, by with_unfolding_all decide, by decide⟩
  have hans : ∀ grow ∈ expandRequest (alignUp 100 HEAP_MIN_ALIGNMENT)
      (max (2 ^ 6) HEAP_MIN_ALIGNMENT), AnswersOk grow.1 onePageHeap.regions [] :=
    fun _ _ => trivial
  obtain ⟨hok, hinv⟩ := allocateZeroAligned_ok_iff onePageHeap_inv.shape
    (by rw [U64_eq]; decide) (by decide) hans hcall
  exact ⟨_, hcall, hok.mpr hserved, hinv hserved onePageHeap_inv⟩

/-- A block whose data is already aligned: afterwards it is its own predecessor, and the links
spell out no list. -/
theorem own_data_breaks_links :
    ∃ h', onePageHeap.allocateZeroAligned 64 (2 ^ 5) [] = some (h', 0x100020) ∧
      h'.freeList = 0x100000 ∧ (h'.mem 0x100000).prev = 0x100000 ∧
      ¬ AlignedOk h' 0x100020 64 (2 ^ 5) := by
  have hround : alignUp 64 HEAP_MIN_ALIGNMENT = 64 := by with_unfolding_all decide
  have hfind : findAlignedHeapBlock onePageHeap.mem 64 (2 ^ 5) U64 onePageHeap.freeList =
      some ⟨0x100000, 0x100020, 0x100000, U64 - 32, 0xFA0⟩ := by
    with_unfolding_all decide
  have hcall : onePageHeap.allocateZeroAligned 64 (2 ^ 5) [] = some
      ({ onePageHeap with
          mem := memorySetZero
            (takeAligned onePageHeap.mem ⟨0x100000, 0x100020, 0x100000, U64 - 32, 0xFA0⟩ 64)
            0x100020 64 }, 0x100020) := by
    unfold KernelHeap.allocateZeroAligned
    rw [if_neg (by decide), if_neg (by decide), if_neg (by decide), hround]
    unfold KernelHeap.allocateAlignedLoop KernelHeap.tryAllocateAligned
    rw [hfind]
    rfl
  have hr : RoundedUp 64 64 := ⟨by decide, .inl (by decide)⟩
  refine ⟨_, hcall, rfl, ?_, ?_⟩
  · with_unfolding_all decide
  · exact not_alignedOk onePageHeap_inv.shape hr (by decide) (by decide) hfind
      fun hsound => hsound.ownHeader rfl
end VKernel.Proofs.Memory

import VKernel.Proofs.Memory.AlignedHeap

/-!
# `VKernel.Proofs.Memory.HeapExpansion`: one expansion serves a request

`expand` asks for more than twice what the request needs, so that a block of the size, at any
place the alignment allows, fits into what it adds (`expand_serves`). The exception is a request
just below `2 ^ 63` bytes: there the rounding of the growth to pages wraps to 0 (`GrowWraps`), the
smallest subheap is added in its place, and `allocate` goes round again
(`expand_too_small`).

`expansionSuffices_iff` collects what follows for `allocate` and `allocate_zero_aligned`.
-/

set_option autoImplicit false

namespace VKernel.Proofs.Memory

open VKernel VKernel.Memory VKernel.Lib VKernel.Lib.LinkedList

/-- The bytes that `expand` takes a request to need at least. -/
def minimumBytes (size alignment : Nat) : Nat := size + HEADER_SIZE + max alignment PAGE_SIZE_4K

/-- The size checks of `expand` let the request pass, but rounding the growth up to pages wraps. -/
def GrowWraps (size alignment : Nat) : Prop :=
  minimumBytes size alignment ≤ (U64 - 1 - PAGE_SIZE_4K) / 2 ∧
    U64 < minimumBytes size alignment * 2 + 2 * PAGE_SIZE_4K

instance (size alignment : Nat) : Decidable (GrowWraps size alignment) :=
  inferInstanceAs (Decidable (_ ∧ _))

section Request

variable {size k : Nat} {grow : Nat × PageRequest}

/-- The slack of the growth. -/
theorem slack_eq (alignment : Nat) :
    max (max alignment HEAP_MIN_ALIGNMENT) PAGE_SIZE_4K = max alignment PAGE_SIZE_4K := by
  rw [max_assoc]
  rfl

/-- `expand` computes the minimum as it stands: where the sums would wrap, the request fails. -/
theorem expandRequest_eq (hk : k < 64) :
    expandRequest size (2 ^ k) =
      if size = 0 ∨ (U64 - 1 - PAGE_SIZE_4K) / 2 < minimumBytes size (2 ^ k) then none
      else
        let growBytes :=
          max (alignUp (minimumBytes size (2 ^ k) * 2 + PAGE_SIZE_4K) PAGE_SIZE_4K)
            KERNEL_HEAP_MIN_SUBHEAP_SIZE
        if growBytes / PAGE_SIZE_4K = 0 ∨ growBytes / PAGE_SIZE_4K > 0xFFFFFFFF then none
        else
          some (growBytes, ⟨growBytes / PAGE_SIZE_4K,
            if max (2 ^ k) PAGE_SIZE_4K ≤ 0xFFFFFFFF then max (2 ^ k) PAGE_SIZE_4K
            else PAGE_SIZE_4K, 0⟩) := by
  have hU := U64_eq
  have hslack : max (2 ^ k) PAGE_SIZE_4K ≤ 2 ^ 63 :=
    max_le (Nat.pow_le_pow_right (by decide) (by omega)) (by decide)
  have hmax : not64 0 = U64 - 1 := rfl
  have hbound : sub64 (sub64 (U64 - 1) HEADER_SIZE) (max (2 ^ k) PAGE_SIZE_4K) =
      U64 - 1 - HEADER_SIZE - max (2 ^ k) PAGE_SIZE_4K := by
    unfold HEADER_SIZE
    rw [sub64_eq (a := U64 - 1) (by omega), sub64_eq (by omega)]
  have hhalf : sub64 (U64 - 1) PAGE_SIZE_4K = U64 - 1 - PAGE_SIZE_4K :=
    sub64_eq (by unfold PAGE_SIZE_4K; omega)
  unfold expandRequest
  simp only [hmax, slack_eq, hbound, hhalf]
  by_cases h0 : size = 0
  · rw [if_pos h0, if_pos (.inl h0)]
  rw [if_neg h0]
  by_cases hbig : size > U64 - 1 - HEADER_SIZE - max (2 ^ k) PAGE_SIZE_4K
  · have hmin : (U64 - 1 - PAGE_SIZE_4K) / 2 < minimumBytes size (2 ^ k) := by
      unfold minimumBytes HEADER_SIZE at *
      omega
    rw [if_pos hbig, if_pos (.inr hmin)]
  rw [if_neg hbig]
  have hmin : add64 (add64 size HEADER_SIZE) (max (2 ^ k) PAGE_SIZE_4K) =
      minimumBytes size (2 ^ k) := by
    unfold minimumBytes HEADER_SIZE at *
    rw [add64_eq (a := size) (by omega), add64_eq (by omega)]
  rw [hmin]
  by_cases hover : minimumBytes size (2 ^ k) > (U64 - 1 - PAGE_SIZE_4K) / 2
  · rw [if_pos hover, if_pos (.inr hover)]
  have hsum : minimumBytes size (2 ^ k) * 2 + PAGE_SIZE_4K < U64 := by
    unfold PAGE_SIZE_4K at *
    omega
  have hdouble : add64 (minimumBytes size (2 ^ k) * 2 % U64) PAGE_SIZE_4K =
      minimumBytes size (2 ^ k) * 2 + PAGE_SIZE_4K := by
    rw [Nat.mod_eq_of_lt (Nat.lt_of_le_of_lt (Nat.le_add_right _ _) hsum), add64_eq hsum]
  have hpass : ¬ (size = 0 ∨ (U64 - 1 - PAGE_SIZE_4K) / 2 < minimumBytes size (2 ^ k)) := by
    rw [not_or]
    exact ⟨h0, hover⟩
  rw [if_neg hover, hdouble, if_neg hpass]

/-- Without the wrap a subheap has twice the minimum and a page. -/
theorem le_grow (hk : k < 64) (hwrap : ¬ GrowWraps size (2 ^ k))
    (hreq : expandRequest size (2 ^ k) = some grow) :
    minimumBytes size (2 ^ k) * 2 + PAGE_SIZE_4K ≤ grow.1 := by
  rw [expandRequest_eq hk] at hreq
  obtain ⟨hfail, hreq⟩ := Option.ite_none_left_eq_some.mp hreq
  obtain ⟨-, hreq⟩ := Option.ite_none_left_eq_some.mp hreq
  rw [not_or, not_lt] at hfail
  have hroom : minimumBytes size (2 ^ k) * 2 + PAGE_SIZE_4K + 2 ^ 12 ≤ U64 := by
    by_contra hgt
    refine hwrap ⟨hfail.2, ?_⟩
    unfold PAGE_SIZE_4K at *
    omega
  rw [← Option.some.inj hreq]
  exact Nat.le_trans (le_alignUp (by decide) hroom) (Nat.le_max_left _ _)

/-- Such a request is for more than a subheap of the smallest size, and its alignment is at most
`2 ^ 62`, so that no place at the start of memory wraps. -/
theorem GrowWraps.bounds (hk : k < 64) (hwrap : GrowWraps size (2 ^ k)) :
    KERNEL_HEAP_MIN_SUBHEAP_SIZE ≤ size ∧ 0x200000 + 32 + 2 * 2 ^ k + size ≤ U64 := by
  have hU := U64_eq
  obtain ⟨hhalf, hround⟩ := hwrap
  unfold minimumBytes HEADER_SIZE PAGE_SIZE_4K at hhalf hround
  have hpow : 2 ^ k ≤ 2 ^ 62 := by
    refine Nat.pow_le_pow_right (by decide) ?_
    by_contra hbig
    have : 2 ^ 63 ≤ 2 ^ k := Nat.pow_le_pow_right (by decide) (by omega)
    omega
  unfold KERNEL_HEAP_MIN_SUBHEAP_SIZE
  omega

/-- The growth wraps for a size only. -/
theorem GrowWraps.ne_zero (hk : k < 64) (hwrap : GrowWraps size (2 ^ k)) : size ≠ 0 := by
  rintro rfl
  exact absurd (hwrap.bounds hk).1 (by decide)

/-- With the wrap it has the smallest size there is. -/
theorem expandRequest_of_wraps (hk : k < 64) (h0 : size ≠ 0) (hwrap : GrowWraps size (2 ^ k)) :
    ∃ request, expandRequest size (2 ^ k) = some (KERNEL_HEAP_MIN_SUBHEAP_SIZE, request) := by
  obtain ⟨hhalf, hround⟩ := hwrap
  have hzero : alignUp (minimumBytes size (2 ^ k) * 2 + PAGE_SIZE_4K) PAGE_SIZE_4K = 0 := by
    refine alignUp_wrapped (k := 12) (by decide) ?_ ?_
    · have := U64_eq
      unfold PAGE_SIZE_4K at *
      omega
    · unfold PAGE_SIZE_4K at *
      omega
  rw [expandRequest_eq hk, if_neg (by rw [not_or, not_lt]; exact ⟨h0, hhalf⟩), hzero,
    max_eq_right (Nat.zero_le _)]
  exact ⟨_, if_neg (by decide)⟩

end Request

/-! ### Searches that find a block -/

section Searches

variable {h : KernelHeap} {l : List Block} {b : Block} {size k : Nat}

/-- A free block of the size is found. -/
theorem findHeapBlock_ne_zero (hshape : HeapShape h l) (hb : b ∈ l) (hfree : b.2.used = false)
    (hle : size ≤ b.2.size) : findHeapBlock h.mem size U64 h.freeList ≠ 0 := by
  rw [hshape.head,
    findHeapBlock_spec hshape.seg hshape.tiling.pos hshape.tiling.length_lt]
  cases hfind : l.find? fun b => !b.2.used && decide (size ≤ b.2.size) with
  | none =>
    have hno := List.find?_eq_none.mp hfind b hb
    simp [hfree, hle] at hno
  | some c => exact Nat.ne_of_gt (hshape.tiling.pos c (List.mem_of_find?_eq_some hfind))

/-- Without one nothing is found. -/
theorem findHeapBlock_eq_zero (hshape : HeapShape h l) (hsmall : ∀ b ∈ l, b.2.size < size) :
    findHeapBlock h.mem size U64 h.freeList = 0 := by
  rw [hshape.head,
    findHeapBlock_spec hshape.seg hshape.tiling.pos hshape.tiling.length_lt,
    List.find?_eq_none.mpr fun b hb => ?_]
  · rfl
  · simp [Nat.not_le.mpr (hsmall b hb)]

/-- A free block with two alignments to spare offers an aligned place. -/
theorem offers_of_room (h16 : HEAP_MIN_ALIGNMENT ∣ b.1) (hlt : blockHi b < U64)
    (hfree : b.2.used = false) (hroom : size + 2 * 2 ^ k ≤ b.2.size) : Offers (2 ^ k) size b := by
  obtain ⟨-, hle, hnear⟩ := place_bounds h16 k
  have hhi : blockHi b = b.1 + 32 + b.2.size := rfl
  refine ⟨hfree, by omega, ?_, ?_⟩
  · rw [add64_eq (by omega)]
    omega
  · rw [add64_eq (by omega)]
    omega

/-- A large free block serves an aligned request. -/
theorem findAlignedHeapBlock_isSome (hshape : HeapShape h l) (hk : k < 64) (hb : b ∈ l)
    (hfree : b.2.used = false) (hroom : size + 2 * 2 ^ k ≤ b.2.size) :
    (findAlignedHeapBlock h.mem size (2 ^ k) U64 h.freeList).isSome := by
  rw [hshape.findAligned hk, Option.isSome_map, List.find?_isSome]
  exact ⟨b, hb, decide_eq_true
    (offers_of_room (hshape.tiling.aligned b hb) (hshape.tiling.lt b hb) hfree hroom)⟩

/-- A place near the start of a block is no use for more bytes than the block has. -/
theorem findAlignedHeapBlock_eq_none (hshape : HeapShape h l) (hk : k < 64)
    (hsmall : ∀ b ∈ l, b.2.size < size)
    (hwrap : ∀ b ∈ l, b.1 + 32 + 2 * 2 ^ k + size ≤ U64) :
    findAlignedHeapBlock h.mem size (2 ^ k) U64 h.freeList = none := by
  by_contra hsome
  obtain ⟨fit, hfind⟩ := Option.ne_none_iff_exists'.mp hsome
  obtain ⟨l₁, b, l₂, rfl, hfit⟩ := hshape.fit hk hfind
  have hb := hsmall b (by simp)
  have hw := hwrap b (by simp)
  have hnear := hfit.near
  have hplace := hfit.place
  have hfits := hfit.fits
  rw [add64_eq (by omega)] at hfits
  unfold blockHi HEADER_SIZE at hfits
  omega

end Searches

/-! ### What an expansion adds -/

section Expand

variable {h h' : KernelHeap} {l : List Block} {size k phys : Nat}

/-- The answer of the physical allocator may be added to the heap. -/
def AnswerOk (h : KernelHeap) (size alignment phys : Nat) : Prop :=
  ∀ grow ∈ expandRequest size alignment, AnswersOk grow.1 h.regions [phys]

/-- An expansion serves the request that it was made for. -/
theorem expand_serves (hshape : HeapShape h l) (hk : k < 64)
    (hwrap : ¬ GrowWraps size (2 ^ k)) (hans : AnswerOk h size (2 ^ k) phys)
    (hexp : h.expand size (2 ^ k) phys = (h', true)) :
    findHeapBlock h'.mem size U64 h'.freeList ≠ 0 ∧
      (findAlignedHeapBlock h'.mem size (2 ^ k) U64 h'.freeList).isSome := by
  obtain ⟨l', hkept, -, hfree⟩ := expand_spec hshape fun grow hgrow => (hans grow hgrow).1
  rw [hexp] at hkept hfree
  obtain ⟨grow, hgrow, -, b, hb, hbfree, hsize⟩ := hfree rfl
  have hgrow := le_grow hk hwrap hgrow
  have hslack : 2 ^ k ≤ max (2 ^ k) PAGE_SIZE_4K := Nat.le_max_left _ _
  unfold minimumBytes HEADER_SIZE at *
  exact ⟨findHeapBlock_ne_zero hkept.shape hb hbfree (by omega),
    findAlignedHeapBlock_isSome hkept.shape hk hb hbfree (by omega)⟩

/-- A heap that has no memory yet. -/
structure Fresh (h : KernelHeap) : Prop where
  inv : HeapInv h []
  regions : h.regions = []
  totalBytes : h.totalBytes = 0

/-- A block is part of the heap. -/
theorem size_le_bytes {b : Block} (hb : b ∈ l) : b.2.size + HEADER_SIZE ≤ bytes l := by
  obtain ⟨l₁, l₂, rfl⟩ := List.append_of_mem hb
  rw [bytes_append, bytes_cons]
  omega

/-- The blocks of a heap after its first expansion lie in what was added. -/
theorem expand_fresh {growBytes : Nat} {request : PageRequest} (hfresh : Fresh h)
    (hreq : expandRequest size (2 ^ k) = some (growBytes, request)) (h0 : phys ≠ 0)
    (hgrow : HEADER_SIZE < growBytes) (hok : SubheapOk [] (phys, growBytes)) :
    ∃ h' l', h.expand size (2 ^ k) phys = (h', true) ∧ HeapShape h' l' ∧
      ∀ b ∈ l', b.2.size < growBytes ∧ b.1 < phys + growBytes := by
  have hans : ∀ grow ∈ expandRequest size (2 ^ k), phys ≠ 0 →
      SubheapOk h.regions (phys, grow.1) := by
    intro grow hgrow _
    obtain rfl : (growBytes, request) = grow := Option.some.inj (hreq.symm.trans hgrow)
    rw [hfresh.regions]
    exact hok
  obtain ⟨l', hkept, -⟩ := expand_spec hfresh.inv.shape hans
  have hinv := hkept.inv hfresh.inv
  have hadd : ¬ (phys = 0 ∨ growBytes ≤ HEADER_SIZE) := by
    rw [not_or, not_le]
    exact ⟨h0, hgrow⟩
  have htrue : (h.expand size (2 ^ k) phys).2 = true := by
    simp only [KernelHeap.expand, hreq, if_neg h0, KernelHeap.addRegion, if_neg hadd]
  have htotal : (h.expand size (2 ^ k) phys).1.totalBytes = growBytes := by
    have hlt := hok.lt
    simp only [KernelHeap.expand, hreq, if_neg h0, KernelHeap.addRegion, if_neg hadd,
      link_totalBytes, hfresh.totalBytes]
    rw [add64_eq (by omega), Nat.zero_add]
  refine ⟨_, l', Prod.ext rfl htrue, hinv.shape, fun b hb => ⟨?_, ?_⟩⟩
  · have hbytes := size_le_bytes hb
    rw [hinv.total, htotal] at hbytes
    unfold HEADER_SIZE at hbytes
    omega
  · obtain ⟨-, grow, hgrow, hregions⟩ := expand_regions (Prod.ext rfl htrue)
    obtain rfl : (growBytes, request) = grow := Option.some.inj (hreq.symm.trans hgrow)
    have hcover := (hinv.tiling.cover b.1).mp ⟨b, hb, Nat.le_refl _, blockLo_lt_blockHi b⟩
    rw [hregions, hfresh.regions] at hcover
    obtain ⟨r, hr, -, hlt⟩ := hcover
    rw [List.mem_singleton.mp hr] at hlt
    exact hlt

/-- Where the growth wraps, the first expansion adds one MiB, in which nothing is found. -/
theorem expand_too_small (hfresh : Fresh h) (hk : k < 64) (hwrap : GrowWraps size (2 ^ k)) :
    AnswerOk h size (2 ^ k) 0x100000 ∧ ∃ h' l', h.expand size (2 ^ k) 0x100000 = (h', true) ∧
      HeapShape h' l' ∧
      findHeapBlock h'.mem size U64 h'.freeList = 0 ∧
      findAlignedHeapBlock h'.mem size (2 ^ k) U64 h'.freeList = none := by
  obtain ⟨request, hreq⟩ := expandRequest_of_wraps hk (hwrap.ne_zero hk) hwrap
  have hok : SubheapOk [] (0x100000, KERNEL_HEAP_MIN_SUBHEAP_SIZE) :=
    ⟨by decide, by rw [U64_eq]; decide, by simp⟩
  have hans : AnswerOk h size (2 ^ k) 0x100000 := by
    intro grow hgrow
    obtain rfl : (KERNEL_HEAP_MIN_SUBHEAP_SIZE, request) = grow :=
      Option.some.inj (hreq.symm.trans hgrow)
    rw [hfresh.regions]
    exact ⟨fun _ => hok, trivial⟩
  obtain ⟨h', l', hexp, hshape, hsmall⟩ :=
    expand_fresh hfresh hreq (by decide) (by decide) hok
  obtain ⟨hsize, hroom⟩ := hwrap.bounds hk
  refine ⟨hans, h', l', hexp, hshape,
    findHeapBlock_eq_zero hshape fun b hb => Nat.lt_of_lt_of_le (hsmall b hb).1 hsize,
    findAlignedHeapBlock_eq_none hshape hk
      (fun b hb => Nat.lt_of_lt_of_le (hsmall b hb).1 hsize) fun b hb => ?_⟩
  have hb := (hsmall b hb).2
  unfold KERNEL_HEAP_MIN_SUBHEAP_SIZE at hb
  omega

theorem fresh_empty (m : Store Header) (busy : Bool) :
    Fresh { KernelHeap.empty m with expanding := busy } where
  inv := ⟨trivial, rfl, ⟨ascending_nil, fun x => by simp [KernelHeap.empty], by simp, by simp,
    by simp⟩, List.isChain_nil, rfl⟩
  regions := rfl
  totalBytes := rfl

end Expand

/-! ### Whole calls -/

section Calls

variable {h h' : KernelHeap} {l : List Block} {size k phys ptr : Nat} {answers : List Nat}

/-- A block that is found is allocated. -/
theorem tryAllocate_isSome (hfound : findHeapBlock h.mem size U64 h.freeList ≠ 0) :
    (h.tryAllocate size).isSome := by
  unfold KernelHeap.tryAllocate
  rw [if_pos hfound]
  rfl

/-- Without a block nothing is. -/
theorem tryAllocate_eq_none (hnone : findHeapBlock h.mem size U64 h.freeList = 0) :
    h.tryAllocate size = none := by
  unfold KernelHeap.tryAllocate
  rw [if_neg (not_not.mpr hnone)]

/-- The same for an aligned request. -/
theorem tryAllocateAligned_eq_none {alignment : Nat}
    (hnone : findAlignedHeapBlock h.mem size alignment U64 h.freeList = none) :
    h.tryAllocateAligned size alignment = none := by
  unfold KernelHeap.tryAllocateAligned
  rw [hnone]
  rfl

/-- `allocate` returns after one expansion at most. -/
theorem allocateLoop_isSome (hshape : HeapShape h l) (hidle : h.expanding = false)
    (hwrap : ¬ GrowWraps size HEAP_MIN_ALIGNMENT) (hans : AnswerOk h size HEAP_MIN_ALIGNMENT phys) :
    (h.allocateLoop size [phys]).isSome := by
  unfold KernelHeap.allocateLoop
  cases htry : h.tryAllocate size with
  | some res => rfl
  | none =>
    cases hexp : { h with expanding := true }.expand size HEAP_MIN_ALIGNMENT phys with
    | mk h₁ expanded =>
      simp only [hidle, Bool.false_eq_true, if_false]
      cases expanded with
      | false => rfl
      | true =>
        have hserved := expand_serves (k := 4) (Kept.setExpanding hshape true).shape
          (by decide) hwrap hans hexp
        exact tryAllocate_isSome hserved.1

/-- One expansion is enough. -/
theorem allocateAlignedLoop_isSome (hshape : HeapShape h l) (hidle : h.expanding = false)
    (hk : k < 64) (hwrap : ¬ GrowWraps size (2 ^ k)) (hans : AnswerOk h size (2 ^ k) phys) :
    (h.allocateAlignedLoop size (2 ^ k) [phys]).isSome := by
  unfold KernelHeap.allocateAlignedLoop
  cases htry : h.tryAllocateAligned size (2 ^ k) with
  | some res => rfl
  | none =>
    cases hexp : { h with expanding := true }.expand size (2 ^ k) phys with
    | mk h₁ expanded =>
      simp only [hidle, Bool.false_eq_true, if_false]
      cases expanded with
      | false => rfl
      | true =>
        have hserved := expand_serves (Kept.setExpanding hshape true).shape hk hwrap hans hexp
        show (KernelHeap.tryAllocateAligned _ _ _).isSome
        unfold KernelHeap.tryAllocateAligned
        rw [Option.isSome_map]
        exact hserved.2

/-- A heap without memory goes round again where the growth wraps. -/
theorem allocateLoop_empty (m : Store Header) (hwrap : GrowWraps size HEAP_MIN_ALIGNMENT) :
    AnswerOk (KernelHeap.empty m) size HEAP_MIN_ALIGNMENT 0x100000 ∧
      (KernelHeap.empty m).allocateLoop size [0x100000] = none := by
  obtain ⟨hans, h', l', hexp, -, hnone, -⟩ :=
    expand_too_small (k := 4) (fresh_empty m true) (by decide) hwrap
  have hfirst : (KernelHeap.empty m).tryAllocate size = none :=
    tryAllocate_eq_none (findHeapBlock_eq_zero (fresh_empty m false).inv.shape (by simp))
  refine ⟨hans, ?_⟩
  have hexp : { KernelHeap.empty m with expanding := true }.expand size HEAP_MIN_ALIGNMENT 0x100000
      = (h', true) := hexp
  unfold KernelHeap.allocateLoop
  rw [hfirst, hexp]
  exact tryAllocate_eq_none hnone

/-- For an empty heap whose growth wraps it is not. -/
theorem allocateAlignedLoop_empty (m : Store Header) (hk : k < 64)
    (hwrap : GrowWraps size (2 ^ k)) :
    AnswerOk (KernelHeap.empty m) size (2 ^ k) 0x100000 ∧
      (KernelHeap.empty m).allocateAlignedLoop size (2 ^ k) [0x100000] = none := by
  obtain ⟨hans, h', l', hexp, -, -, hnone⟩ := expand_too_small (fresh_empty m true) hk hwrap
  have hfirst : (KernelHeap.empty m).tryAllocateAligned size (2 ^ k) = none := by
    refine tryAllocateAligned_eq_none ?_
    exact findAlignedHeapBlock_eq_none (fresh_empty m false).inv.shape hk (by simp) (by simp)
  refine ⟨hans, ?_⟩
  unfold KernelHeap.allocateAlignedLoop
  rw [hfirst, hexp]
  exact tryAllocateAligned_eq_none hnone

end Calls

/-- What one expansion is for, over every well-formed heap that no other caller expands. -/
structure ExpansionSuffices (size alignment : Nat) : Prop where
  /-- After an expansion both searches find a block. -/
  search : ∀ h l phys h', HeapShape h l → h.expanding = false → AnswerOk h size alignment phys →
    h.expand size alignment phys = (h', true) →
    findHeapBlock h'.mem size U64 h'.freeList ≠ 0 ∧
      (findAlignedHeapBlock h'.mem size alignment U64 h'.freeList).isSome
  /-- One answer of the physical allocator is enough for a call to return. -/
  allocate : ∀ h l phys, HeapShape h l → h.expanding = false →
    AnswerOk h (alignUp size HEAP_MIN_ALIGNMENT) HEAP_MIN_ALIGNMENT phys →
    (h.allocate size [phys]).isSome
  allocateZeroAligned : ∀ h l phys, HeapShape h l → h.expanding = false →
    AnswerOk h (alignUp size HEAP_MIN_ALIGNMENT) (max alignment HEAP_MIN_ALIGNMENT) phys →
    (h.allocateZeroAligned size alignment [phys]).isSome
  /-- A pointer is to a block with as many data bytes as were asked for. -/
  bytes : ∀ h l answers h' ptr, HeapShape h l → h.expanding = false →
    (∀ grow ∈ expandRequest (alignUp size HEAP_MIN_ALIGNMENT) HEAP_MIN_ALIGNMENT,
      AnswersOk grow.1 h.regions answers) →
    h.allocate size answers = some (h', ptr) → ptr ≠ 0 →
    ∃ l', HeapShape h' l' ∧ ∃ b ∈ l', b.2.used = true ∧ ptr = b.1 + HEADER_SIZE ∧ size ≤ b.2.size

/-- The sizes and alignments for which no computation on the way wraps. -/
structure GrowthFits (size alignment : Nat) : Prop where
  rounding : size + HEAP_MIN_ALIGNMENT ≤ U64
  growth : ¬ GrowWraps size alignment
  growthRounded : ¬ GrowWraps (alignUp size HEAP_MIN_ALIGNMENT) HEAP_MIN_ALIGNMENT
  growthAligned : ¬ GrowWraps (alignUp size HEAP_MIN_ALIGNMENT) alignment

section Suffices

variable {size k : Nat}

/-- The condition is enough. -/
theorem expansionSuffices_of_fits (hk : k < 64) (hfits : GrowthFits size (2 ^ k)) :
    ExpansionSuffices size (2 ^ k) where
  search h l phys h' hshape _ hans hexp := expand_serves hshape hk hfits.growth hans hexp
  allocate h l phys hshape hidle hans := by
    unfold KernelHeap.allocate
    by_cases h0 : size = 0
    · rw [if_pos h0]
      rfl
    · rw [if_neg h0]
      exact allocateLoop_isSome hshape hidle hfits.growthRounded hans
  allocateZeroAligned h l phys hshape hidle hans := by
    unfold KernelHeap.allocateZeroAligned
    by_cases h0 : size = 0
    · rw [if_pos h0]
      rfl
    rw [if_neg h0]
    by_cases hsmall : 2 ^ k ≤ HEAP_MIN_ALIGNMENT
    · rw [if_pos hsmall]
      rw [max_eq_right hsmall] at hans
      have hsome := allocateLoop_isSome hshape hidle hfits.growthRounded hans
      obtain ⟨⟨h₁, ptr⟩, hcall⟩ := Option.isSome_iff_exists.mp hsome
      unfold KernelHeap.allocateZero KernelHeap.allocate
      rw [if_neg h0, hcall]
      simp only
      split_ifs <;> rfl
    · rw [if_neg hsmall]
      rw [max_eq_left (Nat.le_of_not_le hsmall)] at hans
      split_ifs
      · rfl
      · exact allocateAlignedLoop_isSome hshape hidle hk hfits.growthAligned hans
  bytes h l answers h' ptr hshape _ hans hcall hptr := by
    have hle : size ≤ alignUp size HEAP_MIN_ALIGNMENT :=
      le_alignUp (k := 4) (by decide) hfits.rounding
    have hal : HEAP_MIN_ALIGNMENT ∣ alignUp size HEAP_MIN_ALIGNMENT :=
      alignUp_dvd (k := 4) (by decide) hfits.rounding
    unfold KernelHeap.allocate at hcall
    split_ifs at hcall
    · exact absurd (Prod.mk.inj (Option.some.inj hcall)).2.symm hptr
    · obtain ⟨l', hkept, hres⟩ := allocateLoop_kept hshape hal hans hcall
      rcases hres with hnull | ⟨b, hb⟩
      · exact absurd hnull hptr
      · exact ⟨l', hkept.shape, b, hb.mem, hb.used, hb.ptr_eq, Nat.le_trans hle hb.size_le⟩

/-- It is needed. -/
theorem fits_of_expansionSuffices (hsize : size < U64) (hk : k < 64)
    (hall : ExpansionSuffices size (2 ^ k)) : GrowthFits size (2 ^ k) := by
  -- a heap without memory fails where the growth wraps, whatever memory holds
  obtain ⟨m⟩ : Nonempty (Store Header) := ⟨fun _ => ⟨⟨0, false⟩, 0, 0⟩⟩
  have hempty : HeapShape (KernelHeap.empty m) [] := (fresh_empty m false).inv.shape
  have hzero : alignUp 0 HEAP_MIN_ALIGNMENT = 0 :=
    alignUp_of_dvd (k := 4) (by decide) (by rw [U64_eq]; decide) (Nat.dvd_zero _)
  have hne : ∀ j < 64, GrowWraps (alignUp size HEAP_MIN_ALIGNMENT) (2 ^ j) → size ≠ 0 := by
    rintro j hj hwrap rfl
    rw [hzero] at hwrap
    exact hwrap.ne_zero hj rfl
  have hplain : ¬ GrowWraps (alignUp size HEAP_MIN_ALIGNMENT) HEAP_MIN_ALIGNMENT := by
    intro hwrap
    obtain ⟨hans, hnone⟩ := allocateLoop_empty m hwrap
    have hsome := hall.allocate _ [] _ hempty rfl hans
    unfold KernelHeap.allocate at hsome
    rw [if_neg (hne 4 (by decide) hwrap), hnone] at hsome
    exact absurd hsome Bool.false_ne_true
  refine ⟨?_, ?_, hplain, ?_⟩
  · -- the search for 0 bytes takes the free block, however small
    by_contra hwrap
    have hround : alignUp size HEAP_MIN_ALIGNMENT = 0 :=
      alignUp_wrapped (k := 4) (by decide) hsize (Nat.not_le.mp hwrap)
    have hfound := findHeapBlock_ne_zero onePageHeap_inv.shape List.mem_cons_self rfl
      (Nat.zero_le _)
    obtain ⟨⟨h', ptr⟩, htry⟩ := Option.isSome_iff_exists.mp (tryAllocate_isSome hfound)
    obtain ⟨_, b, _, hb, -⟩ := tryAllocate_spec onePageHeap_inv.shape (Nat.dvd_zero _) htry
    have hcall : onePageHeap.allocate size [] = some (h', ptr) := by
      unfold KernelHeap.allocate
      rw [if_neg (by unfold HEAP_MIN_ALIGNMENT at hwrap; have := U64_eq; omega), hround]
      exact htry
    have hptr : ptr ≠ 0 := by
      rw [hb.ptr_eq]
      exact Nat.succ_ne_zero _
    obtain ⟨l', hshape', c, hc, -, -, hle⟩ :=
      hall.bytes _ _ [] _ _ onePageHeap_inv.shape rfl (fun _ _ => trivial) hcall hptr
    have hlt := hshape'.tiling.lt c hc
    unfold blockHi HEADER_SIZE at hlt
    unfold HEAP_MIN_ALIGNMENT at hwrap
    omega
  · intro hwrap
    obtain ⟨hans, h', l', hexp, -, hnone, -⟩ :=
      expand_too_small (fresh_empty m false) hk hwrap
    have hfound := (hall.search _ [] _ _ hempty rfl hans hexp).1
    exact hfound hnone
  · intro hwrap
    by_cases hsmall : 2 ^ k ≤ HEAP_MIN_ALIGNMENT
    · -- a small alignment makes no difference to the growth
      refine hplain ?_
      have hmax : max (2 ^ k) PAGE_SIZE_4K = max HEAP_MIN_ALIGNMENT PAGE_SIZE_4K := by
        unfold HEAP_MIN_ALIGNMENT PAGE_SIZE_4K at *
        omega
      unfold GrowWraps minimumBytes at hwrap ⊢
      rw [hmax] at hwrap
      exact hwrap
    · obtain ⟨hans, hnone⟩ := allocateAlignedLoop_empty m hk hwrap
      have hpow : 2 ^ k &&& sub64 (2 ^ k) 1 = 0 := by
        rw [sub64_eq Nat.one_le_two_pow, Nat.and_two_pow_sub_one_eq_mod, Nat.mod_self]
      rw [← max_eq_left (Nat.le_of_not_le hsmall)] at hans
      have hsome := hall.allocateZeroAligned _ [] _ hempty rfl hans
      unfold KernelHeap.allocateZeroAligned at hsome
      rw [if_neg (hne k hk hwrap), if_neg hsmall, hpow, if_neg (by simp), hnone] at hsome
      exact absurd hsome Bool.false_ne_true

/-- Exactly for which sizes and alignments one expansion is enough and `allocate` gets the bytes it
was asked for. -/
theorem expansionSuffices_iff (hsize : size < U64) (hk : k < 64) :
    ExpansionSuffices size (2 ^ k) ↔ GrowthFits size (2 ^ k) :=
  ⟨fits_of_expansionSuffices hsize hk, expansionSuffices_of_fits hk⟩

end Suffices

/-- A hundred bytes on a page boundary. -/
theorem expansionSuffices_iff_page : ExpansionSuffices 100 (2 ^ 12) := by
  have hfits : 100 + HEAP_MIN_ALIGNMENT ≤ U64 ∧ ¬ GrowWraps 100 (2 ^ 12) ∧
      ¬ GrowWraps (alignUp 100 HEAP_MIN_ALIGNMENT) HEAP_MIN_ALIGNMENT ∧
      ¬ GrowWraps (alignUp 100 HEAP_MIN_ALIGNMENT) (2 ^ 12) := by
    with_unfolding_all decide
  obtain ⟨hround, hgrow, hplain, haligned⟩ := hfits
  exact (expansionSuffices_iff (by rw [U64_eq]; decide) (by decide)).mpr
    ⟨hround, hgrow, hplain, haligned⟩

/-- Just below `2 ^ 63` bytes the growth wraps, and just below `2 ^ 64` the rounding of the size
does. -/
theorem huge_requests_fail :
    ¬ ExpansionSuffices (2 ^ 63 - 8192) (2 ^ 4) ∧ ¬ ExpansionSuffices (2 ^ 64 - 1) (2 ^ 4) := by
  have hwrap : GrowWraps (2 ^ 63 - 8192) (2 ^ 4) ∧ ¬ 2 ^ 64 - 1 + HEAP_MIN_ALIGNMENT ≤ U64 := by
    with_unfolding_all decide
  constructor
  · intro hall
    exact (fits_of_expansionSuffices (by rw [U64_eq]; decide) (by decide) hall).growth hwrap.1
  · intro hall
    exact hwrap.2 (fits_of_expansionSuffices (by rw [U64_eq]; decide) (by decide) hall).rounding

end VKernel.Proofs.Memory

import VKernel.Proofs.Memory.HeapBlocks

/-!
# `VKernel.Proofs.Memory.KernelHeap`: what each heap function does to the block list

Each function of the heap gets one lemma that says what it does to the list of blocks that
the links spell out. The lemmas about the two coalescing steps (`coalesceNext_spec`,
`coalescePrev_spec`) are shared by `add_region` and `free`, which call them in opposite
order. `HeapInv` collects what the list satisfies between calls.
-/

set_option autoImplicit false

namespace VKernel.Proofs.Memory

open VKernel.Memory VKernel.Lib VKernel.Lib.LinkedList

section Steps

variable {m : Store Header} {regions : List (Nat × Nat)} {l l₁ l₂ : List Block}

/-- The end of a block that memory holds. -/
theorem blockEnd_eq {b : Block} (hval : (m b.1).val = b.2) (hlt : blockHi b < U64) :
    blockEnd m b.1 = blockHi b := by
  unfold blockHi at hlt
  unfold blockEnd blockHi
  rw [hval, add64_eq (a := b.1) (by omega), add64_eq hlt]

/-- `absorb` joins two adjacent blocks. -/
theorem absorb_spec {a c : Block} (hseg : Seg m 0 (l₁ ++ a :: c :: l₂) 0)
    (ht : Tiling regions (l₁ ++ a :: c :: l₂)) (hadj : blockHi a = c.1) :
    Seg (absorb m a.1 c.1) 0 (l₁ ++ joinBlocks a c :: l₂) 0 := by
  have hjoin := (ht.join hadj).lt (joinBlocks a c) (by simp)
  have hva : (m a.1).val = a.2 := by rw [hseg.node]
  have hvc : (m c.1).val = c.2 := by
    have hc : Seg m 0 ((l₁ ++ [a]) ++ c :: l₂) 0 := by simpa using hseg
    rw [hc.node]
  have hsum : add64 a.2.size (add64 c.2.size HEADER_SIZE) = (joinBlocks a c).2.size := by
    unfold blockHi at hjoin
    simp only [joinBlocks] at hjoin ⊢
    rw [add64_eq (a := c.2.size) (by omega), add64_eq (by omega)]
  have hset : Seg (setVal m a.1 (joinBlocks a c).2) 0
      (l₁ ++ (a.1, (joinBlocks a c).2) :: c :: l₂) 0 :=
    seg_setVal (u := a.2) hseg ht.good
  unfold absorb
  rw [hva, hvc, hsum]
  exact seg_bypass (w := c.2) hset (ht.good.congr (by simp [addrs]))

/-- Coalescing a free block with the next one separates it from what follows. -/
theorem coalesceNext_spec {b : Block} (hseg : Seg m 0 (l₁ ++ b :: l₂) 0)
    (ht : Tiling regions (l₁ ++ b :: l₂)) (hb : b.2.used = false) :
    ∃ b' l₂', joinNext b l₂ = b' :: l₂' ∧ Seg (coalesceNext m b.1) 0 (l₁ ++ b' :: l₂') 0 ∧
      Reshaped regions (l₁ ++ b :: l₂) (l₁ ++ b' :: l₂') ∧
      b'.1 = b.1 ∧ b.2.size ≤ b'.2.size ∧ b'.2.used = false ∧
      (NoFreePair l₂ → NoFreePair (b' :: l₂')) ∧
      (NoFreePair (l₁ ++ [b]) → NoFreePair (l₁ ++ [b'])) := by
  have hnode := hseg.node
  have hend : blockEnd m b.1 = blockHi b := blockEnd_eq (by rw [hnode]) (ht.lt b (by simp))
  unfold coalesceNext
  simp only [hnode, hend]
  cases l₂ with
  | nil =>
    refine ⟨b, [], rfl, ?_, Reshaped.refl ht, rfl, Nat.le_refl _, hb,
      fun _ => List.isChain_singleton _, id⟩
    simpa [headOr] using hseg
  | cons c l₂ =>
    have hc : Seg m 0 ((l₁ ++ [b]) ++ c :: l₂) 0 := by simpa using hseg
    have hc0 : c.1 ≠ 0 := Nat.ne_of_gt (ht.pos c (by simp))
    simp only [headOr, hc.node]
    by_cases hmerge : c.1 ≠ 0 ∧ ¬ c.2.used = true ∧ blockHi b = c.1
    · obtain ⟨-, hcfree, hadj⟩ := hmerge
      have hcfree : c.2.used = false := by simpa using hcfree
      rw [if_pos ⟨hc0, by simp [hcfree], hadj⟩]
      exact ⟨joinBlocks b c, l₂, if_pos ⟨hcfree, hadj⟩, absorb_spec hseg ht hadj,
        Reshaped.join ht hadj hb hcfree, rfl, Nat.le_add_right _ _, hb,
        fun hright => hright.join_right hadj hcfree, NoFreePair.join_left⟩
    · rw [if_neg hmerge]
      have hkeep : joinNext b (c :: l₂) = b :: c :: l₂ :=
        if_neg fun hcon => hmerge ⟨hc0, by simp [hcon.1], hcon.2⟩
      refine ⟨b, c :: l₂, hkeep, hseg, Reshaped.refl ht, rfl, Nat.le_refl _, hb,
        fun hright => ?_, id⟩
      refine List.isChain_cons_cons.mpr ⟨fun hadj => Or.inr ?_, hright⟩
      by_contra hused
      exact hmerge ⟨hc0, hused, hadj⟩

/-- Coalescing a free block with the previous one separates the result from what comes
before. -/
theorem coalescePrev_spec {b : Block} (hseg : Seg m 0 (l₁ ++ b :: l₂) 0)
    (ht : Tiling regions (l₁ ++ b :: l₂)) (hb : b.2.used = false) :
    ∃ l₁' b', joinPrev l₁ b = (l₁', b') ∧ Seg (coalescePrev m b.1).1 0 (l₁' ++ b' :: l₂) 0 ∧
      (coalescePrev m b.1).2 = b'.1 ∧ Reshaped regions (l₁ ++ b :: l₂) (l₁' ++ b' :: l₂) ∧
      b.2.size ≤ b'.2.size ∧ b'.2.used = false ∧ (NoFreePair l₁ → NoFreePair (l₁' ++ [b'])) ∧
      (NoFreePair (b :: l₂) → NoFreePair (b' :: l₂)) := by
  have hnode := hseg.node
  unfold coalescePrev
  simp only [hnode]
  rcases List.eq_nil_or_concat l₁ with rfl | ⟨l₀, p, rfl⟩
  · refine ⟨[], b, rfl, ?_, ?_, Reshaped.refl ht, Nat.le_refl _, hb,
      fun _ => List.isChain_singleton _, id⟩
    · simpa [lastOr] using hseg
    · simp [lastOr]
  · rw [List.concat_eq_append] at *
    have hp : Seg m 0 (l₀ ++ p :: b :: l₂) 0 := by simpa using hseg
    have htp : Tiling regions (l₀ ++ p :: b :: l₂) := by simpa using ht
    have hp0 : p.1 ≠ 0 := Nat.ne_of_gt (htp.pos p (by simp))
    have hend : blockEnd m p.1 = blockHi p := blockEnd_eq (by rw [hp.node]) (htp.lt p (by simp))
    simp only [lastOr_append, lastOr, hend]
    have hpv : (m p.1).val = p.2 := by rw [hp.node]
    rw [hpv]
    by_cases hmerge : p.1 ≠ 0 ∧ ¬ p.2.used = true ∧ blockHi p = b.1
    · obtain ⟨-, hpfree, hadj⟩ := id hmerge
      have hpfree : p.2.used = false := by simpa using hpfree
      rw [if_pos hmerge]
      have hsize : b.2.size ≤ (joinBlocks p b).2.size :=
        Nat.le_trans (Nat.le_add_right _ HEADER_SIZE) (Nat.le_add_left _ _)
      have hjoin : joinPrev (l₀ ++ [p]) b = (l₀, joinBlocks p b) := by
        simp [joinPrev, hpfree, hadj]
      refine ⟨l₀, joinBlocks p b, hjoin, absorb_spec hp htp hadj, rfl, ?_, hsize, hpfree,
        fun hleft => hleft.join_left, fun hr => hr.join_right hadj hb⟩
      simpa using Reshaped.join htp hadj hpfree hb
    · rw [if_neg hmerge]
      have hkeep : joinPrev (l₀ ++ [p]) b = (l₀ ++ [p], b) := by
        have hno : ¬ (p.2.used = false ∧ blockHi p = b.1) :=
          fun hcon => hmerge ⟨hp0, by simp [hcon.1], hcon.2⟩
        simp [joinPrev, hno]
      refine ⟨l₀ ++ [p], b, hkeep, hseg, rfl, Reshaped.refl ht, Nat.le_refl _, hb,
        fun hleft => ?_, id⟩
      rw [List.append_assoc]
      refine noFreePair_split.mpr ⟨hleft, List.isChain_pair.mpr fun hadj => Or.inl ?_⟩
      by_contra hused
      exact hmerge ⟨hp0, hused, hadj⟩

/-- `find_heap_block` is first fit over the list. -/
theorem findHeapBlock_spec {size p fuel : Nat} (hseg : Seg m p l 0) (h0 : ∀ b ∈ l, 0 < b.1)
    (hfuel : l.length < fuel) :
    findHeapBlock m size fuel (headOr 0 l) =
      ((l.find? fun b => !b.2.used && decide (size ≤ b.2.size)).map Prod.fst).getD 0 := by
  induction l generalizing p fuel with
  | nil =>
    cases fuel with
    | zero => exact absurd hfuel (Nat.not_lt_zero _)
    | succ fuel => rfl
  | cons b l ih =>
    cases fuel with
    | zero => exact absurd hfuel (Nat.not_lt_zero _)
    | succ fuel =>
      obtain ⟨hb, hl⟩ := hseg
      have hb0 : b.1 ≠ 0 := Nat.ne_of_gt (h0 b List.mem_cons_self)
      have hrest := ih hl (fun c hc => h0 c (List.mem_cons_of_mem _ hc))
        (Nat.lt_of_succ_lt_succ hfuel)
      show findHeapBlock m size (fuel + 1) b.1 = _
      simp only [findHeapBlock, if_neg hb0, hb, List.find?_cons]
      by_cases hfit : ¬ b.2.used = true ∧ size ≤ b.2.size
      · rw [if_pos hfit]
        simp [hfit.1, hfit.2]
      · have hno : (!b.2.used && decide (size ≤ b.2.size)) = false := by
          by_contra hcon
          simp only [Bool.not_eq_false, Bool.and_eq_true, Bool.not_eq_true', decide_eq_true_eq]
            at hcon
          exact hfit ⟨by simp [hcon.1], hcon.2⟩
        rw [if_neg hfit, hno]
        exact hrest

/-- The walk of `add_region` stops at the last block below the new one. -/
theorem findPredecessor_spec {block p fuel : Nat} {c : Block} (hseg : Seg m p (c :: l) 0)
    (h0 : ∀ b ∈ c :: l, 0 < b.1) (hsorted : (c :: l).Pairwise fun a b => a.1 < b.1)
    (hc : c.1 < block) (hfuel : l.length < fuel) :
    ∃ l₁ d l₂, c :: l = l₁ ++ d :: l₂ ∧ findPredecessor m block fuel c.1 = d.1 ∧
      (∀ b ∈ l₁ ++ [d], b.1 < block) ∧ ∀ b ∈ l₂, block ≤ b.1 := by
  induction l generalizing p fuel c with
  | nil =>
    refine ⟨[], c, [], rfl, ?_, by simpa using hc, by simp⟩
    cases fuel with
    | zero => rfl
    | succ fuel => simp [findPredecessor, hseg.1, headOr]
  | cons d l ih =>
    cases fuel with
    | zero => exact absurd hfuel (Nat.not_lt_zero _)
    | succ fuel =>
      obtain ⟨hcnode, hrest⟩ := hseg
      have hd0 : d.1 ≠ 0 := Nat.ne_of_gt (h0 d (by simp))
      obtain ⟨hcd, hsorted'⟩ := List.pairwise_cons.mp hsorted
      simp only [findPredecessor, hcnode, headOr]
      by_cases hd : d.1 < block
      · obtain ⟨l₁, e, l₂, heq, hfind, hbelow, habove⟩ := ih hrest
          (fun b hb => h0 b (List.mem_cons_of_mem _ hb)) hsorted' hd
          (Nat.lt_of_succ_lt_succ hfuel)
        rw [if_pos ⟨hd0, hd⟩]
        refine ⟨c :: l₁, e, l₂, by rw [heq]; rfl, hfind, ?_, habove⟩
        intro b hb
        rcases List.mem_cons.mp hb with rfl | hb
        · exact hc
        · exact hbelow b hb
      · rw [if_neg fun hcon => hd hcon.2]
        refine ⟨[], c, d :: l, rfl, rfl, by simpa using hc, ?_⟩
        intro b hb
        rcases List.mem_cons.mp hb with rfl | hb
        · exact Nat.le_of_not_lt hd
        · have := (List.pairwise_cons.mp hsorted').1 b hb
          omega

end Steps

/-! ### The invariant -/

/-- The part of the invariant that does not depend on what is free: the links spell out a list,
and its blocks tile the regions. -/
structure HeapShape (h : KernelHeap) (l : List Block) : Prop where
  seg : Seg h.mem 0 l 0
  head : h.freeList = headOr 0 l
  tiling : Tiling h.regions l

/-- What the heap satisfies between calls, for the list that its links spell out. -/
structure HeapInv (h : KernelHeap) (l : List Block) : Prop where
  seg : Seg h.mem 0 l 0
  head : h.freeList = headOr 0 l
  tiling : Tiling h.regions l
  separated : NoFreePair l
  total : bytes l = h.totalBytes

/-- The list of a heap after an operation, with the rest of the invariant if it held before. -/
structure Kept (h : KernelHeap) (l : List Block) (h' : KernelHeap) (l' : List Block) : Prop where
  shape : HeapShape h' l'
  inv : HeapInv h l → HeapInv h' l'

section Operations

variable {h : KernelHeap} {l : List Block}

theorem HeapInv.shape (hinv : HeapInv h l) : HeapShape h l := ⟨hinv.seg, hinv.head, hinv.tiling⟩

theorem Kept.refl (hshape : HeapShape h l) : Kept h l h l := ⟨hshape, id⟩

theorem Kept.trans {h' h'' : KernelHeap} {l' l'' : List Block} (hkept : Kept h l h' l')
    (hkept' : Kept h' l' h'' l'') : Kept h l h'' l'' :=
  ⟨hkept'.shape, fun hinv => hkept'.inv (hkept.inv hinv)⟩

/-- The flag `expanding_` plays no part in the list. -/
theorem Kept.setExpanding (hshape : HeapShape h l) (b : Bool) :
    Kept h l { h with expanding := b } l :=
  ⟨⟨hshape.seg, hshape.head, hshape.tiling⟩,
    fun hinv => ⟨hinv.seg, hinv.head, hinv.tiling, hinv.separated, hinv.total⟩⟩

/-- Writes that miss every header of the list do not change the heap. -/
theorem Kept.overwrite {lo hi : Nat} {f : Store Header} (hshape : HeapShape h l)
    (hmiss : ∀ b ∈ l, hi ≤ b.1 ∨ b.1 + HEADER_SIZE ≤ lo) :
    Kept h l { h with mem := Memory.overwrite h.mem lo hi f } l := by
  have hseg : Seg (Memory.overwrite h.mem lo hi f) 0 l 0 := by
    refine hshape.seg.congr fun a ha => ?_
    obtain ⟨b, hb, rfl⟩ := List.mem_map.mp ha
    have hm := hmiss b hb
    exact if_neg (by omega)
  exact ⟨⟨hseg, hshape.head, hshape.tiling⟩,
    fun hinv => ⟨hseg, hinv.head, hinv.tiling, hinv.separated, hinv.total⟩⟩

/-- A region that may be added holds no header. -/
theorem HeapShape.region_misses {base size : Nat} (hshape : HeapShape h l)
    (hr : SubheapOk h.regions (base, size)) (hsize : 0 < size) :
    ∀ b ∈ l, base + size ≤ b.1 ∨ b.1 + HEADER_SIZE ≤ base := by
  intro b hb
  by_contra hcon
  have hlt := blockLo_lt_blockHi b
  refine hshape.tiling.not_covers hr (x := max base b.1) (by simp) (by simp only; omega)
    ⟨b, hb, ?_⟩
  unfold blockLo blockHi HEADER_SIZE at *
  omega

/-- The header of a new region is put in order. -/
theorem link_spec {base size : Nat} {v : Header} (hshape : HeapShape h l)
    (hr : SubheapOk h.regions (base, size)) (hsize : 0 < size) :
    ∃ l₁ l₂, l = l₁ ++ l₂ ∧ (∀ b ∈ l₁, b.1 < base) ∧ (∀ b ∈ l₂, base ≤ b.1) ∧
      Seg (h.link base v).mem 0 (l₁ ++ (base, v) :: l₂) 0 ∧
      (h.link base v).freeList = headOr 0 (l₁ ++ (base, v) :: l₂) := by
  have hbase : base ∉ addrs l := by
    intro hmem
    obtain ⟨b, hb, hb1⟩ := List.mem_map.mp hmem
    have hmiss := hshape.region_misses hr hsize b hb
    unfold HEADER_SIZE at hmiss
    omega
  have hseg := hshape.seg.update (n := ⟨v, 0, 0⟩) hbase
  unfold KernelHeap.link
  by_cases hfirst : h.freeList = 0 ∨ base < h.freeList
  · simp only [hfirst, if_true]
    refine ⟨[], l, rfl, by simp, ?_, ?_, rfl⟩
    · intro b hb
      cases l with
      | nil => exact absurd hb List.not_mem_nil
      | cons c l =>
        have hc0 := hshape.tiling.pos c List.mem_cons_self
        have hhead : h.freeList = c.1 := hshape.head
        rcases List.mem_cons.mp hb with rfl | hb
        · omega
        · have := (List.pairwise_cons.mp hshape.tiling.sorted).1 b hb
          omega
    · rw [hshape.head]
      exact seg_insertFirst hseg hshape.tiling.good hbase
  · simp only [hfirst, if_false]
    cases l with
    | nil => exact absurd (Or.inl hshape.head) hfirst
    | cons c l =>
      have hhead : h.freeList = c.1 := hshape.head
      have hne : c.1 ≠ base := fun heq => hbase (by simp [heq])
      have hlen := hshape.tiling.length_lt
      rw [List.length_cons] at hlen
      have hfuel : l.length < U64 := by omega
      have hlt : c.1 < base := by omega
      obtain ⟨l₁, d, l₂, heq, hfind, hbelow, habove⟩ :=
        findPredecessor_spec hseg hshape.tiling.pos hshape.tiling.sorted hlt hfuel
      have hgood := hshape.tiling.good
      rw [heq] at hseg hbase hgood
      refine ⟨l₁ ++ [d], l₂, by simp [heq], hbelow, habove, ?_, ?_⟩
      · rw [hhead, hfind]
        simpa using seg_insertAfter (u := d.2) hseg hgood hbase
      · show h.freeList = _
        rw [hshape.head, heq]
        cases l₁ <;> rfl

@[simp] theorem link_regions (h : KernelHeap) (base : Nat) (v : Header) :
    (h.link base v).regions = h.regions := by
  unfold KernelHeap.link
  dsimp only
  split <;> rfl

@[simp] theorem link_totalBytes (h : KernelHeap) (base : Nat) (v : Header) :
    (h.link base v).totalBytes = h.totalBytes := by
  unfold KernelHeap.link
  dsimp only
  split <;> rfl

/-- `add_region` keeps the invariant and the used blocks. The region is free in one piece. -/
theorem addRegion_spec {base size : Nat} (hshape : HeapShape h l)
    (hr : SubheapOk h.regions (base, size)) :
    ∃ l', Kept h l (h.addRegion base size).1 l' ∧ SameUsed l l' ∧
      ((h.addRegion base size).2 = true → l' = addFree l base size ∧
        ∃ b ∈ l', b.2.used = false ∧ size ≤ b.2.size + HEADER_SIZE) := by
  unfold KernelHeap.addRegion
  by_cases hbad : base = 0 ∨ size ≤ HEADER_SIZE
  · simp only [hbad, if_true]
    exact ⟨l, Kept.refl hshape, SameUsed.refl l, fun h => absurd h Bool.false_ne_true⟩
  · simp only [hbad, if_false]
    rw [not_or, Nat.not_le] at hbad
    obtain ⟨h0, hsize⟩ := hbad
    have hsub : sub64 size HEADER_SIZE = size - HEADER_SIZE := sub64_eq (Nat.le_of_lt hsize)
    rw [hsub]
    obtain ⟨l₁, l₂, rfl, hbelow, habove, hseg, hhead⟩ := link_spec
      (v := ⟨size - HEADER_SIZE, false⟩) hshape hr (Nat.lt_of_le_of_lt (Nat.zero_le _) hsize)
    have ht := hshape.tiling.insert hr h0 hsize hbelow habove
    -- First the block before the new one, then the block behind the result.
    obtain ⟨l₁', b, hprev, hseg₁, hblock, hresh₁, hsize₁, hbfree, hleft₁, -⟩ :=
      coalescePrev_spec hseg ht rfl
    obtain ⟨b', l₂', hnext, hseg₂, hresh₂, -, hsize₂, hbfree', hright₂, hleft₂⟩ :=
      coalesceNext_spec hseg₁ hresh₁.tiling hbfree
    have hresh := hresh₁.trans hresh₂
    have hseg' : Seg (coalesceNext (coalescePrev (h.link base ⟨size - HEADER_SIZE, false⟩).mem
        base).1 (coalescePrev (h.link base ⟨size - HEADER_SIZE, false⟩).mem base).2) 0
        (l₁' ++ b' :: l₂') 0 := by
      rw [hblock]
      exact hseg₂
    have hhead' : (h.link base ⟨size - HEADER_SIZE, false⟩).freeList =
        headOr 0 (l₁' ++ b' :: l₂') := by
      rw [hhead, hresh.head]
    refine ⟨l₁' ++ b' :: l₂', ⟨⟨hseg', hhead', ?_⟩, fun hinv => ⟨hseg', hhead', ?_, ?_, ?_⟩⟩, ?_,
      fun _ => ⟨?_, b', by simp, hbfree', ?_⟩⟩
    · simpa using hresh.tiling
    · simpa using hresh.tiling
    · obtain ⟨hleft, hright, -⟩ := List.isChain_append.mp hinv.separated
      exact noFreePair_split.mpr ⟨hleft₂ (hleft₁ hleft), hright₂ hright⟩
    · have hbytes : bytes (l₁' ++ b' :: l₂') = h.totalBytes + size := by
        have hold := hinv.total
        rw [bytes_append] at hold
        rw [hresh.bytes_eq, bytes_append, bytes_cons]
        show bytes l₁ + (size - HEADER_SIZE + HEADER_SIZE + bytes l₂) = _
        omega
      show bytes _ = add64 (h.link _ _).totalBytes size
      rw [link_totalBytes, hbytes, add64_eq]
      rw [← hbytes]
      exact hresh.tiling.bytes_lt
    · intro c hc
      rw [hresh.used c hc]
      have hne : c ≠ (base, ⟨size - HEADER_SIZE, false⟩) := by
        rintro rfl
        exact absurd hc Bool.false_ne_true
      simp [hne]
    · rw [addFree_eq size hbelow habove, hprev, hnext]
    · have hle := Nat.le_trans hsize₁ hsize₂
      simp only at hle
      omega

/-- After a successful `init` there is one free block, the whole region. -/
theorem init_spec {base size : Nat} (h0 : base ≠ 0) (hsize : HEADER_SIZE < size)
    (hr : SubheapOk [] (base, size)) :
    HeapInv (h.init base size).1 [(base, ⟨size - HEADER_SIZE, false⟩)] := by
  have hempty : Tiling [] ([] ++ []) :=
    ⟨ascending_nil, fun x => by simp, by simp, by simp, by simp⟩
  have ht := hempty.insert hr h0 hsize (by simp) (by simp)
  unfold KernelHeap.init
  rw [if_neg (by rw [not_or]; exact ⟨h0, by omega⟩), sub64_eq (Nat.le_of_lt hsize)]
  refine ⟨⟨?_, trivial⟩, rfl, ht, List.isChain_singleton _, ?_⟩
  · simp [headOr]
  · show bytes _ = size
    simp only [bytes, List.map_cons, List.map_nil, List.sum_cons, List.sum_nil]
    omega

/-- A subheap is never smaller than the configured minimum. -/
theorem le_expandRequest {size alignment : Nat} {grow : Nat × PageRequest}
    (hreq : expandRequest size alignment = some grow) :
    KERNEL_HEAP_MIN_SUBHEAP_SIZE ≤ grow.1 := by
  unfold expandRequest at hreq
  dsimp only at hreq
  split_ifs at hreq
  all_goals
    cases hreq
    exact Nat.le_max_right _ _

/-- `expand` keeps the invariant and the used blocks. What it adds is free in one piece. -/
theorem expand_spec {size alignment phys : Nat} (hshape : HeapShape h l)
    (hr : ∀ grow ∈ expandRequest size alignment, phys ≠ 0 → SubheapOk h.regions (phys, grow.1)) :
    ∃ l', Kept h l (h.expand size alignment phys).1 l' ∧ SameUsed l l' ∧
      ((h.expand size alignment phys).2 = true → ∃ grow ∈ expandRequest size alignment,
        l' = addFree l phys grow.1 ∧
          ∃ b ∈ l', b.2.used = false ∧ grow.1 ≤ b.2.size + HEADER_SIZE) := by
  unfold KernelHeap.expand
  cases hreq : expandRequest size alignment with
  | none => exact ⟨l, Kept.refl hshape, SameUsed.refl l, fun h => absurd h Bool.false_ne_true⟩
  | some grow =>
    obtain ⟨growBytes, request⟩ := grow
    by_cases h0 : phys = 0
    · simp only [h0, if_true]
      exact ⟨l, Kept.refl hshape, SameUsed.refl l, fun h => absurd h Bool.false_ne_true⟩
    · simp only [h0, if_false]
      have hrok := hr _ hreq h0
      have hpos : 0 < growBytes := Nat.lt_of_lt_of_le (by decide) (le_expandRequest hreq)
      have hzeroed : Kept h l { h with mem := memorySetZero h.mem phys growBytes } l :=
        Kept.overwrite hshape (hshape.region_misses hrok hpos)
      obtain ⟨l', hkept, hused, hfree⟩ := addRegion_spec hzeroed.shape hrok
      exact ⟨l', hzeroed.trans hkept, hused, fun hok => ⟨_, rfl, hfree hok⟩⟩

/-- What `allocate` does to the block it takes. The used blocks behind it are the same
before and after, since only a free block can have been split off. -/
theorem takeBlock_spec {m : Store Header} {regions : List (Nat × Nat)} {l₁ l₂ : List Block}
    {a size : Nat} {v : Header} (hseg : Seg m 0 (l₁ ++ (a, v) :: l₂) 0)
    (ht : Tiling regions (l₁ ++ (a, v) :: l₂)) (hfree : v.used = false) (hfit : size ≤ v.size)
    (hal : HEAP_MIN_ALIGNMENT ∣ size) :
    ∃ n l₂', size ≤ n ∧ Seg (takeBlock m a size) 0 (l₁ ++ (a, ⟨n, true⟩) :: l₂') 0 ∧
      Tiling regions (l₁ ++ (a, ⟨n, true⟩) :: l₂') ∧
      (NoFreePair l₁ → NoFreePair ((a, v) :: l₂) → NoFreePair (l₁ ++ (a, ⟨n, true⟩) :: l₂')) ∧
      bytes (l₁ ++ (a, ⟨n, true⟩) :: l₂') = bytes (l₁ ++ (a, v) :: l₂) ∧ SameUsed l₂ l₂' := by
  have hlt := ht.lt (a, v) (by simp)
  have ha : 16 ≤ a := Nat.le_of_dvd (ht.pos (a, v) (by simp)) (ht.aligned (a, v) (by simp))
  -- The used block is separated from both its neighbours, whatever they are.
  have hsplit : ∀ n l', NoFreePair l₁ → NoFreePair l' →
      NoFreePair (l₁ ++ (a, ⟨n, true⟩) :: l') := by
    intro n l' hleft hl'
    refine List.isChain_append.mpr ⟨hleft, List.isChain_cons.mpr ⟨?_, hl'⟩, ?_⟩
    · exact fun _ _ _ => Or.inl rfl
    · intro x _ y hy _
      have hy' : (a, Header.mk n true) = y := by simpa using hy
      exact Or.inr (hy' ▸ rfl)
  have hseg₁ : Seg (setVal m a ⟨v.size, true⟩) 0 (l₁ ++ (a, ⟨v.size, true⟩) :: l₂) 0 :=
    seg_setVal hseg ht.good
  have hva : (m a).val = v := by rw [hseg.node]
  have hva₁ : (setVal m a ⟨v.size, true⟩ a).val = ⟨v.size, true⟩ := by rw [hseg₁.node]
  unfold blockHi at hlt
  unfold HEADER_SIZE at *
  simp only at hlt
  have hsum : add64 (add64 size 32) HEAP_MIN_SPLIT_DATA_SIZE = size + 32 + 16 := by
    unfold HEAP_MIN_SPLIT_DATA_SIZE
    rw [add64_eq (a := size) (by omega), add64_eq (by omega)]
  unfold takeBlock
  simp only [hva, hva₁, HEADER_SIZE, hsum]
  by_cases hbig : v.size > size + 32 + 16
  · rw [if_pos hbig]
    have hnb : add64 (add64 a 32) size = a + 32 + size := by
      rw [add64_eq (a := a) (by omega), add64_eq (by omega)]
    have hrest : sub64 (sub64 v.size size) 32 = v.size - size - 32 := by
      rw [sub64_eq hfit, sub64_eq (by omega)]
    have ht' : Tiling regions (l₁ ++ (a, ⟨size, true⟩) ::
        (a + 32 + size, ⟨v.size - size - 32, false⟩) :: l₂) := by
      refine ht.split ?_ hal
      unfold HEADER_SIZE
      omega
    have hnew : a + 32 + size ∉ addrs (l₁ ++ (a, Header.mk v.size true) :: l₂) := by
      have hnd := ht'.good.nodup
      simp only [addrs, List.map_append, List.map_cons, List.nodup_append, List.nodup_cons,
        List.mem_append, List.mem_cons, not_or] at hnd ⊢
      refine ⟨fun hmem => ?_, Ne.symm hnd.2.1.1.1, hnd.2.1.2.1⟩
      exact hnd.2.2 _ hmem _ (Or.inr (Or.inl rfl)) rfl
    have hseg₂ := seg_insertAfter (v := ⟨v.size - size - 32, false⟩) hseg₁
      (ht.good.congr (by simp [addrs])) hnew
    rw [hnb, hrest, hseg₂.node]
    refine ⟨size, (a + 32 + size, ⟨v.size - size - 32, false⟩) :: l₂, Nat.le_refl _, ?_, ht', ?_,
      ?_, ?_⟩
    · exact seg_setVal hseg₂ (ht'.good.congr (by simp [addrs]))
    · intro hleft hbehind
      obtain ⟨hnext, hright⟩ := List.isChain_cons.mp hbehind
      refine hsplit _ _ hleft (List.isChain_cons.mpr ⟨fun y hy hadj => ?_, hright⟩)
      rcases hnext y hy (by unfold blockHi HEADER_SIZE at *; simp only at hadj ⊢; omega) with h | h
      · exact absurd (hfree.symm.trans h) Bool.false_ne_true
      · exact Or.inr h
    · simp only [bytes_append, bytes_cons, HEADER_SIZE]
      omega
    · intro c hc
      have hne : c ≠ (a + 32 + size, ⟨v.size - size - 32, false⟩) := by
        rintro rfl
        exact absurd hc Bool.false_ne_true
      simp [hne]
  · rw [if_neg hbig]
    refine ⟨v.size, l₂, hfit, hseg₁, ht.mark rfl, fun hleft hbehind => ?_, ?_,
      SameUsed.refl _⟩
    · exact hsplit _ _ hleft (List.isChain_cons.mp hbehind).2
    · simp only [bytes_append, bytes_cons]

/-- The list after a successful allocation has a used block for it, which none of the
earlier used blocks is, and no other block is used that was not used before. -/
structure Granted (l l' : List Block) (size ptr : Nat) (b : Block) : Prop where
  mem : b ∈ l'
  used : b.2.used = true
  ptr_eq : ptr = b.1 + HEADER_SIZE
  size_le : size ≤ b.2.size
  keep : ∀ c ∈ l, c.2.used = true → c ∈ l' ∧ c.1 ≠ b.1
  only : ∀ c ∈ l', c.2.used = true → c ∈ l ∨ c = b

/-- A search that finds a block grants it. -/
theorem tryAllocate_spec {size ptr : Nat} {h' : KernelHeap} (hshape : HeapShape h l)
    (hal : HEAP_MIN_ALIGNMENT ∣ size) (htry : h.tryAllocate size = some (h', ptr)) :
    ∃ l' b, Kept h l h' l' ∧ Granted l l' size ptr b ∧ h'.expanding = h.expanding := by
  have hfind : findHeapBlock h.mem size U64 (headOr 0 l) = _ :=
    findHeapBlock_spec hshape.seg hshape.tiling.pos hshape.tiling.length_lt
  unfold KernelHeap.tryAllocate at htry
  rw [hshape.head, hfind] at htry
  cases hres : l.find? fun b => !b.2.used && decide (size ≤ b.2.size) with
  | none => simp [hres] at htry
  | some b =>
    obtain ⟨hb, l₁, l₂, rfl, -⟩ := List.find?_eq_some_iff_append.mp hres
    obtain ⟨a, v⟩ := b
    simp only [Bool.and_eq_true, Bool.not_eq_true', decide_eq_true_eq] at hb
    have ha0 : a ≠ 0 := Nat.ne_of_gt (hshape.tiling.pos (a, v) (by simp))
    simp only [hres, Option.map_some, Option.getD_some, ne_eq, ha0, not_false_eq_true, if_true,
      Option.some.injEq, Prod.mk.injEq] at htry
    obtain ⟨rfl, rfl⟩ := htry
    obtain ⟨n, l₂', hn, hseg, ht, hsep, hbytes, hused⟩ :=
      takeBlock_spec hshape.seg hshape.tiling hb.1 hb.2 hal
    have hhead : headOr 0 (l₁ ++ (a, v) :: l₂) = headOr 0 (l₁ ++ (a, ⟨n, true⟩) :: l₂') := by
      cases l₁ <;> rfl
    refine ⟨_, (a, ⟨n, true⟩), ⟨⟨hseg, hhead, ht⟩, fun hinv => ?_⟩, ?_, rfl⟩
    · obtain ⟨hleft, hright, -⟩ := List.isChain_append.mp hinv.separated
      exact ⟨hseg, hhead, ht, hsep hleft hright, hbytes.trans hinv.total⟩
    · have hlt := hshape.tiling.lt (a, v) (by simp)
      unfold blockHi at hlt
      simp only at hlt
      refine ⟨by simp, rfl, add64_eq (by omega), hn, fun c hc hcu => ?_, fun c hc hcu => ?_⟩
      · have hcv : c ≠ (a, v) := by
          rintro rfl
          exact absurd (hb.1.symm.trans hcu) Bool.false_ne_true
        have hnd := hshape.tiling.sorted
        simp only [List.pairwise_append, List.pairwise_cons] at hnd
        simp only [List.mem_append, List.mem_cons, hcv, false_or] at hc ⊢
        rcases hc with hc | hc
        · have hca : c.1 < a := hnd.2.2 c hc (a, v) (by simp)
          exact ⟨Or.inl hc, Nat.ne_of_lt hca⟩
        · have hac : a < c.1 := hnd.2.1.1 c hc
          exact ⟨Or.inr (Or.inr ((hused c hcu).mpr hc)), Nat.ne_of_gt hac⟩
      · -- A used block behind the granted one was there before.
        rcases List.mem_append.mp hc with hc | hc
        · exact Or.inl (List.mem_append_left _ hc)
        · rcases List.mem_cons.mp hc with rfl | hc
          · exact Or.inr rfl
          · have hold := (hused c hcu).mp hc
            exact Or.inl (List.mem_append_right _ (List.mem_cons_of_mem _ hold))

/-- A successful `expand` has added the region that it asked for. -/
theorem expand_regions {size alignment phys : Nat} {h' : KernelHeap}
    (hexp : h.expand size alignment phys = (h', true)) :
    phys ≠ 0 ∧ ∃ grow ∈ expandRequest size alignment, h'.regions = (phys, grow.1) :: h.regions := by
  unfold KernelHeap.expand at hexp
  cases hreq : expandRequest size alignment with
  | none => simp [hreq] at hexp
  | some grow =>
    obtain ⟨growBytes, request⟩ := grow
    simp only [hreq] at hexp
    by_cases h0 : phys = 0
    · simp [h0] at hexp
    · simp only [h0, if_false, KernelHeap.addRegion] at hexp
      refine ⟨h0, (growBytes, request), rfl, ?_⟩
      split at hexp
      · simp at hexp
      · simp only [Prod.mk.injEq, and_true] at hexp
        rw [← hexp]
        simp

/-- The loop of `allocate` returns null with the used blocks as they were, or grants a
block. -/
theorem allocateLoop_spec {size ptr : Nat} {answers : List Nat} {h' : KernelHeap}
    (hshape : HeapShape h l) (hal : HEAP_MIN_ALIGNMENT ∣ size) (hidle : h.expanding = false)
    (hans : ∀ grow ∈ expandRequest size HEAP_MIN_ALIGNMENT, AnswersOk grow.1 h.regions answers)
    (hloop : h.allocateLoop size answers = some (h', ptr)) :
    ∃ l', Kept h l h' l' ∧ h'.expanding = false ∧
      (ptr = 0 ∧ SameUsed l l' ∨ ∃ b, Granted l l' size ptr b) := by
  induction answers generalizing h l with
  | nil =>
    obtain ⟨l', b, hkept, hgrant, hexp⟩ := tryAllocate_spec hshape hal hloop
    exact ⟨l', hkept, hexp.trans hidle, Or.inr ⟨b, hgrant⟩⟩
  | cons phys answers ih =>
    rw [KernelHeap.allocateLoop] at hloop
    cases htry : h.tryAllocate size with
    | some r =>
      rw [htry] at hloop
      obtain rfl : r = (h', ptr) := Option.some.inj hloop
      obtain ⟨l', b, hkept, hgrant, hexp⟩ := tryAllocate_spec hshape hal htry
      exact ⟨l', hkept, hexp.trans hidle, Or.inr ⟨b, hgrant⟩⟩
    | none =>
      have hflag := Kept.setExpanding hshape true
      obtain ⟨l₁, hkept₁, hused₁, -⟩ := expand_spec hflag.shape
        fun grow hgrow => (hans grow hgrow).1
      have hstart := hflag.trans hkept₁
      cases hexp : { h with expanding := true }.expand size HEAP_MIN_ALIGNMENT phys with
      | mk h₁ expanded =>
        rw [hexp] at hstart
        have hgrown := hstart.trans (Kept.setExpanding hstart.shape false)
        simp only [htry, hidle, hexp] at hloop
        cases expanded with
        | false =>
          simp only [Bool.false_eq_true, if_false, Option.some.injEq,
            Prod.mk.injEq] at hloop
          obtain ⟨rfl, rfl⟩ := hloop
          exact ⟨l₁, hgrown, rfl, Or.inl ⟨rfl, hused₁⟩⟩
        | true =>
          simp only [Bool.false_eq_true, if_false, if_true] at hloop
          obtain ⟨h0, grow, hgrow, hregions⟩ := expand_regions hexp
          have hans₁ : ∀ grow' ∈ expandRequest size HEAP_MIN_ALIGNMENT,
              AnswersOk grow'.1 h₁.regions answers := by
            intro grow' hgrow'
            obtain rfl : grow = grow' := Option.some.inj (hgrow.symm.trans hgrow')
            have hrest := (hans grow hgrow).2
            rw [if_neg h0] at hrest
            rw [hregions]
            exact hrest
          obtain ⟨l', hkept', hidle', hres⟩ := ih hgrown.shape rfl hans₁ hloop
          refine ⟨l', hgrown.trans hkept', hidle', ?_⟩
          rcases hres with ⟨rfl, hused⟩ | ⟨b, hgrant⟩
          · exact Or.inl ⟨rfl, hused₁.trans hused⟩
          · refine Or.inr ⟨b, { hgrant with
              keep := fun c hc hcu => hgrant.keep c ((hused₁ c hcu).mpr hc) hcu
              only := fun c hc hcu => ?_ }⟩
            exact (hgrant.only c hc hcu).imp_left (hused₁ c hcu).mp

/-- `free` of a used block gives its bytes back and leaves the other used blocks alone. No other
block is used afterwards. -/
theorem free_spec {b : Block} (hinv : HeapInv h l) (hb : b ∈ l) :
    ∃ l', HeapInv (h.free (b.1 + HEADER_SIZE)) l' ∧
      (∀ c ∈ l, c.2.used = true → c.1 ≠ b.1 → c ∈ l') ∧
      ∀ c ∈ l', c.2.used = true → c ∈ l ∧ c.1 ≠ b.1 := by
  obtain ⟨l₁, l₂, rfl⟩ := List.append_of_mem hb
  obtain ⟨a, v⟩ := b
  have hsub : sub64 (a + HEADER_SIZE) HEADER_SIZE = a := by
    rw [sub64_eq (by omega)]
    omega
  have hva : (h.mem a).val = v := by rw [hinv.seg.node]
  obtain ⟨hleft, hright⟩ := noFreePair_split.mp hinv.separated
  obtain ⟨hleft, -, -⟩ := List.isChain_append.mp hleft
  obtain ⟨-, hright⟩ := List.isChain_cons.mp hright
  have hseg : Seg (setVal h.mem a ⟨v.size, false⟩) 0 (l₁ ++ (a, ⟨v.size, false⟩) :: l₂) 0 :=
    seg_setVal hinv.seg hinv.tiling.good
  have ht : Tiling h.regions (l₁ ++ (a, ⟨v.size, false⟩) :: l₂) := hinv.tiling.mark rfl
  -- First the block behind the freed one, then the block before the result.
  obtain ⟨b', l₂', -, hseg₁, hresh₁, hb', -, hbfree, hright₁, -⟩ := coalesceNext_spec hseg ht rfl
  obtain ⟨l₁', b'', -, hseg₂, -, hresh₂, -, -, hleft₂, hright₂⟩ :=
    coalescePrev_spec hseg₁ hresh₁.tiling hbfree
  have hresh := hresh₁.trans hresh₂
  refine ⟨l₁' ++ b'' :: l₂', ?_, ?_, ?_⟩
  · unfold KernelHeap.free
    rw [if_neg (by unfold HEADER_SIZE; omega)]
    simp only [hsub, hva]
    rw [hb'] at hseg₂
    refine ⟨hseg₂, ?_, hresh.tiling, noFreePair_split.mpr ⟨hleft₂ hleft, hright₂ (hright₁ hright)⟩,
      ?_⟩
    · show h.freeList = _
      rw [hinv.head, hresh.head]
      cases l₁ <;> rfl
    · show bytes _ = h.totalBytes
      rw [hresh.bytes_eq, ← hinv.total]
      simp only [bytes_append, bytes_cons]
  · intro c hc hcu hne
    refine (hresh.used c hcu).mpr ?_
    have hcv : c ≠ (a, v) := fun heq => hne (by rw [heq])
    simp only [List.mem_append, List.mem_cons, hcv, false_or] at hc ⊢
    tauto
  · intro c hc hcu
    have hmarked := (hresh.used c hcu).mp hc
    have hcv : c ≠ (a, ⟨v.size, false⟩) := by
      rintro rfl
      exact absurd hcu Bool.false_ne_true
    have hsorted := hinv.tiling.sorted
    simp only [List.pairwise_append, List.pairwise_cons] at hsorted
    simp only [List.mem_append, List.mem_cons, hcv, false_or] at hmarked ⊢
    rcases hmarked with hbefore | hbehind
    · exact ⟨Or.inl hbefore, Nat.ne_of_lt (hsorted.2.2 c hbefore (a, v) (by simp))⟩
    · exact ⟨Or.inr (Or.inr hbehind), Nat.ne_of_gt (hsorted.2.1.1 c hbehind)⟩

end Operations

end VKernel.Proofs.Memory

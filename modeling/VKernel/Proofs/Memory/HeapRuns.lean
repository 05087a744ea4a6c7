import VKernel.Proofs.Memory.KernelHeap

/-!
# `VKernel.Proofs.Memory.HeapRuns`: the kernel heap over whole runs

`HeapRunInv` adds the callers' side to `HeapInv`: every allocation they hold is the data of a
used block of its own, and there are no other used blocks. One call keeps it (`HeapRunInv.step`),
and `heap_wellFormed_of_run` states what follows for every state of a run.

The list that the links spell out is determined by the regions and the used blocks
(`HeapWellFormed.determined`), so the calls leave no trace once everything is given back
(`heap_restored`).
-/

set_option autoImplicit false
set_option maxRecDepth 20000

namespace VKernel.Proofs.Memory

open VKernel.Memory VKernel.Lib VKernel.Lib.LinkedList

/-- Every allocation that a caller holds is the data of a used block of its own, and no other
block is used. -/
structure LiveOk (live : List (Nat × Nat)) (l : List Block) : Prop where
  block : ∀ g ∈ live, ∃ b ∈ l, b.2.used = true ∧ g.1 = b.1 + HEADER_SIZE ∧ g.2 ≤ b.2.size
  nodup : (live.map Prod.fst).Nodup
  owned : ∀ b ∈ l, b.2.used = true → ∃ g ∈ live, g.1 = b.1 + HEADER_SIZE

/-- The invariant of a run. -/
structure HeapRunInv (s : HeapState) (l : List Block) : Prop where
  heap : HeapInv s.heap l
  live : LiveOk s.live l
  idle : s.heap.expanding = false

section Runs

variable {s t : HeapState} {l l' : List Block}

theorem LiveOk.of_sameUsed {live : List (Nat × Nat)} (h : LiveOk live l) (hs : SameUsed l l') :
    LiveOk live l' where
  block g hg := by
    obtain ⟨b, hb, hbu, hptr, hsize⟩ := h.block g hg
    exact ⟨b, (hs b hbu).mpr hb, hbu, hptr, hsize⟩
  nodup := h.nodup
  owned b hb hbu := h.owned b ((hs b hbu).mp hb) hbu

/-- A granted block joins the live ones. -/
theorem LiveOk.grant {live : List (Nat × Nat)} {size size' ptr : Nat} {b : Block}
    (h : LiveOk live l) (hg : Granted l l' size ptr b) (hle : size' ≤ size) :
    LiveOk ((ptr, size') :: live) l' where
  block g hmem := by
    rcases List.mem_cons.mp hmem with rfl | hmem
    · exact ⟨b, hg.mem, hg.used, hg.ptr_eq, Nat.le_trans hle hg.size_le⟩
    · obtain ⟨c, hc, hcu, hptr, hsize⟩ := h.block g hmem
      exact ⟨c, (hg.keep c hc hcu).1, hcu, hptr, hsize⟩
  nodup := by
    refine List.nodup_cons.mpr ⟨fun hmem => ?_, h.nodup⟩
    obtain ⟨g, hgl, hgp⟩ := List.mem_map.mp hmem
    obtain ⟨c, hc, hcu, hptr, -⟩ := h.block g hgl
    have hne := (hg.keep c hc hcu).2
    have hb := hg.ptr_eq
    exact hne (by simp only at hgp; omega)
  owned c hc hcu := by
    rcases hg.only c hc hcu with hold | rfl
    · obtain ⟨g, hgl, hptr⟩ := h.owned c hold hcu
      exact ⟨g, List.mem_cons_of_mem _ hgl, hptr⟩
    · exact ⟨_, List.mem_cons_self, hg.ptr_eq⟩

/-- The data of a block holds no header of the list. -/
theorem data_misses {regions : List (Nat × Nat)} (ht : Tiling regions l) {b : Block} (hb : b ∈ l)
    {n : Nat} (hn : n ≤ b.2.size) :
    ∀ c ∈ l, b.1 + HEADER_SIZE + n ≤ c.1 ∨ c.1 + HEADER_SIZE ≤ b.1 + HEADER_SIZE := by
  intro c hc
  by_cases heq : b = c
  · exact Or.inr (by rw [heq])
  · have hdis := ht.asc.disjoint hb hc heq (blockLo_lt_blockHi b) (blockLo_lt_blockHi c)
    unfold blockLo blockHi HEADER_SIZE at *
    omega

theorem addRegion_expanding (h : KernelHeap) (base size : Nat) :
    (h.addRegion base size).1.expanding = h.expanding := by
  unfold KernelHeap.addRegion KernelHeap.link
  dsimp only
  split
  · rfl
  · dsimp only
    split <;> rfl

/-- An allocation, rounded up, either leaves the live allocations alone or adds one. -/
theorem HeapRunInv.allocate {size ptr : Nat} {answers : List Nat} {h' : KernelHeap}
    (hinv : HeapRunInv s l) (hok : AllocationOk s size answers)
    (halloc : s.heap.allocate size answers = some (h', ptr)) :
    ∃ l', HeapInv h' l' ∧ h'.expanding = false ∧
      (ptr = 0 ∧ SameUsed l l' ∨ ∃ b, Granted l l' size ptr b) := by
  have hk : size + 2 ^ 4 ≤ U64 := hok.1
  unfold KernelHeap.allocate at halloc
  by_cases h0 : size = 0
  · rw [if_pos h0, Option.some.injEq, Prod.mk.injEq] at halloc
    obtain ⟨rfl, rfl⟩ := halloc
    exact ⟨l, hinv.heap, hinv.idle, Or.inl ⟨rfl, SameUsed.refl l⟩⟩
  · rw [if_neg h0] at halloc
    have hal : HEAP_MIN_ALIGNMENT ∣ alignUp size HEAP_MIN_ALIGNMENT := alignUp_dvd (by decide) hk
    have hle : size ≤ alignUp size HEAP_MIN_ALIGNMENT := le_alignUp (by decide) hk
    obtain ⟨l', hkept, hidle, hres⟩ :=
      allocateLoop_spec hinv.heap.shape hal hinv.idle hok.2 halloc
    refine ⟨l', hkept.inv hinv.heap, hidle, hres.imp id ?_⟩
    rintro ⟨b, hb⟩
    exact ⟨b, { hb with size_le := Nat.le_trans hle hb.size_le }⟩

/-- What an allocation leaves behind, with the ghost record of its result. -/
theorem HeapRunInv.grant {size ptr : Nat} {h' : KernelHeap} (hinv : HeapRunInv s l)
    (hheap : HeapInv h' l') (hidle : h'.expanding = false)
    (hres : ptr = 0 ∧ SameUsed l l' ∨ ∃ b, Granted l l' size ptr b) :
    HeapRunInv (s.grant size (h', ptr)) l' := by
  refine ⟨hheap, ?_, hidle⟩
  rcases hres with ⟨rfl, hused⟩ | ⟨b, hb⟩
  · exact hinv.live.of_sameUsed hused
  · have h0 : ptr ≠ 0 := by
      have := hb.ptr_eq
      unfold HEADER_SIZE at this
      omega
    simp only [HeapState.grant, if_neg h0]
    exact hinv.live.grant hb (Nat.le_refl _)

/-- One call keeps the invariant. -/
theorem HeapRunInv.step {op : HeapOp} (hinv : HeapRunInv s l) (hok : s.Allowed op)
    (hstep : s.next op = some t) : ∃ l', HeapRunInv t l' := by
  cases op with
  | init base size =>
    by_cases hbad : base = 0 ∨ size ≤ HEADER_SIZE
    · have hsame : s.heap.init base size = (s.heap, false) := if_pos hbad
      simp only [HeapState.next, hsame, Option.some.injEq] at hstep
      exact ⟨l, hstep ▸ hinv⟩
    · have hok' : (s.heap.init base size).2 = true := by simp [KernelHeap.init, hbad]
      have hidle : (s.heap.init base size).1.expanding = false := by simp [KernelHeap.init, hbad]
      simp only [HeapState.next, hok', if_true, Option.some.injEq] at hstep
      rw [not_or, Nat.not_le] at hbad
      subst hstep
      exact ⟨_, init_spec hbad.1 hbad.2 hok, ⟨by simp, List.nodup_nil, by simp⟩, hidle⟩
  | addRegion base size =>
    obtain ⟨l', hkept, hused, -⟩ := addRegion_spec hinv.heap.shape hok
    simp only [HeapState.next, Option.some.injEq] at hstep
    subst hstep
    exact ⟨l', hkept.inv hinv.heap, hinv.live.of_sameUsed hused,
      (addRegion_expanding _ _ _).trans hinv.idle⟩
  | allocate size answers =>
    obtain ⟨⟨h', ptr⟩, halloc, rfl⟩ := Option.map_eq_some_iff.mp hstep
    obtain ⟨l', hheap, hidle, hres⟩ := hinv.allocate hok halloc
    exact ⟨l', hinv.grant hheap hidle hres⟩
  | allocateZero size answers =>
    obtain ⟨⟨h', ptr⟩, hzero, rfl⟩ := Option.map_eq_some_iff.mp hstep
    unfold KernelHeap.allocateZero at hzero
    cases halloc : s.heap.allocate size answers with
    | none => simp [halloc] at hzero
    | some r =>
      obtain ⟨h₁, ptr₁⟩ := r
      obtain ⟨l', hheap, hidle, hres⟩ := hinv.allocate hok halloc
      simp only [halloc] at hzero
      by_cases h0 : ptr₁ ≠ 0
      · rw [if_pos h0, Option.some.injEq, Prod.mk.injEq] at hzero
        obtain ⟨rfl, rfl⟩ := hzero
        obtain ⟨hz, -⟩ | ⟨b, hb⟩ := hres
        · exact absurd hz h0
        · -- The zeroed bytes are data of the granted block.
          refine ⟨l', hinv.grant ((Kept.overwrite hheap.shape ?_).inv hheap) hidle (Or.inr ⟨b, hb⟩)⟩
          rw [hb.ptr_eq]
          exact data_misses hheap.tiling hb.mem hb.size_le
      · rw [if_neg h0, Option.some.injEq, Prod.mk.injEq] at hzero
        obtain ⟨rfl, rfl⟩ := hzero
        exact ⟨l', hinv.grant hheap hidle hres⟩
  | free ptr =>
    simp only [HeapState.next, Option.some.injEq] at hstep
    subst hstep
    have hnodup : ((s.live.filter fun g => g.1 ≠ ptr).map Prod.fst).Nodup :=
      hinv.live.nodup.sublist (List.filter_sublist.map _)
    rcases hok with rfl | ⟨g, hg, rfl⟩
    · have hsame : s.heap.free 0 = s.heap := if_pos rfl
      rw [hsame]
      refine ⟨l, hinv.heap, ⟨fun g hg => hinv.live.block g (List.mem_of_mem_filter hg), hnodup,
        fun b hb hbu => ?_⟩, hinv.idle⟩
      obtain ⟨g, hg, hptr⟩ := hinv.live.owned b hb hbu
      refine ⟨g, List.mem_filter.mpr ⟨hg, decide_eq_true ?_⟩, hptr⟩
      rw [hptr]
      exact Nat.succ_ne_zero _
    · obtain ⟨b, hb, -, hptr, -⟩ := hinv.live.block g hg
      obtain ⟨l', hheap, hkeep, honly⟩ := free_spec hinv.heap hb
      rw [← hptr] at hheap
      refine ⟨l', hheap, ⟨fun g' hg' => ?_, hnodup, fun c hc hcu => ?_⟩, ?_⟩
      · obtain ⟨hmem, hne⟩ := List.mem_filter.mp hg'
        obtain ⟨c, hc, hcu, hcptr, hsize⟩ := hinv.live.block g' hmem
        have hne' : g'.1 ≠ g.1 := by simpa using hne
        exact ⟨c, hkeep c hc hcu (by omega), hcu, hcptr, hsize⟩
      · obtain ⟨hold, hne⟩ := honly c hc hcu
        obtain ⟨g', hg', hcptr⟩ := hinv.live.owned c hold hcu
        exact ⟨g', List.mem_filter.mpr ⟨hg', decide_eq_true (by omega)⟩, hcptr⟩
      · show (s.heap.free g.1).expanding = false
        unfold KernelHeap.free
        split
        · exact hinv.idle
        · exact hinv.idle
  | write ptr size f =>
    simp only [HeapState.next, Option.some.injEq] at hstep
    subst hstep
    obtain ⟨b, hb, -, hptr, hsize⟩ := hinv.live.block _ hok
    refine ⟨l, (Kept.overwrite hinv.heap.shape ?_).inv hinv.heap, hinv.live, hinv.idle⟩
    simp only at hptr
    rw [hptr]
    exact data_misses hinv.heap.tiling hb hsize

end Runs

/-- The heap is well formed: `l` is its block list, read off the links. -/
structure HeapWellFormed (s : HeapState) (l : List Block) : Prop where
  /-- The forward links from `free_list_` and the backward links spell out the list. -/
  linked : Seg s.heap.mem 0 l 0
  head : s.heap.freeList = headOr 0 l
  sorted : l.Pairwise fun a b => a.1 < b.1
  /-- Blocks do not overlap, and every byte of a region is in a block and conversely. -/
  disjoint : Ascending blockLo blockHi l
  cover : ∀ x, Covers blockLo blockHi l x ↔ Covers Prod.fst regionHi s.heap.regions x
  /-- Of two adjacent blocks one is used. -/
  coalesced : ∀ a ∈ l, ∀ b ∈ l, blockHi a = b.1 → a.2.used = true ∨ b.2.used = true
  total : (l.map fun b => b.2.size + HEADER_SIZE).sum = s.heap.totalBytes
  /-- A live allocation is aligned and is the data of a used block that is large enough. -/
  live : ∀ g ∈ s.live, HEAP_MIN_ALIGNMENT ∣ g.1 ∧
    ∃ b ∈ l, b.2.used = true ∧ g.1 = b.1 + HEADER_SIZE ∧ g.2 ≤ b.2.size
  /-- The data ranges of two live allocations are disjoint. -/
  liveApart : s.live.Pairwise fun g g' => ∀ b ∈ l, ∀ b' ∈ l, g.1 = b.1 + HEADER_SIZE →
    g'.1 = b'.1 + HEADER_SIZE → Apart (g.1, b.2.size) (g'.1, b'.2.size)

/-- The invariant gives well-formedness. -/
theorem HeapRunInv.wellFormed {s : HeapState} {l : List Block} (h : HeapRunInv s l) :
    HeapWellFormed s l where
  linked := h.heap.seg
  head := h.heap.head
  sorted := h.heap.tiling.sorted
  disjoint := h.heap.tiling.asc
  cover := h.heap.tiling.cover
  coalesced := h.heap.separated.separated h.heap.tiling.asc
  total := h.heap.total
  live g hg := by
    obtain ⟨b, hb, hbu, hptr, hsize⟩ := h.live.block g hg
    refine ⟨?_, b, hb, hbu, hptr, hsize⟩
    rw [hptr]
    exact Nat.dvd_add (h.heap.tiling.aligned b hb) ⟨2, rfl⟩
  liveApart := by
    refine (List.pairwise_map.mp h.live.nodup).imp fun {g g'} hne b hb b' hb' hg hg' => ?_
    have hbb : b ≠ b' := by
      rintro rfl
      exact hne (hg.trans hg'.symm)
    have hdis := h.heap.tiling.asc.disjoint hb hb' hbb (blockLo_lt_blockHi b)
      (blockLo_lt_blockHi b')
    unfold Apart
    unfold blockLo blockHi at hdis
    simp only
    omega

theorem HeapRunInv.of_reachable {s : HeapState} (hs : heapSystem.Reachable s) :
    ∃ l, HeapRunInv s l := by
  refine hs.invariant (P := fun s => ∃ l, HeapRunInv s l) (fun s hinit => ?_)
    (fun s op t _ hl hstep => ?_)
  · obtain ⟨m, rfl⟩ := hinit
    refine ⟨[], ⟨trivial, rfl, ?_, List.isChain_nil, rfl⟩, ⟨by simp, List.nodup_nil, by simp⟩, rfl⟩
    exact ⟨ascending_nil, fun x => by simp [KernelHeap.empty], by simp, by simp, by simp⟩
  · obtain ⟨l, hl⟩ := hl
    exact hl.step hstep.1 hstep.2

/-- In every run of `init`, `add_region`, `allocate`, `allocate_zero` and `free`, with the
callers writing to what they hold, the heap is well formed in every state reached. -/
theorem heap_wellFormed_of_run (s : HeapState) (hs : heapSystem.Reachable s) :
    ∃ l, HeapWellFormed s l := by
  obtain ⟨l, hl⟩ := HeapRunInv.of_reachable hs
  exact ⟨l, hl.wellFormed⟩

/-- A run with a split, an expansion, an adjacent region and a free: the heap starts with one
page, the second allocation does not fit and is served from a new subheap, and the region
behind the first page is joined with it. -/
def expandingRun : List HeapOp :=
  [.init 0x100000 0x1000, .allocate 100 [], .allocateZero 0x2000 [0x200000],
    .addRegion 0x101000 0x1000, .free 0x100020]

/-- A run in which the heap grows twice, by adjacent regions. -/
theorem heap_wellFormed_of_run_expanding :
    ∃ s, heapSystem.Reachable s ∧ s.live = [(0x200020, 0x2000)] ∧
      s.heap.totalBytes = 0x102000 ∧ ∃ l, HeapWellFormed s l := by
  have hrun : (TransitionSystem.run (TransitionSystem.guarded HeapState.next HeapState.Allowed)
      ⟨KernelHeap.empty fun _ => ⟨⟨0, false⟩, 0, 0⟩, []⟩ expandingRun).any (fun s =>
        decide (s.live = [(0x200020, 0x2000)] ∧ s.heap.totalBytes = 0x102000)) = true := by
    with_unfolding_all decide
  obtain ⟨s, hs, hfacts⟩ := (Option.any_eq_true _ _).mp hrun
  obtain ⟨hlive, htotal⟩ := of_decide_eq_true hfacts
  have hreach : heapSystem.Reachable s :=
    TransitionSystem.reachable_of_guarded_run (.init ⟨_, rfl⟩) hs
  exact ⟨s, hreach, hlive, htotal, heap_wellFormed_of_run s hreach⟩

/-- The blocks fill each region on its own. -/
def TilesEach (regions : List (Nat × Nat)) (l : List Block) : Prop :=
  ∀ r ∈ regions, ∃ l' : List Block, l' ⊆ l ∧ Tiles blockLo blockHi r.1 (regionHi r) l'

/-- A region behind another one is joined with it, so that the only block lies in both. -/
theorem regions_joined : ∃ s, heapSystem.Reachable s ∧
    s.heap.regions = [(0x101000, 0x1000), (0x100000, 0x1000)] ∧
      ∀ l, HeapWellFormed s l → ¬ TilesEach s.heap.regions l := by
  have hrun : (TransitionSystem.run (TransitionSystem.guarded HeapState.next HeapState.Allowed)
      ⟨KernelHeap.empty fun _ => ⟨⟨0, false⟩, 0, 0⟩, []⟩
        [.init 0x100000 0x1000, .addRegion 0x101000 0x1000]).any (fun s =>
          decide (s.heap.regions = [(0x101000, 0x1000), (0x100000, 0x1000)] ∧
            s.heap.freeList = 0x100000 ∧ s.heap.mem 0x100000 = ⟨⟨0x1FE0, false⟩, 0, 0⟩)) =
              true := by
    with_unfolding_all decide
  obtain ⟨s, hs, hfacts⟩ := (Option.any_eq_true _ _).mp hrun
  obtain ⟨hregions, hhead, hnode⟩ := of_decide_eq_true hfacts
  refine ⟨s, TransitionSystem.reachable_of_guarded_run (.init ⟨_, rfl⟩) hs, hregions, ?_⟩
  intro l hl htiles
  -- The links spell out one block of both regions.
  obtain rfl : l = [(0x100000, ⟨0x1FE0, false⟩)] := by
    have hlinked := hl.linked
    have hfirst : headOr 0 l = 0x100000 := hl.head.symm.trans hhead
    cases l with
    | nil => exact absurd hfirst (by decide)
    | cons b l =>
      obtain ⟨a, v⟩ := b
      obtain rfl : a = 0x100000 := hfirst
      obtain ⟨hb, hrest⟩ := hlinked
      have hsame : (⟨⟨0x1FE0, false⟩, 0, 0⟩ : Node Header) = ⟨v, headOr 0 l, 0⟩ :=
        hnode.symm.trans hb
      injection hsame with hv hnext
      cases l with
      | nil => rw [← hv]
      | cons c l =>
        have hbehind := List.rel_of_pairwise_cons hl.sorted List.mem_cons_self
        exact absurd hnext.symm (Nat.ne_of_gt (Nat.zero_lt_of_lt hbehind))
  obtain ⟨l', hsub, htile⟩ := htiles (0x101000, 0x1000) (by rw [hregions]; exact List.mem_cons_self)
  cases l' with
  | nil => exact absurd (show 0x101000 = 0x102000 from htile) (by decide)
  | cons b l' =>
    obtain rfl := List.mem_singleton.mp (hsub List.mem_cons_self)
    exact absurd htile.1 (by decide)

/-! ### What the calls leave behind -/

section Restored

variable {s t : HeapState} {l l' : List Block}

/-- The used blocks are those of the callers. -/
theorem HeapRunInv.used_iff (h : HeapRunInv s l) {b : Block} (hb : b ∈ l) :
    b.2.used = true ↔ ∃ g ∈ s.live, g.1 = b.1 + HEADER_SIZE := by
  refine ⟨h.live.owned b hb, ?_⟩
  rintro ⟨g, hg, hptr⟩
  obtain ⟨c, hc, hcu, hcptr, -⟩ := h.live.block g hg
  have hbyte : c.1 = b.1 := by omega
  have hblock := h.heap.tiling.asc.eq_of_overlap hc hb (x := b.1)
    ⟨Nat.le_of_eq hbyte, hbyte ▸ blockLo_lt_blockHi c⟩ ⟨Nat.le_refl _, blockLo_lt_blockHi b⟩
  exact hblock ▸ hcu

/-- Nothing is used when nothing is held. -/
theorem HeapRunInv.all_free (h : HeapRunInv s l) (hnone : s.live = []) :
    ∀ b ∈ l, b.2.used = false := by
  intro b hb
  by_contra hused
  obtain ⟨g, hg, -⟩ := (h.used_iff hb).mp (Bool.not_eq_false _ ▸ hused)
  rw [hnone] at hg
  exact absurd hg List.not_mem_nil

/-- The pointer that a search returns is that of the first free block in the list that fits. -/
theorem HeapRunInv.tryAllocate_ptr (h : HeapRunInv s l) (size : Nat) :
    (s.heap.tryAllocate size).map Prod.snd =
      (l.find? fun b => !b.2.used && decide (size ≤ b.2.size)).map fun b => blockData b.1 := by
  have hfind : findHeapBlock s.heap.mem size U64 (headOr 0 l) = _ :=
    findHeapBlock_spec h.heap.seg h.heap.tiling.pos h.heap.tiling.length_lt
  unfold KernelHeap.tryAllocate
  rw [h.heap.head, hfind]
  cases hres : l.find? fun b => !b.2.used && decide (size ≤ b.2.size) with
  | none => rfl
  | some b =>
    have hb0 : b.1 ≠ 0 := Nat.ne_of_gt (h.heap.tiling.pos b (List.mem_of_find?_eq_some hres))
    simp [hb0]

/-- Two free blocks do not touch. -/
theorem HeapWellFormed.free_apart (h : HeapWellFormed s l) :
    ∀ a ∈ l.filter fun b => !b.2.used, ∀ b ∈ l.filter fun b => !b.2.used,
      blockHi a ≠ blockLo b := by
  intro a ha b hb hadj
  obtain ⟨hal, haf⟩ := List.mem_filter.mp ha
  obtain ⟨hbl, hbf⟩ := List.mem_filter.mp hb
  rcases h.coalesced a hal b hbl hadj with hused | hused
  · simp [hused] at haf
  · simp [hused] at hbf

/-- The regions and the used blocks determine the whole list, whatever the calls were that led
to it. -/
theorem HeapWellFormed.determined (h : HeapWellFormed s l) (h' : HeapWellFormed t l')
    (hregions : ∀ x, Covers Prod.fst regionHi s.heap.regions x ↔
      Covers Prod.fst regionHi t.heap.regions x) (hused : SameUsed l l') : l = l' := by
  have hsame : ∀ x, Covers blockLo blockHi (l.filter fun b => !!b.2.used) x ↔
      Covers blockLo blockHi (l'.filter fun b => !!b.2.used) x := by
    intro x
    simp only [Covers, List.mem_filter, Bool.not_not, and_assoc]
    exact exists_congr fun b => ⟨fun hb => ⟨(hused b hb.2.1).mpr hb.1, hb.2⟩,
      fun hb => ⟨(hused b hb.2.1).mp hb.1, hb.2⟩⟩
  -- The free blocks cover what the regions leave beside the used ones.
  have hfree : (l.filter fun b => !b.2.used) = l'.filter fun b => !b.2.used := by
    refine Ascending.eq_of_covers (h.disjoint.filter _) (h'.disjoint.filter _) blockLo_lt_blockHi
      h.free_apart h'.free_apart (fun x => ?_) fun a ha b hb hlo hhi => ?_
    · rw [h.disjoint.covers_filter, h'.disjoint.covers_filter, hsame x, h.cover, h'.cover,
        hregions]
    · have haf : a.2.used = false := by simpa using (List.mem_filter.mp ha).2
      have hbf : b.2.used = false := by simpa using (List.mem_filter.mp hb).2
      obtain ⟨p, n, u⟩ := a
      obtain ⟨q, k, v⟩ := b
      unfold blockLo at hlo
      unfold blockHi at hhi
      simp only at hlo hhi haf hbf
      rw [hlo, haf, hbf, show k = n by omega]
  refine h.disjoint.eq_of_mem_iff h'.disjoint blockLo_lt_blockHi fun b => ?_
  cases hbu : b.2.used with
  | true => exact (hused b hbu).symm
  | false =>
    have hmem : ∀ {k : List Block}, b ∈ k ↔ b ∈ k.filter fun b => !b.2.used :=
      fun {k} => by simp [hbu]
    rw [hmem, hfree, ← hmem]

/-- When the callers have given everything back, the heap is the same again: all blocks are free,
which ones there are depends only on the bytes of the regions, and so does what the next search
finds. -/
theorem heap_restored (s t : HeapState) (hs : heapSystem.Reachable s)
    (ht : heapSystem.Reachable t) (hsl : s.live = []) (htl : t.live = [])
    (hregions : ∀ x, Covers Prod.fst regionHi s.heap.regions x ↔
      Covers Prod.fst regionHi t.heap.regions x) :
    ∃ l, HeapWellFormed s l ∧ HeapWellFormed t l ∧ (∀ b ∈ l, b.2.used = false) ∧
      ∀ size, (s.heap.tryAllocate size).map Prod.snd = (t.heap.tryAllocate size).map Prod.snd := by
  obtain ⟨l, hl⟩ := HeapRunInv.of_reachable hs
  obtain ⟨l', hl'⟩ := HeapRunInv.of_reachable ht
  have hfree := hl.all_free hsl
  have hfree' := hl'.all_free htl
  have hused : SameUsed l l' := fun b hbu =>
    iff_of_false (fun hb => absurd ((hfree' b hb).symm.trans hbu) Bool.false_ne_true)
      (fun hb => absurd ((hfree b hb).symm.trans hbu) Bool.false_ne_true)
  obtain rfl := hl.wellFormed.determined hl'.wellFormed hregions hused
  refine ⟨l, hl.wellFormed, hl'.wellFormed, hfree, fun size => ?_⟩
  rw [hl.tryAllocate_ptr, hl'.tryAllocate_ptr]

end Restored

/-- Three allocations that are given back in another order. -/
def scatteredRun : List HeapOp :=
  [.init 0x100000 0x1000, .allocate 100 [], .allocate 200 [], .allocate 50 [],
    .free 0x1000B0, .free 0x100020, .free 0x1001A0]

/-- A heap whose blocks were all released, and a heap that was never used. -/
theorem heap_restored_scattered :
    ∃ s t, heapSystem.Reachable s ∧ heapSystem.Reachable t ∧
      s.heap.regions = [(0x100000, 0x1000)] ∧ t.heap.regions = [(0x100000, 0x1000)] ∧
      ∃ l, HeapWellFormed s l ∧ HeapWellFormed t l ∧ (∀ b ∈ l, b.2.used = false) ∧
        ∀ size, (s.heap.tryAllocate size).map Prod.snd =
          (t.heap.tryAllocate size).map Prod.snd := by
  have hrun : ∀ ops ∈ [scatteredRun, [.init 0x100000 0x1000]],
      (TransitionSystem.run (TransitionSystem.guarded HeapState.next HeapState.Allowed)
        ⟨KernelHeap.empty fun _ => ⟨⟨0, false⟩, 0, 0⟩, []⟩ ops).any (fun s =>
          decide (s.live = [] ∧ s.heap.regions = [(0x100000, 0x1000)])) = true := by
    with_unfolding_all decide
  obtain ⟨s, hs, hsfacts⟩ := (Option.any_eq_true _ _).mp (hrun _ List.mem_cons_self)
  obtain ⟨t, ht, htfacts⟩ :=
    (Option.any_eq_true _ _).mp (hrun _ (List.mem_cons_of_mem _ List.mem_cons_self))
  obtain ⟨hslive, hsregions⟩ := of_decide_eq_true hsfacts
  obtain ⟨htlive, htregions⟩ := of_decide_eq_true htfacts
  have hsreach : heapSystem.Reachable s :=
    TransitionSystem.reachable_of_guarded_run (.init ⟨_, rfl⟩) hs
  have htreach : heapSystem.Reachable t :=
    TransitionSystem.reachable_of_guarded_run (.init ⟨_, rfl⟩) ht
  exact ⟨s, t, hsreach, htreach, hsregions, htregions,
    heap_restored s t hsreach htreach hslive htlive fun x => by rw [hsregions, htregions]⟩

end VKernel.Proofs.Memory

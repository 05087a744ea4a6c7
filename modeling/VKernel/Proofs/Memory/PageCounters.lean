import VKernel.Proofs.Memory.PhysAllocator

/-!
# `VKernel.Proofs.Memory.PageCounters`: the page counters follow the region list

`phys_allocator` keeps `free_pages_` and `used_pages_` beside the region list and updates
them from the page counts of the calls. `Counted` says that both agree with the list: each
counter, times the page size, is the number of bytes in the free or in the used regions.

The counters drift in three places, and each is a branch of the code that treats the list
and the counter differently. `init` cuts page 0 off an entry and still counts it
(`page_zero_counted`). An allocation without a node for its tail keeps the tail in the used
region, or drops it from the list, and counts only the pages asked for. `ExactNodes` is the
test that no tail is absorbed or dropped; it is stronger than `KeepsTail`, which allows the
first of the two.

`CounterInv` adds to the invariant of `Proofs/Memory/PhysAllocator.lean` that a used region
is exactly as large as the grant it holds, which is what `free_pages` relies on when it
subtracts the caller's page count.
-/

set_option autoImplicit false

namespace VKernel.Proofs.Memory

open VKernel VKernel.Memory VKernel.Lib

/-! ### The bytes of a region list -/

/-- The total size of the used (`u = true`) or free regions of a list. -/
def regionBytes (u : Bool) (l : List MemoryRegion) : Nat :=
  ((l.filter fun r => r.used == u).map MemoryRegion.size).sum

@[simp] theorem regionBytes_nil (u : Bool) : regionBytes u [] = 0 := rfl

@[simp] theorem regionBytes_cons (u : Bool) (r : MemoryRegion) (l : List MemoryRegion) :
    regionBytes u (r :: l) = (if r.used = u then r.size else 0) + regionBytes u l := by
  unfold regionBytes
  by_cases h : r.used = u
  · simp [h]
  · simp [h]

@[simp] theorem regionBytes_append (u : Bool) (l₁ l₂ : List MemoryRegion) :
    regionBytes u (l₁ ++ l₂) = regionBytes u l₁ + regionBytes u l₂ := by
  simp [regionBytes]

/-- A pool of regions below `2 ^ 64` holds fewer than `2 ^ 73` bytes of one kind, which is
what keeps the counters from wrapping. -/
theorem regionBytes_le (u : Bool) {l : List MemoryRegion} (h : ∀ r ∈ l, RegionOk r) :
    regionBytes u l ≤ l.length * U64 := by
  induction l with
  | nil => simp
  | cons r l ih =>
    have hr : r.start + r.size < U64 := (h r List.mem_cons_self).lt
    have hl := ih fun m hm => h m (List.mem_cons_of_mem _ hm)
    rw [regionBytes_cons, List.length_cons, Nat.add_mul]
    split <;> omega

/-- A number of pages that fits the regions of the pool fits in 64 bits. -/
theorem pages_lt {u : Bool} {l : List MemoryRegion} {n : Nat} (hok : ∀ r ∈ l, RegionOk r)
    (hlen : l.length ≤ REGION_POOL_SIZE) (h : n * PAGE_SIZE_4K = regionBytes u l) : n < U64 := by
  have hle := regionBytes_le u hok
  have hpool : l.length * U64 ≤ REGION_POOL_SIZE * U64 := Nat.mul_le_mul_right _ hlen
  unfold REGION_POOL_SIZE at hpool
  unfold PAGE_SIZE_4K at h
  have hpos := U64_pos
  omega

/-- Both counters of an allocator agree with its region list. -/
structure Counted (a : PhysAllocator) : Prop where
  free : a.freePages * PAGE_SIZE_4K = regionBytes false a.freeList
  used : a.usedPages * PAGE_SIZE_4K = regionBytes true a.freeList

/-! ### One allocation -/

/-- There is a node for every fragment the allocation leaves, so that the used region is
exactly the request. -/
def ExactNodes (nodes : Nat) (q : PageRequest) (r : MemoryRegion) : Prop :=
  q.postSize r ≠ 0 → if q.preSize r = 0 then 0 < nodes else 1 < nodes
  deriving Decidable

/-- No tail is dropped when none is absorbed either. -/
theorem ExactNodes.keepsTail {nodes : Nat} {q : PageRequest} {r : MemoryRegion}
    (h : ExactNodes nodes q r) : KeepsTail nodes q r := by
  intro hpre hpost
  have hnodes := h hpost
  rw [if_neg hpre] at hnodes
  omega

/-- What the exact carving of a region comes to: the request is one used region, and the
rest stays free. -/
structure ExactCarve (nodes : Nat) (q : PageRequest) (r : MemoryRegion)
    (new : List MemoryRegion) : Prop where
  free : regionBytes false new + q.size = r.size
  used : regionBytes true new = q.size
  size : ∀ m ∈ new, m.used = true → m.size = q.size
  length : new.length ≤ nodes + 1

/-- `carve` is exact when it has the nodes for it. -/
theorem carve_exact {nodes : Nat} {q : PageRequest} {r : MemoryRegion} (hf : Fit q r)
    (hn : q.preSize r ≠ 0 → 0 < nodes) (he : ExactNodes nodes q r) :
    ExactCarve nodes q r (carve nodes q r) := by
  obtain ⟨hfree, hle, hfit, -, -, hpre, hpost, -⟩ := hf
  unfold MemoryRegion.stop at hfit hpost
  unfold ExactNodes at he
  unfold carve
  by_cases h0 : q.preSize r = 0
  · simp only [h0, if_true] at he ⊢
    by_cases h1 : q.postSize r = 0
    · -- The request is the whole region.
      have hsize : r.size = q.size := by omega
      simp only [h1, Nat.lt_irrefl, if_false]
      exact ⟨by simp [hsize], by simp [hsize], by simp [hsize], by simp⟩
    · have hnodes := he h1
      simp only [Nat.pos_of_ne_zero h1, hnodes, if_true]
      refine ⟨?_, by simp, by simp, by simp; omega⟩
      simp
      omega
  · simp only [h0, if_false] at he ⊢
    by_cases h1 : q.postSize r = 0
    · simp only [h1, Nat.lt_irrefl, false_and, if_false]
      have hnodes := hn h0
      refine ⟨?_, by simp [hfree], by simp [hfree], by simp; omega⟩
      simp [hfree]
      omega
    · have hnodes := he h1
      simp only [Nat.pos_of_ne_zero h1, hnodes, and_self, if_true]
      refine ⟨?_, by simp [hfree], by simp [hfree], by simp; omega⟩
      simp [hfree]
      omega

/-! ### One release -/

/-- Two neighbours stay as they are, or become one free region of their joint size. -/
theorem coalesce_cases {a b : MemoryRegion} (ha : RegionOk a) (hb : RegionOk b) :
    coalesce a b = [a, b] ∨
      a.used = false ∧ b.used = false ∧ RegionOk { a with size := a.size + b.size } ∧
        coalesce a b = [{ a with size := a.size + b.size }] := by
  unfold coalesce
  split
  · rename_i hmerge
    simp only [Bool.and_eq_true, Bool.not_eq_true', beq_iff_eq] at hmerge
    obtain ⟨⟨hua, hub⟩, hadj⟩ := hmerge
    have hlt : b.start + b.size < U64 := hb.lt
    rw [add64_eq ha.lt] at hadj
    have hpos := ha.pos
    refine .inr ⟨hua, hub, ⟨?_, ha.page, ?_⟩, ?_⟩
    · show 0 < a.size + b.size
      omega
    · show a.start + (a.size + b.size) < U64
      omega
    · rw [add64_eq (by omega)]
  · exact .inl rfl

/-- Merging two neighbours keeps the bytes of each kind. -/
theorem regionBytes_coalesce (u : Bool) {a b : MemoryRegion} (ha : RegionOk a)
    (hb : RegionOk b) : regionBytes u (coalesce a b) = regionBytes u [a, b] := by
  rcases coalesce_cases ha hb with h | ⟨hua, hub, -, h⟩
  · rw [h]
  · rw [h]
    cases u
    · simp [hua, hub]
    · simp [hua, hub]

/-- The freed region after the forward merge: it is still one region, with its successors
behind it, and no byte changed its kind. -/
theorem mergeNext_bytes (u : Bool) {r : MemoryRegion} {l : List MemoryRegion}
    (hr : RegionOk r) (hl : ∀ m ∈ l, RegionOk m) :
    ∃ m rest, mergeNext r l = m :: rest ∧ RegionOk m ∧
      regionBytes u (m :: rest) = regionBytes u (r :: l) ∧ rest.length ≤ l.length := by
  cases l with
  | nil => exact ⟨r, [], rfl, hr, rfl, Nat.le_refl _⟩
  | cons b rest =>
    have hb := hl b List.mem_cons_self
    have hbytes := regionBytes_coalesce u hr hb
    rw [show mergeNext r (b :: rest) = coalesce r b ++ rest from rfl]
    rcases coalesce_cases hr hb with h | ⟨-, -, hok, h⟩
    · exact ⟨r, b :: rest, by rw [h]; rfl, hr, rfl, Nat.le_refl _⟩
    · refine ⟨_, rest, by rw [h]; rfl, hok, ?_, Nat.le_succ _⟩
      rw [h] at hbytes
      simp only [regionBytes_cons, regionBytes_nil] at hbytes ⊢
      omega

/-- The list after both merges of a release holds the same bytes as the list with only the
flag changed, in no more nodes. -/
theorem merge_bytes (u : Bool) {p : Option MemoryRegion} {r : MemoryRegion}
    {l : List MemoryRegion} (hp : ∀ m ∈ p.toList, RegionOk m) (hr : RegionOk r)
    (hl : ∀ m ∈ l, RegionOk m) :
    regionBytes u (mergePrev p (mergeNext r l)) = regionBytes u (p.toList ++ [r] ++ l) ∧
      (mergePrev p (mergeNext r l)).length ≤ (p.toList ++ [r] ++ l).length := by
  obtain ⟨m, rest, hm, hmok, hbytes, hlen⟩ := mergeNext_bytes u hr hl
  rw [hm]
  cases p with
  | none =>
    rw [show mergePrev none (m :: rest) = m :: rest from rfl, hbytes]
    exact ⟨rfl, by simpa using hlen⟩
  | some p =>
    have hpok := hp p (by simp)
    have hpm := regionBytes_coalesce u hpok hmok
    have hplen : (coalesce p m).length ≤ 2 := by
      rcases coalesce_cases hpok hmok with h | ⟨-, -, -, h⟩
      · rw [h]; simp
      · rw [h]; simp
    rw [show mergePrev (some p) (m :: rest) = coalesce p m ++ rest from rfl]
    refine ⟨?_, ?_⟩
    · rw [regionBytes_append, hpm]
      simp only [regionBytes_cons, regionBytes_nil, Option.toList_some, List.cons_append,
        List.nil_append] at hbytes ⊢
      omega
    · simp only [List.length_append, Option.toList_some, List.length_cons, List.length_nil]
      omega

/-! ### The counters after `init` -/

/-- No free entry of the map holds page 0 and more. -/
def NoPageZero (map : List MemoryMapEntry) : Prop :=
  ∀ e ∈ map, e.type.isFree = true → e.physicalStart = 0 → e.numberOfPages ≤ 1

/-- The node of an entry off page 0 is the whole entry. -/
theorem entryRegion_size {e : MemoryMapEntry} {r : MemoryRegion}
    (hlt : e.physicalStart + e.numberOfPages * PAGE_SIZE_4K < U64)
    (hzero : e.physicalStart = 0 → e.numberOfPages ≤ 1) (h : entryRegion e = some r) :
    r.used = false ∧ r.size = e.numberOfPages * PAGE_SIZE_4K := by
  have hsize : e.numberOfPages * PAGE_SIZE_4K % U64 = e.numberOfPages * PAGE_SIZE_4K :=
    Nat.mod_eq_of_lt (by omega)
  simp only [entryRegion, hsize] at h
  split at h
  · rename_i h0
    have hpages := hzero h0
    split at h
    · simp at h
    · rename_i hbig
      -- One page at 0 would not have been linked.
      exact absurd (Nat.mul_le_mul_right PAGE_SIZE_4K hpages) (by omega)
  · simp only [Option.some.injEq] at h
    subst h
    exact ⟨rfl, rfl⟩

/-- The pool bound and the counters through the loop of `init`. -/
theorem initFrom_counted {map : List MemoryMapEntry} (hmap : BootMap map)
    (hzero : NoPageZero map) :
    ∀ s : PhysAllocator, (∀ r ∈ s.freeList, RegionOk r) →
      s.freeList.length ≤ REGION_POOL_SIZE → Counted s →
      (s.initFrom map).freeList.length ≤ REGION_POOL_SIZE ∧ Counted (s.initFrom map) := by
  induction map with
  | nil =>
    intro s _ hlen hc
    exact ⟨hlen, hc⟩
  | cons e es ih =>
    intro s hok hlen hc
    have hes : BootMap es :=
      ⟨hmap.asc.of_cons, fun e he => hmap.aligned e (List.mem_cons_of_mem _ he),
        fun e he => hmap.lt e (List.mem_cons_of_mem _ he)⟩
    have hzs : NoPageZero es := fun e he => hzero e (List.mem_cons_of_mem _ he)
    have hstep := ih hes hzs
    unfold PhysAllocator.initFrom
    simp only []
    split
    · exact hstep _ hok hlen ⟨hc.free, hc.used⟩
    · rename_i hfree
      rw [not_or, not_not] at hfree
      split
      · exact ⟨hlen, hc.free, hc.used⟩
      · rename_i hnode
        cases hr : entryRegion e with
        | none => exact hstep _ hok hlen ⟨hc.free, hc.used⟩
        | some r =>
          have hlt := hmap.lt e List.mem_cons_self
          obtain ⟨hrok, -, -⟩ := entryRegion_spec (hmap.aligned e List.mem_cons_self)
            hlt hfree.2 hr
          obtain ⟨hru, hrsize⟩ := entryRegion_size hlt (hzero e List.mem_cons_self hfree.1) hr
          have hok' : ∀ m ∈ s.freeList ++ [r], RegionOk m := by
            intro m hm
            rcases List.mem_append.mp hm with hm | hm
            · exact hok m hm
            · exact List.mem_singleton.mp hm ▸ hrok
          have hlen' : (s.freeList ++ [r]).length ≤ REGION_POOL_SIZE := by
            simp only [freeNodes, List.length_append, List.length_singleton] at hnode ⊢
            omega
          refine hstep _ hok' hlen' ⟨?_, ?_⟩
          · -- The counter takes the entry's pages, which are the new node's bytes.
            have hnew : (s.freePages + e.numberOfPages) * PAGE_SIZE_4K =
                regionBytes false (s.freeList ++ [r]) := by
              have hfree := hc.free
              simp only [regionBytes_append, regionBytes_cons, regionBytes_nil, hru, if_true,
                Nat.add_mul]
              omega
            show add64 s.freePages e.numberOfPages * PAGE_SIZE_4K = _
            rw [add64_eq (pages_lt hok' hlen' hnew)]
            exact hnew
          · simpa [hru] using hc.used

/-! ### Runs -/

/-- Frees name a live range and the page count it was allocated with. -/
def PhysState.MatchingFree (s : PhysState) : PhysOp → Prop
  | .allocate _ => True
  | .free addr pageCount => ∃ g ∈ s.live, g.base = addr ∧ g.request.pageCount = pageCount

/-- The allocation takes a region where its arithmetic does not wrap and where every
fragment gets a node. -/
def PhysState.Exact (s : PhysState) : PhysOp → Prop
  | .allocate q => ∀ r, s.alloc.freeList.find? (usable (freeNodes s.alloc.freeList) q) = some r →
      NoWrap q r ∧ ExactNodes (freeNodes s.alloc.freeList) q r
  | .free _ _ => True

theorem PhysState.Exact.safe {s : PhysState} {op : PhysOp} (h : s.Exact op) : s.Safe op := by
  cases op with
  | allocate q => exact fun r hr => ⟨(h r hr).1, (h r hr).2.keepsTail⟩
  | free addr pageCount => trivial

/-- The invariant of a run: besides the invariant of the list, the pool is not overrun,
a used region is as large as its grant, and the counters agree with the list. -/
structure CounterInv (map : List MemoryMapEntry) (s : PhysState) : Prop
    extends PhysInv map s where
  pool : s.alloc.freeList.length ≤ REGION_POOL_SIZE
  sized : ∀ r ∈ s.alloc.freeList, r.used = true → ∀ g ∈ s.live, g.base = r.start →
    g.request.pageCount * PAGE_SIZE_4K = r.size
  counted : Counted s.alloc

/-- The state after `init`. -/
theorem CounterInv.init {map : List MemoryMapEntry} (hmap : BootMap map)
    (hzero : NoPageZero map) : CounterInv map ⟨PhysAllocator.init map, [], []⟩ := by
  obtain ⟨hlen, hc⟩ := initFrom_counted hmap hzero ⟨[], 0, 0, 0⟩ (by simp) (by simp)
    ⟨by simp, by simp⟩
  exact ⟨PhysInv.init hmap, hlen, fun _ _ _ g hg => absurd hg List.not_mem_nil, hc⟩

/-- An exact allocation keeps the counters right. -/
theorem CounterInv.allocate {map : List MemoryMapEntry} {s : PhysState} {q : PageRequest}
    (h : CounterInv map s) (hq : RequestOk q) (hexact : s.Exact (.allocate q)) :
    CounterInv map (s.next (.allocate q)) := by
  have hinv := h.toPhysInv.allocate hq hexact.safe
  rcases next_allocate_cases h.toPhysInv hq fun r hr => (hexact r hr).1 with
    hsame | ⟨l₁, r, l₂, hl, hfind, hcount, hfit, hnodes, hnext⟩
  · rw [hsame]
    exact h
  · rw [hnext] at hinv ⊢
    have hcarve := carve_exact hfit hnodes (hexact r hfind).2
    have hsize := hq.size_eq
    have hpool : (l₁ ++ carve (freeNodes s.alloc.freeList) q r ++ l₂).length
        ≤ REGION_POOL_SIZE := by
      have hlen := hcarve.length
      have hold := h.pool
      rw [hl] at hold hlen ⊢
      simp only [freeNodes, List.length_append, List.length_singleton] at hold hlen ⊢
      omega
    refine ⟨hinv, hpool, ?_, ?_, ?_⟩
    · intro m hm hmu g hg hgm
      obtain ⟨hnewbase, -⟩ := List.pairwise_cons.mp hinv.nodup
      have hpos : 0 < q.size := hsize ▸ Nat.mul_pos hcount (by decide)
      have hspec := carve_spec (h.regions.ok r (List.mem_of_find?_eq_some hfind)) hpos hfit
        hnodes (hexact r hfind).2.keepsTail
      -- A used region is an old one with an old grant, or the request with the new grant.
      have hold : m ∈ s.alloc.freeList → g.request.pageCount * PAGE_SIZE_4K = m.size := by
        intro hm
        rcases List.mem_cons.mp hg with rfl | hg
        · obtain ⟨g', hg', hbase⟩ := h.owned m hm hmu
          exact absurd (hgm.trans hbase.symm) (hnewbase g' hg')
        · exact h.sized m hm hmu g hg hgm
      rcases List.mem_append.mp hm with hm | hm
      · rcases List.mem_append.mp hm with hm | hm
        · exact hold (by rw [hl]; simp [hm])
        · rcases List.mem_cons.mp hg with rfl | hg
          · rw [hcarve.size m hm hmu, hsize]
          · exact absurd ((hspec.used m hm hmu).symm.trans hgm.symm) (hnewbase g hg)
      · exact hold (by rw [hl]; simp [hm])
    · have hfree := h.counted.free
      have hbytes := hcarve.free
      rw [hl] at hfree
      simp only [regionBytes_append, regionBytes_cons, regionBytes_nil, hfit.free, if_true] at hfree
      have hle : q.pageCount ≤ s.alloc.freePages := by
        unfold PAGE_SIZE_4K at hsize hfree
        omega
      show sub64 s.alloc.freePages q.pageCount * PAGE_SIZE_4K = _
      rw [sub64_eq hle, Nat.sub_mul, regionBytes_append, regionBytes_append]
      omega
    · have hused := h.counted.used
      have hnew : (s.alloc.usedPages + q.pageCount) * PAGE_SIZE_4K =
          regionBytes true (l₁ ++ carve (freeNodes s.alloc.freeList) q r ++ l₂) := by
        rw [hl] at hused
        simp only [regionBytes_append, regionBytes_cons, regionBytes_nil, hfit.free,
          Bool.false_eq_true, if_false] at hused
        rw [regionBytes_append, regionBytes_append, hcarve.used, Nat.add_mul]
        omega
      show add64 s.alloc.usedPages q.pageCount * PAGE_SIZE_4K = _
      rw [add64_eq (pages_lt hinv.regions.ok hpool hnew)]
      exact hnew

/-- A free of a live range with its own page count keeps the counters right. -/
theorem CounterInv.free {map : List MemoryMapEntry} {s : PhysState} {addr pageCount : Nat}
    (h : CounterInv map s) (hmatch : s.MatchingFree (.free addr pageCount)) :
    CounterInv map (s.next (.free addr pageCount)) := by
  have hinv := h.toPhysInv.free addr pageCount
  obtain ⟨g, hg, rfl, rfl⟩ := hmatch
  obtain ⟨hcount, -, -, m, hm, hmu, hms, -⟩ := h.grants g hg
  have hpage := (h.regions.ok m hm).page
  have h0 : ¬ (g.base = 0 ∨ g.request.pageCount = 0) := by
    unfold PAGE_SIZE_4K at hpage
    omega
  unfold PhysState.next PhysAllocator.freePagesAt at hinv ⊢
  simp only [h0, if_false] at hinv ⊢
  cases hfree : freeIn g.base none s.alloc.freeList with
  | none => exact absurd hfree (freeIn_ne_none hm hms hmu none)
  | some out =>
    simp only [hfree] at hinv ⊢
    obtain ⟨l₁, p, r, l₂, hl, hrs, hru, rfl⟩ := freeIn_cases hfree
    rw [Option.toList_none, List.nil_append] at hl
    have hok : ∀ a ∈ l₁ ++ p.toList ++ [r] ++ l₂, RegionOk a := hl ▸ h.regions.ok
    have hrmem : r ∈ s.alloc.freeList := by
      rw [hl]
      simp
    have hr := hok r (by simp)
    -- The region that is released is exactly the grant.
    have hrsize := h.sized r hrmem hru g hg hrs.symm
    have hmerge : ∀ u, regionBytes u (mergePrev p (mergeNext { r with used := false } l₂)) =
          regionBytes u (p.toList ++ [{ r with used := false }] ++ l₂) ∧
        (mergePrev p (mergeNext { r with used := false } l₂)).length ≤
          (p.toList ++ [{ r with used := false }] ++ l₂).length :=
      fun u => merge_bytes u (fun a ha => hok a (by simp [ha])) ⟨hr.pos, hr.page, hr.lt⟩
        (fun a ha => hok a (by simp [ha]))
    have hpool : (l₁ ++ mergePrev p (mergeNext { r with used := false } l₂)).length
        ≤ REGION_POOL_SIZE := by
      have hlen := (hmerge true).2
      have hold := h.pool
      rw [hl] at hold
      simp only [List.length_append, List.length_singleton] at hold hlen ⊢
      omega
    refine ⟨hinv, hpool, ?_, ?_, ?_⟩
    · intro a ha hau g' hg' hbase
      obtain ⟨ha', -⟩ := ((freeIn_spec h.regions hfree).2 a hau).mp ha
      exact h.sized a ha' hau g' (List.mem_filter.mp hg').1 hbase
    · have hbytes := (hmerge false).1
      have hold := h.counted.free
      rw [hl] at hold
      simp only [regionBytes_append, regionBytes_cons, regionBytes_nil, hru,
        Bool.true_eq_false, if_false, if_true] at hbytes hold
      have hnew : (s.alloc.freePages + g.request.pageCount) * PAGE_SIZE_4K =
          regionBytes false (l₁ ++ mergePrev p (mergeNext { r with used := false } l₂)) := by
        rw [Nat.add_mul, regionBytes_append]
        omega
      show add64 s.alloc.freePages g.request.pageCount * PAGE_SIZE_4K = _
      rw [add64_eq (pages_lt hinv.regions.ok hpool hnew)]
      exact hnew
    · have hbytes := (hmerge true).1
      have hold := h.counted.used
      rw [hl] at hold
      simp only [regionBytes_append, regionBytes_cons, regionBytes_nil, hru,
        Bool.false_eq_true, if_false, if_true] at hbytes hold
      have hle : g.request.pageCount ≤ s.alloc.usedPages := by
        unfold PAGE_SIZE_4K at hrsize hold
        omega
      show sub64 s.alloc.usedPages g.request.pageCount * PAGE_SIZE_4K = _
      rw [sub64_eq hle, Nat.sub_mul, regionBytes_append]
      omega

/-- The runs of the allocator in which every free matches a live allocation. -/
def matchedSystem (map : List MemoryMapEntry) : TransitionSystem PhysState PhysOp :=
  (physSystem map).restrict PhysState.MatchingFree

/-- On a boot map without a free entry that reaches past page 0 from 0, and in every run
whose allocations do not wrap and have a node for each fragment, both counters agree with
the region list in every state reached. -/
theorem counted_of_exact_run (map : List MemoryMapEntry) (hmap : BootMap map)
    (hzero : NoPageZero map) (s : PhysState)
    (hs : ((matchedSystem map).restrict PhysState.Exact).Reachable s) : Counted s.alloc := by
  have hinv : CounterInv map s := by
    refine hs.invariant (fun t ht => ?_) (fun t op u _ ht hstep => ?_)
    · rw [ht]
      exact CounterInv.init hmap hzero
    · obtain ⟨hexact, hmatch, hen, rfl⟩ := hstep
      cases op with
      | allocate q => exact ht.allocate hen hexact
      | free addr pageCount => exact ht.free hmatch
  exact hinv.counted

/-- A map of one 16-page range, and a run that allocates four pages of it and frees them. -/
theorem counted_of_exact_run_one_entry :
    BootMap [⟨0x100000, 16, .conventional⟩] ∧ NoPageZero [⟨0x100000, 16, .conventional⟩] ∧
      Counted ((PhysState.next ⟨PhysAllocator.init [⟨0x100000, 16, .conventional⟩], [], []⟩
        (.allocate ⟨4, 0x1000, 0⟩)).next (.free 0x100000 4)).alloc := by
  have hmap : BootMap [⟨0x100000, 16, .conventional⟩] :=
    ⟨by simp, by with_unfolding_all decide, by with_unfolding_all decide⟩
  have hzero : NoPageZero [⟨0x100000, 16, .conventional⟩] := by
    intro e he
    rw [List.mem_singleton.mp he]
    decide
  refine ⟨hmap, hzero, counted_of_exact_run _ hmap hzero _ ?_⟩
  refine .step (l := .free 0x100000 4) (.step (l := .allocate ⟨4, 0x1000, 0⟩) (.init rfl)
    ⟨?_, trivial, ?_, rfl⟩) ⟨trivial, ?_, ?_, rfl⟩
  · intro r hr
    have hr' : r = ⟨0x100000, 0x10000, false⟩ := by
      have : some r = some ⟨0x100000, 0x10000, false⟩ :=
        hr.symm.trans (by with_unfolding_all decide)
      exact Option.some.inj this
    subst hr'
    exact ⟨by with_unfolding_all decide, by with_unfolding_all decide⟩
  · exact ⟨by decide, ⟨12, by decide, by decide⟩, by with_unfolding_all decide⟩
  · exact ⟨⟨0x100000, ⟨4, 0x1000, 0⟩⟩, by with_unfolding_all decide, rfl, rfl⟩
  · exact ⟨by with_unfolding_all decide, by decide⟩

/-- A free entry of two pages at address 0: `init` links one page and counts two. -/
theorem page_zero_counted :
    BootMap [⟨0, 2, .conventional⟩] ∧
      ∃ s, (matchedSystem [⟨0, 2, .conventional⟩]).Reachable s ∧ ¬ Counted s.alloc := by
  refine ⟨⟨by simp, by with_unfolding_all decide, by with_unfolding_all decide⟩, _, .init rfl,
    fun hc => ?_⟩
  have hne : ¬ ((PhysAllocator.init [⟨0, 2, .conventional⟩]).freePages * PAGE_SIZE_4K =
      regionBytes false (PhysAllocator.init [⟨0, 2, .conventional⟩]).freeList) := by
    with_unfolding_all decide
  exact hne hc.free

end VKernel.Proofs.Memory

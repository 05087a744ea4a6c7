import VKernel.Lib.Extents
import VKernel.Lib.Transition
import VKernel.Memory.PhysAllocator

/-!
# `VKernel.Proofs.Memory.PhysAllocator`: conservation of physical pages

What is proved of the allocator is about whole runs: the region list stays ascending, covers
what it covered after `init`, and what is handed out is disjoint, aligned and below its
ceiling. `RegionsOk` is the part of the invariant that is about the list alone.

`allocatePages` replaces one region by `carve`, `freePagesAt` replaces up to three
neighbouring regions by their union. Both are instances of `Ascending.replace` and
`covers_replace` (`Lib/Extents.lean`), so each operation is one lemma about the segment
it rewrites: `carve_spec` and `RegionsOk.coalesce`.

The cover is kept only while `KeepsTail` holds: an allocation in the middle of a region
with one node left links no node for the tail, and the tail pages leave the list for good.
The front allocation has a comment for this case and keeps the whole region; the middle
one has no such branch. `middle_allocation_loses_tail` runs the code into it.
-/

set_option autoImplicit false
set_option maxRecDepth 20000

namespace VKernel.Proofs.Memory

open VKernel VKernel.Memory VKernel.Lib

/-! ### The region list -/

/-- The ranges of a region list are ascending. -/
abbrev RegionsAscending (l : List MemoryRegion) : Prop :=
  Ascending MemoryRegion.start MemoryRegion.stop l

/-- The address `x` lies in a region of the list. -/
abbrev RegionsCover (l : List MemoryRegion) (x : Nat) : Prop :=
  Covers MemoryRegion.start MemoryRegion.stop l x

/-- A linked region: nonempty, off page 0, with its end below `2 ^ 64`. -/
structure RegionOk (r : MemoryRegion) : Prop where
  pos : 0 < r.size
  page : PAGE_SIZE_4K ≤ r.start
  lt : r.stop < U64

/-- The list part of the invariant: ascending, linked regions that cover `C`. -/
structure RegionsOk (C : Nat → Prop) (l : List MemoryRegion) : Prop where
  asc : RegionsAscending l
  ok : ∀ r ∈ l, RegionOk r
  cover : ∀ x, RegionsCover l x ↔ C x

/-- Exchanging two tilings of one range keeps the list invariant. -/
theorem RegionsOk.retile {C : Nat → Prop} {l₁ old new l₂ : List MemoryRegion} {a b : Nat}
    (h : RegionsOk C (l₁ ++ old ++ l₂)) (hne : old ≠ [])
    (hold : Tiles MemoryRegion.start MemoryRegion.stop a b old)
    (hnew : Tiles MemoryRegion.start MemoryRegion.stop a b new) :
    RegionsOk C (l₁ ++ new ++ l₂) where
  asc := h.asc.retile hold hne hnew
  ok r hr := by
    simp only [List.mem_append] at hr
    rcases hr with (hr | hr) | hr
    · exact h.ok r (by simp [hr])
    · obtain ⟨⟨x, hx, hxa⟩, y, hy, hyb⟩ := hold.ends hne
      obtain ⟨h₁, h₂, h₃⟩ := hnew.bounds hr
      have hpage := (h.ok x (by simp [hx])).page
      have hlt := (h.ok y (by simp [hy])).lt
      refine ⟨?_, by omega, by omega⟩
      unfold MemoryRegion.stop at h₂
      omega
    · exact h.ok r (by simp [hr])
  cover x := (covers_retile hold hnew x).trans (h.cover x)

/-! ### One allocation -/

/-- The arguments a caller of `allocate_pages` can pass: `u32` counts, a power-of-two
`u32` alignment, a `u64` ceiling. -/
structure RequestOk (q : PageRequest) : Prop where
  count : q.pageCount < 2 ^ 32
  align : ∃ k < 32, q.alignment = 2 ^ k
  ceiling : q.maxAddr < U64

/-- The bytes asked for. They never wrap: `u32` pages of 4 KiB fit in 44 bits. -/
theorem RequestOk.size_eq {q : PageRequest} (hq : RequestOk q) :
    q.size = q.pageCount * PAGE_SIZE_4K := by
  have h := hq.count
  unfold PageRequest.size PAGE_SIZE_4K
  rw [U64_eq]
  omega

/-- The computation of `allocate_pages` on the region does not wrap. -/
def NoWrap (q : PageRequest) (r : MemoryRegion) : Prop :=
  r.start + q.alignment ≤ U64 ∧ q.alignedStart r + q.size < U64
  deriving Decidable

/-- Nothing is lost when the region is carved: when a fragment stays on both sides, there
is a node for each. -/
def KeepsTail (nodes : Nat) (q : PageRequest) (r : MemoryRegion) : Prop :=
  q.preSize r ≠ 0 → q.postSize r ≠ 0 → nodes ≠ 1
  deriving Decidable

/-- What the arithmetic of a usable region comes to when it does not wrap. -/
structure Fit (q : PageRequest) (r : MemoryRegion) : Prop where
  free : r.used = false
  le : r.start ≤ q.alignedStart r
  fits : q.alignedStart r + q.size ≤ r.stop
  dvd : q.alignment ∣ q.alignedStart r
  below : q.maxAddr ≠ 0 → q.alignedStart r + q.size ≤ q.maxAddr
  pre : q.preSize r = q.alignedStart r - r.start
  post : q.postSize r = r.stop - (q.alignedStart r + q.size)
  sum : add64 (q.alignedStart r) q.size = q.alignedStart r + q.size

/-- A usable region fits the request. -/
theorem fit_of_usable {nodes : Nat} {q : PageRequest} {r : MemoryRegion}
    (hq : RequestOk q) (hr : RegionOk r) (hw : NoWrap q r) (hu : usable nodes q r = true) :
    Fit q r := by
  obtain ⟨k, hk, ha⟩ := hq.align
  obtain ⟨hw₁, hw₂⟩ := hw
  rw [ha] at hw₁
  have hlt : r.start + r.size < U64 := hr.lt
  have hsum : add64 (q.alignedStart r) q.size = q.alignedStart r + q.size := add64_eq hw₂
  have hend : add64 r.start r.size = r.start + r.size := add64_eq hlt
  have hle : r.start ≤ q.alignedStart r := by
    unfold PageRequest.alignedStart
    rw [ha]
    exact le_alignUp (by omega) hw₁
  simp only [usable, hsum, hend, Bool.and_eq_true, Bool.or_eq_true, Bool.not_eq_true',
    decide_eq_true_eq, beq_iff_eq] at hu
  obtain ⟨⟨⟨hfree, hfit⟩, hceil⟩, -⟩ := hu
  exact {
    free := hfree
    le := hle
    fits := hfit
    dvd := by
      unfold PageRequest.alignedStart
      rw [ha]
      exact alignUp_dvd (by omega) hw₁
    below := fun hne => hceil.resolve_left hne
    pre := by
      unfold PageRequest.preSize
      exact sub64_eq hle
    post := by
      unfold PageRequest.postSize
      rw [hsum, hend]
      exact sub64_eq hfit
    sum := hsum }

/-- The regions that `carve` links in place of a region: together they are the region,
the used one starts at the result and holds the request, and every other one is free. -/
structure CarveSpec (q : PageRequest) (r : MemoryRegion) (new : List MemoryRegion) : Prop where
  tiles : Tiles MemoryRegion.start MemoryRegion.stop r.start r.stop new
  used : ∀ m ∈ new, m.used = true → m.start = q.alignedStart r
  grant : ∃ m ∈ new, m.used = true ∧ m.start = q.alignedStart r ∧ q.size ≤ m.size

/-- `carve` on a fitting region, as long as no tail is dropped. -/
theorem carve_spec {nodes : Nat} {q : PageRequest} {r : MemoryRegion} (hr : RegionOk r)
    (hpos : 0 < q.size) (hf : Fit q r) (hn : q.preSize r ≠ 0 → 0 < nodes)
    (hk : KeepsTail nodes q r) : CarveSpec q r (carve nodes q r) := by
  have hsize := hr.pos
  obtain ⟨hfree, hle, hfit, -, -, hpre, hpost, hsum⟩ := hf
  unfold MemoryRegion.stop at hfit hpost
  unfold carve
  by_cases h0 : q.preSize r = 0
  · -- The request starts at the front of the region: the region's own node is reused.
    have hA : q.alignedStart r = r.start := by omega
    have hwhole : CarveSpec q r [{ r with used := true }] := by
      refine ⟨⟨rfl, ?_, rfl⟩, fun m hm _ => ?_, _, List.mem_cons_self, rfl, hA.symm, ?_⟩
      · show r.start < r.start + r.size
        omega
      · rw [List.mem_singleton.mp hm, hA]
      · show q.size ≤ r.size
        omega
    simp only [h0, if_true]
    split
    · split
      · refine ⟨?_, fun m hm hu => ?_, _, List.mem_cons_self, rfl, hA.symm, Nat.le_refl _⟩
        · simp only [Tiles, MemoryRegion.stop, hsum, true_and]
          omega
        · rcases List.mem_cons.mp hm with rfl | hm
          · exact hA.symm
          · rw [List.mem_singleton.mp hm] at hu
            exact absurd hu Bool.false_ne_true
      · exact hwhole
    · exact hwhole
  · -- A fragment stays before the request: the request gets a node of its own.
    have hused : ∀ m ∈ [{ r with size := q.preSize r },
        (⟨q.alignedStart r, q.size, true⟩ : MemoryRegion)], m.used = true →
        m.start = q.alignedStart r := by
      intro m hm hu
      rcases List.mem_cons.mp hm with rfl | hm
      · exact absurd (hfree ▸ hu) Bool.false_ne_true
      · rw [List.mem_singleton.mp hm]
    simp only [h0, if_false]
    split
    · refine ⟨?_, fun m hm hu => ?_,
        ⟨q.alignedStart r, q.size, true⟩, by simp, rfl, rfl, Nat.le_refl _⟩
      · simp only [Tiles, MemoryRegion.stop, hsum, true_and]
        omega
      · rw [List.mem_cons, List.mem_cons] at hm
        rcases hm with hm | hm | hm
        · exact hused m (by simp [hm]) hu
        · exact hused m (by simp [hm]) hu
        · rw [List.mem_singleton.mp hm] at hu
          exact absurd hu Bool.false_ne_true
    · -- No tail node is linked, and `KeepsTail` says that there is no tail.
      rename_i hcond
      have hpost0 : q.postSize r = 0 := by
        by_contra hne
        have h1 := hk h0 hne
        have h2 := hn h0
        exact hcond ⟨Nat.pos_of_ne_zero hne, by omega⟩
      refine ⟨?_, hused,
        ⟨q.alignedStart r, q.size, true⟩, by simp, rfl, rfl, Nat.le_refl _⟩
      simp only [Tiles, MemoryRegion.stop, true_and]
      omega

/-- A successful search: the list before, the region taken and the list after. -/
theorem allocateIn_cases {nodes : Nat} {q : PageRequest} {l : List MemoryRegion} {addr : Nat}
    {out : List MemoryRegion} (h : allocateIn nodes q l = some (addr, out)) :
    ∃ l₁ r l₂, l = l₁ ++ [r] ++ l₂ ∧ l.find? (usable nodes q) = some r ∧
      addr = q.alignedStart r ∧ out = l₁ ++ carve nodes q r ++ l₂ := by
  induction l generalizing out with
  | nil => simp [allocateIn] at h
  | cons r rs ih =>
    unfold allocateIn at h
    split at h
    · rename_i hu
      simp only [Option.some.injEq, Prod.mk.injEq] at h
      exact ⟨[], r, rs, by simp, List.find?_cons_of_pos hu, h.1.symm, by simp [h.2]⟩
    · rename_i hu
      simp only [Option.map_eq_some_iff] at h
      obtain ⟨⟨a, o⟩, ho, hout⟩ := h
      simp only [Prod.mk.injEq] at hout
      obtain ⟨rfl, rfl⟩ := hout
      obtain ⟨l₁, r', l₂, hl, hfind, haddr, hout⟩ := ih ho
      refine ⟨r :: l₁, r', l₂, by simp [hl], ?_, haddr, by simp [hout]⟩
      rw [List.find?_cons_of_neg hu, hfind]

/-! ### One release -/

/-- Two neighbours that may merge cover the same addresses before and after. -/
theorem RegionsOk.coalesce {C : Nat → Prop} {l₁ l₂ : List MemoryRegion} {a b : MemoryRegion}
    (h : RegionsOk C (l₁ ++ [a, b] ++ l₂)) : RegionsOk C (l₁ ++ coalesce a b ++ l₂) := by
  have ha := h.ok a (by simp)
  have hb := h.ok b (by simp)
  unfold Memory.coalesce
  split
  · rename_i hmerge
    simp only [Bool.and_eq_true, beq_iff_eq] at hmerge
    have hlt : b.start + b.size < U64 := hb.lt
    have hadj : a.start + a.size = b.start := by
      rw [← hmerge.2]
      exact (add64_eq ha.lt).symm
    have hsize : add64 a.size b.size = a.size + b.size := add64_eq (by omega)
    have hpa := ha.pos
    have hpb := hb.pos
    refine h.retile (a := a.start) (b := b.stop) (by simp) ⟨rfl, ?_, ?_, ?_, rfl⟩ ⟨rfl, ?_, ?_⟩
    all_goals simp only [MemoryRegion.stop, hsize, Tiles]
    all_goals omega
  · exact h

/-- Merging touches no used region. -/
theorem mem_coalesce_used {a b m : MemoryRegion} (hm : m.used = true) :
    m ∈ coalesce a b ↔ m ∈ [a, b] := by
  unfold coalesce
  split
  · rename_i hmerge
    simp only [Bool.and_eq_true, Bool.not_eq_true'] at hmerge
    obtain ⟨⟨ha, hb⟩, -⟩ := hmerge
    simp only [List.mem_cons, List.not_mem_nil, or_false]
    constructor
    · rintro rfl
      exact absurd (ha ▸ hm) Bool.false_ne_true
    · rintro (rfl | rfl)
      · exact absurd (ha ▸ hm) Bool.false_ne_true
      · exact absurd (hb ▸ hm) Bool.false_ne_true
  · rfl

/-- A successful release: the list around the released region, and what it becomes. -/
theorem freeIn_cases {addr : Nat} {prev : Option MemoryRegion} {l out : List MemoryRegion}
    (h : freeIn addr prev l = some out) :
    ∃ l₁ p r l₂, prev.toList ++ l = l₁ ++ p.toList ++ [r] ++ l₂ ∧ r.start = addr ∧
      r.used = true ∧ out = l₁ ++ mergePrev p (mergeNext { r with used := false } l₂) := by
  induction l generalizing prev out with
  | nil => simp [freeIn] at h
  | cons r rs ih =>
    unfold freeIn at h
    split at h
    · rename_i hr
      simp only [Option.some.injEq] at h
      exact ⟨[], prev, r, rs, by simp, hr.1, hr.2, by simp [h]⟩
    · simp only [Option.map_eq_some_iff] at h
      obtain ⟨o, ho, hout⟩ := h
      obtain ⟨l₁, p, r', l₂, hl, hs, hu, ho'⟩ := ih ho
      refine ⟨prev.toList ++ l₁, p, r', l₂, ?_, hs, hu, by rw [← hout, ho', List.append_assoc]⟩
      simp only [Option.toList_some, List.singleton_append] at hl
      rw [hl]
      simp only [List.append_assoc]

/-- A used region at the address is always found. -/
theorem freeIn_ne_none {addr : Nat} {r : MemoryRegion} {l : List MemoryRegion} (hr : r ∈ l)
    (hs : r.start = addr) (hu : r.used = true) (prev : Option MemoryRegion) :
    freeIn addr prev l ≠ none := by
  induction l generalizing prev with
  | nil => exact absurd hr List.not_mem_nil
  | cons a rs ih =>
    unfold freeIn
    split
    · simp
    · rename_i hne
      rcases List.mem_cons.mp hr with rfl | hr
      · exact absurd ⟨hs, hu⟩ hne
      · simpa using ih hr (some a)

/-- Merging forward keeps the list invariant and the used regions. -/
theorem mergeNext_spec {C : Nat → Prop} {l₁ l₂ : List MemoryRegion} {r : MemoryRegion}
    (h : RegionsOk C (l₁ ++ [r] ++ l₂)) :
    RegionsOk C (l₁ ++ mergeNext r l₂) ∧
      ∀ m : MemoryRegion, m.used = true → (m ∈ mergeNext r l₂ ↔ m ∈ r :: l₂) := by
  cases l₂ with
  | nil => exact ⟨by simpa [mergeNext] using h, fun m _ => Iff.rfl⟩
  | cons b rest =>
    refine ⟨?_, fun m hm => ?_⟩
    · have h' : RegionsOk C (l₁ ++ [r, b] ++ rest) := by simpa using h
      simpa [mergeNext] using h'.coalesce
    · simp [mergeNext, mem_coalesce_used hm, or_assoc]

/-- Merging backward keeps the list invariant and the used regions. -/
theorem mergePrev_spec {C : Nat → Prop} {l₁ l₂ : List MemoryRegion} {p : Option MemoryRegion}
    (hne : l₂ ≠ []) (h : RegionsOk C (l₁ ++ p.toList ++ l₂)) :
    RegionsOk C (l₁ ++ mergePrev p l₂) ∧
      ∀ m : MemoryRegion, m.used = true → (m ∈ mergePrev p l₂ ↔ m ∈ p.toList ++ l₂) := by
  cases l₂ with
  | nil => exact absurd rfl hne
  | cons r rest =>
    cases p with
    | none => exact ⟨by simpa [mergePrev] using h, fun m _ => by simp [mergePrev]⟩
    | some p =>
      refine ⟨?_, fun m hm => ?_⟩
      · have h' : RegionsOk C (l₁ ++ [p, r] ++ rest) := by simpa using h
        simpa [mergePrev] using h'.coalesce
      · simp [mergePrev, mem_coalesce_used hm, or_assoc]

theorem mergeNext_ne_nil (r : MemoryRegion) (l : List MemoryRegion) : mergeNext r l ≠ [] := by
  cases l with
  | nil => simp [mergeNext]
  | cons b rest =>
    unfold mergeNext
    simp only [coalesce]
    split <;> simp

/-- `free_pages` on the list: the invariant stays, and the used regions are the old ones
without the one that starts at the freed address. -/
theorem freeIn_spec {C : Nat → Prop} {addr : Nat} {l out : List MemoryRegion}
    (hok : RegionsOk C l) (h : freeIn addr none l = some out) :
    RegionsOk C out ∧
      ∀ m : MemoryRegion, m.used = true → (m ∈ out ↔ m ∈ l ∧ m.start ≠ addr) := by
  obtain ⟨l₁, p, r, l₂, hl, hs, -, rfl⟩ := freeIn_cases h
  rw [Option.toList_none, List.nil_append] at hl
  subst hl
  have hr := hok.ok r (by simp)
  -- First only the flag changes, then the two merges run.
  have h₀ : RegionsOk C (l₁ ++ p.toList ++ [{ r with used := false }] ++ l₂) := by
    refine hok.retile (a := r.start) (b := r.stop) (by simp) ⟨rfl, ?_, rfl⟩ ⟨rfl, ?_, rfl⟩
    · exact Nat.lt_add_of_pos_right hr.pos
    · exact Nat.lt_add_of_pos_right hr.pos
  obtain ⟨h₁, hu₁⟩ := mergeNext_spec h₀
  obtain ⟨h₂, hu₂⟩ := mergePrev_spec (mergeNext_ne_nil _ _) h₁
  refine ⟨h₂, fun m hm => ?_⟩
  have hnew : m ≠ { r with used := false } := by
    rintro rfl
    exact Bool.false_ne_true hm
  -- Another region at the freed address would overlap the freed one.
  have hother : ∀ m ∈ l₁ ++ p.toList ++ l₂, m.start ≠ addr := by
    intro m hm heq
    have hmem : m ∈ l₁ ++ p.toList ++ [r] ++ l₂ := by
      simp only [List.mem_append] at hm ⊢
      tauto
    have hpos := (hok.ok m hmem).pos
    have hasc := hok.asc
    unfold RegionsAscending Ascending at hasc
    rw [List.pairwise_append, List.pairwise_append] at hasc
    obtain ⟨⟨-, -, hbefore⟩, -, hafter⟩ := hasc
    rcases List.mem_append.mp hm with hm | hm
    · have := hbefore m hm r (by simp)
      unfold MemoryRegion.stop at this
      omega
    · have := hafter r (by simp) m hm
      have := hr.pos
      unfold MemoryRegion.stop at *
      omega
  rw [List.mem_append, hu₂ m hm, List.mem_append, hu₁ m hm, List.mem_cons]
  constructor
  · intro hmem
    have hmem' : m ∈ l₁ ++ p.toList ++ l₂ := by
      simp only [List.mem_append]
      tauto
    refine ⟨?_, hother m hmem'⟩
    simp only [List.mem_append] at hmem' ⊢
    tauto
  · rintro ⟨hmem, hne⟩
    simp only [List.mem_append, List.mem_singleton] at hmem
    have hmr : m ≠ r := fun heq => hne (heq ▸ hs)
    tauto

/-! ### The list after `init` -/

/-- A boot memory map: page-aligned entries that are ascending, disjoint and end inside
the 64-bit address space. -/
structure BootMap (map : List MemoryMapEntry) : Prop where
  asc : map.Pairwise fun a b =>
    a.physicalStart + a.numberOfPages * PAGE_SIZE_4K ≤ b.physicalStart
  aligned : ∀ e ∈ map, PAGE_SIZE_4K ∣ e.physicalStart
  lt : ∀ e ∈ map, e.physicalStart + e.numberOfPages * PAGE_SIZE_4K < U64

/-- The node that `init` links for an entry lies inside the entry. -/
theorem entryRegion_spec {e : MemoryMapEntry} {r : MemoryRegion}
    (ha : PAGE_SIZE_4K ∣ e.physicalStart)
    (hlt : e.physicalStart + e.numberOfPages * PAGE_SIZE_4K < U64)
    (hne : e.numberOfPages ≠ 0) (h : entryRegion e = some r) :
    RegionOk r ∧ e.physicalStart ≤ r.start ∧
      r.stop ≤ e.physicalStart + e.numberOfPages * PAGE_SIZE_4K := by
  have hsize : e.numberOfPages * PAGE_SIZE_4K % U64 = e.numberOfPages * PAGE_SIZE_4K :=
    Nat.mod_eq_of_lt (by omega)
  have hpos : 0 < e.numberOfPages * PAGE_SIZE_4K :=
    Nat.mul_pos (Nat.pos_of_ne_zero hne) (by decide)
  simp only [entryRegion, hsize] at h
  split at h
  · rename_i h0
    split at h
    · simp at h
    · simp only [Option.some.injEq] at h
      subst h
      refine ⟨⟨?_, Nat.le_refl _, ?_⟩, ?_, ?_⟩
      all_goals simp only [MemoryRegion.stop]
      all_goals omega
  · simp only [Option.some.injEq] at h
    subst h
    have hpage : PAGE_SIZE_4K ≤ e.physicalStart := Nat.le_of_dvd (by omega) ha
    exact ⟨⟨hpos, hpage, hlt⟩, Nat.le_refl _, Nat.le_refl _⟩

/-- The loop of `init` keeps the list ascending: every linked node ends before the entries
still to come. -/
theorem initFrom_ok {map : List MemoryMapEntry} (hmap : BootMap map) :
    ∀ s : PhysAllocator, RegionsAscending s.freeList → (∀ r ∈ s.freeList, RegionOk r) →
      (∀ r ∈ s.freeList, ∀ e ∈ map, r.stop ≤ e.physicalStart) →
      RegionsAscending (s.initFrom map).freeList ∧
        ∀ r ∈ (s.initFrom map).freeList, RegionOk r := by
  induction map with
  | nil =>
    intro s hasc hok _
    exact ⟨hasc, hok⟩
  | cons e es ih =>
    intro s hasc hok hbefore
    have hes : BootMap es :=
      ⟨hmap.asc.of_cons, fun e he => hmap.aligned e (List.mem_cons_of_mem _ he),
        fun e he => hmap.lt e (List.mem_cons_of_mem _ he)⟩
    have hrest : ∀ r ∈ s.freeList, ∀ e ∈ es, r.stop ≤ e.physicalStart :=
      fun r hr e he => hbefore r hr e (List.mem_cons_of_mem _ he)
    unfold PhysAllocator.initFrom
    simp only []
    split
    · exact ih hes _ hasc hok hrest
    · rename_i hfree
      split
      · exact ⟨hasc, hok⟩
      · cases hr : entryRegion e with
        | none => exact ih hes _ hasc hok hrest
        | some r =>
          obtain ⟨hrok, hle, hstop⟩ := entryRegion_spec (hmap.aligned e List.mem_cons_self)
            (hmap.lt e List.mem_cons_self) (fun h0 => hfree (Or.inr h0)) hr
          refine ih hes _ ?_ ?_ ?_
          · refine List.pairwise_append.mpr ⟨hasc, List.pairwise_singleton _ _, ?_⟩
            intro a ha b hb
            rw [List.mem_singleton.mp hb]
            exact Nat.le_trans (hbefore a ha e List.mem_cons_self) hle
          · intro a ha
            rcases List.mem_append.mp ha with ha | ha
            · exact hok a ha
            · exact List.mem_singleton.mp ha ▸ hrok
          · intro a ha b hb
            rcases List.mem_append.mp ha with ha | ha
            · exact hrest a ha b hb
            · rw [List.mem_singleton.mp ha]
              exact Nat.le_trans hstop ((List.pairwise_cons.mp hmap.asc).1 b hb)

/-- The list invariant after `init`. -/
theorem init_regionsOk {map : List MemoryMapEntry} (hmap : BootMap map) :
    RegionsOk (RegionsCover (PhysAllocator.init map).freeList)
      (PhysAllocator.init map).freeList := by
  obtain ⟨hasc, hok⟩ := initFrom_ok hmap ⟨[], 0, 0, 0⟩ ascending_nil (by simp) (by simp)
  exact ⟨hasc, hok, fun _ => Iff.rfl⟩

/-! ### Runs -/

/-- A range handed out by `allocate_pages` and the request it answers. -/
structure Grant where
  base : Nat
  request : PageRequest
  deriving DecidableEq, Repr

/-- The end of a granted range. -/
def Grant.stop (g : Grant) : Nat := g.base + g.request.pageCount * PAGE_SIZE_4K

/-- The allocator with the ranges handed out and not yet freed, and every base it ever
returned. -/
structure PhysState where
  alloc : PhysAllocator
  live : List Grant
  returned : List Nat
  deriving DecidableEq, Repr

/-- The calls of a run. -/
inductive PhysOp
  | allocate (q : PageRequest)
  | free (addr pageCount : Nat)
  deriving DecidableEq, Repr

/-- One call. -/
def PhysState.next (s : PhysState) : PhysOp → PhysState
  | .allocate q =>
    let out := s.alloc.allocatePages q
    if out.1 = 0 then { s with alloc := out.2 }
    else ⟨out.2, ⟨out.1, q⟩ :: s.live, out.1 :: s.returned⟩
  | .free addr pageCount =>
    { s with
      alloc := s.alloc.freePagesAt addr pageCount
      live := if addr = 0 ∨ pageCount = 0 then s.live
        else s.live.filter fun g => g.base ≠ addr }

/-- The calls that the allocator's callers can make: `u32` counts, power-of-two
alignments, and frees of bases it returned. -/
def PhysState.Enabled (s : PhysState) : PhysOp → Prop
  | .allocate q => RequestOk q
  | .free addr pageCount => addr ∈ s.returned ∧ pageCount < 2 ^ 32

/-- Every sequence of calls after `init` on a map. -/
def physSystem (map : List MemoryMapEntry) : TransitionSystem PhysState PhysOp where
  init s := s = ⟨PhysAllocator.init map, [], []⟩
  step s op t := s.Enabled op ∧ t = s.next op

/-- The allocation takes a region where its arithmetic does not wrap and where no tail is
dropped for want of a node. -/
def PhysState.Safe (s : PhysState) : PhysOp → Prop
  | .allocate q => ∀ r, s.alloc.freeList.find? (usable (freeNodes s.alloc.freeList) q) = some r →
      NoWrap q r ∧ KeepsTail (freeNodes s.alloc.freeList) q r
  | .free _ _ => True

/-- Conservation: the regions are ascending and cover what they covered after `init`, and
the granted ranges are disjoint, aligned, off page 0 and below their ceilings. -/
structure Conserved (map : List MemoryMapEntry) (s : PhysState) : Prop where
  ascending : RegionsAscending s.alloc.freeList
  cover : ∀ x, RegionsCover s.alloc.freeList x ↔
    RegionsCover (PhysAllocator.init map).freeList x
  disjoint : s.live.Pairwise fun g h => g.stop ≤ h.base ∨ h.stop ≤ g.base
  aligned : ∀ g ∈ s.live, g.request.alignment ∣ g.base
  page : ∀ g ∈ s.live, PAGE_SIZE_4K ≤ g.base
  ceiling : ∀ g ∈ s.live, g.request.maxAddr ≠ 0 → g.stop ≤ g.request.maxAddr

/-- What ties a grant to the list: a used region starts at its base and holds it. -/
structure GrantOk (l : List MemoryRegion) (g : Grant) : Prop where
  count : 0 < g.request.pageCount
  aligned : g.request.alignment ∣ g.base
  ceiling : g.request.maxAddr ≠ 0 → g.stop ≤ g.request.maxAddr
  region : ∃ r ∈ l, r.used = true ∧ r.start = g.base ∧ g.stop ≤ r.stop

/-- The invariant of a run: the list invariant, and a bijection between the used regions
and the grants. -/
structure PhysInv (map : List MemoryMapEntry) (s : PhysState) : Prop where
  regions : RegionsOk (RegionsCover (PhysAllocator.init map).freeList) s.alloc.freeList
  grants : ∀ g ∈ s.live, GrantOk s.alloc.freeList g
  owned : ∀ r ∈ s.alloc.freeList, r.used = true → ∃ g ∈ s.live, g.base = r.start
  nodup : s.live.Pairwise fun g h => g.base ≠ h.base

theorem Grant.base_lt_stop {g : Grant} (h : 0 < g.request.pageCount) : g.base < g.stop :=
  Nat.lt_add_of_pos_right (Nat.mul_pos h (by decide))

/-- Two grants with different bases lie in two different regions. -/
theorem GrantOk.disjoint {C : Nat → Prop} {l : List MemoryRegion} (hl : RegionsOk C l)
    {g h : Grant} (hg : GrantOk l g) (hh : GrantOk l h) (hne : g.base ≠ h.base) :
    g.stop ≤ h.base ∨ h.stop ≤ g.base := by
  obtain ⟨r, hr, -, hrs, hrstop⟩ := hg.region
  obtain ⟨t, ht, -, hts, htstop⟩ := hh.region
  have hg' := Grant.base_lt_stop hg.count
  have hh' := Grant.base_lt_stop hh.count
  have hrt : r ≠ t := fun heq => hne (by rw [← hrs, ← hts, heq])
  rcases hl.asc.disjoint hr ht hrt (by omega) (by omega) with h | h
  · exact Or.inl (by omega)
  · exact Or.inr (by omega)

/-- The invariant implies what the caller is promised. -/
theorem PhysInv.conserved {map : List MemoryMapEntry} {s : PhysState} (h : PhysInv map s) :
    Conserved map s where
  ascending := h.regions.asc
  cover := h.regions.cover
  disjoint := by
    have hall := h.nodup
    rw [List.pairwise_iff_forall_sublist] at hall ⊢
    intro a b hab
    have ha := h.grants a (hab.subset (by simp))
    have hb := h.grants b (hab.subset (by simp))
    exact ha.disjoint h.regions hb (hall hab)
  aligned g hg := (h.grants g hg).aligned
  page g hg := by
    obtain ⟨r, hr, -, hrs, -⟩ := (h.grants g hg).region
    exact hrs ▸ (h.regions.ok r hr).page
  ceiling g hg := (h.grants g hg).ceiling

/-- An allocation that fails changes nothing, and one that succeeds carves the first
usable region and counts the pages asked for. -/
theorem next_allocate_cases {map : List MemoryMapEntry} {s : PhysState} {q : PageRequest}
    (h : PhysInv map s) (hq : RequestOk q)
    (hwrap : ∀ r, s.alloc.freeList.find? (usable (freeNodes s.alloc.freeList) q) = some r →
      NoWrap q r) :
    s.next (.allocate q) = s ∨
      ∃ l₁ r l₂, s.alloc.freeList = l₁ ++ [r] ++ l₂ ∧
        s.alloc.freeList.find? (usable (freeNodes s.alloc.freeList) q) = some r ∧
        0 < q.pageCount ∧ Fit q r ∧ (q.preSize r ≠ 0 → 0 < freeNodes s.alloc.freeList) ∧
        s.next (.allocate q) =
          ⟨{ s.alloc with
              freeList := l₁ ++ carve (freeNodes s.alloc.freeList) q r ++ l₂
              usedPages := add64 s.alloc.usedPages q.pageCount
              freePages := sub64 s.alloc.freePages q.pageCount },
            ⟨q.alignedStart r, q⟩ :: s.live, q.alignedStart r :: s.returned⟩ := by
  unfold PhysState.next PhysAllocator.allocatePages
  by_cases h0 : q.pageCount = 0
  · exact .inl (by simp [h0])
  · cases hsearch : allocateIn (freeNodes s.alloc.freeList) q s.alloc.freeList with
    | none => exact .inl (by simp [h0, hsearch])
    | some out =>
      obtain ⟨addr, list⟩ := out
      obtain ⟨l₁, r, l₂, hl, hfind, rfl, rfl⟩ := allocateIn_cases hsearch
      have hu := List.find?_some hfind
      have hr := h.regions.ok r (List.mem_of_find?_eq_some hfind)
      have hfit := fit_of_usable hq hr (hwrap r hfind) hu
      have haddr : q.alignedStart r ≠ 0 := by
        have hpage := hr.page
        have hle := hfit.le
        unfold PAGE_SIZE_4K at hpage
        omega
      refine .inr ⟨l₁, r, l₂, hl, hfind, Nat.pos_of_ne_zero h0, hfit, fun hpre => ?_, ?_⟩
      · simp only [usable, Bool.and_eq_true, Bool.or_eq_true, beq_iff_eq,
          decide_eq_true_eq] at hu
        exact hu.2.resolve_left hpre
      · simp only [h0, if_false, hsearch, haddr]

/-- A safe allocation keeps the invariant. -/
theorem PhysInv.allocate {map : List MemoryMapEntry} {s : PhysState} {q : PageRequest}
    (h : PhysInv map s) (hq : RequestOk q) (hsafe : s.Safe (.allocate q)) :
    PhysInv map (s.next (.allocate q)) := by
  rcases next_allocate_cases h hq fun r hr => (hsafe r hr).1 with
    hsame | ⟨l₁, r, l₂, hl, hfind, hcount, hfit, hnodes, hnext⟩
  · rw [hsame]
    exact h
  · rw [hnext]
    have hr := h.regions.ok r (List.mem_of_find?_eq_some hfind)
    have hsize : q.size = q.pageCount * PAGE_SIZE_4K := hq.size_eq
    have hpos : 0 < q.size := hsize ▸ Nat.mul_pos hcount (by decide)
    have hspec := carve_spec hr hpos hfit hnodes (hsafe r hfind).2
    have hregions := h.regions
    rw [hl] at hregions
    have hnew : RegionsOk (RegionsCover (PhysAllocator.init map).freeList)
        (l₁ ++ carve (freeNodes s.alloc.freeList) q r ++ l₂) :=
      hregions.retile (by simp) ⟨rfl, Nat.lt_add_of_pos_right hr.pos, rfl⟩ hspec.tiles
    -- A used region of the old list is not the free region that was carved.
    have hkept : ∀ m ∈ s.alloc.freeList, m.used = true →
        m ∈ l₁ ++ carve (freeNodes s.alloc.freeList) q r ++ l₂ := by
      intro m hm hmu
      rw [hl] at hm
      simp only [List.mem_append, List.mem_singleton] at hm ⊢
      rcases hm with (hm | rfl) | hm
      · exact Or.inl (Or.inl hm)
      · exact absurd (hfit.free ▸ hmu) Bool.false_ne_true
      · exact Or.inr hm
    constructor
    · exact hnew
    · intro g hg
      rcases List.mem_cons.mp hg with rfl | hg
      · obtain ⟨m, hm, hmu, hms, hmsize⟩ := hspec.grant
        refine ⟨hcount, hfit.dvd, fun hne => ?_, m, ?_, hmu, hms, ?_⟩
        · have := hfit.below hne
          simp only [Grant.stop]
          omega
        · simp [hm]
        · simp only [Grant.stop, MemoryRegion.stop]
          omega
      · obtain ⟨hc, ha, hb, m, hm, hmu, hrest⟩ := h.grants g hg
        exact ⟨hc, ha, hb, m, hkept m hm hmu, hmu, hrest⟩
    · intro m hm hmu
      simp only [List.mem_append] at hm
      rcases hm with (hm | hm) | hm
      · obtain ⟨g, hg, hgm⟩ := h.owned m (by rw [hl]; simp [hm]) hmu
        exact ⟨g, List.mem_cons_of_mem _ hg, hgm⟩
      · exact ⟨_, List.mem_cons_self, (hspec.used m hm hmu).symm⟩
      · obtain ⟨g, hg, hgm⟩ := h.owned m (by rw [hl]; simp [hm]) hmu
        exact ⟨g, List.mem_cons_of_mem _ hg, hgm⟩
    · refine List.Pairwise.cons (fun g hg hbase => ?_) h.nodup
      -- An old grant at the new base would have its region inside the carved one.
      obtain ⟨m, hm, hmu, hms, -⟩ := (h.grants g hg).region
      have hb : q.alignedStart r = g.base := hbase
      have hmr : m = r := by
        refine h.regions.asc.eq_of_overlap (x := q.alignedStart r) hm
          (List.mem_of_find?_eq_some hfind) ⟨?_, ?_⟩ ⟨?_, ?_⟩
        · omega
        · have := (h.regions.ok m hm).pos
          unfold MemoryRegion.stop
          omega
        · have := hfit.le
          omega
        · have := hfit.fits
          omega
      exact absurd (hfit.free ▸ hmr ▸ hmu) Bool.false_ne_true

/-- `init` links free regions only. -/
theorem initFrom_unused : ∀ (map : List MemoryMapEntry) (s : PhysAllocator),
    (∀ r ∈ s.freeList, r.used = false) → ∀ r ∈ (s.initFrom map).freeList, r.used = false := by
  intro map
  induction map with
  | nil =>
    intro s hs
    exact hs
  | cons e es ih =>
    intro s hs
    unfold PhysAllocator.initFrom
    simp only []
    split
    · exact ih _ hs
    · split
      · exact hs
      · cases hr : entryRegion e with
        | none => exact ih _ hs
        | some m =>
          refine ih _ fun r hmem => ?_
          rcases List.mem_append.mp hmem with hmem | hmem
          · exact hs r hmem
          · rw [List.mem_singleton.mp hmem]
            unfold entryRegion at hr
            simp only [] at hr
            split at hr
            · split at hr
              · simp at hr
              · exact Option.some.inj hr ▸ rfl
            · exact Option.some.inj hr ▸ rfl

/-- A free of a returned base keeps the invariant. -/
theorem PhysInv.free {map : List MemoryMapEntry} {s : PhysState} (addr pageCount : Nat)
    (h : PhysInv map s) : PhysInv map (s.next (.free addr pageCount)) := by
  unfold PhysState.next PhysAllocator.freePagesAt
  by_cases h0 : addr = 0 ∨ pageCount = 0
  · simpa [h0] using h
  · simp only [h0, if_false]
    have hlive : ∀ g, g ∈ s.live.filter (fun g => g.base ≠ addr) ↔ g ∈ s.live ∧ g.base ≠ addr := by
      simp [List.mem_filter]
    cases hfree : freeIn addr none s.alloc.freeList with
    | none =>
      -- No used region starts at `addr`, so no grant does.
      have hnone : ∀ g ∈ s.live, g.base ≠ addr := by
        intro g hg heq
        obtain ⟨r, hr, hru, hrs, -⟩ := (h.grants g hg).region
        exact freeIn_ne_none hr (hrs.trans heq) hru none hfree
      have hsame : s.live.filter (fun g => g.base ≠ addr) = s.live :=
        List.filter_eq_self.mpr (by simpa using hnone)
      rw [hsame]
      exact h
    | some out =>
      obtain ⟨hnew, hmem⟩ := freeIn_spec h.regions hfree
      constructor
      · exact hnew
      · intro g hg
        obtain ⟨hg, hne⟩ := (hlive g).mp hg
        obtain ⟨hc, ha, hb, m, hm, hmu, hms, hstop⟩ := h.grants g hg
        exact ⟨hc, ha, hb, m, (hmem m hmu).mpr ⟨hm, by omega⟩, hmu, hms, hstop⟩
      · intro r hr hru
        obtain ⟨hr, hne⟩ := (hmem r hru).mp hr
        obtain ⟨g, hg, hgr⟩ := h.owned r hr hru
        exact ⟨g, (hlive g).mpr ⟨hg, by omega⟩, hgr⟩
      · exact h.nodup.sublist List.filter_sublist

/-- The state after `init` meets the invariant: nothing is granted, and no region is
used. -/
theorem PhysInv.init {map : List MemoryMapEntry} (hmap : BootMap map) :
    PhysInv map ⟨PhysAllocator.init map, [], []⟩ where
  regions := init_regionsOk hmap
  grants g hg := absurd hg List.not_mem_nil
  owned r hr hu := by
    have hfree := initFrom_unused map ⟨[], 0, 0, 0⟩ (by simp) r hr
    exact absurd (hfree ▸ hu) Bool.false_ne_true
  nodup := List.Pairwise.nil

/-- One safe call keeps the invariant. -/
theorem PhysInv.step {map : List MemoryMapEntry} {s t : PhysState} {op : PhysOp}
    (h : PhysInv map s) (hsafe : s.Safe op) (hstep : (physSystem map).step s op t) :
    PhysInv map t := by
  obtain ⟨hen, rfl⟩ := hstep
  cases op with
  | allocate q => exact h.allocate hen hsafe
  | free addr pageCount => exact h.free addr pageCount

/-- In every run of `allocate_pages` and `free_pages` after `init` whose allocations do not
wrap and do not drop a tail, memory is conserved in every state reached. -/
theorem conserved_of_safe_run (map : List MemoryMapEntry) (hmap : BootMap map)
    (s : PhysState) (hs : ((physSystem map).restrict PhysState.Safe).Reachable s) :
    Conserved map s := by
  have hinv : PhysInv map s := by
    refine hs.invariant (fun t ht => ?_) (fun t op u _ ht hstep => ?_)
    · rw [ht]
      exact PhysInv.init hmap
    · exact ht.step hstep.1 hstep.2
  exact hinv.conserved

/-- A map of one 16-page range, and a run that allocates four pages of it and frees them. -/
theorem conserved_of_safe_run_one_entry :
    BootMap [⟨0x100000, 16, .conventional⟩] ∧
      Conserved [⟨0x100000, 16, .conventional⟩]
        ((PhysState.next ⟨PhysAllocator.init [⟨0x100000, 16, .conventional⟩], [], []⟩
          (.allocate ⟨4, 0x1000, 0⟩)).next (.free 0x100000 4)) := by
  have hmap : BootMap [⟨0x100000, 16, .conventional⟩] :=
    ⟨by simp, by with_unfolding_all decide, by with_unfolding_all decide⟩
  refine ⟨hmap, conserved_of_safe_run _ hmap _ ?_⟩
  refine .step (l := .free 0x100000 4)
    (.step (l := .allocate ⟨4, 0x1000, 0⟩) (.init rfl) ⟨?_, ?_, rfl⟩)
    ⟨trivial, ?_, rfl⟩
  · intro r hr
    have hr' : r = ⟨0x100000, 0x10000, false⟩ := by
      have : some r = some ⟨0x100000, 0x10000, false⟩ :=
        hr.symm.trans (by with_unfolding_all decide)
      exact Option.some.inj this
    subst hr'
    exact ⟨by with_unfolding_all decide, by with_unfolding_all decide⟩
  · exact ⟨by decide, ⟨12, by decide, by decide⟩, by with_unfolding_all decide⟩
  · exact ⟨by with_unfolding_all decide, by decide⟩

/-- A fragmented map with one node left: 510 single pages and a range of three pages at
0x3fd000, all apart. -/
def fragmentedMap : List MemoryMapEntry :=
  (List.range 510).map (fun i => ⟨(2 * i + 1) * PAGE_SIZE_4K, 1, .conventional⟩) ++
    [⟨0x3fd000, 3, .conventional⟩]

theorem fragmentedMap_bootMap : BootMap fragmentedMap where
  asc := by
    refine List.pairwise_append.mpr ⟨List.pairwise_map.mpr ?_, List.pairwise_singleton _ _, ?_⟩
    · refine List.pairwise_lt_range.imp fun {a b} h => ?_
      simp only [PAGE_SIZE_4K]
      omega
    · intro a ha b hb
      obtain ⟨i, hi, rfl⟩ := List.mem_map.mp ha
      have hlt := List.mem_range.mp hi
      rw [List.mem_singleton.mp hb]
      simp only [PAGE_SIZE_4K]
      omega
  aligned := by with_unfolding_all decide
  lt := by with_unfolding_all decide

/-- While nodes are left, `init` links one for each free entry with more than page 0. -/
theorem initFrom_freeList {map : List MemoryMapEntry}
    (hfree : ∀ e ∈ map, e.type.isFree = true ∧ e.numberOfPages ≠ 0 ∧ entryRegion e ≠ none)
    (s : PhysAllocator) (hnodes : s.freeList.length + map.length ≤ REGION_POOL_SIZE) :
    (s.initFrom map).freeList = s.freeList ++ map.filterMap entryRegion := by
  induction map generalizing s with
  | nil => simp [PhysAllocator.initFrom]
  | cons e es ih =>
    obtain ⟨hkind, hpages, hregion⟩ := hfree e List.mem_cons_self
    obtain ⟨r, hr⟩ := Option.ne_none_iff_exists'.mp hregion
    rw [List.length_cons] at hnodes
    have hnode : freeNodes s.freeList ≠ 0 := by
      unfold freeNodes
      omega
    unfold PhysAllocator.initFrom
    simp only [hkind, hpages, hnode, hr, not_true, or_self, if_false]
    rw [ih (fun e he => hfree e (List.mem_cons_of_mem _ he))]
    · simp [hr]
    · simp only [List.length_append, List.length_singleton]
      omega

theorem init_fragmentedMap :
    (PhysAllocator.init fragmentedMap).freeList = fragmentedMap.filterMap entryRegion := by
  have hnodes : fragmentedMap.length ≤ REGION_POOL_SIZE := by with_unfolding_all decide
  unfold PhysAllocator.init
  rw [initFrom_freeList (by with_unfolding_all decide) _ (by simpa using hnodes), List.nil_append]

/-- With one node left, a page aligned to 8 KiB is taken from the middle of the last range
and the page behind it is in no region any more. -/
theorem middle_allocation_loses_tail :
    BootMap fragmentedMap ∧
      ∃ s, (physSystem fragmentedMap).Reachable s ∧ ¬ Conserved fragmentedMap s := by
  refine ⟨fragmentedMap_bootMap,
    PhysState.next ⟨PhysAllocator.init fragmentedMap, [], []⟩ (.allocate ⟨1, 0x2000, 0⟩),
    .step (l := .allocate ⟨1, 0x2000, 0⟩) (.init rfl)
      ⟨⟨by decide, ⟨13, by decide, by decide⟩, by with_unfolding_all decide⟩, rfl⟩, fun hcons => ?_⟩
  -- The last page of the map was free after `init`.
  have hbefore : RegionsCover (fragmentedMap.filterMap entryRegion) 0x3ff000 := by
    with_unfolding_all decide
  have hafter : (allocateIn (freeNodes (fragmentedMap.filterMap entryRegion)) ⟨1, 0x2000, 0⟩
      (fragmentedMap.filterMap entryRegion)).any
        (fun out => decide (out.1 ≠ 0 ∧ ¬ RegionsCover out.2 0x3ff000)) = true := by
    with_unfolding_all decide
  obtain ⟨⟨addr, list⟩, halloc, hout⟩ := (Option.any_eq_true _ _).mp hafter
  obtain ⟨haddr, hlost⟩ := of_decide_eq_true hout
  have hcover := (hcons.cover 0x3ff000).mpr (by rw [init_fragmentedMap]; exact hbefore)
  unfold PhysState.next PhysAllocator.allocatePages at hcover
  simp only [init_fragmentedMap, halloc, haddr, if_false, Nat.one_ne_zero] at hcover
  exact hlost hcover

end VKernel.Proofs.Memory

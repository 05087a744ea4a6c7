import VKernel.Proofs.Memory.PhysAllocator

/-!
# `VKernel.Proofs.Memory.FirstFit`: what `allocate_pages` finds

`HasRun q r a` says that the pages of the request `q` can lie at `a` in the region `r`: inside
it, aligned, and at or below the ceiling. For regions below `2 ^ 52` nothing in the loop of
`allocate_pages` wraps, so a free region passes its tests exactly when it has a run
(`usable_iff`), and the address it is used at is the lowest one (`HasRun.alignedStart`).

The loop takes the first such region, so `allocatePages_first_fit` is a fact about `List.find?`.
The address 0 stands for failure. A region that starts there can be handed out at 0, and the
caller takes that for a refusal (`zero_region_refused`): `init` leaves page 0 out of the list.
-/

set_option autoImplicit false

namespace VKernel.Proofs.Memory

open VKernel VKernel.Memory VKernel.Lib

/-- The pages of the request can lie at `a` in the region. -/
structure HasRun (q : PageRequest) (r : MemoryRegion) (a : Nat) : Prop where
  le : r.start ≤ a
  aligned : q.alignment ∣ a
  fits : a + q.pageCount * PAGE_SIZE_4K ≤ r.stop
  below : q.maxAddr ≠ 0 → a + q.pageCount * PAGE_SIZE_4K ≤ q.maxAddr

instance (q : PageRequest) (r : MemoryRegion) (a : Nat) : Decidable (HasRun q r a) :=
  decidable_of_iff (r.start ≤ a ∧ q.alignment ∣ a ∧ a + q.pageCount * PAGE_SIZE_4K ≤ r.stop ∧
      (q.maxAddr ≠ 0 → a + q.pageCount * PAGE_SIZE_4K ≤ q.maxAddr))
    ⟨fun ⟨h₁, h₂, h₃, h₄⟩ => ⟨h₁, h₂, h₃, h₄⟩, fun ⟨h₁, h₂, h₃, h₄⟩ => ⟨h₁, h₂, h₃, h₄⟩⟩

/-- The region is free and has a run. -/
def CanServe (q : PageRequest) (r : MemoryRegion) : Prop := r.used = false ∧ ∃ a, HasRun q r a

/-! ### One region -/

section Region

variable {q : PageRequest} {r : MemoryRegion} {nodes : Nat}

/-- Below `2 ^ 52` the rounded start of a region is far from the end of the address space. -/
theorem alignedStart_lt (hq : RequestOk q) (hr : r.stop ≤ 2 ^ 52) :
    r.start + q.alignment ≤ U64 ∧ q.alignedStart r + q.size < U64 := by
  obtain ⟨k, hk, halign⟩ := hq.align
  have hpow : 2 ^ k < 2 ^ 32 := Nat.pow_lt_pow_right (by decide) hk
  have hstart : r.start ≤ r.stop := Nat.le_add_right _ _
  have hwrap : r.start + 2 ^ k ≤ U64 := by
    rw [U64_eq]
    omega
  have hrounded := alignUp_lt (by omega : k < 64) hwrap
  have hsize : q.size ≤ 2 ^ 44 := by
    have := hq.count
    rw [hq.size_eq]
    unfold PAGE_SIZE_4K
    omega
  refine ⟨halign ▸ hwrap, ?_⟩
  unfold PageRequest.alignedStart
  rw [halign, U64_eq]
  omega

/-- The lowest run of a region is at its rounded start. -/
theorem HasRun.alignedStart (hq : RequestOk q) (hr : r.stop ≤ 2 ^ 52) {a : Nat}
    (h : HasRun q r a) : HasRun q r (q.alignedStart r) ∧ q.alignedStart r ≤ a := by
  obtain ⟨k, hk, halign⟩ := hq.align
  have hwrap := (alignedStart_lt hq hr).1
  rw [halign] at hwrap
  have hleast : q.alignedStart r ≤ a := by
    unfold PageRequest.alignedStart
    rw [halign]
    exact alignUp_le_of_dvd (by omega) hwrap h.le (halign ▸ h.aligned)
  have hfits := h.fits
  have hbelow := h.below
  refine ⟨⟨?_, ?_, by omega, fun hne => by have := hbelow hne; omega⟩, hleast⟩
  · unfold PageRequest.alignedStart
    rw [halign]
    exact le_alignUp (by omega) hwrap
  · unfold PageRequest.alignedStart
    rw [halign]
    exact alignUp_dvd (by omega) hwrap

/-- A region passes the tests of `allocate_pages` exactly when it can serve the request. -/
theorem usable_iff (hq : RequestOk q) (hr : r.stop ≤ 2 ^ 52) (hnodes : 0 < nodes) :
    usable nodes q r = true ↔ CanServe q r := by
  obtain ⟨hwrap, hend⟩ := alignedStart_lt hq hr
  have hsum : add64 (q.alignedStart r) q.size =
      q.alignedStart r + q.pageCount * PAGE_SIZE_4K := by rw [add64_eq hend, hq.size_eq]
  have hstop : add64 r.start r.size = r.stop := add64_eq (by
    rw [U64_eq]
    unfold MemoryRegion.stop at hr
    omega)
  constructor
  · intro h
    simp only [usable, hsum, hstop, Bool.and_eq_true, Bool.or_eq_true,
      Bool.not_eq_true', decide_eq_true_eq, beq_iff_eq] at h
    obtain ⟨⟨⟨hfree, hfits⟩, hceiling⟩, -⟩ := h
    obtain ⟨k, hk, halign⟩ := hq.align
    rw [halign] at hwrap
    refine ⟨hfree, q.alignedStart r, ?_, ?_, hfits, hceiling.resolve_left⟩
    · unfold PageRequest.alignedStart
      rw [halign]
      exact le_alignUp (by omega) hwrap
    · unfold PageRequest.alignedStart
      rw [halign]
      exact alignUp_dvd (by omega) hwrap
  · rintro ⟨hfree, a, hrun⟩
    obtain ⟨hlowest, -⟩ := hrun.alignedStart hq hr
    simp only [usable, hsum, hstop, Bool.and_eq_true, Bool.or_eq_true,
      Bool.not_eq_true', decide_eq_true_eq, beq_iff_eq]
    refine ⟨⟨⟨hfree, hlowest.fits⟩, ?_⟩, .inr hnodes⟩
    by_cases hmax : q.maxAddr = 0
    · exact .inl hmax
    · exact .inr (hlowest.below hmax)

end Region

/-! ### The list -/

/-- The loop of `allocate_pages` returns the rounded start of the first usable region. -/
theorem allocateIn_fst (nodes : Nat) (q : PageRequest) (l : List MemoryRegion) :
    (allocateIn nodes q l).map Prod.fst = (l.find? (usable nodes q)).map q.alignedStart := by
  induction l with
  | nil => rfl
  | cons r rs ih =>
    unfold allocateIn
    by_cases hu : usable nodes q r = true
    · rw [if_pos hu, List.find?_cons_of_pos hu]
      rfl
    · rw [if_neg hu, List.find?_cons_of_neg hu, ← ih, Option.map_map]
      rfl

theorem allocatePages_fst (s : PhysAllocator) {q : PageRequest} (hq : q.pageCount ≠ 0) :
    (s.allocatePages q).1 =
      ((s.freeList.find? (usable (freeNodes s.freeList) q)).map q.alignedStart).getD 0 := by
  rw [← allocateIn_fst]
  unfold PhysAllocator.allocatePages
  rw [if_neg hq]
  cases allocateIn (freeNodes s.freeList) q s.freeList with
  | none => rfl
  | some out => rfl

/-- With two free nodes, regions below `2 ^ 52` and none at address 0, `allocate_pages` fails
exactly when nothing is asked for or no free region has a run. Otherwise it returns the lowest
run of the first region that has one. -/
theorem allocatePages_first_fit (s : PhysAllocator) (q : PageRequest) (hq : RequestOk q)
    (hlow : ∀ r ∈ s.freeList, r.stop ≤ 2 ^ 52) (hzero : ∀ r ∈ s.freeList, r.start ≠ 0)
    (hnodes : 2 ≤ freeNodes s.freeList) :
    ((s.allocatePages q).1 = 0 ↔ q.pageCount = 0 ∨ ∀ r ∈ s.freeList, ¬ CanServe q r) ∧
      ((s.allocatePages q).1 ≠ 0 → ∃ before r after, s.freeList = before ++ r :: after ∧
        (∀ r' ∈ before, ¬ CanServe q r') ∧ r.used = false ∧
        HasRun q r (s.allocatePages q).1 ∧ ∀ a, HasRun q r a → (s.allocatePages q).1 ≤ a) := by
  by_cases hcount : q.pageCount = 0
  · have hresult : (s.allocatePages q).1 = 0 := by
      unfold PhysAllocator.allocatePages
      rw [if_pos hcount]
    exact ⟨⟨fun _ => .inl hcount, fun _ => hresult⟩, fun hne => absurd hresult hne⟩
  have husable : ∀ r ∈ s.freeList, usable (freeNodes s.freeList) q r = true ↔ CanServe q r :=
    fun r hr => usable_iff hq (hlow r hr) (by omega)
  rw [allocatePages_fst s hcount]
  cases hfind : s.freeList.find? (usable (freeNodes s.freeList) q) with
  | none =>
    have hnone : ∀ r ∈ s.freeList, ¬ CanServe q r := fun r hr hserve =>
      List.find?_eq_none.mp hfind r hr ((husable r hr).mpr hserve)
    exact ⟨⟨fun _ => .inr hnone, fun _ => rfl⟩, fun hne => absurd rfl hne⟩
  | some r =>
    obtain ⟨hu, before, after, hlist, hbefore⟩ := List.find?_eq_some_iff_append.mp hfind
    have hr : r ∈ s.freeList := List.mem_of_find?_eq_some hfind
    obtain ⟨hfree, a, hrun⟩ := (husable r hr).mp hu
    obtain ⟨hlowest, -⟩ := hrun.alignedStart hq (hlow r hr)
    -- a region off address 0 is not handed out at 0
    have hne : q.alignedStart r ≠ 0 := fun h0 =>
      hzero r hr (Nat.le_zero.mp (h0 ▸ hlowest.le))
    refine ⟨⟨fun h0 => absurd h0 hne, ?_⟩, fun _ => ?_⟩
    · rintro (h0 | hnone)
      · exact absurd h0 hcount
      · exact absurd ⟨hfree, a, hrun⟩ (hnone r hr)
    · refine ⟨before, r, after, hlist, fun r' hr' hserve => ?_, hfree, hlowest,
        fun b hb => (hb.alignedStart hq (hlow r hr)).2⟩
      have hmem : r' ∈ s.freeList := by
        rw [hlist]
        exact List.mem_append_left _ hr'
      have hno := hbefore r' hr'
      rw [(husable r' hmem).mpr hserve] at hno
      exact absurd hno (by decide)

/-- A list with a region that is too short and one behind it that is not. -/
def twoRegions : PhysAllocator := ⟨[⟨0x1000, 0x1000, false⟩, ⟨0x5000, 0x8000, false⟩], 9, 0, 9⟩

/-- A request that the first region is too small for. -/
theorem allocatePages_first_fit_second :
    ((twoRegions.allocatePages ⟨2, 0x4000, 0⟩).1 = 0 ↔
        (2 = 0 ∨ ∀ r ∈ twoRegions.freeList, ¬ CanServe ⟨2, 0x4000, 0⟩ r)) ∧
      ((twoRegions.allocatePages ⟨2, 0x4000, 0⟩).1 ≠ 0 → ∃ before r after,
        twoRegions.freeList = before ++ r :: after ∧
        (∀ r' ∈ before, ¬ CanServe ⟨2, 0x4000, 0⟩ r') ∧ r.used = false ∧
        HasRun ⟨2, 0x4000, 0⟩ r (twoRegions.allocatePages ⟨2, 0x4000, 0⟩).1 ∧
        ∀ a, HasRun ⟨2, 0x4000, 0⟩ r a →
          (twoRegions.allocatePages ⟨2, 0x4000, 0⟩).1 ≤ a) :=
  allocatePages_first_fit twoRegions ⟨2, 0x4000, 0⟩
    ⟨by decide, ⟨14, by decide, by decide⟩, by rw [U64_eq]; decide⟩ (by decide) (by decide)
    (by decide)

/-- A free page at address 0 serves a request for one page, and the answer is 0 all the same. -/
theorem zero_region_refused :
    ∃ (s : PhysAllocator) (q : PageRequest), RequestOk q ∧ (∀ r ∈ s.freeList, r.stop ≤ 2 ^ 52) ∧
      2 ≤ freeNodes s.freeList ∧
      ¬ ((s.allocatePages q).1 = 0 ↔
        q.pageCount = 0 ∨ ∀ r ∈ s.freeList, ¬ CanServe q r) := by
  refine ⟨⟨[⟨0, 0x1000, false⟩], 1, 0, 1⟩, ⟨1, 0x1000, 0⟩,
    ⟨by decide, ⟨12, by decide, by decide⟩, by rw [U64_eq]; decide⟩, by decide, by decide, ?_⟩
  intro hiff
  have hresult : (PhysAllocator.allocatePages ⟨[⟨0, 0x1000, false⟩], 1, 0, 1⟩
      ⟨1, 0x1000, 0⟩).1 = 0 := by
    rw [allocatePages_fst _ (by decide)]
    with_unfolding_all decide
  have hserves : CanServe ⟨1, 0x1000, 0⟩ ⟨0, 0x1000, false⟩ := ⟨rfl, 0, by decide⟩
  exact (hiff.mp hresult).elim (by decide) fun hnone => hnone _ List.mem_cons_self hserves

end VKernel.Proofs.Memory

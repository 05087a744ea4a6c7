import VKernel.Memory.Protection
import VKernel.Proofs.Memory.Protection
import VKernel.Proofs.Memory.UserPages

/-!
# `VKernel.Proofs.Memory.UserBlocks`: blocks of an address space, call by call

What a caller of the memory functions has to know of them, without the tables and the regions
behind it. `allocateUserPages_spec` is for a call that has the pages for its tables: it fails
without a trace, or the range is mapped to a block of its own. `unmapRange_release` gives such a
block back, and `protectProcessMapping_spec` leaves every page where it is.
-/

set_option autoImplicit false
set_option maxRecDepth 20000

namespace VKernel.Proofs.Memory

open VKernel.Memory VKernel.Lib

/-! ### The allocator -/

/-- Physical addresses have 52 bits. -/
def AllocBound (a : PhysAllocator) : Prop := ∀ r ∈ a.freeList, r.stop ≤ 2 ^ 52

section Allocator

variable {a : PhysAllocator}

/-- A region of whole pages. -/
def WholePages (r : MemoryRegion) : Prop := PAGE_SIZE_4K ∣ r.start ∧ PAGE_SIZE_4K ∣ r.size

theorem coalesce_wholePages {r q m : MemoryRegion} (hr : WholePages r) (hq : WholePages q)
    (hm : m ∈ coalesce r q) : WholePages m := by
  unfold coalesce at hm
  split at hm
  · obtain rfl := List.mem_singleton.mp hm
    refine ⟨hr.1, ?_⟩
    show PAGE_SIZE_4K ∣ add64 r.size q.size
    unfold add64
    have hword : PAGE_SIZE_4K ∣ U64 := by
      rw [U64_eq]
      decide
    exact (Nat.dvd_mod_iff hword).mpr (Nat.dvd_add hr.2 hq.2)
  · rcases List.mem_cons.mp hm with rfl | hm
    · exact hr
    · exact List.mem_singleton.mp hm ▸ hq

theorem mergeNext_wholePages {r m : MemoryRegion} {l : List MemoryRegion} (hr : WholePages r)
    (hl : ∀ q ∈ l, WholePages q) (hm : m ∈ mergeNext r l) : WholePages m := by
  cases l with
  | nil => exact List.mem_singleton.mp hm ▸ hr
  | cons q rest =>
    rcases List.mem_append.mp hm with hm | hm
    · exact coalesce_wholePages hr (hl q List.mem_cons_self) hm
    · exact hl m (List.mem_cons_of_mem _ hm)

theorem mergePrev_wholePages {p : Option MemoryRegion} {m : MemoryRegion} {l : List MemoryRegion}
    (hp : ∀ q ∈ p.toList, WholePages q) (hl : ∀ q ∈ l, WholePages q) (hm : m ∈ mergePrev p l) :
    WholePages m := by
  cases l with
  | nil => exact hp m hm
  | cons r rest =>
    cases p with
    | none => exact hl m hm
    | some q =>
      rcases List.mem_append.mp hm with hm | hm
      · exact coalesce_wholePages (hp q (by simp)) (hl r List.mem_cons_self) hm
      · exact hl m (List.mem_cons_of_mem _ hm)

/-- `free_pages` keeps a list of whole pages in order, and no region reaches further. -/
theorem AllocOk.freePagesAt (h : AllocOk a) (phys n : Nat) : AllocOk (a.freePagesAt phys n) := by
  unfold PhysAllocator.freePagesAt
  split
  · exact h
  · cases hfree : freeIn phys none a.freeList with
    | none => exact h
    | some out =>
      have hall : RegionsOk (RegionsCover a.freeList) a.freeList := ⟨h.asc, h.ok, fun _ => Iff.rfl⟩
      have hout := (freeIn_spec hall hfree).1
      obtain ⟨l₁, p, r, l₂, hl, -, -, rfl⟩ := freeIn_cases hfree
      rw [Option.toList_none, List.nil_append] at hl
      have hold : ∀ q ∈ l₁ ++ p.toList ++ [r] ++ l₂, WholePages q :=
        fun q hq => ⟨h.start q (hl ▸ hq), h.size q (hl ▸ hq)⟩
      simp only [List.mem_append, or_imp, forall_and, List.mem_singleton, forall_eq] at hold
      obtain ⟨⟨⟨hl₁, hp⟩, hr⟩, hl₂⟩ := hold
      have hfreed : WholePages { r with used := false } := hr
      have hwhole : ∀ m ∈ l₁ ++ mergePrev p (mergeNext { r with used := false } l₂),
          WholePages m := by
        intro m hm
        rcases List.mem_append.mp hm with hm | hm
        · exact hl₁ m hm
        · exact mergePrev_wholePages hp (fun q hq => mergeNext_wholePages hfreed hl₂ hq) hm
      exact ⟨hout.asc, hout.ok, fun m hm => (hwhole m hm).1, fun m hm => (hwhole m hm).2⟩

theorem AllocBound.freePagesAt (h : AllocBound a) (hok : AllocOk a) (phys n : Nat) :
    AllocBound (a.freePagesAt phys n) := by
  unfold PhysAllocator.freePagesAt
  split
  · exact h
  · cases hfree : freeIn phys none a.freeList with
    | none => exact h
    | some out =>
      intro r hr
      have hall : RegionsOk (RegionsCover a.freeList) a.freeList :=
        ⟨hok.asc, hok.ok, fun _ => Iff.rfl⟩
      have hout := (freeIn_spec hall hfree).1
      -- The last byte of the region was in a region before.
      have hpos := (hout.ok r hr).pos
      have hstop : r.stop = r.start + r.size := rfl
      obtain ⟨q, hq, -, hlt⟩ := (hout.cover (r.stop - 1)).mp
        ⟨r, hr, by omega, by omega⟩
      have hbound := h q hq
      omega

/-- A block is taken out of one region. -/
theorem AllocBound.allocateBlock {n : Nat} (h : AllocBound a) (hok : AllocOk a) (hn : n < 2 ^ 32) :
    AllocBound (a.allocatePages (blockRequest n)).2 := by
  unfold PhysAllocator.allocatePages
  split
  · exact h
  · cases hsearch : allocateIn (freeNodes a.freeList) (blockRequest n) a.freeList with
    | none => exact h
    | some out =>
      obtain ⟨addr, list⟩ := out
      obtain ⟨l₁, r, l₂, hl, hfind, -, hlist⟩ := allocateIn_cases hsearch
      have hr := List.mem_of_find?_eq_some hfind
      have hbound := h r hr
      have hstart := hok.alignedStart hr (n := n)
      have hsize : (blockRequest n).size = n * PAGE_SIZE_4K := (blockRequest_ok hn).size_eq
      have hsmall : r.start + PAGE_SIZE_4K ≤ U64 := by
        have hroom := hok.room hr
        omega
      have hwrap : r.start + n * PAGE_SIZE_4K < U64 := by
        rw [U64_eq]
        unfold MemoryRegion.stop at hbound
        unfold PAGE_SIZE_4K
        omega
      have hfit := fit_of_usable (blockRequest_ok hn) (hok.ok r hr)
        ⟨hsmall, by rw [hstart, hsize]; exact hwrap⟩ (List.find?_some hfind)
      have hfits := hfit.fits
      rw [hstart, hsize] at hfits
      have hcarve := hok.carve hr hn hfits (freeNodes a.freeList)
      intro m hm
      have hm : m ∈ list := hm
      rw [hlist] at hm
      simp only [List.mem_append] at hm
      rcases hm with (hm | hm) | hm
      · exact h m (by simp [hl, hm])
      · unfold MemoryRegion.stop at hbound hfits ⊢
        rcases hcarve with hc | ⟨hlt, hc⟩
        · rw [hc, List.mem_singleton] at hm
          rw [hm]
          exact hbound
        · rw [hc, List.mem_cons, List.mem_singleton] at hm
          rcases hm with rfl | rfl <;> dsimp only <;> omega
      · exact h m (by simp [hl, hm])

theorem AllocBound.takeTables {n : Nat} {a' : PhysAllocator} (h : AllocBound a) (hok : AllocOk a)
    (htake : takeTables n a = some a') : AllocBound a' := by
  induction n generalizing a with
  | zero =>
    obtain rfl := Option.some.inj htake
    exact h
  | succ n ih =>
    have hstep := h.allocateBlock hok (n := 1) (by decide)
    rw [Memory.takeTables] at htake
    cases hcall : a.allocatePages tableRequest with
    | mk phys a₁ =>
      simp only [hcall] at htake
      rw [show blockRequest 1 = tableRequest from rfl, hcall] at hstep
      split at htake
      · cases htake
      · rcases allocatePage_spec hok hcall with ⟨hzero, -⟩ | ⟨-, hblock⟩
        · exact absurd hzero ‹_›
        · exact ih hstep hblock.ok htake

/-- No region starts inside of another one, so nothing is freed there. -/
theorem AllocOk.freePagesAt_inside {r : MemoryRegion} {phys : Nat} (h : AllocOk a)
    (hr : r ∈ a.freeList) (hlo : r.start < phys) (hhi : phys < r.stop) (n : Nat) :
    a.freePagesAt phys n = a := by
  unfold PhysAllocator.freePagesAt
  split
  · rfl
  · cases hfree : freeIn phys none a.freeList with
    | none => rfl
    | some out =>
      obtain ⟨l₁, p, q, l₂, hl, hstart, -, -⟩ := freeIn_cases hfree
      rw [Option.toList_none, List.nil_append] at hl
      have hq : q ∈ a.freeList := by simp [hl]
      have hpos := (h.ok q hq).pos
      have hstop : q.stop = q.start + q.size := rfl
      have hqr := h.asc.eq_of_overlap hq hr (x := phys) ⟨by omega, by omega⟩ ⟨by omega, hhi⟩
      rw [hqr] at hstart
      omega

end Allocator

/-! ### A new block -/

/-- The page count of the block fits into 32 bits, and when there is a block, there are pages for
the tables that are missing on the way to it. -/
def PagesSuffice (s : VmState) (virt size : Nat) : Prop :=
  pagesOf size < 2 ^ 32 ∧ ((blockOf s.vm.alloc size).1 ≠ 0 → TablesFor s virt size (pagesOf size))

/-- From `s` to `s'` the address space got a block of `n` pages. -/
structure BlockAdded (s : Vm) (as : AddressSpace) (T : Tables) (virt phys n flags : Nat) (s' : Vm)
    (T' : Tables) : Prop where
  inv : VmInv s' as T'
  bound : AllocBound s'.alloc
  ne_zero : phys ≠ 0
  dvd : PAGE_SIZE_4K ∣ phys
  below : phys + n * PAGE_SIZE_4K ≤ IDENTITY_BRIDGE_ALLOC_MAX
  pages : ∀ page, resolve s'.mem T' page =
    if virt / PAGE_SIZE_4K ≤ page ∧ page < virt / PAGE_SIZE_4K + n then
      some (phys + (page - virt / PAGE_SIZE_4K) * PAGE_SIZE_4K, pageFlags flags)
    else resolve s.mem T page
  free : FreeAt s.alloc phys
  region : ∃ r ∈ s'.alloc.freeList, r.used = true ∧ r.start = phys ∧ n * PAGE_SIZE_4K ≤ r.size ∧
    ∀ p ∈ s'.tables, ¬ (r.start ≤ p ∧ p < r.stop)
  kept : ∀ r ∈ s.alloc.freeList, r.used = true → r ∈ s'.alloc.freeList
  new : ∀ r ∈ s'.alloc.freeList, r.used = true →
    r ∈ s.alloc.freeList ∨ r.start = phys ∨ r.start ∈ s'.tables
  tables : ∀ p ∈ s'.tables, p ∈ s.tables ∨ FreeAt s.alloc p
  subset : ∀ p ∈ s.tables, p ∈ s'.tables

section Calls

variable {s : Vm} {as : AddressSpace} {T : Tables} {virt size : Nat}

/-- `allocate_user_pages` with enough pages for tables: no trace, or a block. -/
theorem allocateUserPages_spec (flags : Nat) (h : VmInv s as T) (hbound : AllocBound s.alloc)
    (hvirt : PAGE_SIZE_4K ∣ virt) (hlo : USER_IMAGE_BASE ≤ virt)
    (hhi : virt + pageCount size * PAGE_SIZE_4K ≤ USER_MAP_LIMIT) (hsize : size < U64)
    (h0 : size ≠ 0) (hsuffice : PagesSuffice ⟨s, as⟩ virt size) :
    s.allocateUserPages as virt size flags = (0, s) ∨
      ∃ phys s' T', s.allocateUserPages as virt size flags = (phys, s') ∧
        BlockAdded s as T virt phys (pageCount size) flags s' T' := by
  have h : VmInv (⟨s, as⟩ : VmState).vm (⟨s, as⟩ : VmState).as T := h
  by_cases hno : (blockOf s.alloc size).1 = 0
  · exact .inl (allocateUserPages_no_block virt h hbound flags (.inr hno))
  obtain ⟨hcount, htables⟩ := hsuffice
  have hpages : pagesOf size ≠ 0 := fun hcon => hno (by rw [blockOf, hcon]; rfl)
  obtain ⟨hn, -⟩ := pagesOf_eq hsize hpages
  have hblock : BlockTaken s.alloc (blockOf s.alloc size).2 (blockOf s.alloc size).1
      (pagesOf size % 2 ^ 32) := by
    rcases blockOf_spec h hbound size with ⟨hcon, -⟩ | ⟨-, hblock⟩
    · exact absurd hcon hno
    · exact hblock
  rw [Nat.mod_eq_of_lt hcount] at hblock
  have hend : virt / PAGE_SIZE_4K + pagesOf size ≤ USER_MAP_LIMIT / PAGE_SIZE_4K := by
    rw [hn]
    unfold PAGE_SIZE_4K USER_MAP_LIMIT at *
    omega
  obtain ⟨s', k, ho⟩ := allocateUserPages_outcome h flags hvirt hlo hend hcount hsize h0 hno hblock
    hpages
  obtain rfl : k = pagesOf size :=
    Nat.le_antisymm ho.le ((ho.tables _ (Nat.le_refl _)).mp (htables hno))
  have hcall := ho.result
  rw [if_pos rfl] at hcall
  obtain ⟨e, hgrown⟩ := ho.grown
  obtain ⟨T', hinv, hres⟩ := ho.inv
  have hfree : FreeAt s.alloc (blockOf s.alloc size).1 :=
    hblock.free _ (Nat.le_refl _) (Nat.lt_add_of_pos_right
      (Nat.mul_pos (Nat.pos_of_ne_zero hpages) (by decide)))
  refine .inr ⟨_, s', T', hcall, hinv, ?_, hno, hblock.dvd, hn ▸ hblock.below, hn ▸ hres, hfree, ?_,
    fun r hr hu => hgrown.kept r (hblock.kept r hr hu) hu, fun r hr hu => ?_, fun p hp => ?_,
    hgrown.subset⟩
  · have hcut : pagesOf size % 2 ^ 32 < 2 ^ 32 := Nat.mod_lt _ (by decide)
    exact (hbound.allocateBlock h.alloc hcut).takeTables hblock.ok hgrown.taken
  · obtain ⟨r, hr, hu, hstart, hle⟩ := hblock.region
    refine ⟨r, hgrown.kept r hr hu, hu, hstart, hn ▸ hle, fun p hp hin => ?_⟩
    rcases hgrown.tables p hp with hold | hnew
    · -- An old table lies in a region that was in use, and that is not the block's.
      obtain ⟨q, hq, hqu, hqp⟩ := h.used p hold
      have hqr := hblock.ok.asc.eq_of_overlap (hblock.kept q hq hqu) hr hqp hin
      refine h.alloc.not_used hfree ⟨q, hq, hqu, ?_⟩
      rw [hqr, hstart]
      have hpos := (hblock.ok.ok r hr).pos
      unfold MemoryRegion.stop
      omega
    · exact hblock.ok.not_used (hnew p (Nat.le_refl _) (Nat.lt_add_of_pos_right (by decide)))
        ⟨r, hr, hu, hin⟩
  · rcases hgrown.new r hr hu with hold | ⟨htable, -⟩
    · exact (hblock.new r hold hu).imp_right .inl
    · exact .inr (.inr htable)
  · rcases hgrown.tables p hp with hold | hnew
    · exact .inl hold
    · exact .inr (hblock.freeAt _ (hnew p (Nat.le_refl _) (Nat.lt_add_of_pos_right (by decide))))

/-! ### Giving a block back -/

/-- Unmapping a page clears one word at most. -/
theorem unmapPage_eq (s : Vm) (as : AddressSpace) (addr : Nat) :
    ∃ m, s.unmapPage as addr = { s with mem := m } := by
  simp only [Vm.unmapPage]
  split_ifs
  · exact ⟨s.mem, rfl⟩
  · exact ⟨s.mem, rfl⟩
  · exact ⟨s.mem, rfl⟩
  · exact ⟨_, rfl⟩

theorem unmapPages_eq (s : Vm) (as : AddressSpace) (addr n : Nat) :
    ∃ m, s.unmapPages as addr n = { s with mem := m } := by
  induction n generalizing s addr with
  | zero => exact ⟨s.mem, rfl⟩
  | succ n ih =>
    obtain ⟨m, hm⟩ := unmapPage_eq s as addr
    obtain ⟨m', hm'⟩ := ih { s with mem := m } (addr + PAGE_SIZE_4K)
    refine ⟨m', ?_⟩
    rw [Vm.unmapPages, hm, hm']

/-- Unmapping changes neither the allocator nor the list of tables. -/
theorem unmapRange_eq (s : Vm) (as : AddressSpace) (virt size : Nat) :
    ∃ m, s.unmapRange as virt size = { s with mem := m } := by
  unfold Vm.unmapRange
  split
  · exact ⟨s.mem, rfl⟩
  · exact unmapPages_eq s as _ _

/-- What the address space and the allocator are when a block was unmapped and given back. -/
structure BlockGone (s : Vm) (as : AddressSpace) (T : Tables) (virt phys size : Nat) (s' : Vm) :
    Prop where
  inv : VmInv s' as T
  bound : AllocBound s'.alloc
  tables : s'.tables = s.tables
  pages : ∀ page, resolve s'.mem T page =
    if virt / PAGE_SIZE_4K ≤ page ∧ page < virt / PAGE_SIZE_4K + pageCount size then none
    else resolve s.mem T page
  used : ∀ m : MemoryRegion, m.used = true →
    (m ∈ s'.alloc.freeList ↔ m ∈ s.alloc.freeList ∧ m.start ≠ phys)

/-- The pages of a range that starts at a page. -/
theorem page_in_range {page : Nat} (hvirt : PAGE_SIZE_4K ∣ virt) (_ : size ≠ 0) :
    (size ≠ 0 ∧ virt / PAGE_SIZE_4K ≤ page ∧ page * PAGE_SIZE_4K < virt + size) ↔
      virt / PAGE_SIZE_4K ≤ page ∧ page < virt / PAGE_SIZE_4K + pageCount size := by
  obtain ⟨c, rfl⟩ := hvirt
  unfold pageCount PAGE_SIZE_4K
  omega

theorem unmapRange_release {phys n : Nat} (h : VmInv s as T) (hbound : AllocBound s.alloc)
    (hvirt : PAGE_SIZE_4K ∣ virt) (hlo : USER_IMAGE_BASE ≤ virt)
    (hhi : virt + size ≤ USER_MAP_LIMIT) (h0 : size ≠ 0) (hphys : phys ≠ 0) (hn : n ≠ 0)
    (hregion : ∃ r ∈ s.alloc.freeList, r.used = true ∧ r.start = phys ∧
      ∀ p ∈ s.tables, ¬ (r.start ≤ p ∧ p < r.stop)) :
    BlockGone s as T virt phys size
      { s.unmapRange as virt size with alloc := s.alloc.freePagesAt phys n } := by
  obtain ⟨hinv, hres⟩ := unmapRange_spec h hlo hhi
  obtain ⟨m, hm⟩ := unmapRange_eq s as virt size
  have htables : (s.unmapRange as virt size).tables = s.tables := by rw [hm]
  obtain ⟨r, hr, hu, hstart, hclear⟩ := hregion
  have hused := h.alloc.freePagesAt_used hphys hn ⟨r, hr, hu, hstart⟩
  refine ⟨⟨hinv.tree, h.alloc.freePagesAt phys n, fun p hp => ?_, hinv.owned⟩,
    hbound.freePagesAt h.alloc phys n, htables, fun page => ?_, hused⟩
  · -- The region of a table is another one than that of the block.
    have hp : p ∈ s.tables := htables ▸ hp
    obtain ⟨q, hq, hqu, hqp⟩ := h.used p hp
    refine ⟨q, (hused q hqu).mpr ⟨hq, fun heq => ?_⟩, hqu, hqp⟩
    have hrpos := (h.alloc.ok r hr).pos
    have hqpos := (h.alloc.ok q hq).pos
    have hstopr : r.stop = r.start + r.size := rfl
    have hstopq : q.stop = q.start + q.size := rfl
    have hqr := h.alloc.asc.eq_of_overlap hq hr (x := phys) ⟨by omega, by omega⟩
      ⟨by omega, by omega⟩
    exact hclear p hp (hqr ▸ hqp)
  · show resolve (s.unmapRange as virt size).mem T page = _
    rw [hres, if_congr (page_in_range hvirt h0) rfl rfl]

/-! ### Changing the protection -/

/-- The physical page behind a page. -/
def frame (m : Words) (T : Tables) (page : Nat) : Option Nat := (resolve m T page).map Prod.fst

/-- The address bits of an entry are those of a page. -/
theorem frame_page {m : Words} {page f : Nat} (hf : frame m T page = some f) :
    alignDown f PAGE_SIZE_4K &&& PA_MASK = f := by
  unfold frame resolve at hf
  split at hf
  · cases hf
  · unfold leafOf at hf
    split at hf
    · cases hf
    · obtain rfl := Option.some.inj hf
      rw [alignDown_PA, Nat.and_assoc, Nat.and_self]

/-- `map_page` of a user page to where it is. -/
theorem mapPage_frames {f : Nat} (flags : Nat) (h : VmInv s as T)
    (huser : UserKey 0 (virt / PAGE_SIZE_4K))
    (hf : frame s.mem T (virt / PAGE_SIZE_4K) = some f) :
    ∃ T' e, VmInv (s.mapPage as virt (alignDown f PAGE_SIZE_4K) flags).2 as T' ∧
      Grown s (s.mapPage as virt (alignDown f PAGE_SIZE_4K) flags).2 e ∧
      ∀ page, frame (s.mapPage as virt (alignDown f PAGE_SIZE_4K) flags).2.mem T' page =
        frame s.mem T page := by
  have hfp := frame_page hf
  by_cases hgood : alignDown f PAGE_SIZE_4K ≠ 0 ∧ isAligned virt PAGE_SIZE_4K = true
  · rcases mapPage_cases flags h huser hgood.1 hgood.2 (isAligned_alignDown f) with
      ⟨s', T', e, hcall, -, hinv, hgrown, hres⟩ | ⟨s', T', hcall, hinv, hgrown, -, hres⟩
    · rw [hcall]
      exact ⟨T', e, hinv, hgrown, fun page => by rw [frame, hres, frame]⟩
    · rw [hcall]
      refine ⟨T', _, hinv, hgrown, fun page => ?_⟩
      rw [frame, hres]
      by_cases heq : page = virt / PAGE_SIZE_4K
      · rw [if_pos heq, heq, hf, Option.map_some, hfp]
      · rw [if_neg heq, frame]
  · have hfail : s.mapPage as virt (alignDown f PAGE_SIZE_4K) flags = (false, s) := by
      unfold Vm.mapPage
      by_cases hnull : as.pml4Phys = 0 ∨ alignDown f PAGE_SIZE_4K = 0
      · rw [if_pos hnull]
      · rw [not_or] at hnull
        rw [if_neg (not_or.mpr hnull),
          if_pos (.inl fun haligned => hgood ⟨hnull.2, haligned⟩)]
    rw [hfail]
    exact ⟨T, 0, h, Grown.refl s, fun _ => rfl⟩

/-- The loop of `protect_process_mapping` on user pages. -/
theorem protectPages_frames {page₀ i n : Nat} (flags : Nat) (h : VmInv s as T)
    (huser : ∀ j, j < n → UserKey 0 (page₀ + i + j)) :
    ∃ T' e, VmInv (s.protectPages as (page₀ * PAGE_SIZE_4K) flags (i * PAGE_SIZE_4K) n).2 as T' ∧
      Grown s (s.protectPages as (page₀ * PAGE_SIZE_4K) flags (i * PAGE_SIZE_4K) n).2 e ∧
      ∀ page, frame (s.protectPages as (page₀ * PAGE_SIZE_4K) flags (i * PAGE_SIZE_4K) n).2.mem T'
        page = frame s.mem T page := by
  induction n generalizing s T i with
  | zero => exact ⟨T, 0, h, Grown.refl s, fun _ => rfl⟩
  | succ n ih =>
    have hfirst := huser 0 (Nat.zero_lt_succ _)
    rw [Nat.add_zero] at hfirst
    have haddr : add64 (page₀ * PAGE_SIZE_4K) (i * PAGE_SIZE_4K) = (page₀ + i) * PAGE_SIZE_4K := by
      rw [add64_eq, ← Nat.add_mul]
      rw [← Nat.add_mul, U64_eq]
      rw [userKey_zero] at hfirst
      unfold PAGE_SIZE_4K USER_MAP_LIMIT at *
      omega
    have hpage : (page₀ + i) * PAGE_SIZE_4K / PAGE_SIZE_4K = page₀ + i :=
      Nat.mul_div_cancel _ (by decide)
    have hoff : (page₀ + i) * PAGE_SIZE_4K % PAGE_SIZE_4K = 0 := Nat.mul_mod_left _ _
    have hnext : i * PAGE_SIZE_4K + PAGE_SIZE_4K = (i + 1) * PAGE_SIZE_4K := by
      rw [Nat.add_mul, Nat.one_mul]
    have hlook : debugResolve s.mem as ((page₀ + i) * PAGE_SIZE_4K) = _ :=
      debugResolve_eq h.tree (by rw [hpage]; exact hfirst)
    rw [hpage, hoff] at hlook
    rw [Vm.protectPages, haddr, hlook, hnext]
    cases hres : resolve s.mem T (page₀ + i) with
    | none => exact ⟨T, 0, h, Grown.refl s, fun _ => rfl⟩
    | some out =>
      obtain ⟨f, bits⟩ := out
      have hf : frame s.mem T ((page₀ + i) * PAGE_SIZE_4K / PAGE_SIZE_4K) = some f := by
        rw [hpage, frame, hres]
        rfl
      obtain ⟨T₁, e₁, hinv₁, hgrown₁, hframe₁⟩ :=
        mapPage_frames flags h (by rw [hpage]; exact hfirst) hf
      simp only [Option.map_some, Nat.add_zero]
      generalize s.mapPage as ((page₀ + i) * PAGE_SIZE_4K) (alignDown f PAGE_SIZE_4K) flags =
        out at hinv₁ hgrown₁ hframe₁ ⊢
      obtain ⟨ok, s₁⟩ := out
      cases ok with
      | false => exact ⟨T₁, e₁, hinv₁, hgrown₁, hframe₁⟩
      | true =>
        obtain ⟨T₂, e₂, hinv₂, hgrown₂, hframe₂⟩ := ih (i := i + 1) hinv₁ fun j hj => by
          rw [show page₀ + (i + 1) + j = page₀ + i + (j + 1) by omega]
          exact huser (j + 1) (Nat.succ_lt_succ hj)
        exact ⟨T₂, _, hinv₂, hgrown₁.trans hgrown₂,
          fun page => (hframe₂ page).trans (hframe₁ page)⟩

/-- `protect_process_mapping` on user addresses leaves every page where it is. -/
theorem protectProcessMapping_spec (prot : Nat) (h : VmInv s as T) (hlo : USER_IMAGE_BASE ≤ virt)
    (hhi : virt + size ≤ USER_MAP_LIMIT) :
    ∃ T' e, VmInv (s.protectProcessMapping as virt size prot).2 as T' ∧
      Grown s (s.protectProcessMapping as virt size prot).2 e ∧
      ∀ page, frame (s.protectProcessMapping as virt size prot).2.mem T' page =
        frame s.mem T page := by
  unfold Vm.protectProcessMapping
  split
  · exact ⟨T, 0, h, Grown.refl s, fun _ => rfl⟩
  · have hvirt : virt < U64 := by
      rw [U64_eq]
      unfold USER_MAP_LIMIT at hhi
      omega
    have hcount : protectCount virt size = pageCount (virt % PAGE_SIZE_4K + size) := by
      refine protectCount_eq hvirt ?_
      rw [U64_eq]
      unfold PAGE_SIZE_4K USER_MAP_LIMIT at *
      omega
    have hdown : alignDown virt PAGE_SIZE_4K = virt / PAGE_SIZE_4K * PAGE_SIZE_4K :=
      alignDown_eq (k := 12) hvirt (by decide)
    rw [hcount, hdown, show (0 : Nat) = 0 * PAGE_SIZE_4K from (Nat.zero_mul _).symm]
    refine protectPages_frames _ h fun j hj => ?_
    rw [userKey_zero]
    unfold pageCount PAGE_SIZE_4K USER_IMAGE_BASE USER_MAP_LIMIT at *
    omega

end Calls

end VKernel.Proofs.Memory

import VKernel.Proofs.Memory.VirtualMemory

/-!
# `VKernel.Proofs.Memory.UserPages`: how far `allocate_user_pages` gets

`allocate_user_pages` takes a block of physical pages, clears it and maps it. `mapPages_outcome`
says how far the mapping gets: as far as the allocator has pages for the tables that are missing
on the way (`Proofs/Memory/TableSupply.lean`). `allocateUserPages_outcome` puts the call together
for a range in the user range. When mapping fails the block is given back, but the pages before
the one that failed stay mapped to it.
-/

set_option autoImplicit false
set_option maxRecDepth 20000

namespace VKernel.Proofs.Memory

open VKernel.Memory VKernel.Lib

/-! ### Tables and pages -/

/-- The table that is `depth` levels below the PML4 on the way to a key of that level. -/
def tableAt (m : Words) (as : AddressSpace) : Nat → Nat → Option Nat
  | 0, _ => some (tableFromPhys as.pml4Phys)
  | depth + 1, key =>
    (tableAt m as depth (key / 512)).bind fun table =>
      if m (slot table (key % 512)) &&& PTE_PRESENT = 0 then none
      else some (tableFromPhys (m (slot table (key % 512))))

/-- There is a table of level `n` with this key. -/
def tableThere (m : Words) (as : AddressSpace) (n key : Nat) : Bool :=
  (tableAt m as (4 - n) key).isSome

/-- The pages that `allocate_user_pages` maps. -/
def pagesOf (size : Nat) : Nat := alignUp size PAGE_SIZE_4K / PAGE_SIZE_4K

/-- The answer of the allocator to the request for the block. -/
def blockOf (a : PhysAllocator) (size : Nat) : Nat × PhysAllocator :=
  a.allocatePages (blockRequest (pagesOf size % 2 ^ 32))

/-- After the block is taken, the allocator has a page for each table that is missing on the way
to the first `n` pages. -/
def TablesFor (s : VmState) (virt size n : Nat) : Prop :=
  (takeTables (missingTables (tableThere s.vm.mem s.as) (virt / PAGE_SIZE_4K) n)
    (blockOf s.vm.alloc size).2).isSome = true

/-! ### Steps -/

section Steps

variable {s : Vm} {as : AddressSpace} {T : Tables}

/-- The walk through memory finds the tables of the tree. -/
theorem PageTree.tableAt_eq {m : Words} {root : Nat} {tables : List Nat} {n k : Nat}
    (h : PageTree m root tables T) (hroot : root = as.pml4Phys) (h1 : 1 ≤ n) (h3 : n ≤ 3)
    (hk : UserKey n k) : tableAt m as (4 - n) k = T n k := by
  have hchild : ∀ {n k}, 1 ≤ n → n ≤ 3 → UserKey n k →
      tableAt m as (4 - (n + 1)) (k / 512) = T (n + 1) (k / 512) →
      tableAt m as (4 - n) k = T n k := by
    intro n k h1 h3 hk hparent
    have hdepth : 4 - n = 4 - (n + 1) + 1 := by omega
    rw [hdepth, tableAt, hparent]
    cases hp : T (n + 1) (k / 512) with
    | none =>
      have hlink := h.link n k h1 h3 hk
      rw [parentEntry, hp] at hlink
      cases hT : T n k with
      | none => rfl
      | some c =>
        rw [hT] at hlink
        exact absurd (Nat.zero_and _) hlink.1
    | some p =>
      have hentry := h.entry h1 h3 hk hp
      rw [Option.bind_some]
      cases hT : T n k with
      | none =>
        rw [hT] at hentry
        exact if_pos hentry
      | some c =>
        rw [hT] at hentry
        rw [if_neg hentry.1, tableFromPhys, hentry.2.2]
  have h4 : ∀ {k}, UserKey 3 k → tableAt m as 1 k = T 3 k := by
    intro k hk
    refine hchild (by decide) (Nat.le_refl 3) hk ?_
    have hzero : k / 512 = 0 := by
      unfold UserKey at hk
      omega
    rw [hzero, h.root, tableAt, ← hroot, tableFromPhys,
      page_and_PA_MASK (h.table _ _ _ h.root).2]
  have h5 : ∀ {k}, UserKey 2 k → tableAt m as 2 k = T 2 k := fun hk =>
    hchild (by decide) (by decide) hk (h4 (hk.parent (by decide)))
  obtain rfl | rfl | rfl : n = 1 ∨ n = 2 ∨ n = 3 := by omega
  · exact hchild (by decide) (by decide) hk (h5 (hk.parent (by decide)))
  · exact h5 hk
  · exact h4 hk

/-- The tree only depends on the words of its tables. -/
theorem PageTree.of_agree {m m' : Words} {root : Nat} {tables : List Nat}
    (h : PageTree m root tables T)
    (hsame : ∀ p ∈ tables, TableOk p → ∀ j < 512, m' (slot p j) = m (slot p j)) :
    PageTree m' root tables T ∧ ∀ page, resolve m' T page = resolve m T page := by
  have hword : ∀ {n k p j}, T n k = some p → j < 512 → m' (slot p j) = m (slot p j) :=
    fun hp hj => hsame _ (h.table _ _ _ hp).1 (h.table _ _ _ hp).2 _ hj
  have hmod : ∀ x : Nat, x % 512 < 512 := fun x => Nat.mod_lt _ (by decide)
  refine ⟨h.congr fun n k p h1 h3 hk hp => ?_, fun page => ?_⟩
  · rw [hword hp (hmod k)]
    exact h.entry h1 h3 hk hp
  · unfold resolve
    cases hT : T 1 (page / 512) with
    | none => rfl
    | some pt =>
      simp only
      rw [hword hT (hmod page)]

/-- A used page is used to its end. -/
theorem AllocOk.usedAt_page {a : PhysAllocator} {p x : Nat} (h : AllocOk a) (hp : UsedAt a p)
    (hdvd : PAGE_SIZE_4K ∣ p) (hx : p ≤ x) (hx' : x < p + PAGE_SIZE_4K) : UsedAt a x := by
  obtain ⟨r, hr, hu, hle, hlt⟩ := hp
  refine ⟨r, hr, hu, Nat.le_trans hle hx, ?_⟩
  obtain ⟨c, hc⟩ := Nat.dvd_add (h.start r hr) (h.size r hr)
  obtain ⟨d, rfl⟩ := hdvd
  unfold MemoryRegion.stop at hlt ⊢
  rw [hc] at hlt ⊢
  have hcd : d < c := Nat.lt_of_mul_lt_mul_left hlt
  exact Nat.lt_of_lt_of_le hx' (Nat.mul_le_mul_left PAGE_SIZE_4K hcd)

/-- Clearing a new block touches no table. -/
theorem VmInv.clearBlock {a : PhysAllocator} {phys n : Nat} (h : VmInv s as T)
    (hblock : BlockTaken s.alloc a phys n) :
    VmInv { s with alloc := a, mem := zeroBytes s.mem phys (n * PAGE_SIZE_4K) } as T ∧
      ∀ page, resolve (zeroBytes s.mem phys (n * PAGE_SIZE_4K)) T page = resolve s.mem T page := by
  have hagree : ∀ p ∈ s.tables, TableOk p → ∀ j < 512,
      zeroBytes s.mem phys (n * PAGE_SIZE_4K) (slot p j) = s.mem (slot p j) := by
    intro p hp hok j hj
    refine if_neg fun hin => ?_
    have hused : UsedAt s.alloc (slot p j) := h.alloc.usedAt_page (h.used p hp) hok.dvd
      (Nat.le_add_right p _) (by unfold slot PAGE_SIZE_4K; omega)
    exact h.alloc.not_used (hblock.free _ hin.1 hin.2) hused
  obtain ⟨htree, hres⟩ := h.tree.of_agree hagree
  exact ⟨⟨htree, hblock.ok, fun p hp => hblock.usedAt (h.used p hp), h.owned⟩, hres⟩

/-- After a block is given back, the used regions are the others. -/
theorem AllocOk.freePagesAt_used {a : PhysAllocator} {phys n : Nat} (h : AllocOk a)
    (hphys : phys ≠ 0) (hn : n ≠ 0) (hr : ∃ r ∈ a.freeList, r.used = true ∧ r.start = phys)
    (m : MemoryRegion) (hm : m.used = true) :
    m ∈ (a.freePagesAt phys n).freeList ↔ m ∈ a.freeList ∧ m.start ≠ phys := by
  obtain ⟨r, hr, hu, hstart⟩ := hr
  unfold PhysAllocator.freePagesAt
  rw [if_neg (by rw [not_or]; exact ⟨hphys, hn⟩)]
  cases hfree : freeIn phys none a.freeList with
  | none => exact absurd hfree (freeIn_ne_none hr hstart hu none)
  | some out =>
    have hall : RegionsOk (RegionsCover a.freeList) a.freeList := ⟨h.asc, h.ok, fun _ => Iff.rfl⟩
    exact (freeIn_spec hall hfree).2 m hm

/-- How far the loop of `map_contiguous` gets: to the first page for which there is no table. -/
theorem mapPages_outcome {virt phys i n : Nat} (flags : Nat) (h : VmInv s as T)
    (hvirt : PAGE_SIZE_4K ∣ virt) (hdvd : PAGE_SIZE_4K ∣ phys) (hpos : 0 < phys)
    (hbelow : phys + (i + n) * PAGE_SIZE_4K ≤ IDENTITY_BRIDGE_ALLOC_MAX)
    (huser : ∀ j, j < n → UserKey 0 (virt / PAGE_SIZE_4K + i + j)) :
    ∃ s' T' k e, s.mapPages as virt phys flags (i * PAGE_SIZE_4K) n = (decide (k = n), s') ∧
      k ≤ n ∧ VmInv s' as T' ∧ Grown s s' e ∧
      (∀ j ≤ n, (takeTables (missingTables (hasTable T) (virt / PAGE_SIZE_4K + i) j)
        s.alloc).isSome = true ↔ j ≤ k) ∧
      ∀ page, resolve s'.mem T' page =
        if virt / PAGE_SIZE_4K + i ≤ page ∧ page < virt / PAGE_SIZE_4K + i + k then
          some (phys + (page - virt / PAGE_SIZE_4K) * PAGE_SIZE_4K, pageFlags flags)
        else resolve s.mem T page := by
  induction n generalizing s T i with
  | zero =>
    refine ⟨s, T, 0, 0, rfl, Nat.le_refl 0, h, Grown.refl s, fun j hj => ?_, fun page => ?_⟩
    · obtain rfl : j = 0 := Nat.le_zero.mp hj
      exact ⟨fun _ => Nat.le_refl 0, fun _ => rfl⟩
    · rw [if_neg (by omega)]
  | succ n ih =>
    have hfirst := huser 0 (Nat.zero_lt_succ _)
    rw [Nat.add_zero] at hfirst
    have hpage : (virt + i * PAGE_SIZE_4K) / PAGE_SIZE_4K = virt / PAGE_SIZE_4K + i :=
      Nat.add_mul_div_right _ _ (by decide)
    have hvirt' : add64 virt (i * PAGE_SIZE_4K) = virt + i * PAGE_SIZE_4K := by
      refine add64_eq ?_
      rw [userKey_zero] at hfirst
      rw [U64_eq]
      unfold PAGE_SIZE_4K USER_MAP_LIMIT at *
      omega
    have hstart : TableOk (phys + i * PAGE_SIZE_4K) := by
      refine ⟨Nat.dvd_add hdvd (Nat.dvd_mul_left _ _), by omega, ?_⟩
      unfold PAGE_SIZE_4K at *
      omega
    have hphys' : add64 phys (i * PAGE_SIZE_4K) = phys + i * PAGE_SIZE_4K := by
      refine add64_eq (Nat.lt_trans hstart.lt ?_)
      rw [U64_eq]
      decide
    have hoff : i * PAGE_SIZE_4K + PAGE_SIZE_4K = (i + 1) * PAGE_SIZE_4K := by
      rw [Nat.add_mul, Nat.one_mul]
    have hnext : virt / PAGE_SIZE_4K + (i + 1) = virt / PAGE_SIZE_4K + i + 1 := by omega
    rw [← hpage] at hfirst
    have hcases := mapPage_cases flags h hfirst
      (Nat.ne_of_gt hstart.pos)
      ((isAligned_iff _).mpr (Nat.mod_eq_zero_of_dvd (Nat.dvd_add hvirt (Nat.dvd_mul_left _ _))))
      ((isAligned_iff _).mpr (Nat.mod_eq_zero_of_dvd hstart.dvd))
    rw [hpage, page_and_PA_MASK hstart] at hcases
    rw [Vm.mapPages, hvirt', hphys', hoff]
    rcases hcases with ⟨s₁, T₁, e, hcall, htake, hinv, hgrown, hres⟩ |
      ⟨s₁, T₁, hcall, hinv, hgrown, hhas, hres⟩
    · -- No table for the first page.
      rw [hcall]
      refine ⟨s₁, T₁, 0, e, by simp, Nat.zero_le _, hinv, hgrown, fun j hj => ?_, fun page => ?_⟩
      · cases j with
        | zero => exact ⟨fun _ => Nat.le_refl 0, fun _ => rfl⟩
        | succ j =>
          have hnone : takeTables (missingTables (hasTable T) (virt / PAGE_SIZE_4K + i) (j + 1))
              s.alloc = none :=
            takeTables_none htake (Nat.le_add_right _ _)
          rw [hnone]
          exact ⟨fun hcon => absurd hcon Bool.false_ne_true, fun hcon => by omega⟩
      · rw [if_neg (by omega), hres]
    · rw [hcall]
      obtain ⟨s₂, T₂, k, e, hrest, hk, hinv₂, hgrown₂, htake₂, hres₂⟩ := ih (i := i + 1) hinv
        (by rwa [show i + 1 + n = i + (n + 1) by omega])
        (fun j hj => by
          rw [hnext, Nat.add_right_comm, Nat.add_assoc]
          exact huser (j + 1) (Nat.succ_lt_succ hj))
      rw [hnext, hhas] at htake₂
      refine ⟨s₂, T₂, k + 1, _, ?_, Nat.succ_le_succ hk, hinv₂, hgrown.trans hgrown₂,
        fun j hj => ?_, fun page => ?_⟩
      · show s₁.mapPages as virt phys flags ((i + 1) * PAGE_SIZE_4K) n = _
        rw [hrest]
        simp
      · cases j with
        | zero => exact ⟨fun _ => Nat.zero_le _, fun _ => rfl⟩
        | succ j =>
          rw [missingTables, takeTables_add, hgrown.taken, Option.bind_some,
            htake₂ j (Nat.le_of_succ_le_succ hj)]
          omega
      · rw [hres₂]
        by_cases hin : virt / PAGE_SIZE_4K + (i + 1) ≤ page ∧
            page < virt / PAGE_SIZE_4K + (i + 1) + k
        · rw [if_pos hin, if_pos (by omega)]
        · rw [if_neg hin, hres]
          by_cases heq : page = virt / PAGE_SIZE_4K + i
          · rw [if_pos heq, if_pos (by omega), heq, Nat.add_sub_cancel_left]
          · rw [if_neg heq, if_neg (by omega)]

end Steps

/-! ### The call -/

/-- A page count that is not 0 was not wrapped. -/
theorem pagesOf_eq {size : Nat} (hsize : size < U64) (hn : pagesOf size ≠ 0) :
    pagesOf size = pageCount size ∧ alignUp size PAGE_SIZE_4K = pageCount size * PAGE_SIZE_4K := by
  have hroom : size + 2 ^ 12 ≤ U64 := by
    refine Nat.le_of_not_lt fun hcon => hn ?_
    have hzero : alignUp size PAGE_SIZE_4K = 0 := alignUp_wrapped (by decide) hsize hcon
    rw [pagesOf, hzero, Nat.zero_div]
  have hround : alignUp size PAGE_SIZE_4K = pageCount size * PAGE_SIZE_4K :=
    alignUp_eq (by decide) hroom
  refine ⟨?_, hround⟩
  rw [pagesOf, hround]
  exact Nat.mul_div_cancel _ (by decide)

section Call

variable {s : VmState} {T : Tables} {virt size : Nat}

/-- Physical addresses have 52 bits, so no request for a block wraps. -/
theorem blockOf_spec (h : VmInv s.vm s.as T) (hmem : ∀ r ∈ s.vm.alloc.freeList, r.stop ≤ 2 ^ 52)
    (size : Nat) :
    (blockOf s.vm.alloc size).1 = 0 ∧ (blockOf s.vm.alloc size).2 = s.vm.alloc ∨
      (blockOf s.vm.alloc size).1 ≠ 0 ∧ BlockTaken s.vm.alloc (blockOf s.vm.alloc size).2
        (blockOf s.vm.alloc size).1 (pagesOf size % 2 ^ 32) := by
  have hcount : pagesOf size % 2 ^ 32 < 2 ^ 32 := Nat.mod_lt _ (by decide)
  refine allocateBlock_spec h.alloc hcount (fun r hr => ?_) rfl
  have hstop := hmem r hr
  unfold MemoryRegion.stop at hstop
  rw [U64_eq]
  unfold PAGE_SIZE_4K
  omega

/-- A call that gets no block changes nothing. -/
theorem allocateUserPages_no_block (virt : Nat) (h : VmInv s.vm s.as T)
    (hmem : ∀ r ∈ s.vm.alloc.freeList, r.stop ≤ 2 ^ 52) (flags : Nat)
    (hno : size = 0 ∨ (blockOf s.vm.alloc size).1 = 0) :
    s.vm.allocateUserPages s.as virt size flags = (0, s.vm) := by
  unfold Vm.allocateUserPages
  by_cases h0 : size = 0 ∨ ¬ isAligned virt PAGE_SIZE_4K = true
  · rw [if_pos h0]
  rw [if_neg h0]
  have hblock := hno.resolve_left fun hcon => h0 (.inl hcon)
  have hsame : (blockOf s.vm.alloc size).2 = s.vm.alloc := by
    rcases blockOf_spec h hmem size with ⟨-, hsame⟩ | ⟨hne, -⟩
    · exact hsame
    · exact absurd hblock hne
  change (if (blockOf s.vm.alloc size).1 = 0 then
    (0, { s.vm with alloc := (blockOf s.vm.alloc size).2 }) else _) = _
  rw [if_pos hblock, hsame]

/-- A call that gets its block maps it, and gives it back when that fails. -/
theorem allocateUserPages_block (s : Vm) (as : AddressSpace) (flags : Nat) (h0 : size ≠ 0)
    (halign : isAligned virt PAGE_SIZE_4K = true) (hphys : (blockOf s.alloc size).1 ≠ 0) :
    s.allocateUserPages as virt size flags =
      let out := ({ s with
        alloc := (blockOf s.alloc size).2
        mem := zeroBytes s.mem (blockOf s.alloc size).1
          (alignUp size PAGE_SIZE_4K) } : Vm).mapContiguous
          as virt (blockOf s.alloc size).1 (alignUp size PAGE_SIZE_4K) flags
      if out.1 = true then ((blockOf s.alloc size).1, out.2)
      else (0, { out.2 with
        alloc := out.2.alloc.freePagesAt (blockOf s.alloc size).1 (pagesOf size % 2 ^ 32) }) := by
  have hcall : s.alloc.allocatePages ⟨alignUp size PAGE_SIZE_4K / PAGE_SIZE_4K % 2 ^ 32,
      PAGE_SIZE_4K, IDENTITY_BRIDGE_ALLOC_MAX⟩ = blockOf s.alloc size := rfl
  unfold Vm.allocateUserPages
  rw [if_neg (by rw [not_or, not_not]; exact ⟨h0, halign⟩)]
  dsimp only
  rw [hcall]
  generalize blockOf s.alloc size = block at *
  obtain ⟨phys, alloc⟩ := block
  dsimp only at hphys ⊢
  rw [if_neg hphys]
  generalize ({ s with
    alloc := alloc
    mem := zeroBytes s.mem phys (alignUp size PAGE_SIZE_4K) } : Vm).mapContiguous as virt phys
      (alignUp size PAGE_SIZE_4K) flags = out
  obtain ⟨ok, s'⟩ := out
  cases ok with
  | false => rfl
  | true => rfl

/-- The memory with the block taken and cleared. -/
def clearedFor (s : VmState) (size : Nat) : Vm :=
  { s.vm with
    alloc := (blockOf s.vm.alloc size).2
    mem := zeroBytes s.vm.mem (blockOf s.vm.alloc size).1 (pagesOf size * PAGE_SIZE_4K) }

/-- What a call does that gets its block, for a range of user pages. -/
structure CallOutcome (s : VmState) (T : Tables) (virt size flags : Nat) (s' : Vm) (k : Nat) :
    Prop where
  grown : ∃ e, Grown (clearedFor s size) s' e
  inv : ∃ T', VmInv s' s.as T' ∧ ∀ page, resolve s'.mem T' page =
    if virt / PAGE_SIZE_4K ≤ page ∧ page < virt / PAGE_SIZE_4K + k then
      some ((blockOf s.vm.alloc size).1 + (page - virt / PAGE_SIZE_4K) * PAGE_SIZE_4K,
        pageFlags flags)
    else resolve s.vm.mem T page
  le : k ≤ pagesOf size
  tables : ∀ j ≤ pagesOf size, TablesFor s virt size j ↔ j ≤ k
  result : s.vm.allocateUserPages s.as virt size flags =
    if k = pagesOf size then ((blockOf s.vm.alloc size).1, s')
    else (0, { s' with alloc := s'.alloc.freePagesAt (blockOf s.vm.alloc size).1 (pagesOf size) })

theorem allocateUserPages_outcome (h : VmInv s.vm s.as T) (flags : Nat)
    (hvirt : PAGE_SIZE_4K ∣ virt) (hlo : USER_IMAGE_BASE ≤ virt)
    (hend : virt / PAGE_SIZE_4K + pagesOf size ≤ USER_MAP_LIMIT / PAGE_SIZE_4K)
    (hcount : pagesOf size < 2 ^ 32) (hsize : size < U64) (h0 : size ≠ 0)
    (hphys : (blockOf s.vm.alloc size).1 ≠ 0)
    (hblock : BlockTaken s.vm.alloc (blockOf s.vm.alloc size).2 (blockOf s.vm.alloc size).1
      (pagesOf size)) (hpages : pagesOf size ≠ 0) :
    ∃ s' k, CallOutcome s T virt size flags s' k := by
  obtain ⟨hn, hround⟩ := pagesOf_eq hsize hpages
  obtain ⟨hinv, hres⟩ := h.clearBlock hblock
  have hbelow := hblock.below
  have huser : ∀ j < pagesOf size, UserKey 0 (virt / PAGE_SIZE_4K + 0 + j) := by
    intro j hj
    have hfirst : USER_IMAGE_BASE / PAGE_SIZE_4K ≤ virt / PAGE_SIZE_4K := Nat.div_le_div_right hlo
    rw [userKey_zero]
    omega
  obtain ⟨s', T', k, e, hcall, hk, hinv', hgrown, htables, hres'⟩ :=
    mapPages_outcome flags hinv hvirt hblock.dvd (Nat.pos_of_ne_zero hphys)
      (by rw [Nat.zero_add]; exact hbelow) huser
  rw [Nat.zero_mul] at hcall
  simp only [Nat.add_zero] at htables hres'
  -- The tree has the tables that the walk through memory finds.
  have hthere : ∀ j ≤ pagesOf size,
      missingTables (tableThere s.vm.mem s.as) (virt / PAGE_SIZE_4K) j =
        missingTables (hasTable T) (virt / PAGE_SIZE_4K) j := by
    intro j hj
    refine missingTables_congr (fun l key h1 h3 hkey => ?_) fun i hi => ?_
    · rw [tableThere, h.tree.tableAt_eq rfl h1 h3 hkey, hasTable]
    · exact huser i (Nat.lt_of_lt_of_le hi hj)
  refine ⟨s', k, ⟨e, hgrown⟩, ⟨T', hinv', fun page => ?_⟩, hk, fun j hj => ?_, ?_⟩
  · rw [hres', hres]
  · rw [TablesFor, hthere j hj]
    exact htables j hj
  · have halign : isAligned virt PAGE_SIZE_4K = true :=
      (isAligned_iff _).mpr (Nat.mod_eq_zero_of_dvd hvirt)
    have hagain : alignUp (alignUp size PAGE_SIZE_4K) PAGE_SIZE_4K / PAGE_SIZE_4K =
        pagesOf size := by
      have hsmall : alignUp size PAGE_SIZE_4K + 2 ^ 12 ≤ U64 := by
        rw [hround, ← hn, U64_eq]
        unfold IDENTITY_BRIDGE_ALLOC_MAX at hbelow
        omega
      have hfix : alignUp (alignUp size PAGE_SIZE_4K) PAGE_SIZE_4K = alignUp size PAGE_SIZE_4K :=
        alignUp_of_dvd (by decide) hsmall ⟨pageCount size, by rw [hround, Nat.mul_comm]; rfl⟩
      rw [hfix, pagesOf]
    have hmap : (clearedFor s size).mapContiguous s.as virt (blockOf s.vm.alloc size).1
        (alignUp size PAGE_SIZE_4K) flags = (decide (k = pagesOf size), s') := by
      rw [Vm.mapContiguous, hagain]
      exact hcall
    have hclear : ({ s.vm with
        alloc := (blockOf s.vm.alloc size).2
        mem := zeroBytes s.vm.mem (blockOf s.vm.alloc size).1 (alignUp size PAGE_SIZE_4K) } : Vm) =
        clearedFor s size := by
      rw [clearedFor, hn, ← hround]
    have hcut : pagesOf size % 2 ^ 32 = pagesOf size := Nat.mod_eq_of_lt hcount
    rw [allocateUserPages_block s.vm s.as flags h0 halign hphys, hclear, hmap, hcut]
    simp only [decide_eq_true_eq]

end Call

end VKernel.Proofs.Memory

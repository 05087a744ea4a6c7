import Mathlib.Data.Set.Finite.Basic
import VKernel.Memory.PageMap
import VKernel.Proofs.Memory.TableSupply

/-!
# `VKernel.Proofs.Memory.VirtualMemory`: page tables refine a finite map

Each call gets one lemma that says what it does to the tree and to what the pages map to.
`ensureNextTable_spec` is the one that has to deal with failure: whatever it does, no page
maps to anything new, so a `map_page` that gives up at any level changes no translation
(`mapPage_cases`, which also says when it does).

`pageTables_refine` is the forward simulation: every sequence of calls is matched, call by
call and result by result, by `pageMapSystem`.
-/

set_option autoImplicit false
set_option maxRecDepth 20000

namespace VKernel.Proofs.Memory

open VKernel.Memory VKernel.Lib

/-- The tree is in memory and its pages are in use. -/
structure VmInv (s : Vm) (as : AddressSpace) (T : Tables) : Prop where
  tree : PageTree s.mem as.pml4Phys s.tables T
  alloc : AllocOk s.alloc
  used : ∀ p ∈ s.tables, UsedAt s.alloc p
  owned : Owned s.tables T

/-! ### The calls -/

section Calls

variable {s : Vm} {as : AddressSpace} {T : Tables}

/-- What `alloc_table_page` returns is no table yet. -/
theorem allocTablePage_spec {phys : Nat} {s' : Vm} (halloc : AllocOk s.alloc)
    (hused : ∀ p ∈ s.tables, UsedAt s.alloc p) (hcall : s.allocTablePage = (phys, s')) :
    AllocOk s'.alloc ∧ (∀ p ∈ s'.tables, UsedAt s'.alloc p) ∧
      (phys = 0 ∧ s' = s ∧ takeTables 1 s.alloc = none ∨
        phys ≠ 0 ∧ TableOk phys ∧ phys ∉ s.tables ∧ s'.mem = zeroPage s.mem phys ∧
          s'.tables = phys :: s.tables ∧ Grown s s' 1) := by
  unfold Vm.allocTablePage at hcall
  cases hpages : s.alloc.allocatePages ⟨1, PAGE_SIZE_4K, IDENTITY_BRIDGE_ALLOC_MAX⟩ with
  | mk addr alloc =>
    simp only [hpages] at hcall
    have htake : takeTables 1 s.alloc = if addr = 0 then none else some alloc := by
      rw [takeTables, hpages]
      rfl
    rcases allocatePage_spec halloc hpages with ⟨rfl, rfl⟩ | ⟨h0, hblock⟩
    · rw [if_pos rfl, Prod.mk.injEq] at hcall
      obtain ⟨rfl, rfl⟩ := hcall
      exact ⟨halloc, hused, Or.inl ⟨rfl, rfl, htake⟩⟩
    · rw [if_neg h0, Prod.mk.injEq] at hcall
      obtain ⟨rfl, rfl⟩ := hcall
      have hbelow := hblock.below
      have hpage : ∀ x, addr ≤ x → x < addr + PAGE_SIZE_4K → FreeAt s.alloc x :=
        fun x hx hx' => hblock.free x hx (by rwa [Nat.one_mul])
      have hfree : FreeAt s.alloc addr := hpage addr (Nat.le_refl _) (by
        unfold PAGE_SIZE_4K
        omega)
      have hgrown : Grown s ⟨alloc, zeroPage s.mem addr, addr :: s.tables⟩ 1 := {
        taken := by rw [htake, if_neg h0]
        kept := hblock.kept
        new := fun r hr hu => by
          rcases hblock.new r hr hu with hold | hstart
          · exact .inl hold
          · rw [hstart]
            exact .inr ⟨List.mem_cons_self, hfree⟩
        freeAt := hblock.freeAt
        tables := fun p hp => by
          rcases List.mem_cons.mp hp with rfl | hp
          · exact .inr hpage
          · exact .inl hp
        subset := fun p hp => List.mem_cons_of_mem _ hp
        frame := fun a ha => if_neg (ha addr List.mem_cons_self) }
      refine ⟨hblock.ok, fun p hp => ?_, Or.inr ⟨h0, ⟨hblock.dvd, Nat.pos_of_ne_zero h0, ?_⟩,
        fun hmem => halloc.not_used hfree (hused addr hmem), rfl, rfl, hgrown⟩⟩
      · rcases List.mem_cons.mp hp with rfl | hp
        · obtain ⟨r, hr, hru, rfl, hsize⟩ := hblock.region
          refine ⟨r, hr, hru, Nat.le_refl _, ?_⟩
          unfold MemoryRegion.stop PAGE_SIZE_4K at *
          omega
        · exact hblock.usedAt (hused p hp)
      · unfold PAGE_SIZE_4K at hbelow
        omega

/-- A table under the name that it has. -/
theorem addTable_eq {n k c : Nat} (h : T n k = some c) : addTable T n k c = T := by
  funext n' k'
  unfold addTable
  split
  · rename_i heq
    rw [heq.1, heq.2, h]
  · rfl

/-- `ensure_next_table` returns the child, old or new, in a tree that maps every page as before.
It fails only when there is none and no page for one. -/
theorem ensureNextTable_spec {n k p : Nat} (flags : Nat) (h : VmInv s as T) (h1 : 1 ≤ n)
    (h3 : n ≤ 3)
    (hk : UserKey n k) (hp : T (n + 1) (k / 512) = some p) :
    s.ensureNextTable p (k % 512) flags = (0, s) ∧ T n k = none ∧ takeTables 1 s.alloc = none ∨
      ∃ c s', s.ensureNextTable p (k % 512) flags = (c, s') ∧ c ≠ 0 ∧
        VmInv s' as (addTable T n k c) ∧
        (∀ page, resolve s'.mem (addTable T n k c) page = resolve s.mem T page) ∧
        Grown s s' (if hasTable T n k then 0 else 1) := by
  have hentry := h.tree.entry h1 h3 hk hp
  have hmod : k % 512 < 512 := Nat.mod_lt _ (by decide)
  have hmem := (h.tree.table _ _ _ hp).1
  unfold Vm.ensureNextTable
  by_cases hpresent : s.mem (slot p (k % 512)) &&& PTE_PRESENT = 0
  · -- No child yet.
    have hnone : T n k = none := by
      cases hT : T n k with
      | none => rfl
      | some c =>
        rw [hT] at hentry
        exact absurd hpresent hentry.1
    have hcount : (if hasTable T n k then 0 else 1) = 1 := by
      rw [hasTable, hnone]
      rfl
    rw [hcount]
    simp only [hpresent, if_true]
    cases halloc : s.allocTablePage with
    | mk child s' =>
      obtain ⟨hok, hused, hres⟩ := allocTablePage_spec h.alloc h.used halloc
      rcases hres with ⟨rfl, rfl, htake⟩ | ⟨h0, hchild, hfresh, hzero, htables, hgrown⟩
      · exact .inl ⟨rfl, hnone, htake⟩
      · simp only [if_neg h0]
        obtain ⟨htree, hsame⟩ := h.tree.addChild h1 h3 hk hp hnone hchild hfresh
          (linkEntry_ok hchild flags)
        rw [← hzero, ← htables] at htree
        rw [← hzero] at hsame
        have howned := h.owned.addTable (.inr ⟨h1, h3, hk⟩) hnone hfresh
        rw [← htables] at howned
        refine .inr ⟨child, s'.write (slot p (k % 512))
          (child ||| PTE_PRESENT ||| PTE_WRITABLE ||| (flags &&& PTE_USER)), ?_, h0,
          ⟨htree, hok, hused, howned⟩, hsame, ?_⟩
        · simp only [Vm.write, Function.update_self, tableFromPhys]
          rw [(linkEntry_ok hchild flags).2.2]
        · exact hgrown.trans (Grown.write (hgrown.subset p hmem) hmod _)
  · simp only [hpresent, if_false]
    cases hT : T n k with
    | none =>
      rw [hT] at hentry
      exact absurd hentry hpresent
    | some c =>
      have hadd := hentry.addFlags hpresent flags
      have hsmall : ¬ s.mem (slot p (k % 512)) &&& PTE_HUGE ≠ 0 := by
        rw [hT] at hentry
        exact not_not.mpr hentry.2.1
      simp only [hsmall, if_false]
      obtain ⟨htree, hsame⟩ := h.tree.writeLink h1 hp hadd
      have hcount : (if hasTable T n k then 0 else 1) = 0 := by
        rw [hasTable, hT]
        rfl
      refine .inr ⟨c, s.write (slot p (k % 512))
        (s.mem (slot p (k % 512)) ||| (PTE_WRITABLE ||| (flags &&& PTE_USER))), ?_,
        Nat.ne_of_gt (h.tree.table _ _ _ hT).2.pos, ?_, ?_, ?_⟩
      · rw [hT] at hadd
        simp only [Vm.write, Function.update_self, tableFromPhys]
        rw [hadd.2.2]
      · rw [addTable_eq hT]
        exact ⟨htree, h.alloc, h.used, h.owned⟩
      · rw [addTable_eq hT]
        exact hsame
      · rw [hcount]
        exact Grown.write hmem hmod _

theorem isAligned_iff (val : Nat) : isAligned val PAGE_SIZE_4K = true ↔ val % PAGE_SIZE_4K = 0 := by
  have hmask : val &&& sub64 PAGE_SIZE_4K 1 = val % PAGE_SIZE_4K :=
    Nat.and_two_pow_sub_one_eq_mod val 12
  unfold isAligned
  rw [hmask, beq_iff_eq]

/-- A page address keeps its bits. -/
theorem alignDown_PA (e : Nat) : alignDown (e &&& PA_MASK) PAGE_SIZE_4K = e &&& PA_MASK := by
  have hmask : PA_MASK &&& not64 (sub64 PAGE_SIZE_4K 1) = PA_MASK := by with_unfolding_all decide
  unfold alignDown
  rw [Nat.and_assoc, hmask]

theorem isAligned_alignDown (val : Nat) :
    isAligned (alignDown val PAGE_SIZE_4K) PAGE_SIZE_4K = true := by
  have hmask : not64 (sub64 PAGE_SIZE_4K 1) &&& sub64 PAGE_SIZE_4K 1 = 0 := by
    with_unfolding_all decide
  unfold isAligned alignDown
  rw [Nat.and_assoc, hmask, Nat.and_zero]
  rfl

/-- The tables of a tree with the three on the way to a page. -/
theorem hasTable_path (T : Tables) (page c₃ c₂ c₁ : Nat) :
    hasTable (addTable (addTable (addTable T 3 (page / 512 / 512 / 512) c₃) 2 (page / 512 / 512) c₂)
      1 (page / 512) c₁) = withPath (hasTable T) page := by
  funext n k
  unfold hasTable withPath addTable
  by_cases h1 : n = 1 ∧ k = page / 512
  · simp [h1]
  by_cases h2 : n = 2 ∧ k = page / 512 / 512
  · simp [h2]
  by_cases h3 : n = 3 ∧ k = page / 512 / 512 / 512
  · simp [h3]
  · simp only [h1, h2, h3, if_false, decide_false, Bool.or_false]

/-- `map_page` for page addresses: it succeeds exactly when there is a page for each table that is
missing on the way. On failure no page maps to anything new. -/
theorem mapPage_cases {virt phys : Nat} (flags : Nat) (h : VmInv s as T)
    (huser : UserKey 0 (virt / PAGE_SIZE_4K)) (hphys : phys ≠ 0)
    (hvirt : isAligned virt PAGE_SIZE_4K = true) (haligned : isAligned phys PAGE_SIZE_4K = true) :
    (∃ s' T' e, s.mapPage as virt phys flags = (false, s') ∧
        takeTables (missingAt (hasTable T) (virt / PAGE_SIZE_4K)) s.alloc = none ∧
        VmInv s' as T' ∧ Grown s s' e ∧ ∀ page, resolve s'.mem T' page = resolve s.mem T page) ∨
      ∃ s' T', s.mapPage as virt phys flags = (true, s') ∧ VmInv s' as T' ∧
        Grown s s' (missingAt (hasTable T) (virt / PAGE_SIZE_4K)) ∧
        hasTable T' = withPath (hasTable T) (virt / PAGE_SIZE_4K) ∧
        ∀ page, resolve s'.mem T' page =
          if page = virt / PAGE_SIZE_4K then some (phys &&& PA_MASK, pageFlags flags)
          else resolve s.mem T page := by
  have hrootOk := (h.tree.table _ _ _ h.tree.root).2
  have hroot : tableFromPhys as.pml4Phys = as.pml4Phys := page_and_PA_MASK hrootOk
  obtain ⟨hk1, hk2, hk3, hk4⟩ := userKeys huser
  unfold Vm.mapPage
  rw [if_neg (by rw [not_or]; exact ⟨Nat.ne_of_gt hrootOk.pos, hphys⟩),
    if_neg (by rw [not_or, not_not, not_not]; exact ⟨hvirt, haligned⟩)]
  simp only [hroot, pml4Idx_eq, pdptIdx_eq, pdIdx_eq, ptIdx_eq]
  generalize (if flags &&& MAP_USER ≠ 0 then PTE_USER else 0) = user
  generalize virt / PAGE_SIZE_4K = page₀ at *
  unfold missingAt
  -- Three tables down, each in a tree that maps every page as before.
  rcases ensureNextTable_spec user h (by decide) (Nat.le_refl 3) hk3
    (by rw [hk4]; exact h.tree.root) with ⟨hcall₃, hT₃, hnone₃⟩ |
      ⟨pdpt, s₃, hcall₃, h3, hinv₃, hres₃, hgrown₃⟩
  · have hd : hasTable T 3 (page₀ / 512 / 512 / 512) = false := by simp [hasTable, hT₃]
    refine .inl ⟨s, T, 0, by simp [hcall₃], ?_, h, Grown.refl s, fun _ => rfl⟩
    rw [hd]
    exact takeTables_none hnone₃ (by simp only [Bool.false_eq_true, if_false]; omega)
  simp only [hcall₃, h3, if_false]
  have hsame₂ : hasTable (addTable T 3 (page₀ / 512 / 512 / 512) pdpt) 2 (page₀ / 512 / 512) =
      hasTable T 2 (page₀ / 512 / 512) := by
    rw [hasTable, addTable_of_ne _ _ (by omega)]
    rfl
  rcases ensureNextTable_spec user hinv₃ (by decide) (by decide) hk2
    (addTable_self T _ _ _) with ⟨hcall₂, hT₂, hnone₂⟩ |
      ⟨pd, s₂, hcall₂, h2, hinv₂, hres₂, hgrown₂⟩
  · have hd : hasTable T 2 (page₀ / 512 / 512) = false := by
      rw [← hsame₂]
      simp [hasTable, hT₂]
    refine .inl ⟨s₃, _, _, by simp [hcall₂], ?_, hinv₃, hgrown₃, hres₃⟩
    rw [hd, Nat.add_assoc, takeTables_add, hgrown₃.taken]
    exact takeTables_none hnone₂ (by simp only [Bool.false_eq_true, if_false]; omega)
  simp only [hcall₂, h2, if_false]
  rw [hsame₂] at hgrown₂
  have hsame₁ : hasTable (addTable (addTable T 3 (page₀ / 512 / 512 / 512) pdpt) 2
      (page₀ / 512 / 512) pd) 1 (page₀ / 512) = hasTable T 1 (page₀ / 512) := by
    rw [hasTable, addTable_of_ne _ _ (by omega), addTable_of_ne _ _ (by omega)]
    rfl
  rcases ensureNextTable_spec user hinv₂ (by decide) (by decide) hk1
    (addTable_self _ _ _ _) with ⟨hcall₁, hT₁, hnone₁⟩ |
      ⟨pt, s₁, hcall₁, h1, hinv₁, hres₁, hgrown₁⟩
  · have hd : hasTable T 1 (page₀ / 512) = false := by
      rw [← hsame₁]
      simp [hasTable, hT₁]
    refine .inl ⟨s₂, _, _, by simp [hcall₁], ?_, hinv₂, hgrown₃.trans hgrown₂, fun page => ?_⟩
    · rw [hd, takeTables_add, (hgrown₃.trans hgrown₂).taken]
      exact hnone₁
    · rw [hres₂, hres₃]
  simp only [hcall₁, h1, if_false]
  rw [hsame₁] at hgrown₁
  have hpt := addTable_self (addTable (addTable T 3 (page₀ / 512 / 512 / 512) pdpt) 2
    (page₀ / 512 / 512) pd) 1 (page₀ / 512) pt
  obtain ⟨htree, hleaf⟩ := hinv₁.tree.writeLeaf (v := (phys &&& PA_MASK) ||| pageFlags flags) hpt
  refine .inr ⟨_, _, rfl, ⟨htree, hinv₁.alloc, hinv₁.used, hinv₁.owned⟩, ?_,
    hasTable_path T page₀ pdpt pd pt, fun page => ?_⟩
  · exact ((hgrown₃.trans hgrown₂).trans hgrown₁).trans
      (Grown.write (hinv₁.tree.table _ _ _ hpt).1 (Nat.mod_lt _ (by decide)) _)
  · simp only [Vm.write, hleaf, leafOf_leafEntry]
    rw [hres₁, hres₂, hres₃]

/-- `map_page` on a user page: on success the page maps to what was asked for, on failure no
page maps to anything new. -/
theorem mapPage_spec {virt : Nat} (phys flags : Nat) (h : VmInv s as T)
    (huser : UserKey 0 (virt / PAGE_SIZE_4K)) :
    ∃ T', VmInv (s.mapPage as virt phys flags).2 as T' ∧
      ∀ page, resolve (s.mapPage as virt phys flags).2.mem T' page =
        if (s.mapPage as virt phys flags).1 = true ∧ page = virt / PAGE_SIZE_4K then
          some (phys &&& PA_MASK, pageFlags flags)
        else resolve s.mem T page := by
  by_cases hgood : phys ≠ 0 ∧ isAligned virt PAGE_SIZE_4K = true ∧
      isAligned phys PAGE_SIZE_4K = true
  · rcases mapPage_cases flags h huser hgood.1 hgood.2.1 hgood.2.2 with
      ⟨s', T', e, hcall, -, hinv, -, hres⟩ | ⟨s', T', hcall, hinv, -, -, hres⟩
    · rw [hcall]
      exact ⟨T', hinv, fun page => by simp [hres]⟩
    · rw [hcall]
      exact ⟨T', hinv, fun page => by simp [hres]⟩
  · have hfail : s.mapPage as virt phys flags = (false, s) := by
      unfold Vm.mapPage
      by_cases hnull : as.pml4Phys = 0 ∨ phys = 0
      · rw [if_pos hnull]
      · rw [if_neg hnull, if_pos ?_]
        rw [not_or] at hnull
        by_contra hodd
        rw [not_or, not_not, not_not] at hodd
        exact hgood ⟨hnull.2, hodd.1, hodd.2⟩
    rw [hfail]
    exact ⟨T, h, fun page => by simp⟩

/-- The body of the loop of `unmap_range` on a user page. -/
theorem unmapPage_spec {addr : Nat} (h : VmInv s as T)
    (huser : UserKey 0 (addr / PAGE_SIZE_4K)) :
    VmInv (s.unmapPage as addr) as T ∧
      ∀ page, resolve (s.unmapPage as addr).mem T page =
        if page = addr / PAGE_SIZE_4K then none else resolve s.mem T page := by
  have hroot : tableFromPhys as.pml4Phys = as.pml4Phys :=
    page_and_PA_MASK (h.tree.table _ _ _ h.tree.root).2
  obtain ⟨hk1, hk2, hk3, hk4⟩ := userKeys huser
  unfold Vm.unmapPage
  simp only [hroot, pml4Idx_eq, pdptIdx_eq, pdIdx_eq, ptIdx_eq]
  generalize addr / PAGE_SIZE_4K = page₀ at *
  -- Where a table is missing, the page maps to nothing already.
  have hmissing : T 1 (page₀ / 512) = none → VmInv s as T ∧ ∀ page, resolve s.mem T page =
      if page = page₀ then none else resolve s.mem T page := by
    intro hnone
    refine ⟨h, fun page => ?_⟩
    by_cases heq : page = page₀
    · rw [if_pos heq, heq, resolve, hnone]
    · rw [if_neg heq]
  have e3 := h.tree.entry (p := as.pml4Phys) (by decide) (Nat.le_refl 3) hk3
    (by rw [hk4]; exact h.tree.root)
  cases hT3 : T 3 (page₀ / 512 / 512 / 512) with
  | none =>
    rw [hT3] at e3
    have hT2 := h.tree.missing (by decide) (by decide) hk2 hT3
    simp only [show _ &&& PTE_PRESENT = 0 from e3, if_true]
    exact hmissing (h.tree.missing (by decide) (by decide) hk1 hT2)
  | some pdpt =>
    rw [hT3] at e3
    obtain ⟨hp3, hh3, hm3⟩ := e3
    have e2 := h.tree.entry (by decide) (by decide) hk2 hT3
    simp only [hp3, if_false, tableFromPhys, hm3]
    cases hT2 : T 2 (page₀ / 512 / 512) with
    | none =>
      rw [hT2] at e2
      simp only [show _ &&& PTE_PRESENT = 0 from e2, true_or, if_true]
      exact hmissing (h.tree.missing (by decide) (by decide) hk1 hT2)
    | some pd =>
      rw [hT2] at e2
      obtain ⟨hp2, hh2, hm2⟩ := e2
      have e1 := h.tree.entry (by decide) (by decide) hk1 hT2
      simp only [hp2, hh2, ne_eq, not_true_eq_false, or_self, if_false, hm2]
      cases hT1 : T 1 (page₀ / 512) with
      | none =>
        rw [hT1] at e1
        simp only [show _ &&& PTE_PRESENT = 0 from e1, true_or, if_true]
        exact hmissing hT1
      | some pt =>
        rw [hT1] at e1
        obtain ⟨hp1, hh1, hm1⟩ := e1
        simp only [hp1, hh1, not_true_eq_false, or_self, if_false, hm1]
        obtain ⟨htree, hleaf⟩ := h.tree.writeLeaf (v := 0) hT1
        exact ⟨⟨htree, h.alloc, h.used, h.owned⟩, hleaf⟩

/-- The first and the last page of the user range. -/
theorem userKey_zero {page : Nat} :
    UserKey 0 page ↔ USER_IMAGE_BASE / PAGE_SIZE_4K ≤ page ∧ page < USER_MAP_LIMIT / PAGE_SIZE_4K :=
  Iff.rfl

/-- The loop of `map_contiguous` maps the pages before the one that fails. -/
theorem mapPages_spec {virt i n : Nat} (phys flags : Nat) (h : VmInv s as T)
    (huser : ∀ j, j < n → UserKey 0 (virt / PAGE_SIZE_4K + i + j))
    (hlt : virt + (i + n) * PAGE_SIZE_4K < U64) :
    ∃ T' k, VmInv (s.mapPages as virt phys flags (i * PAGE_SIZE_4K) n).2 as T' ∧
      (if (s.mapPages as virt phys flags (i * PAGE_SIZE_4K) n).1 = true then k = n else k < n) ∧
      ∀ page, resolve (s.mapPages as virt phys flags (i * PAGE_SIZE_4K) n).2.mem T' page =
        if virt / PAGE_SIZE_4K + i ≤ page ∧ page < virt / PAGE_SIZE_4K + i + k then
          some (add64 phys ((page - virt / PAGE_SIZE_4K) * PAGE_SIZE_4K) &&& PA_MASK,
            pageFlags flags)
        else resolve s.mem T page := by
  induction n generalizing s T i with
  | zero =>
    refine ⟨T, 0, h, by simp [Vm.mapPages], fun page => ?_⟩
    rw [if_neg (by omega)]
    rfl
  | succ n ih =>
    have hpage : (virt + i * PAGE_SIZE_4K) / PAGE_SIZE_4K = virt / PAGE_SIZE_4K + i :=
      Nat.add_mul_div_right _ _ (by decide)
    have hvirt : add64 virt (i * PAGE_SIZE_4K) = virt + i * PAGE_SIZE_4K := by
      refine add64_eq (Nat.lt_of_le_of_lt (Nat.add_le_add_left ?_ _) hlt)
      exact Nat.mul_le_mul_right _ (by omega)
    have hoff : i * PAGE_SIZE_4K + PAGE_SIZE_4K = (i + 1) * PAGE_SIZE_4K := by
      rw [Nat.add_mul, Nat.one_mul]
    have hfirst : UserKey 0 ((virt + i * PAGE_SIZE_4K) / PAGE_SIZE_4K) := by
      rw [hpage]
      exact huser 0 (Nat.zero_lt_succ _)
    obtain ⟨T₁, hinv₁, hres₁⟩ :=
      mapPage_spec (add64 phys (i * PAGE_SIZE_4K)) flags h hfirst
    rw [hpage] at hres₁
    unfold Vm.mapPages
    rw [hvirt, hoff]
    generalize s.mapPage as (virt + i * PAGE_SIZE_4K) (add64 phys (i * PAGE_SIZE_4K)) flags = r₁
      at *
    obtain ⟨ok, s₁⟩ := r₁
    cases ok with
    | false =>
      refine ⟨T₁, 0, hinv₁, by simp, fun page => ?_⟩
      rw [if_neg (by omega), hres₁, if_neg (by simp)]
    | true =>
      obtain ⟨T₂, k, hinv₂, hk, hres₂⟩ := ih (i := i + 1) hinv₁
        (fun j hj => by
          have := huser (j + 1) (Nat.succ_lt_succ hj)
          rwa [show virt / PAGE_SIZE_4K + i + (j + 1) = virt / PAGE_SIZE_4K + (i + 1) + j by
            omega] at this)
        (by rwa [show i + 1 + n = i + (n + 1) by omega])
      refine ⟨T₂, k + 1, hinv₂, ?_, fun page => ?_⟩
      · show if (s₁.mapPages as virt phys flags ((i + 1) * PAGE_SIZE_4K) n).1 = true then _ else _
        split at hk
        · rw [if_pos ‹_›]
          omega
        · rw [if_neg ‹_›]
          omega
      · simp only
        rw [hres₂ page]
        by_cases hin : virt / PAGE_SIZE_4K + (i + 1) ≤ page ∧
            page < virt / PAGE_SIZE_4K + (i + 1) + k
        · rw [if_pos hin, if_pos (by omega)]
        · rw [if_neg hin, hres₁]
          by_cases heq : page = virt / PAGE_SIZE_4K + i
          · rw [if_pos ⟨rfl, heq⟩, if_pos (by omega), heq,
              show virt / PAGE_SIZE_4K + i - virt / PAGE_SIZE_4K = i by omega]
          · rw [if_neg fun hcon => heq hcon.2, if_neg (by omega)]

/-- The loop of `unmap_range`. -/
theorem unmapPages_spec {page₀ n : Nat} (h : VmInv s as T)
    (huser : ∀ j, j < n → UserKey 0 (page₀ + j)) :
    VmInv (s.unmapPages as (page₀ * PAGE_SIZE_4K) n) as T ∧
      ∀ page, resolve (s.unmapPages as (page₀ * PAGE_SIZE_4K) n).mem T page =
        if page₀ ≤ page ∧ page < page₀ + n then none else resolve s.mem T page := by
  induction n generalizing s page₀ with
  | zero =>
    refine ⟨h, fun page => ?_⟩
    rw [if_neg (by omega)]
    rfl
  | succ n ih =>
    have hpage : page₀ * PAGE_SIZE_4K / PAGE_SIZE_4K = page₀ :=
      Nat.mul_div_cancel _ (by decide)
    have hoff : page₀ * PAGE_SIZE_4K + PAGE_SIZE_4K = (page₀ + 1) * PAGE_SIZE_4K := by
      rw [Nat.add_mul, Nat.one_mul]
    have hfirst : UserKey 0 (page₀ * PAGE_SIZE_4K / PAGE_SIZE_4K) := by
      rw [hpage]
      exact huser 0 (Nat.zero_lt_succ _)
    have hnext : ∀ j, j < n → UserKey 0 (page₀ + 1 + j) := by
      intro j hj
      rw [show page₀ + 1 + j = page₀ + (j + 1) by omega]
      exact huser (j + 1) (Nat.succ_lt_succ hj)
    obtain ⟨hinv₁, hres₁⟩ := unmapPage_spec h hfirst
    obtain ⟨hinv₂, hres₂⟩ := ih hinv₁ hnext
    unfold Vm.unmapPages
    rw [hoff]
    refine ⟨hinv₂, fun page => ?_⟩
    rw [hpage] at hres₁
    rw [hres₂, hres₁]
    by_cases heq : page = page₀
    · rw [if_neg (by omega), if_pos heq, if_pos (by omega)]
    · rw [if_neg heq]
      by_cases hin : page₀ + 1 ≤ page ∧ page < page₀ + 1 + n
      · rw [if_pos hin, if_pos (by omega)]
      · rw [if_neg hin, if_neg (by omega)]

/-- `map_contiguous` inside the user range. -/
theorem mapContiguous_spec {virt size : Nat} (phys flags : Nat) (h : VmInv s as T)
    (hlo : USER_IMAGE_BASE ≤ virt) (hlim : virt < USER_MAP_LIMIT)
    (hhi : virt + size ≤ USER_MAP_LIMIT) :
    ∃ T' k, VmInv (s.mapContiguous as virt phys size flags).2 as T' ∧
      (if (s.mapContiguous as virt phys size flags).1 = true then k = pageCount size
        else k < pageCount size) ∧
      virt / PAGE_SIZE_4K + k ≤ USER_MAP_LIMIT / PAGE_SIZE_4K ∧
      ∀ page, resolve (s.mapContiguous as virt phys size flags).2.mem T' page =
        if virt / PAGE_SIZE_4K ≤ page ∧ page < virt / PAGE_SIZE_4K + k then
          some (add64 phys ((page - virt / PAGE_SIZE_4K) * PAGE_SIZE_4K) &&& PA_MASK,
            pageFlags flags)
        else resolve s.mem T page := by
  have hcount : alignUp size PAGE_SIZE_4K / PAGE_SIZE_4K = pageCount size := by
    have hround : alignUp size PAGE_SIZE_4K = (size + 2 ^ 12 - 1) / 2 ^ 12 * 2 ^ 12 := by
      refine alignUp_eq (k := 12) (by decide) ?_
      rw [U64_eq]
      unfold USER_MAP_LIMIT at hhi
      omega
    rw [hround]
    exact Nat.mul_div_cancel _ (by decide)
  have hbound : virt / PAGE_SIZE_4K ≤ USER_MAP_LIMIT / PAGE_SIZE_4K := by
    unfold PAGE_SIZE_4K USER_MAP_LIMIT at *
    omega
  unfold Vm.mapContiguous
  rw [hcount]
  by_cases hal : virt % PAGE_SIZE_4K = 0
  · -- An aligned start: the rounded size still ends inside the range.
    have hend : virt / PAGE_SIZE_4K + pageCount size ≤ USER_MAP_LIMIT / PAGE_SIZE_4K := by
      unfold pageCount PAGE_SIZE_4K USER_MAP_LIMIT at *
      omega
    have hlow : USER_IMAGE_BASE / PAGE_SIZE_4K ≤ virt / PAGE_SIZE_4K :=
      Nat.div_le_div_right hlo
    have huser : ∀ j, j < pageCount size → UserKey 0 (virt / PAGE_SIZE_4K + 0 + j) := by
      intro j hj
      rw [userKey_zero]
      omega
    have hlt : virt + (0 + pageCount size) * PAGE_SIZE_4K < U64 := by
      rw [U64_eq]
      unfold pageCount PAGE_SIZE_4K USER_MAP_LIMIT at *
      omega
    obtain ⟨T', k, hinv, hk, hres⟩ := mapPages_spec phys flags h huser hlt
    rw [Nat.zero_mul] at hinv hk hres
    refine ⟨T', k, hinv, hk, ?_, fun page => ?_⟩
    · split at hk <;> omega
    · rw [hres, Nat.add_zero]
  · -- A start that is not aligned: `map_page` refuses the first page.
    have hal' : ¬ isAligned virt PAGE_SIZE_4K = true := by rwa [isAligned_iff]
    refine ⟨T, 0, ?_⟩
    cases hn : pageCount size with
    | zero =>
      refine ⟨h, by simp [Vm.mapPages], by omega, fun page => ?_⟩
      rw [if_neg (by omega)]
      rfl
    | succ n =>
      have hfail : s.mapPages as virt phys flags 0 (n + 1) = (false, s) := by
        have hv : add64 virt 0 = virt := by
          refine add64_eq ?_
          rw [U64_eq]
          unfold USER_MAP_LIMIT at hlim
          omega
        have hpage : s.mapPage as virt (add64 phys 0) flags = (false, s) := by
          unfold Vm.mapPage
          split
          · rfl
          · rw [if_pos (Or.inl hal')]
        rw [Vm.mapPages, hv, hpage]
      rw [hfail]
      refine ⟨h, by simp, by omega, fun page => ?_⟩
      rw [if_neg (by omega)]

/-- `unmap_range` inside the user range. -/
theorem unmapRange_spec {virt size : Nat} (h : VmInv s as T) (hlo : USER_IMAGE_BASE ≤ virt)
    (hhi : virt + size ≤ USER_MAP_LIMIT) :
    VmInv (s.unmapRange as virt size) as T ∧
      ∀ page, resolve (s.unmapRange as virt size).mem T page =
        if size ≠ 0 ∧ virt / PAGE_SIZE_4K ≤ page ∧ page * PAGE_SIZE_4K < virt + size then none
        else resolve s.mem T page := by
  have hroot := (h.tree.table _ _ _ h.tree.root).2.pos
  unfold Vm.unmapRange
  by_cases h0 : size = 0
  · rw [if_pos (Or.inr h0)]
    refine ⟨h, fun page => ?_⟩
    rw [if_neg (by omega)]
  · rw [if_neg (by omega)]
    have hsum : add64 virt size = virt + size := by
      refine add64_eq ?_
      rw [U64_eq]
      unfold USER_MAP_LIMIT at hhi
      omega
    have hdown : alignDown virt PAGE_SIZE_4K = virt / PAGE_SIZE_4K * PAGE_SIZE_4K := by
      refine alignDown_eq (k := 12) ?_ (by decide)
      rw [U64_eq]
      unfold USER_MAP_LIMIT at hhi
      omega
    have hup : alignUp (virt + size) PAGE_SIZE_4K = pageCount (virt + size) * PAGE_SIZE_4K := by
      refine alignUp_eq (k := 12) (by decide) ?_
      rw [U64_eq]
      unfold USER_MAP_LIMIT at hhi
      omega
    have hn : (pageCount (virt + size) * PAGE_SIZE_4K - virt / PAGE_SIZE_4K * PAGE_SIZE_4K) /
        PAGE_SIZE_4K = pageCount (virt + size) - virt / PAGE_SIZE_4K := by
      rw [← Nat.sub_mul]
      exact Nat.mul_div_cancel _ (by decide)
    have huser : ∀ j, j < pageCount (virt + size) - virt / PAGE_SIZE_4K →
        UserKey 0 (virt / PAGE_SIZE_4K + j) := by
      intro j hj
      rw [userKey_zero]
      unfold pageCount PAGE_SIZE_4K USER_MAP_LIMIT USER_IMAGE_BASE at *
      omega
    obtain ⟨hinv, hres⟩ := unmapPages_spec h huser
    simp only [hsum, hdown, hup, hn]
    refine ⟨hinv, fun page => ?_⟩
    rw [hres]
    have hiff : (virt / PAGE_SIZE_4K ≤ page ∧
        page < virt / PAGE_SIZE_4K + (pageCount (virt + size) - virt / PAGE_SIZE_4K)) ↔
        (size ≠ 0 ∧ virt / PAGE_SIZE_4K ≤ page ∧ page * PAGE_SIZE_4K < virt + size) := by
      unfold pageCount PAGE_SIZE_4K
      omega
    rw [if_congr hiff rfl rfl]

end Calls

/-! ### The refinement -/

/-- An address space over whole runs. It comes from `create_address_space` with an allocator
of whole pages and any kernel tables, and all calls are on addresses of the user range. In
between the rest of the kernel may allocate and free pages, but not the pages of the tables. -/
def vmSystem : TransitionSystem VmState VmEvent where
  init s := ∃ (vm : Vm) (kernelCr3 as : Nat), AllocOk vm.alloc ∧ vm.tables = [] ∧
    vm.createAddressSpace kernelCr3 as = some (s.as, s.vm)
  step s e t :=
    match e with
    | .mapPage virt phys flags ok =>
      USER_IMAGE_BASE ≤ virt ∧ virt < USER_MAP_LIMIT ∧
        s.vm.mapPage s.as virt phys flags = (ok, t.vm) ∧ t.as = s.as
    | .mapContiguous virt phys size flags ok =>
      USER_IMAGE_BASE ≤ virt ∧ virt < USER_MAP_LIMIT ∧ virt + size ≤ USER_MAP_LIMIT ∧
        s.vm.mapContiguous s.as virt phys size flags = (ok, t.vm) ∧ t.as = s.as
    | .unmapRange virt size =>
      USER_IMAGE_BASE ≤ virt ∧ virt + size ≤ USER_MAP_LIMIT ∧
        t = ⟨s.vm.unmapRange s.as virt size, s.as⟩
    | .others alloc =>
      AllocOk alloc ∧ (∀ p ∈ s.vm.tables, UsedAt alloc p) ∧
        t = ⟨{ s.vm with alloc := alloc }, s.as⟩

/-- The map that a tree in memory stands for. -/
structure Refines (s : VmState) (A : PageMap) : Prop where
  tree : ∃ T, VmInv s.vm s.as T ∧ ∀ page, UserKey 0 page → A page = resolve s.vm.mem T page
  user : ∀ page, ¬ UserKey 0 page → A page = none

/-- A new address space maps nothing. -/
theorem refines_init {s : VmState} (h : vmSystem.init s) : Refines s fun _ => none := by
  obtain ⟨vm, kernelCr3, ptr, halloc, htables, hcreate⟩ := h
  unfold Vm.createAddressSpace at hcreate
  by_cases h0 : ptr = 0
  · simp [h0] at hcreate
  rw [if_neg h0] at hcreate
  cases hpage : vm.allocTablePage with
  | mk root vm' =>
    obtain ⟨hok, hused, hres⟩ :=
      allocTablePage_spec halloc (fun p hp => by simp [htables] at hp) hpage
    simp only [hpage] at hcreate
    rcases hres with ⟨rfl, rfl, -⟩ | ⟨hroot0, hroot, hfresh, hmem, htab, -⟩
    · simp at hcreate
    · rw [if_neg hroot0, Option.some.injEq, Prod.mk.injEq] at hcreate
      obtain ⟨has, hvm⟩ := hcreate
      have hpml4 : s.as.pml4Phys = root := by rw [← has]
      have hdst : tableFromPhys root = root := page_and_PA_MASK hroot
      have hT : ∀ n k p, (if n = 4 ∧ k = 0 then some root else none) = some p →
          p = root ∧ n = 4 ∧ k = 0 := by
        intro n k p hp
        split at hp
        · exact ⟨(Option.some.inj hp).symm, ‹_›⟩
        · simp at hp
      refine ⟨⟨fun n k => if n = 4 ∧ k = 0 then some root else none,
        ⟨⟨?_, ?_, ?_, ?_⟩, ?_, ?_, ?_, ?_⟩, ?_⟩, fun _ _ => rfl⟩
      · rw [hpml4]
        rfl
      · intro n k p hp
        obtain ⟨rfl, -, -⟩ := hT n k p hp
        rw [← hvm]
        exact ⟨by simp [htab], hroot⟩
      · intro n k h1 h3 hk
        rw [if_neg (by omega)]
        show parentEntry _ _ n k &&& PTE_PRESENT = 0
        unfold parentEntry
        dsimp only
        by_cases hroot4 : n + 1 = 4 ∧ k / 512 = 0
        · -- An entry of the PML4 in the user range was cleared.
          rw [if_pos hroot4, ← hvm]
          have hzero : clearUserSlots (copyPage vm'.mem (tableFromPhys root)
              (tableFromPhys kernelCr3)) (tableFromPhys root) (slot root (k % 512)) = 0 := by
            refine if_pos ?_
            obtain rfl : n = 3 := by omega
            unfold UserKey at hk
            have hfirst : USER_PML4_FIRST = 128 := by decide
            have hlimit : USER_PML4_LIMIT = 256 := by decide
            rw [hdst, hfirst, hlimit]
            unfold slot
            omega
          simp only [hzero]
          exact Nat.zero_and _
        · rw [if_neg hroot4]
          exact Nat.zero_and _
      · intro n k n' k' p hp hp'
        obtain ⟨-, hn, hk⟩ := hT n k p hp
        obtain ⟨-, hn', hk'⟩ := hT n' k' p hp'
        omega
      · rw [← hvm]
        exact hok
      · rw [← hvm]
        exact hused
      · rw [← hvm]
        simp [htab, htables]
      · intro p hp
        rw [← hvm] at hp
        obtain rfl : p = root := by simpa [htab, htables] using hp
        exact ⟨4, 0, .inl ⟨rfl, rfl⟩, rfl⟩
      · intro page _
        rw [resolve, if_neg (by omega)]

/-- The physical page of an address that is not a `u64` is that of its low 64 bits. -/
theorem add64_zero_and_PA_MASK (phys : Nat) : add64 phys 0 &&& PA_MASK = phys &&& PA_MASK := by
  have hmask : (2 ^ 64 - 1) &&& PA_MASK = PA_MASK := by decide
  rw [add64, U64_eq, Nat.add_zero, ← Nat.and_two_pow_sub_one_eq_mod, Nat.and_assoc, hmask]

/-- A tree that maps some further user pages stands for the map with these pages added. -/
theorem Refines.mapRange {s t : VmState} {A : PageMap} {T T' : Tables} {virt phys flags k : Nat}
    (h : Refines s A) (hA : ∀ page, UserKey 0 page → A page = resolve s.vm.mem T page)
    (hinv : VmInv t.vm t.as T') (hlo : USER_IMAGE_BASE ≤ virt)
    (hhi : virt / PAGE_SIZE_4K + k ≤ USER_MAP_LIMIT / PAGE_SIZE_4K)
    (hres : ∀ page, resolve t.vm.mem T' page =
      if virt / PAGE_SIZE_4K ≤ page ∧ page < virt / PAGE_SIZE_4K + k then
        some (add64 phys ((page - virt / PAGE_SIZE_4K) * PAGE_SIZE_4K) &&& PA_MASK, pageFlags flags)
      else resolve s.vm.mem T page) : Refines t (A.mapRange virt phys flags k) := by
  have hfirst : USER_IMAGE_BASE / PAGE_SIZE_4K ≤ virt / PAGE_SIZE_4K := Nat.div_le_div_right hlo
  refine ⟨⟨T', hinv, fun page hpage => ?_⟩, fun page hpage => ?_⟩
  · rw [hres, PageMap.mapRange, hA page hpage]
  · rw [PageMap.mapRange, if_neg (by rw [userKey_zero] at hpage; omega)]
    exact h.user page hpage

/-- Every call on the address space is matched by the map. -/
theorem refines_step {s t : VmState} {e : VmEvent} {A : PageMap} (h : Refines s A)
    (hstep : vmSystem.step s e t) : ∃ A', pageMapSystem.step A e A' ∧ Refines t A' := by
  obtain ⟨T, hinv, hA⟩ := h.tree
  cases e with
  | mapPage virt phys flags ok =>
    obtain ⟨hlo, hhi, hcall, has⟩ := hstep
    have huser := userKey_of_user hlo hhi
    obtain ⟨T', hinv', hres⟩ := mapPage_spec phys flags hinv huser
    rw [hcall] at hinv' hres
    cases ok with
    | false =>
      refine ⟨A, rfl, ⟨T', has ▸ hinv', fun page hpage => ?_⟩, h.user⟩
      rw [hres, if_neg (by simp), hA page hpage]
    | true =>
      refine ⟨A.mapRange virt phys flags 1, rfl, h.mapRange hA (has ▸ hinv') hlo ?_ ?_⟩
      · rw [userKey_zero] at huser
        omega
      · intro page
        rw [hres]
        by_cases heq : page = virt / PAGE_SIZE_4K
        · rw [if_pos ⟨rfl, heq⟩, if_pos (by omega), heq, Nat.sub_self, Nat.zero_mul,
            add64_zero_and_PA_MASK]
        · rw [if_neg fun hcon => heq hcon.2, if_neg (by omega)]
  | mapContiguous virt phys size flags ok =>
    obtain ⟨hlo, hlim, hhi, hcall, has⟩ := hstep
    obtain ⟨T', k, hinv', hk, hend, hres⟩ := mapContiguous_spec phys flags hinv hlo hlim hhi
    rw [hcall] at hinv' hres hk
    have href : Refines t (A.mapRange virt phys flags k) :=
      h.mapRange hA (has ▸ hinv') hlo hend hres
    cases ok with
    | false => exact ⟨_, ⟨k, hk, rfl⟩, href⟩
    | true =>
      have hk' : k = pageCount size := hk
      exact ⟨_, rfl, hk' ▸ href⟩
  | unmapRange virt size =>
    obtain ⟨hlo, hhi, rfl⟩ := hstep
    obtain ⟨hinv', hres⟩ := unmapRange_spec hinv hlo hhi
    refine ⟨A.unmapRange virt size, rfl, ⟨T, hinv', fun page hpage => ?_⟩, fun page hpage => ?_⟩
    · rw [hres, PageMap.unmapRange, hA page hpage]
    · rw [PageMap.unmapRange, h.user page hpage, ite_self]
  | others alloc =>
    obtain ⟨hok, hused, rfl⟩ := hstep
    exact ⟨A, rfl, ⟨T, ⟨hinv.tree, hok, hused, hinv.owned⟩, hA⟩, h.user⟩

/-- In every reachable address space there is a tree in memory. -/
theorem refines_of_reachable {s : VmState} (hs : vmSystem.Reachable s) : ∃ A, Refines s A := by
  refine hs.invariant (P := fun s => ∃ A, Refines s A) (fun s h => ⟨_, refines_init h⟩)
    fun s e t _ h hstep => ?_
  obtain ⟨A, hA⟩ := h
  obtain ⟨A', -, hA'⟩ := refines_step hA hstep
  exact ⟨A', hA'⟩

/-- Every sequence of calls on an address space behaves as updates of a finite map: there is a
run of `pageMapSystem` with the same calls and results, and `debug_resolve` on the user range
is a lookup in the map it ends with. -/
theorem pageTables_refine (events : List VmEvent) (s : VmState) (hs : vmSystem.Exec events s) :
    ∃ A, pageMapSystem.Exec events A ∧ {page | A page ≠ none}.Finite ∧
      ∀ virt, USER_IMAGE_BASE ≤ virt → virt < USER_MAP_LIMIT →
        debugResolve s.vm.mem s.as virt =
          (A (virt / PAGE_SIZE_4K)).map fun e => (e.1 + virt % PAGE_SIZE_4K, e.2) := by
  obtain ⟨A, hrun, href⟩ := hs.simulated (R := Refines)
    (fun s h => ⟨fun _ => none, fun _ => rfl, refines_init h⟩)
    (fun _ _ _ _ h hstep => refines_step h hstep)
  obtain ⟨T, hinv, hA⟩ := href.tree
  refine ⟨A, hrun, ?_, fun virt hlo hhi => ?_⟩
  · refine (Set.finite_lt_nat (USER_MAP_LIMIT / PAGE_SIZE_4K)).subset fun page hpage => ?_
    by_contra hout
    refine hpage (href.user page ?_)
    rw [userKey_zero]
    exact fun hcon => hout hcon.2
  · have huser := userKey_of_user hlo hhi
    rw [debugResolve_eq hinv.tree huser, hA _ huser]

/-- Memory with four free pages, which is enough for one path of tables. -/
def fourPages : Vm := ⟨⟨[⟨0x100000, 0x4000, false⟩], 4, 0, 4⟩, fun _ => 0, []⟩

theorem fourPages_allocOk : AllocOk fourPages.alloc :=
  allocOk_singleton rfl ⟨by decide, by decide, by rw [U64_eq]; decide⟩ ⟨0x100, by decide⟩
    ⟨4, by decide⟩

/-- The address space that is created in the first of the four pages. -/
def firstSpace : VmState :=
  ((fourPages.createAddressSpace 0x1000 1).map fun out => ⟨out.2, out.1⟩).getD
    ⟨fourPages, ⟨0, 0, 0⟩⟩

theorem firstSpace_init : vmSystem.init firstSpace := by
  refine ⟨fourPages, 0x1000, 1, fourPages_allocOk, rfl, ?_⟩
  have hsome : (fourPages.createAddressSpace 0x1000 1).isSome = true := by with_unfolding_all decide
  obtain ⟨out, hout⟩ := Option.isSome_iff_exists.mp hsome
  simp [firstSpace, hout]

/-- One page mapped, which takes the other three pages for its tables, and looked up. -/
theorem pageTables_refine_one_page :
    ∃ s A, vmSystem.Exec [.mapPage 0x400000000000 0x5000 3 true] s ∧
      pageMapSystem.Exec [.mapPage 0x400000000000 0x5000 3 true] A ∧
      debugResolve s.vm.mem s.as 0x400000000123 = some (0x5123, pageFlags 3) ∧
      debugResolve s.vm.mem s.as 0x400000000123 =
        (A (0x400000000123 / PAGE_SIZE_4K)).map fun e =>
        (e.1 + 0x400000000123 % PAGE_SIZE_4K, e.2) := by
  have hstep : vmSystem.step firstSpace (.mapPage 0x400000000000 0x5000 3 true)
      ⟨(firstSpace.vm.mapPage firstSpace.as 0x400000000000 0x5000 3).2, firstSpace.as⟩ := by
    refine ⟨by decide, by decide, Prod.ext ?_ rfl, rfl⟩
    with_unfolding_all decide
  have hrun : vmSystem.Exec [.mapPage 0x400000000000 0x5000 3 true] _ :=
    .step (.init firstSpace_init) hstep
  obtain ⟨A, hA, -, hres⟩ := pageTables_refine _ _ hrun
  exact ⟨_, A, hrun, hA, by with_unfolding_all decide, hres _ (by decide) (by decide)⟩

/-- A `map_contiguous` of two pages under different page tables, with pages left for only one:
the call fails, the first page of its range is mapped and the second is not. So the call
neither maps the pages of its range nor leaves every translation as it was. -/
theorem mapContiguous_stops_midway :
    ¬ ∀ (events : List VmEvent) (s t : VmState) (virt phys size flags : Nat) (ok : Bool),
      vmSystem.Exec events s → vmSystem.step s (.mapContiguous virt phys size flags ok) t →
        (∀ v, virt ≤ v → v < virt + size →
          debugResolve t.vm.mem t.as v ≠ debugResolve s.vm.mem s.as v) ∨
        (∀ v, virt ≤ v → v < virt + size →
          debugResolve t.vm.mem t.as v = debugResolve s.vm.mem s.as v) := by
  intro hclaim
  have hstep : vmSystem.step firstSpace (.mapContiguous 0x4000001ff000 0x5000 0x2000 3 false)
      ⟨(firstSpace.vm.mapContiguous firstSpace.as 0x4000001ff000 0x5000 0x2000 3).2,
        firstSpace.as⟩ := by
    refine ⟨by decide, by decide, by decide, Prod.ext ?_ rfl, rfl⟩
    with_unfolding_all decide
  rcases hclaim [] _ _ _ _ _ _ _ (.init firstSpace_init) hstep with hall | hnone
  · exact hall 0x400000200000 (by decide) (by decide) (by with_unfolding_all decide)
  · exact absurd (hnone 0x4000001ff000 (by decide) (by decide)) (by with_unfolding_all decide)

end VKernel.Proofs.Memory

import Mathlib.Data.Fintype.Card
import VKernel.Proofs.Memory.TablePages

/-!
# `VKernel.Proofs.Memory.PageTables`: the radix tree of tables

The tables of an address space form a tree of four levels. A table is named by its level and
by the part of the page number that leads to it: the page table for page `k` is the table of
level 1 with key `k / 512`, its parent the one of level 2 with key `k / 512 / 512`, and the
PML4 is the one of level 4 with key 0. `PageTree` says that memory holds the tree that a
partial function `T` from names to addresses describes: every entry of a table in the user
range leads to the child that `T` has there, and no two names share an address.

With that, the address walk of the source is a lookup in `T` (`debugResolve_eq`), and the
lemmas about writes only have to show that one word of one table changed.
-/

set_option autoImplicit false

namespace VKernel.Proofs.Memory

open VKernel.Memory VKernel.Lib

/-- The addresses of tables, by level and key. -/
abbrev Tables := Nat → Nat → Option Nat

/-- The keys of a level that lie under the user slots of the PML4. -/
def UserKey (n k : Nat) : Prop := 128 * 512 ^ (3 - n) ≤ k ∧ k < 256 * 512 ^ (3 - n)

theorem UserKey.parent {n k : Nat} (hn : n < 3) (h : UserKey n k) : UserKey (n + 1) (k / 512) := by
  unfold UserKey at *
  have hpow : 512 ^ (3 - n) = 512 ^ (3 - (n + 1)) * 512 := by
    rw [← Nat.pow_succ]
    congr 1
    omega
  rw [hpow] at h
  generalize 512 ^ (3 - (n + 1)) = d at *
  omega

/-- Keys below a user key are user keys. -/
theorem UserKey.child {n k : Nat} (h3 : n < 3) (hk : UserKey (n + 1) (k / 512)) : UserKey n k := by
  unfold UserKey at *
  have hpow : 512 ^ (3 - n) = 512 ^ (3 - (n + 1)) * 512 := by
    rw [← Nat.pow_succ]
    congr 1
    omega
  rw [hpow]
  generalize 512 ^ (3 - (n + 1)) = d at *
  omega

/-- The word of a parent that leads to a child, or 0 where there is no parent. -/
def parentEntry (m : Words) (T : Tables) (n k : Nat) : Nat :=
  match T (n + 1) (k / 512) with
  | none => 0
  | some p => m (slot p (k % 512))

/-- Memory holds the tree `T` under the PML4 at `root`. -/
structure PageTree (m : Words) (root : Nat) (tables : List Nat) (T : Tables) : Prop where
  root : T 4 0 = some root
  table : ∀ n k p, T n k = some p → p ∈ tables ∧ TableOk p
  link : ∀ n k, 1 ≤ n → n ≤ 3 → UserKey n k → EntryOk (parentEntry m T n k) (T n k)
  inj : ∀ n k n' k' p, T n k = some p → T n' k' = some p → n = n' ∧ k = k'

/-- The names that tables of an address space can have. -/
def TableKey (n k : Nat) : Prop := n = 4 ∧ k = 0 ∨ 1 ≤ n ∧ n ≤ 3 ∧ UserKey n k

/-- The table pages are those of the tree, each once. -/
structure Owned (tables : List Nat) (T : Tables) : Prop where
  nodup : tables.Nodup
  named : ∀ p ∈ tables, ∃ n k, TableKey n k ∧ T n k = some p

/-- There are at most `2 ^ 19` page tables, which are different pages below 2 GiB. -/
theorem PageTree.keys_le {m : Words} {root : Nat} {tables : List Nat} {T : Tables} {a N : Nat}
    (h : PageTree m root tables T) (hsome : ∀ i < N, T 1 (a + i) ≠ none) : N ≤ 2 ^ 19 := by
  have hfin : ∀ i : Fin N, ∃ c, T 1 (a + i) = some c := fun i =>
    Option.ne_none_iff_exists'.mp (hsome i i.isLt)
  choose table htable using hfin
  have hok : ∀ i, TableOk (table i) := fun i => (h.table _ _ _ (htable i)).2
  have hlt : ∀ i, table i / PAGE_SIZE_4K < 2 ^ 19 := fun i => by
    have hbelow := (hok i).lt
    unfold IDENTITY_BRIDGE_ALLOC_MAX at hbelow
    unfold PAGE_SIZE_4K
    omega
  have hinj : Function.Injective fun i => (⟨table i / PAGE_SIZE_4K, hlt i⟩ : Fin (2 ^ 19)) := by
    intro i j hij
    have hpages : table i / PAGE_SIZE_4K = table j / PAGE_SIZE_4K := congrArg Fin.val hij
    have hsame : table i = table j := by
      rw [← Nat.div_mul_cancel (hok i).dvd, hpages, Nat.div_mul_cancel (hok j).dvd]
    have hkeys := (h.inj _ _ _ _ _ (htable i) (hsame ▸ htable j)).2
    exact Fin.ext (Nat.add_left_cancel hkeys)
  have hcard := Fintype.card_le_of_injective _ hinj
  rwa [Fintype.card_fin, Fintype.card_fin] at hcard

/-- What the tree maps a page to. -/
def resolve (m : Words) (T : Tables) (page : Nat) : Option (Nat × Nat) :=
  match T 1 (page / 512) with
  | none => none
  | some pt => leafOf (m (slot pt (page % 512)))

/-! ### The walk -/

section Walk

variable {m : Words} {root : Nat} {tables : List Nat} {T : Tables}

/-- Below a missing table there is none. -/
theorem PageTree.missing {n k : Nat} (h : PageTree m root tables T) (h1 : 1 ≤ n) (h3 : n < 3)
    (hk : UserKey n k) (hnone : T (n + 1) (k / 512) = none) : T n k = none := by
  have hlink := h.link n k h1 (Nat.le_of_lt h3) hk
  rw [parentEntry, hnone] at hlink
  cases hT : T n k with
  | none => rfl
  | some c =>
    rw [hT] at hlink
    exact absurd (Nat.zero_and _) hlink.1

/-- The entry that leads to a child. -/
theorem PageTree.entry {n k p : Nat} (h : PageTree m root tables T) (h1 : 1 ≤ n) (h3 : n ≤ 3)
    (hk : UserKey n k) (hp : T (n + 1) (k / 512) = some p) :
    EntryOk (m (slot p (k % 512))) (T n k) := by
  have hlink := h.link n k h1 h3 hk
  rw [parentEntry, hp] at hlink
  exact hlink

theorem shift_and_mask (virt s : Nat) : virt >>> s &&& 0x1FF = virt / 2 ^ s % 512 := by
  rw [Nat.shiftRight_eq_div_pow]
  exact Nat.and_two_pow_sub_one_eq_mod _ 9

theorem ptIdx_eq (virt : Nat) : ptIdx virt = virt / PAGE_SIZE_4K % 512 := shift_and_mask virt 12

theorem pdIdx_eq (virt : Nat) : pdIdx virt = virt / PAGE_SIZE_4K / 512 % 512 := by
  rw [pdIdx, shift_and_mask, Nat.div_div_eq_div_mul]
  rfl

theorem pdptIdx_eq (virt : Nat) : pdptIdx virt = virt / PAGE_SIZE_4K / 512 / 512 % 512 := by
  rw [pdptIdx, shift_and_mask, Nat.div_div_eq_div_mul, Nat.div_div_eq_div_mul]
  rfl

theorem pml4Idx_eq (virt : Nat) :
    pml4Idx virt = virt / PAGE_SIZE_4K / 512 / 512 / 512 % 512 := by
  rw [pml4Idx, shift_and_mask, Nat.div_div_eq_div_mul, Nat.div_div_eq_div_mul,
    Nat.div_div_eq_div_mul]
  rfl

/-- The keys of a user page at the three levels of tables. -/
theorem userKeys {page : Nat} (h : UserKey 0 page) :
    UserKey 1 (page / 512) ∧ UserKey 2 (page / 512 / 512) ∧ UserKey 3 (page / 512 / 512 / 512) ∧
      page / 512 / 512 / 512 / 512 = 0 := by
  have h1 := h.parent (by decide)
  have h2 := h1.parent (by decide)
  have h3 := h2.parent (by decide)
  refine ⟨h1, h2, h3, ?_⟩
  unfold UserKey at h3
  simp only [Nat.sub_self, Nat.pow_zero, Nat.mul_one] at h3
  omega

/-- Addresses of the user range and their pages. -/
theorem userKey_of_user {virt : Nat} (hlo : USER_IMAGE_BASE ≤ virt) (hhi : virt < USER_MAP_LIMIT) :
    UserKey 0 (virt / PAGE_SIZE_4K) := by
  unfold UserKey USER_IMAGE_BASE USER_MAP_LIMIT PAGE_SIZE_4K at *
  omega

/-- The bytes of a page are next to each other. -/
theorem debugResolve_add (m : Words) (as : AddressSpace) {v d : Nat} (hv : PAGE_SIZE_4K ∣ v)
    (hd : d < PAGE_SIZE_4K) :
    debugResolve m as (v + d) = (debugResolve m as v).map fun e => (e.1 + d, e.2) := by
  have hpage : (v + d) / PAGE_SIZE_4K = v / PAGE_SIZE_4K := by
    unfold PAGE_SIZE_4K at *
    omega
  have hoff : ∀ k, 12 ≤ k → (v + d) &&& (2 ^ k - 1) = (v &&& (2 ^ k - 1)) + d := by
    intro k hk
    have hdvd : (2 : Nat) ^ 12 ∣ v % 2 ^ k := (Nat.dvd_mod_iff (Nat.pow_dvd_pow 2 hk)).mpr hv
    have hlt : v % 2 ^ k < 2 ^ k := Nat.mod_lt _ (Nat.two_pow_pos k)
    have hfit : v % 2 ^ k + d < 2 ^ k := by
      obtain ⟨a, ha⟩ := hdvd
      obtain ⟨b, hb⟩ := Nat.pow_dvd_pow 2 hk
      rw [ha, hb] at hlt ⊢
      have hab : a < b := Nat.lt_of_mul_lt_mul_left hlt
      calc 2 ^ 12 * a + d < 2 ^ 12 * (a + 1) := by unfold PAGE_SIZE_4K at hd; omega
        _ ≤ 2 ^ 12 * b := Nat.mul_le_mul_left _ hab
    rw [Nat.and_two_pow_sub_one_eq_mod, Nat.and_two_pow_sub_one_eq_mod, Nat.add_mod,
      Nat.mod_eq_of_lt (Nat.lt_of_le_of_lt (Nat.le_add_left d _) hfit), Nat.mod_eq_of_lt hfit]
  have h30 : (v + d) &&& (1 <<< 30 - 1) = (v &&& (1 <<< 30 - 1)) + d := hoff 30 (by decide)
  have h21 : (v + d) &&& (1 <<< 21 - 1) = (v &&& (1 <<< 21 - 1)) + d := hoff 21 (by decide)
  have h12 : (v + d) &&& (PAGE_SIZE_4K - 1) = (v &&& (PAGE_SIZE_4K - 1)) + d :=
    hoff 12 (Nat.le_refl _)
  unfold debugResolve
  simp only [pml4Idx_eq, pdptIdx_eq, pdIdx_eq, ptIdx_eq, hpage, h30, h21, h12, ← Nat.add_assoc]
  split_ifs <;> rfl

theorem and_PA_MASK_dvd (x : Nat) : PAGE_SIZE_4K ∣ x &&& PA_MASK := by
  have hmask : PA_MASK &&& (2 ^ 12 - 1) = 0 := by decide
  refine Nat.dvd_of_mod_eq_zero ?_
  rw [show PAGE_SIZE_4K = 2 ^ 12 from rfl, ← Nat.and_two_pow_sub_one_eq_mod, Nat.and_assoc, hmask,
    Nat.and_zero]

/-- A page leads to a page. -/
theorem debugResolve_dvd {as : AddressSpace} {v phys flags : Nat}
    (hv : PAGE_SIZE_4K ∣ v) (h : debugResolve m as v = some (phys, flags)) :
    PAGE_SIZE_4K ∣ phys := by
  have hoff : ∀ k, 12 ≤ k → PAGE_SIZE_4K ∣ v &&& (2 ^ k - 1) := fun k hk => by
    rw [Nat.and_two_pow_sub_one_eq_mod]
    exact (Nat.dvd_mod_iff (Nat.pow_dvd_pow 2 hk)).mpr hv
  have hsum : ∀ {x k}, 12 ≤ k → PAGE_SIZE_4K ∣ (x &&& PA_MASK) + (v &&& (2 ^ k - 1)) :=
    fun hk => Nat.dvd_add (and_PA_MASK_dvd _) (hoff _ hk)
  unfold debugResolve at h
  simp only at h
  split_ifs at h <;> obtain ⟨rfl, -⟩ := Prod.mk.inj (Option.some.inj h)
  · exact hsum (k := 30) (by decide)
  · exact hsum (k := 21) (by decide)
  · exact hsum (k := 12) (by decide)

/-- `debug_resolve` looks the page up in the tree and adds the page offset. -/
theorem debugResolve_eq {as : AddressSpace} (h : PageTree m as.pml4Phys tables T) {virt : Nat}
    (huser : UserKey 0 (virt / PAGE_SIZE_4K)) :
    debugResolve m as virt =
      (resolve m T (virt / PAGE_SIZE_4K)).map fun e => (e.1 + virt % PAGE_SIZE_4K, e.2) := by
  have hroot := (h.table _ _ _ h.root).2
  have hr : tableFromPhys as.pml4Phys = as.pml4Phys := page_and_PA_MASK hroot
  obtain ⟨hk1, hk2, hk3, hk4⟩ := userKeys huser
  have hoff : virt &&& (PAGE_SIZE_4K - 1) = virt % PAGE_SIZE_4K :=
    Nat.and_two_pow_sub_one_eq_mod virt 12
  unfold debugResolve resolve
  rw [if_neg (Nat.ne_of_gt hroot.pos), hr]
  simp only [pml4Idx_eq, pdptIdx_eq, pdIdx_eq, ptIdx_eq, hoff]
  generalize virt / PAGE_SIZE_4K = page at *
  have e3 := h.entry (p := as.pml4Phys) (by decide) (Nat.le_refl 3) hk3 (by rw [hk4]; exact h.root)
  cases hT3 : T 3 (page / 512 / 512 / 512) with
  | none =>
    rw [hT3] at e3
    have hT2 := h.missing (by decide) (by decide) hk2 hT3
    rw [h.missing (by decide) (by decide) hk1 hT2]
    simp only [show _ &&& PTE_PRESENT = 0 from e3, true_or, if_true, Option.map_none]
  | some pdpt =>
    rw [hT3] at e3
    obtain ⟨hp3, hh3, hm3⟩ := e3
    rw [if_neg (by rw [not_or]; exact ⟨hp3, not_not.mpr hh3⟩), tableFromPhys, hm3]
    have e2 := h.entry (by decide) (by decide) hk2 hT3
    cases hT2 : T 2 (page / 512 / 512) with
    | none =>
      rw [hT2] at e2
      rw [h.missing (by decide) (by decide) hk1 hT2]
      simp only [show _ &&& PTE_PRESENT = 0 from e2, if_true, Option.map_none]
    | some pd =>
      rw [hT2] at e2
      obtain ⟨hp2, hh2, hm2⟩ := e2
      rw [if_neg hp2, if_neg (not_not.mpr hh2), tableFromPhys, hm2]
      have e1 := h.entry (by decide) (by decide) hk1 hT2
      cases hT1 : T 1 (page / 512) with
      | none =>
        rw [hT1] at e1
        simp only [show _ &&& PTE_PRESENT = 0 from e1, if_true, Option.map_none]
      | some pt =>
        rw [hT1] at e1
        obtain ⟨hp1, hh1, hm1⟩ := e1
        rw [if_neg hp1, if_neg (not_not.mpr hh1), tableFromPhys, hm1]
        simp only [leafOf]
        split <;> rfl

end Walk

/-! ### Writes -/

section Writes

variable {m m' : Words} {root : Nat} {tables : List Nat} {T : Tables}

/-- Words of tables are told apart by the table and the index. -/
theorem slot_inj {p q i j : Nat} (hp : PAGE_SIZE_4K ∣ p) (hq : PAGE_SIZE_4K ∣ q) (hi : i < 512)
    (hj : j < 512) (h : slot p i = slot q j) : p = q ∧ i = j := by
  obtain ⟨a, rfl⟩ := hp
  obtain ⟨b, rfl⟩ := hq
  unfold slot PAGE_SIZE_4K at *
  omega

/-- A write to one word of a table leaves the words of all other names alone. -/
theorem PageTree.update_ne {n k p i n' k' p' j v : Nat} (h : PageTree m root tables T)
    (hp : T n k = some p) (hi : i < 512) (hp' : T n' k' = some p') (hj : j < 512)
    (hne : ¬ (n' = n ∧ k' = k ∧ j = i)) :
    Function.update m (slot p i) v (slot p' j) = m (slot p' j) := by
  refine Function.update_of_ne (fun heq => hne ?_) ..
  obtain ⟨hpp, hij⟩ := slot_inj (h.table _ _ _ hp').2.dvd (h.table _ _ _ hp).2.dvd hj hi heq
  obtain ⟨hn, hk⟩ := h.inj n' k' n k p' hp' (hpp ▸ hp)
  exact ⟨hn, hk, hij⟩

/-- The tree only depends on the words that lead from parents to children. -/
theorem PageTree.congr (h : PageTree m root tables T)
    (hm : ∀ n k p, 1 ≤ n → n ≤ 3 → UserKey n k → T (n + 1) (k / 512) = some p →
      EntryOk (m' (slot p (k % 512))) (T n k)) : PageTree m' root tables T where
  root := h.root
  table := h.table
  link n k h1 h3 hk := by
    cases hp : T (n + 1) (k / 512) with
    | none =>
      have := h.link n k h1 h3 hk
      rw [parentEntry, hp] at this ⊢
      exact this
    | some p =>
      rw [parentEntry, hp]
      exact hm n k p h1 h3 hk hp
  inj := h.inj

/-- Writing an entry of a page table changes what one page maps to and nothing else. -/
theorem PageTree.writeLeaf {page pt v : Nat} (h : PageTree m root tables T)
    (hpt : T 1 (page / 512) = some pt) :
    PageTree (Function.update m (slot pt (page % 512)) v) root tables T ∧
      ∀ page', resolve (Function.update m (slot pt (page % 512)) v) T page' =
        if page' = page then leafOf v else resolve m T page' := by
  have hmod : ∀ x : Nat, x % 512 < 512 := fun x => Nat.mod_lt _ (by decide)
  refine ⟨h.congr fun n k p h1 h3 hk hp => ?_, fun page' => ?_⟩
  · rw [h.update_ne hpt (hmod _) hp (hmod _) (by omega)]
    exact h.entry h1 h3 hk hp
  · unfold resolve
    by_cases heq : page' = page
    · rw [if_pos heq, heq, hpt]
      simp only [Function.update_self]
    · rw [if_neg heq]
      cases hT : T 1 (page' / 512) with
      | none => rfl
      | some pt' =>
        simp only
        rw [h.update_ne hpt (hmod _) hT (hmod _) (by omega)]

/-- Rewriting the entry that leads to an existing child keeps the tree. -/
theorem PageTree.writeLink {n k p v : Nat} (h : PageTree m root tables T) (h1 : 1 ≤ n)
    (hp : T (n + 1) (k / 512) = some p) (hv : EntryOk v (T n k)) :
    PageTree (Function.update m (slot p (k % 512)) v) root tables T ∧
      ∀ page, resolve (Function.update m (slot p (k % 512)) v) T page = resolve m T page := by
  have hmod : ∀ x : Nat, x % 512 < 512 := fun x => Nat.mod_lt _ (by decide)
  refine ⟨h.congr fun n' k' p' h1' h3' hk' hp' => ?_, fun page => ?_⟩
  · by_cases heq : n' = n ∧ k' = k
    · obtain ⟨rfl, rfl⟩ := heq
      obtain rfl : p = p' := Option.some.inj (hp.symm.trans hp')
      rw [Function.update_self]
      exact hv
    · rw [h.update_ne hp (hmod _) hp' (hmod _) (by omega)]
      exact h.entry h1' h3' hk' hp'
  · unfold resolve
    cases hT : T 1 (page / 512) with
    | none => rfl
    | some pt =>
      simp only
      rw [h.update_ne hp (hmod _) hT (hmod _) (by omega)]

/-- The tree with one more table. -/
def addTable (T : Tables) (n k c : Nat) : Tables :=
  fun n' k' => if n' = n ∧ k' = k then some c else T n' k'

theorem addTable_self (T : Tables) (n k c : Nat) : addTable T n k c n k = some c :=
  if_pos ⟨rfl, rfl⟩

theorem addTable_of_ne (T : Tables) {n k n' k' : Nat} (c : Nat) (h : ¬ (n' = n ∧ k' = k)) :
    addTable T n k c n' k' = T n' k' :=
  if_neg h

/-- A fresh table has the name that it is added under. -/
theorem Owned.addTable {n k c : Nat} (h : Owned tables T) (hkey : TableKey n k)
    (hnone : T n k = none) (hfresh : c ∉ tables) : Owned (c :: tables) (addTable T n k c) where
  nodup := List.nodup_cons.mpr ⟨hfresh, h.nodup⟩
  named p hp := by
    rcases List.mem_cons.mp hp with rfl | hp
    · exact ⟨n, k, hkey, addTable_self T n k p⟩
    · obtain ⟨n', k', hkey', hT⟩ := h.named p hp
      refine ⟨n', k', hkey', ?_⟩
      rw [addTable_of_ne T c, hT]
      rintro ⟨rfl, rfl⟩
      exact Option.some_ne_none _ (hT.symm.trans hnone)

/-- Words of other pages survive the zeroing of a page. -/
theorem zeroPage_of_ne {c p i : Nat} (hc : PAGE_SIZE_4K ∣ c) (hp : PAGE_SIZE_4K ∣ p) (hi : i < 512)
    (hne : p ≠ c) : zeroPage m c (slot p i) = m (slot p i) := by
  refine if_neg fun hcon => hne ?_
  obtain ⟨a, rfl⟩ := hc
  obtain ⟨b, rfl⟩ := hp
  unfold slot PAGE_SIZE_4K at *
  omega

theorem zeroPage_self {c i : Nat} (hi : i < 512) : zeroPage m c (slot c i) = 0 := by
  refine if_pos ?_
  unfold slot PAGE_SIZE_4K
  omega

/-- Linking a fresh, zeroed table where there was none adds it to the tree, and no page maps
to anything new. -/
theorem PageTree.addChild {n k p c v : Nat} (h : PageTree m root tables T) (h1 : 1 ≤ n)
    (h3 : n ≤ 3) (hk : UserKey n k) (hp : T (n + 1) (k / 512) = some p) (hnone : T n k = none)
    (hc : TableOk c) (hfresh : c ∉ tables) (hv : EntryOk v (some c)) :
    PageTree (Function.update (zeroPage m c) (slot p (k % 512)) v) root (c :: tables)
        (addTable T n k c) ∧
      ∀ page, resolve (Function.update (zeroPage m c) (slot p (k % 512)) v)
        (addTable T n k c) page = resolve m T page := by
  have hmod : ∀ x : Nat, x % 512 < 512 := fun x => Nat.mod_lt _ (by decide)
  have hold : ∀ n' k' p', T n' k' = some p' → p' ≠ c := by
    intro n' k' p' hp' heq
    exact hfresh (heq ▸ (h.table n' k' p' hp').1)
  have hpc := hold _ _ _ hp
  -- The new table reads as zeros: it is not the parent.
  have hzero : ∀ j, j < 512 →
      Function.update (zeroPage m c) (slot p (k % 512)) v (slot c j) = 0 := by
    intro j hj
    rw [Function.update_of_ne fun heq => hpc
      (slot_inj hc.dvd (h.table _ _ _ hp).2.dvd hj (hmod _) heq).1.symm]
    exact zeroPage_self hj
  -- The old tables read as before, but for the new entry.
  have hsame : ∀ n' k' p' j, T n' k' = some p' → j < 512 →
      ¬ (n' = n + 1 ∧ k' = k / 512 ∧ j = k % 512) →
      Function.update (zeroPage m c) (slot p (k % 512)) v (slot p' j) = m (slot p' j) := by
    intro n' k' p' j hp' hj hne
    have hdvd := (h.table _ _ _ hp').2.dvd
    rw [← zeroPage_of_ne (m := m) hc.dvd hdvd hj (hold _ _ _ hp')]
    refine Function.update_of_ne (fun heq => hne ?_) ..
    obtain ⟨hpp, hij⟩ := slot_inj hdvd (h.table _ _ _ hp).2.dvd hj (hmod _) heq
    obtain ⟨hn, hk'⟩ := h.inj _ _ _ _ _ hp' (hpp ▸ hp)
    exact ⟨hn, hk', hij⟩
  refine ⟨⟨?_, ?_, ?_, ?_⟩, fun page => ?_⟩
  · rw [addTable_of_ne T c (by omega)]
    exact h.root
  · intro n' k' p' hp'
    unfold addTable at hp'
    split at hp'
    · obtain rfl : c = p' := Option.some.inj hp'
      exact ⟨List.mem_cons_self, hc⟩
    · exact ⟨List.mem_cons_of_mem _ (h.table _ _ _ hp').1, (h.table _ _ _ hp').2⟩
  · intro n' k' h1' h3' hk'
    by_cases hparent : n' + 1 = n ∧ k' / 512 = k
    · -- A child of the new table: its entry is zero, and it did not exist before.
      obtain ⟨rfl, rfl⟩ := hparent
      have hchild : T n' k' = none := h.missing h1' (by omega) hk' hnone
      rw [parentEntry, addTable_self, addTable_of_ne T c (by omega), hchild]
      simp only [hzero _ (hmod k')]
      exact Nat.zero_and _
    · rw [parentEntry, addTable_of_ne T c hparent]
      by_cases hself : n' = n ∧ k' = k
      · obtain ⟨rfl, rfl⟩ := hself
        rw [addTable_self, hp]
        simp only [Function.update_self]
        exact hv
      · rw [addTable_of_ne T c hself]
        have hlink := h.link n' k' h1' h3' hk'
        rw [parentEntry] at hlink
        cases hT : T (n' + 1) (k' / 512) with
        | none => simpa [hT] using hlink
        | some p' =>
          simp only [hT] at hlink ⊢
          rw [hsame _ _ _ _ hT (hmod _) (by omega)]
          exact hlink
  · intro n₁ k₁ n₂ k₂ q hq₁ hq₂
    unfold addTable at hq₁ hq₂
    split at hq₁ <;> split at hq₂
    · rename_i ha hb
      exact ⟨ha.1.trans hb.1.symm, ha.2.trans hb.2.symm⟩
    · obtain rfl : c = q := Option.some.inj hq₁
      exact absurd rfl (hold _ _ _ hq₂)
    · obtain rfl : c = q := Option.some.inj hq₂
      exact absurd rfl (hold _ _ _ hq₁)
    · exact h.inj _ _ _ _ _ hq₁ hq₂
  · unfold resolve
    by_cases hnew : 1 = n ∧ page / 512 = k
    · obtain ⟨rfl, rfl⟩ := hnew
      rw [addTable_self, hnone]
      simp only [hzero _ (hmod page), leafOf_zero]
    · rw [addTable_of_ne T c hnew]
      cases hT : T 1 (page / 512) with
      | none => rfl
      | some pt =>
        simp only
        rw [hsame _ _ _ _ hT (hmod _) (by omega)]

end Writes

end VKernel.Proofs.Memory

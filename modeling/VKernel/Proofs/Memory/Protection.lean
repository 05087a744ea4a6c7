import VKernel.Memory.Protection
import VKernel.Proofs.Memory.VirtualMemory

/-!
# `VKernel.Proofs.Memory.Protection`: `mprotect` and its page count

`protect_process_mapping` may be called for any address, so the tables of the kernel's half count
as well. What makes the loop safe is that tables have levels (`Layered`): the entry of a page is
never the entry of a directory, so writing it moves no other page. `Reprotected` is what the loop
may do to memory: directory entries keep what the walk follows, and page entries keep their page.
It is transitive, and an entry that was rewritten stays as it is, so the induction over the loop
needs nothing else (`protectPages_spec`).

The page count is where the call goes wrong. The sum of the offset in the first page and the
length is rounded up in 64 bits. For lengths near `2 ^ 64` it wraps, and then no page or one page
is all that is looked at, and the answer is `true`.
-/

set_option autoImplicit false
set_option maxRecDepth 20000

namespace VKernel.Proofs.Memory

open VKernel.Memory VKernel.Lib

/-! ### Levels -/

/-- Tables have levels: the PML4 has level 4, and an entry leads one level down. -/
structure Layered (m : Words) (as : AddressSpace) (level : Nat → Nat) : Prop where
  root : level (tableFromPhys as.pml4Phys) = 4
  child : ∀ p l i, level p = l + 2 → i < 512 → m (slot p i) &&& PTE_PRESENT ≠ 0 →
    m (slot p i) &&& PTE_HUGE = 0 → level (tableFromPhys (m (slot p i))) = l + 1
  aligned : ∀ p, level p ≠ 0 → PAGE_SIZE_4K ∣ p

/-- Page entries may get the flags `f`. Directory entries keep what the walk follows. -/
structure Reprotected (level : Nat → Nat) (f : Nat) (m m' : Words) : Prop where
  upper : ∀ p i, 2 ≤ level p → i < 512 →
    m' (slot p i) &&& PTE_PRESENT = m (slot p i) &&& PTE_PRESENT ∧
      m' (slot p i) &&& PTE_HUGE = m (slot p i) &&& PTE_HUGE ∧
      m' (slot p i) &&& PA_MASK = m (slot p i) &&& PA_MASK
  leaf : ∀ p i, level p = 1 → i < 512 → m' (slot p i) = m (slot p i) ∨
    m (slot p i) &&& PTE_PRESENT ≠ 0 ∧ m' (slot p i) = m (slot p i) &&& PA_MASK ||| pageFlags f

/-- The table that an entry leads to, or `none` when it does not. -/
def nextTable (m : Words) (table i : Nat) : Option Nat :=
  if m (slot table i) &&& PTE_PRESENT = 0 ∨ m (slot table i) &&& PTE_HUGE ≠ 0 then none
  else some (tableFromPhys (m (slot table i)))

/-- The address of the page entry that `map_page` writes for an address, when it needs no new
table. A table at address 0 counts as none. -/
def mapEntry (m : Words) (as : AddressSpace) (virt : Nat) : Option Nat :=
  ((nextTable m (tableFromPhys as.pml4Phys) (pml4Idx virt)).filter (· ≠ 0)).bind fun pdpt =>
    ((nextTable m pdpt (pdptIdx virt)).filter (· ≠ 0)).bind fun pd =>
      ((nextTable m pd (pdIdx virt)).filter (· ≠ 0)).map fun pt => slot pt (ptIdx virt)

/-- The page of the address is mapped by a page entry, and not to physical page 0. -/
def Protectable (m : Words) (as : AddressSpace) (virt : Nat) : Prop :=
  ∃ a, mapEntry m as virt = some a ∧ m a &&& PTE_PRESENT ≠ 0 ∧ m a &&& PA_MASK ≠ 0

section Levels

variable {m m' m'' : Words} {as : AddressSpace} {level : Nat → Nat} {f : Nat}

theorem Reprotected.refl (level : Nat → Nat) (f : Nat) (m : Words) : Reprotected level f m m where
  upper _ _ _ _ := ⟨rfl, rfl, rfl⟩
  leaf _ _ _ _ := .inl rfl

/-- A page entry that got its flags. -/
theorem leafEntry_bits (e flags : Nat) :
    (e &&& PA_MASK ||| pageFlags flags) &&& PTE_PRESENT ≠ 0 ∧
      (e &&& PA_MASK ||| pageFlags flags) &&& PA_MASK = e &&& PA_MASK ∧
      (e &&& PA_MASK ||| pageFlags flags) &&& NOT_PA_MASK = pageFlags flags := by
  have hleaf := leafOf_leafEntry e flags
  unfold leafOf at hleaf
  split at hleaf
  · exact absurd hleaf (by simp)
  · rename_i hpresent
    rw [Option.some.injEq, Prod.mk.injEq] at hleaf
    exact ⟨hpresent, hleaf.1, hleaf.2⟩

theorem Reprotected.trans (h : Reprotected level f m m') (h' : Reprotected level f m' m'') :
    Reprotected level f m m'' where
  upper p i hp hi := by
    obtain ⟨h1, h2, h3⟩ := h.upper p i hp hi
    obtain ⟨h1', h2', h3'⟩ := h'.upper p i hp hi
    exact ⟨h1'.trans h1, h2'.trans h2, h3'.trans h3⟩
  leaf p i hp hi := by
    rcases h.leaf p i hp hi with heq | ⟨hpresent, heq⟩
    · rw [← heq]
      exact h'.leaf p i hp hi
    · refine .inr ⟨hpresent, ?_⟩
      -- Rewriting an entry twice is rewriting it once.
      rcases h'.leaf p i hp hi with heq' | ⟨-, heq'⟩
      · rw [heq', heq]
      · rw [heq', heq, (leafEntry_bits _ _).2.1]

/-- An entry that got its flags keeps them. -/
theorem Reprotected.kept {p i e : Nat} (h : Reprotected level f m m') (hp : level p = 1)
    (hi : i < 512) (hdone : m (slot p i) = e &&& PA_MASK ||| pageFlags f) :
    m' (slot p i) = e &&& PA_MASK ||| pageFlags f := by
  rcases h.leaf p i hp hi with heq | ⟨-, heq⟩
  · rw [heq, hdone]
  · rw [heq, hdone, (leafEntry_bits _ _).2.1]

/-- The walk goes the same way. -/
theorem Reprotected.nextTable_eq {p i : Nat} (h : Reprotected level f m m') (hp : 2 ≤ level p)
    (hi : i < 512) : nextTable m' p i = nextTable m p i := by
  obtain ⟨h1, h2, h3⟩ := h.upper p i hp hi
  unfold nextTable tableFromPhys
  rw [h1, h2, h3]

theorem Reprotected.layered (h : Reprotected level f m m') (hl : Layered m as level) :
    Layered m' as level where
  root := hl.root
  child p l i hp hi hpresent hsmall := by
    obtain ⟨h1, h2, h3⟩ := h.upper p i (by omega) hi
    rw [h1] at hpresent
    rw [h2] at hsmall
    have hchild := hl.child p l i hp hi hpresent hsmall
    unfold tableFromPhys at hchild ⊢
    rwa [h3]
  aligned := hl.aligned

theorem pml4Idx_lt (virt : Nat) : pml4Idx virt < 512 :=
  Nat.lt_of_le_of_lt Nat.and_le_right (by decide)

theorem pdptIdx_lt (virt : Nat) : pdptIdx virt < 512 :=
  Nat.lt_of_le_of_lt Nat.and_le_right (by decide)

theorem pdIdx_lt (virt : Nat) : pdIdx virt < 512 :=
  Nat.lt_of_le_of_lt Nat.and_le_right (by decide)

theorem ptIdx_lt (virt : Nat) : ptIdx virt < 512 :=
  Nat.lt_of_le_of_lt Nat.and_le_right (by decide)

/-- The table below a table of some level. -/
theorem Layered.next {p l i c : Nat} (hl : Layered m as level) (hp : level p = l + 2)
    (hi : i < 512) (hc : nextTable m p i = some c) :
    level c = l + 1 ∧ m (slot p i) &&& PTE_PRESENT ≠ 0 ∧ m (slot p i) &&& PTE_HUGE = 0 ∧
      tableFromPhys (m (slot p i)) = c := by
  unfold nextTable at hc
  split at hc
  · contradiction
  · rename_i hentry
    rw [not_or, not_not] at hentry
    obtain rfl := Option.some.inj hc
    exact ⟨hl.child p l i hp hi hentry.1 hentry.2, hentry.1, hentry.2, rfl⟩

/-- Where an address leads to does not change. -/
theorem Reprotected.target (h : Reprotected level f m m') (hl : Layered m as level) (virt : Nat) :
    (debugResolve m' as virt).map Prod.fst = (debugResolve m as virt).map Prod.fst := by
  have hchild : ∀ {p l i}, level p = l + 2 → i < 512 →
      m (slot p i) &&& PTE_PRESENT ≠ 0 → ¬ m (slot p i) &&& PTE_HUGE ≠ 0 →
      level (tableFromPhys (m (slot p i))) = l + 1 :=
    fun hp hi hpresent hsmall => hl.child _ _ _ hp hi hpresent (not_not.mp hsmall)
  unfold debugResolve
  by_cases h0 : as.pml4Phys = 0
  · rw [if_pos h0, if_pos h0]
  rw [if_neg h0, if_neg h0]
  dsimp only
  obtain ⟨a4, b4, c4⟩ := h.upper _ (pml4Idx virt) (by rw [hl.root]; decide) (pml4Idx_lt virt)
  have t4 : tableFromPhys (m' (slot (tableFromPhys as.pml4Phys) (pml4Idx virt))) =
      tableFromPhys (m (slot (tableFromPhys as.pml4Phys) (pml4Idx virt))) := c4
  rw [a4, b4, t4]
  by_cases hp4 : m (slot (tableFromPhys as.pml4Phys) (pml4Idx virt)) &&& PTE_PRESENT = 0 ∨
      m (slot (tableFromPhys as.pml4Phys) (pml4Idx virt)) &&& PTE_HUGE ≠ 0
  · rw [if_pos hp4, if_pos hp4]
  rw [if_neg hp4, if_neg hp4]
  rw [not_or] at hp4
  have l3 := hchild hl.root (pml4Idx_lt virt) hp4.1 hp4.2
  generalize tableFromPhys (m (slot (tableFromPhys as.pml4Phys) (pml4Idx virt))) = pdpt at *
  obtain ⟨a3, b3, c3⟩ := h.upper pdpt (pdptIdx virt) (by rw [l3]; decide) (pdptIdx_lt virt)
  have t3 : tableFromPhys (m' (slot pdpt (pdptIdx virt))) =
      tableFromPhys (m (slot pdpt (pdptIdx virt))) := c3
  rw [a3, b3, c3, t3]
  by_cases hp3 : m (slot pdpt (pdptIdx virt)) &&& PTE_PRESENT = 0
  · rw [if_pos hp3, if_pos hp3]
  rw [if_neg hp3, if_neg hp3]
  by_cases hh3 : m (slot pdpt (pdptIdx virt)) &&& PTE_HUGE ≠ 0
  · rw [if_pos hh3, if_pos hh3]
    rfl
  rw [if_neg hh3, if_neg hh3]
  have l2 := hchild l3 (pdptIdx_lt virt) hp3 hh3
  generalize tableFromPhys (m (slot pdpt (pdptIdx virt))) = pd at *
  obtain ⟨a2, b2, c2⟩ := h.upper pd (pdIdx virt) (by rw [l2]) (pdIdx_lt virt)
  have t2 : tableFromPhys (m' (slot pd (pdIdx virt))) = tableFromPhys (m (slot pd (pdIdx virt))) :=
    c2
  rw [a2, b2, c2, t2]
  by_cases hp2 : m (slot pd (pdIdx virt)) &&& PTE_PRESENT = 0
  · rw [if_pos hp2, if_pos hp2]
  rw [if_neg hp2, if_neg hp2]
  by_cases hh2 : m (slot pd (pdIdx virt)) &&& PTE_HUGE ≠ 0
  · rw [if_pos hh2, if_pos hh2]
    rfl
  rw [if_neg hh2, if_neg hh2]
  have l1 := hchild l2 (pdIdx_lt virt) hp2 hh2
  generalize tableFromPhys (m (slot pd (pdIdx virt))) = pt at *
  -- The page entry is as before, or present before and after with the same page.
  rcases h.leaf pt (ptIdx virt) l1 (ptIdx_lt virt) with heq | ⟨hpresent, heq⟩
  · rw [heq]
  · obtain ⟨hpresent', hpa, -⟩ := leafEntry_bits (m (slot pt (ptIdx virt))) f
    rw [heq, if_neg hpresent, if_neg hpresent', hpa]
    rfl

end Levels

/-! ### One page -/

section Page

variable {s : Vm} {as : AddressSpace} {level : Nat → Nat} {f : Nat}

/-- The writable and the user bit are none of those that the walk follows. -/
theorem linkFlags_bits (e flags : Nat) :
    (e ||| (PTE_WRITABLE ||| (flags &&& PTE_USER))) &&& PTE_PRESENT = e &&& PTE_PRESENT ∧
      (e ||| (PTE_WRITABLE ||| (flags &&& PTE_USER))) &&& PTE_HUGE = e &&& PTE_HUGE ∧
      (e ||| (PTE_WRITABLE ||| (flags &&& PTE_USER))) &&& PA_MASK = e &&& PA_MASK := by
  have hmask : ∀ mask, PTE_WRITABLE &&& mask = 0 → PTE_USER &&& mask = 0 →
      (e ||| (PTE_WRITABLE ||| (flags &&& PTE_USER))) &&& mask = e &&& mask := by
    intro mask hw hu
    rw [Nat.and_or_distrib_right, Nat.and_or_distrib_right, Nat.and_assoc flags, hw, hu,
      Nat.and_zero, Nat.or_zero, Nat.or_zero]
  exact ⟨hmask _ (by decide) (by decide), hmask _ (by decide) (by decide),
    hmask _ (by decide) (by decide)⟩

/-- Words of tables of different levels are different words. -/
theorem Layered.slot_ne {m : Words} {p q i j : Nat} (hl : Layered m as level) (hp : level p ≠ 0)
    (hq : level q ≠ 0) (hi : i < 512) (hj : j < 512) (hne : ¬ (p = q ∧ i = j)) :
    slot p i ≠ slot q j :=
  fun heq => hne (slot_inj (hl.aligned p hp) (hl.aligned q hq) hi hj heq)

/-- `ensure_next_table` on a present entry follows it and sets flags on the way. -/
theorem ensureNextTable_present {p i : Nat} (flags : Nat) (hl : Layered s.mem as level)
    (hp : 2 ≤ level p) (hi : i < 512) (hpresent : s.mem (slot p i) &&& PTE_PRESENT ≠ 0) :
    ∃ s', s.ensureNextTable p i flags = ((nextTable s.mem p i).getD 0, s') ∧
      Reprotected level f s.mem s'.mem ∧
      ∀ q j, level q = 1 → j < 512 → s'.mem (slot q j) = s.mem (slot q j) := by
  unfold Vm.ensureNextTable nextTable
  dsimp only
  rw [if_neg hpresent]
  by_cases hhuge : s.mem (slot p i) &&& PTE_HUGE ≠ 0
  · rw [if_pos hhuge, if_pos (.inr hhuge)]
    exact ⟨s, rfl, Reprotected.refl level f s.mem, fun _ _ _ _ => rfl⟩
  rw [if_neg hhuge, if_neg (by rw [not_or]; exact ⟨hpresent, hhuge⟩)]
  obtain ⟨h1, h2, h3⟩ := linkFlags_bits (s.mem (slot p i)) flags
  have hleaves : ∀ q j, level q = 1 → j < 512 →
      Function.update s.mem (slot p i)
        (s.mem (slot p i) ||| (PTE_WRITABLE ||| (flags &&& PTE_USER))) (slot q j) =
        s.mem (slot q j) := fun q j hq hj =>
    Function.update_of_ne (hl.slot_ne (by omega) (by omega) hj hi fun hcon => by
      rw [hcon.1] at hq
      omega) ..
  refine ⟨s.write (slot p i) (s.mem (slot p i) ||| (PTE_WRITABLE ||| (flags &&& PTE_USER))), ?_,
    ⟨fun q j hq hj => ?_, fun q j hq hj => .inl (hleaves q j hq hj)⟩, hleaves⟩
  · simp only [Vm.write, Function.update_self, tableFromPhys, Option.getD_some]
    rw [h3]
  · by_cases hsame : q = p ∧ j = i
    · obtain ⟨rfl, rfl⟩ := hsame
      simp only [Vm.write, Function.update_self]
      exact ⟨h1, h2, h3⟩
    · have hother : (s.write (slot p i)
          (s.mem (slot p i) ||| (PTE_WRITABLE ||| (flags &&& PTE_USER)))).mem (slot q j) =
          s.mem (slot q j) :=
        Function.update_of_ne (hl.slot_ne (by omega) (by omega) hj hi hsame) ..
      rw [hother]
      exact ⟨rfl, rfl, rfl⟩

/-- Looking up an address through its page entry. -/
theorem debugResolve_of_mapEntry {m : Words} {virt a : Nat} (h0 : as.pml4Phys ≠ 0)
    (ha : mapEntry m as virt = some a) :
    debugResolve m as virt = if m a &&& PTE_PRESENT = 0 then none
      else some ((m a &&& PA_MASK) + (virt &&& (PAGE_SIZE_4K - 1)), m a &&& NOT_PA_MASK) := by
  obtain ⟨pdpt, h3, ha⟩ := Option.bind_eq_some_iff.mp ha
  obtain ⟨pd, h2, ha⟩ := Option.bind_eq_some_iff.mp ha
  obtain ⟨pt, h1, rfl⟩ := Option.map_eq_some_iff.mp ha
  have hnext : ∀ {table i c}, (nextTable m table i).filter (· ≠ 0) = some c →
      ¬ m (slot table i) &&& PTE_PRESENT = 0 ∧ ¬ m (slot table i) &&& PTE_HUGE ≠ 0 ∧
        tableFromPhys (m (slot table i)) = c := by
    intro table i c hc
    obtain ⟨hc, -⟩ := Option.filter_eq_some_iff.mp hc
    unfold nextTable at hc
    split at hc
    · contradiction
    · rename_i hentry
      rw [not_or] at hentry
      exact ⟨hentry.1, hentry.2, Option.some.inj hc⟩
  obtain ⟨p3, q3, t3⟩ := hnext h3
  obtain ⟨p2, q2, t2⟩ := hnext h2
  obtain ⟨p1, q1, t1⟩ := hnext h1
  unfold debugResolve
  rw [if_neg h0]
  dsimp only
  rw [if_neg (by rw [not_or]; exact ⟨p3, q3⟩), t3, if_neg p2, if_neg q2, t2, if_neg p1, if_neg q1,
    t1]

/-- The store of a page entry that keeps its page. -/
theorem writeLeaf_reprotects {m m' : Words} {pt i : Nat} (hl : Layered m as level)
    (hrep : Reprotected level f m m')
    (hsame : ∀ q j, level q = 1 → j < 512 → m' (slot q j) = m (slot q j)) (hpt : level pt = 1)
    (hi : i < 512) (hpresent : m (slot pt i) &&& PTE_PRESENT ≠ 0) :
    Reprotected level f m
      (Function.update m' (slot pt i) (m (slot pt i) &&& PA_MASK ||| pageFlags f)) where
  upper q j hq hj := by
    have hother : slot q j ≠ slot pt i := hl.slot_ne (by omega) (by omega) hj hi fun hcon => by
      rw [hcon.1] at hq
      omega
    rw [Function.update_of_ne hother]
    exact hrep.upper q j hq hj
  leaf q j hq hj := by
    by_cases hself : q = pt ∧ j = i
    · obtain ⟨rfl, rfl⟩ := hself
      exact .inr ⟨hpresent, Function.update_self ..⟩
    · rw [Function.update_of_ne (hl.slot_ne (by omega) (by omega) hj hi hself)]
      exact .inl (hsame q j hq hj)

/-- `map_page` for a page that is mapped already, to where it is mapped: it succeeds exactly for
page entries, and changes their flags. -/
theorem mapPage_protects {virt phys bits : Nat} (flags : Nat) (hl : Layered s.mem as level)
    (halign : isAligned virt PAGE_SIZE_4K = true)
    (hres : debugResolve s.mem as virt = some (phys, bits)) :
    ∃ ok s', s.mapPage as virt (alignDown phys PAGE_SIZE_4K) flags = (ok, s') ∧
      Reprotected level flags s.mem s'.mem ∧ (ok = true ↔ Protectable s.mem as virt) ∧
      (ok = true → ∀ a, mapEntry s.mem as virt = some a →
        s'.mem a = s.mem a &&& PA_MASK ||| pageFlags flags) := by
  have h0 : as.pml4Phys ≠ 0 := fun hcon => by
    rw [debugResolve, if_pos hcon] at hres
    contradiction
  have hoff : virt &&& (PAGE_SIZE_4K - 1) = 0 := by
    rw [isAligned_iff] at halign
    exact (Nat.and_two_pow_sub_one_eq_mod virt 12).trans halign
  -- A page entry is where the address resolves to.
  have hpage : ∀ {a}, mapEntry s.mem as virt = some a →
      s.mem a &&& PTE_PRESENT ≠ 0 ∧ alignDown phys PAGE_SIZE_4K = s.mem a &&& PA_MASK := by
    intro a ha
    rw [debugResolve_of_mapEntry h0 ha, hoff, Nat.add_zero] at hres
    split at hres
    · contradiction
    · rename_i hpresent
      rw [Option.some.injEq, Prod.mk.injEq] at hres
      rw [← hres.1]
      exact ⟨hpresent, alignDown_PA _⟩
  unfold Vm.mapPage
  by_cases hphys : alignDown phys PAGE_SIZE_4K = 0
  · rw [if_pos (.inr hphys)]
    refine ⟨false, s, rfl, Reprotected.refl _ _ _, ⟨fun hcon => by contradiction, ?_⟩,
      fun hcon => by contradiction⟩
    rintro ⟨a, ha, -, hne⟩
    exact absurd ((hpage ha).2.symm.trans hphys) hne
  rw [if_neg (by rw [not_or]; exact ⟨h0, hphys⟩),
    if_neg (by rw [not_or, not_not, not_not]; exact ⟨halign, isAligned_alignDown phys⟩)]
  dsimp only
  generalize (if flags &&& MAP_USER ≠ 0 then PTE_USER else 0) = user
  -- The call fails when there is no page entry.
  have hfail : ∀ s' : Vm, Reprotected level flags s.mem s'.mem → mapEntry s.mem as virt = none →
      ∃ ok s'', ((false, s') : Bool × Vm) = (ok, s'') ∧ Reprotected level flags s.mem s''.mem ∧
        (ok = true ↔ Protectable s.mem as virt) ∧
        (ok = true → ∀ a, mapEntry s.mem as virt = some a →
          s''.mem a = s.mem a &&& PA_MASK ||| pageFlags flags) := by
    intro s' hrep hnone
    refine ⟨false, s', rfl, hrep, ⟨fun hcon => by contradiction, ?_⟩, fun hcon => by contradiction⟩
    rintro ⟨a, ha, -⟩
    rw [hnone] at ha
    contradiction
  unfold debugResolve at hres
  rw [if_neg h0] at hres
  dsimp only at hres
  split at hres
  · contradiction
  rename_i hp4
  rw [not_or] at hp4
  have hn3 : nextTable s.mem (tableFromPhys as.pml4Phys) (pml4Idx virt) =
      some (tableFromPhys (s.mem (slot (tableFromPhys as.pml4Phys) (pml4Idx virt)))) :=
    if_neg (by rw [not_or]; exact hp4)
  have l3 := (hl.next hl.root (pml4Idx_lt virt) hn3).1
  obtain ⟨s₃, hcall₃, hrep₃, hleaf₃⟩ := ensureNextTable_present (f := flags) user hl
    (by rw [hl.root]; decide) (pml4Idx_lt virt) hp4.1
  rw [hn3] at hcall₃
  simp only [hcall₃, Option.getD_some]
  generalize tableFromPhys (s.mem (slot (tableFromPhys as.pml4Phys) (pml4Idx virt))) = pdpt at *
  by_cases z3 : pdpt = 0
  · rw [if_pos z3]
    exact hfail s₃ hrep₃ (by simp [mapEntry, hn3, z3])
  rw [if_neg z3]
  split at hres
  · contradiction
  rename_i hp3
  obtain ⟨s₂, hcall₂, hrep₂, hleaf₂⟩ := ensureNextTable_present (f := flags) user
    (hrep₃.layered hl) (p := pdpt) (i := pdptIdx virt) (by rw [l3]; decide) (pdptIdx_lt virt)
    (by rw [(hrep₃.upper pdpt _ (by rw [l3]; decide) (pdptIdx_lt virt)).1]; exact hp3)
  rw [hrep₃.nextTable_eq (by rw [l3]; decide) (pdptIdx_lt virt)] at hcall₂
  have hrep₂ := hrep₃.trans hrep₂
  simp only [hcall₂]
  cases hn2 : nextTable s.mem pdpt (pdptIdx virt) with
  | none =>
    rw [Option.getD_none, if_pos rfl]
    exact hfail s₂ hrep₂ (by simp [mapEntry, hn3, z3, hn2])
  | some pd =>
    obtain ⟨l2, -, hsmall, hpd⟩ := hl.next l3 (pdptIdx_lt virt) hn2
    rw [Option.getD_some]
    by_cases z2 : pd = 0
    · rw [if_pos z2]
      exact hfail s₂ hrep₂ (by simp [mapEntry, hn3, z3, hn2, z2])
    rw [if_neg z2]
    rw [if_neg (not_not.mpr hsmall), hpd] at hres
    split at hres
    · contradiction
    rename_i hp2
    obtain ⟨s₁, hcall₁, hrep₁, hleaf₁⟩ := ensureNextTable_present (f := flags) user
      (hrep₂.layered hl) (p := pd) (i := pdIdx virt) (by rw [l2]) (pdIdx_lt virt)
      (by rw [(hrep₂.upper pd _ (by rw [l2]) (pdIdx_lt virt)).1]; exact hp2)
    rw [hrep₂.nextTable_eq (by rw [l2]) (pdIdx_lt virt)] at hcall₁
    have hrep₁ := hrep₂.trans hrep₁
    simp only [hcall₁]
    cases hn1 : nextTable s.mem pd (pdIdx virt) with
    | none =>
      rw [Option.getD_none, if_pos rfl]
      exact hfail s₁ hrep₁ (by simp [mapEntry, hn3, z3, hn2, z2, hn1])
    | some pt =>
      have l1 := (hl.next l2 (pdIdx_lt virt) hn1).1
      rw [Option.getD_some]
      by_cases z1 : pt = 0
      · rw [if_pos z1]
        exact hfail s₁ hrep₁ (by simp [mapEntry, hn3, z3, hn2, z2, hn1, z1])
      rw [if_neg z1]
      have hentry : mapEntry s.mem as virt = some (slot pt (ptIdx virt)) := by
        simp [mapEntry, hn3, Option.filter, z3, hn2, z2, hn1, z1]
      obtain ⟨hpresent, hpa⟩ := hpage hentry
      have hbits : alignDown phys PAGE_SIZE_4K &&& PA_MASK =
          s.mem (slot pt (ptIdx virt)) &&& PA_MASK := by
        rw [hpa, Nat.and_assoc, Nat.and_self]
      have hsame : ∀ q j, level q = 1 → j < 512 → s₁.mem (slot q j) = s.mem (slot q j) :=
        fun q j hq hj => by rw [hleaf₁ q j hq hj, hleaf₂ q j hq hj, hleaf₃ q j hq hj]
      rw [hbits]
      have hdone := writeLeaf_reprotects hl hrep₁ hsame l1 (ptIdx_lt virt) hpresent
      refine ⟨true, _, rfl, hdone, ⟨fun _ => ⟨_, hentry, hpresent, ?_⟩, fun _ => rfl⟩,
        fun _ a ha => ?_⟩
      · rw [← hpa]
        exact hphys
      · obtain rfl := Option.some.inj (hentry.symm.trans ha)
        exact Function.update_self ..

end Page

/-! ### The loop -/

section Loop

variable {m m' : Words} {as : AddressSpace} {level : Nat → Nat} {f : Nat}

/-- A page entry is a word of a page table. -/
theorem mapEntry_leaf {virt a : Nat} (hl : Layered m as level) (ha : mapEntry m as virt = some a) :
    ∃ pt, level pt = 1 ∧ a = slot pt (ptIdx virt) := by
  obtain ⟨pdpt, h3, ha⟩ := Option.bind_eq_some_iff.mp ha
  obtain ⟨pd, h2, ha⟩ := Option.bind_eq_some_iff.mp ha
  obtain ⟨pt, h1, rfl⟩ := Option.map_eq_some_iff.mp ha
  have l3 := (hl.next hl.root (pml4Idx_lt virt) (Option.filter_eq_some_iff.mp h3).1).1
  have l2 := (hl.next l3 (pdptIdx_lt virt) (Option.filter_eq_some_iff.mp h2).1).1
  exact ⟨pt, (hl.next l2 (pdIdx_lt virt) (Option.filter_eq_some_iff.mp h1).1).1, rfl⟩

/-- The page entries are where they were. -/
theorem Reprotected.mapEntry_eq (h : Reprotected level f m m') (hl : Layered m as level)
    (virt : Nat) : mapEntry m' as virt = mapEntry m as virt := by
  unfold mapEntry
  rw [h.nextTable_eq (by rw [hl.root]; decide) (pml4Idx_lt virt)]
  refine Option.bind_congr fun pdpt h3 => ?_
  have l3 := (hl.next hl.root (pml4Idx_lt virt) (Option.filter_eq_some_iff.mp h3).1).1
  rw [h.nextTable_eq (by rw [l3]; decide) (pdptIdx_lt virt)]
  refine Option.bind_congr fun pd h2 => ?_
  have l2 := (hl.next l3 (pdptIdx_lt virt) (Option.filter_eq_some_iff.mp h2).1).1
  rw [h.nextTable_eq (by rw [l2]) (pdIdx_lt virt)]

theorem Reprotected.protectable_iff (h : Reprotected level f m m') (hl : Layered m as level)
    (virt : Nat) : Protectable m' as virt ↔ Protectable m as virt := by
  unfold Protectable
  rw [h.mapEntry_eq hl]
  refine exists_congr fun a => and_congr_right fun ha => ?_
  obtain ⟨pt, hpt, rfl⟩ := mapEntry_leaf hl ha
  rcases h.leaf pt _ hpt (ptIdx_lt virt) with heq | ⟨hpresent, heq⟩
  · rw [heq]
  · obtain ⟨hpresent', hpa, -⟩ := leafEntry_bits (m (slot pt (ptIdx virt))) f
    rw [heq, hpa]
    exact and_congr_left fun _ => ⟨fun _ => hpresent, fun _ => hpresent'⟩

/-- The loop succeeds exactly when every page can be protected, and then they all are. -/
theorem protectPages_spec {s : Vm} {start : Nat} (i n flags : Nat) (hl : Layered s.mem as level)
    (h0 : as.pml4Phys ≠ 0) (hstart : PAGE_SIZE_4K ∣ start) :
    ∃ ok s', s.protectPages as start flags (i * PAGE_SIZE_4K) n = (ok, s') ∧
      Reprotected level flags s.mem s'.mem ∧
      (ok = true ↔ ∀ j < n, Protectable s.mem as (add64 start ((i + j) * PAGE_SIZE_4K))) ∧
      (ok = true → ∀ j < n, ∀ a, mapEntry s.mem as (add64 start ((i + j) * PAGE_SIZE_4K)) = some a →
        s'.mem a = s.mem a &&& PA_MASK ||| pageFlags flags) := by
  induction n generalizing s i with
  | zero =>
    exact ⟨true, s, rfl, Reprotected.refl _ _ _,
      ⟨fun _ j hj => absurd hj (Nat.not_lt_zero j), fun _ => rfl⟩,
      fun _ j hj => absurd hj (Nat.not_lt_zero j)⟩
  | succ n ih =>
    have halign : isAligned (add64 start (i * PAGE_SIZE_4K)) PAGE_SIZE_4K = true := by
      rw [isAligned_iff]
      obtain ⟨c, rfl⟩ := hstart
      unfold add64
      rw [U64_eq]
      unfold PAGE_SIZE_4K
      omega
    have hoff : i * PAGE_SIZE_4K + PAGE_SIZE_4K = (i + 1) * PAGE_SIZE_4K := by
      rw [Nat.add_mul, Nat.one_mul]
    have hindex : ∀ j, i + 1 + j = i + (j + 1) := fun j => by omega
    rw [Vm.protectPages, hoff]
    cases hres : debugResolve s.mem as (add64 start (i * PAGE_SIZE_4K)) with
    | none =>
      refine ⟨false, s, rfl, Reprotected.refl _ _ _, ⟨fun hcon => by contradiction, fun hall => ?_⟩,
        fun hcon => by contradiction⟩
      -- A page that does not resolve has no present page entry.
      obtain ⟨a, ha, hpresent, -⟩ := hall 0 (Nat.zero_lt_succ n)
      rw [Nat.add_zero] at ha
      rw [debugResolve_of_mapEntry h0 ha, if_neg hpresent] at hres
      contradiction
    | some found =>
      obtain ⟨phys, bits⟩ := found
      obtain ⟨ok, s₁, hcall, hrep, hiff, hdone⟩ := mapPage_protects flags hl halign hres
      simp only [hcall]
      cases ok with
      | false =>
        refine ⟨false, s₁, rfl, hrep, ⟨fun hcon => by contradiction, fun hall => ?_⟩,
          fun hcon => by contradiction⟩
        exact hiff.mpr (by simpa using hall 0 (Nat.zero_lt_succ n))
      | true =>
        obtain ⟨ok, s₂, hrest, hrep₂, hiff₂, hdone₂⟩ := ih (i + 1) (hrep.layered hl)
        refine ⟨ok, s₂, hrest, hrep.trans hrep₂, ?_, fun hok j hj a ha => ?_⟩
        · rw [hiff₂]
          constructor
          · intro hall j hj
            cases j with
            | zero => exact hiff.mp rfl
            | succ j =>
              have hpage := hall j (Nat.lt_of_succ_lt_succ hj)
              rwa [hrep.protectable_iff hl, hindex] at hpage
          · intro hall j hj
            rw [hrep.protectable_iff hl, hindex]
            exact hall (j + 1) (Nat.succ_lt_succ hj)
        · cases j with
          | zero =>
            obtain ⟨pt, hpt, rfl⟩ := mapEntry_leaf hl ha
            exact hrep₂.kept hpt (ptIdx_lt _) (hdone rfl _ ha)
          | succ j =>
            have ha' : mapEntry s₁.mem as (add64 start ((i + 1 + j) * PAGE_SIZE_4K)) =
                some a := by
              rw [hrep.mapEntry_eq hl, hindex]
              exact ha
            have hlast := hdone₂ hok j (Nat.lt_of_succ_lt_succ hj) a ha'
            obtain ⟨pt, hpt, rfl⟩ := mapEntry_leaf hl ha
            rcases hrep.leaf pt _ hpt (ptIdx_lt _) with heq | ⟨-, heq⟩
            · rw [hlast, heq]
            · rw [hlast, heq, (leafEntry_bits _ _).2.1]

end Loop

/-! ### The address space -/

/-- The kernel's half of an address space, which comes from the firmware: its tables have levels,
and none of them is a table of the address space. -/
structure KernelHalf (m : Words) (as : AddressSpace) (tables : List Nat) (level : Nat → Nat) :
    Prop where
  slots : ∀ i < 512, i < USER_PML4_FIRST ∨ USER_PML4_LIMIT ≤ i →
    m (slot (tableFromPhys as.pml4Phys) i) &&& PTE_PRESENT ≠ 0 →
    m (slot (tableFromPhys as.pml4Phys) i) &&& PTE_HUGE = 0 →
    level (tableFromPhys (m (slot (tableFromPhys as.pml4Phys) i))) = 3
  child : ∀ p l i, level p = l + 2 → i < 512 → m (slot p i) &&& PTE_PRESENT ≠ 0 →
    m (slot p i) &&& PTE_HUGE = 0 → level (tableFromPhys (m (slot p i))) = l + 1
  aligned : ∀ p, level p ≠ 0 → PAGE_SIZE_4K ∣ p
  apart : ∀ p, level p ≠ 0 → p ∉ tables

/-- The level of a table of the address space is that of its name. -/
theorem layered_of_inv {s : Vm} {as : AddressSpace} {T : Tables} {level : Nat → Nat}
    (h : VmInv s as T) (hkernel : KernelHalf s.mem as s.tables level) :
    ∃ level', Layered s.mem as level' := by
  classical
  have hroot : tableFromPhys as.pml4Phys = as.pml4Phys :=
    page_and_PA_MASK (h.tree.table _ _ _ h.tree.root).2
  let level' := fun p => if hp : ∃ n k, T n k = some p then hp.choose else level p
  have hnamed : ∀ {n k p}, T n k = some p → level' p = n := by
    intro n k p hT
    have hp : ∃ n k, T n k = some p := ⟨n, k, hT⟩
    obtain ⟨k', hT'⟩ := hp.choose_spec
    exact (dif_pos hp).trans (h.tree.inj _ _ _ _ _ hT' hT).1
  have hother : ∀ {p}, level p ≠ 0 → level' p = level p := by
    intro p hp
    refine dif_neg fun ⟨n, k, hT⟩ => hkernel.apart p hp (h.tree.table _ _ _ hT).1
  -- The entry of a table leads to the child that the tree has there.
  have hentry : ∀ {n k p i}, 1 ≤ n → n ≤ 3 → UserKey n (512 * k + i) → T (n + 1) k = some p →
      i < 512 → s.mem (slot p i) &&& PTE_PRESENT ≠ 0 →
      level' (tableFromPhys (s.mem (slot p i))) = n := by
    intro n k p i h1 h3 hk hT hi hpresent
    have hparent : (512 * k + i) / 512 = k := by omega
    have hindex : (512 * k + i) % 512 = i := by omega
    have hok := h.tree.entry h1 h3 hk (p := p) (by rw [hparent]; exact hT)
    rw [hindex] at hok
    cases hc : T n (512 * k + i) with
    | none =>
      rw [hc] at hok
      exact absurd hok hpresent
    | some c =>
      rw [hc] at hok
      rw [tableFromPhys, hok.2.2]
      exact hnamed hc
  refine ⟨level', by rw [hroot]; exact hnamed h.tree.root, fun p l i hp hi hpresent hsmall => ?_,
    fun p hp => ?_⟩
  · by_cases htable : ∃ n k, T n k = some p
    · obtain ⟨n, k, hT⟩ := htable
      have hn : n = l + 2 := (hnamed hT).symm.trans hp
      obtain ⟨n', k', hkey, hT'⟩ := h.owned.named p (h.tree.table _ _ _ hT).1
      obtain ⟨rfl, rfl⟩ := h.tree.inj _ _ _ _ _ hT hT'
      rcases hkey with ⟨h4, rfl⟩ | ⟨h1, h3, hk⟩
      · obtain rfl : l = 2 := by omega
        obtain rfl : n = 4 := h4
        obtain rfl : as.pml4Phys = p := Option.some.inj (h.tree.root.symm.trans hT)
        by_cases hslot : i < USER_PML4_FIRST ∨ USER_PML4_LIMIT ≤ i
        · have hlevel := hkernel.slots i hi hslot (by rw [hroot]; exact hpresent)
            (by rw [hroot]; exact hsmall)
          rw [hroot] at hlevel
          rw [hother (by rw [hlevel]; decide), hlevel]
        · refine hentry (by decide) (Nat.le_refl 3) ?_ hT hi hpresent
          have hfirst : USER_PML4_FIRST = 128 := by decide
          have hlimit : USER_PML4_LIMIT = 256 := by decide
          unfold UserKey
          omega
      · subst hn
        refine hentry (n := l + 1) (by omega) (by omega)
          (UserKey.child (by omega) ?_) hT hi hpresent
        have hparent : (512 * k + i) / 512 = k := by omega
        rwa [hparent]
    · have hlevel : level p = l + 2 := (dif_neg htable).symm.trans hp
      have hchild := hkernel.child p l i hlevel hi hpresent hsmall
      rw [hother (by rw [hchild]; omega), hchild]
  · by_cases htable : ∃ n k, T n k = some p
    · obtain ⟨n, k, hT⟩ := htable
      exact (h.tree.table _ _ _ hT).2.dvd
    · refine hkernel.aligned p ?_
      have hlevel : level' p = level p := dif_neg htable
      rwa [hlevel] at hp

/-- There are more user pages than tables could map. -/
theorem exists_unmapped {m : Words} {root : Nat} {tables : List Nat} {T : Tables}
    (h : PageTree m root tables T) : ∃ key, UserKey 1 key ∧ T 1 key = none := by
  by_contra hall
  have hle : 2 ^ 19 + 1 ≤ 2 ^ 19 := h.keys_le (a := 128 * 512 ^ 2) fun i hi hnone =>
    hall ⟨_, by unfold UserKey; omega, hnone⟩
  omega

/-! ### What the answers stand for -/

/-- What the two answers of `protect_process_mapping` stand for. The range is that of the
integers: it may reach beyond the last address. -/
structure ProtectOk (s : Vm) (as : AddressSpace) (virt size prot : Nat) : Prop where
  changed : (s.protectProcessMapping as virt size prot).1 = true →
    ∀ v, virt ≤ v → v < virt + size → v < U64 ∧ ∃ target old,
      debugResolve s.mem as v = some (target, old) ∧
      debugResolve (s.protectProcessMapping as virt size prot).2.mem as v =
        some (target, pageFlags (mappingFlagsFromProt prot))
  kept : (s.protectProcessMapping as virt size prot).1 = false →
    ∀ v, (debugResolve (s.protectProcessMapping as virt size prot).2.mem as v).map Prod.fst =
      (debugResolve s.mem as v).map Prod.fst

/-- The range ends by the last address, and rounding it up does not wrap. -/
def NoWrapAround (virt size : Nat) : Prop :=
  virt + size ≤ U64 ∧ virt % PAGE_SIZE_4K + size + PAGE_SIZE_4K ≤ U64

/-- When `protect_process_mapping` keeps its word: it refuses, because there is nothing to do or
because one of the pages that it looks at cannot be protected, or it looks at all of them. -/
def ProtectKeepsWord (s : Vm) (as : AddressSpace) (virt size : Nat) : Prop :=
  size = 0 ∨ NoWrapAround virt size ∨ ∃ j < protectCount virt size,
    ¬ Protectable s.mem as (add64 (alignDown virt PAGE_SIZE_4K) (j * PAGE_SIZE_4K))

/-- The page entry of an address is that of its page. -/
theorem mapEntry_congr (m : Words) (as : AddressSpace) {v w : Nat}
    (hpage : v / PAGE_SIZE_4K = w / PAGE_SIZE_4K) : mapEntry m as v = mapEntry m as w := by
  unfold mapEntry
  rw [pml4Idx_eq, pdptIdx_eq, pdIdx_eq, ptIdx_eq, hpage, ← pml4Idx_eq, ← pdptIdx_eq, ← pdIdx_eq,
    ← ptIdx_eq]

/-- The pages that are looked at when nothing wraps. -/
theorem protectCount_eq {virt size : Nat} (hvirt : virt < U64)
    (hround : virt % PAGE_SIZE_4K + size + PAGE_SIZE_4K ≤ U64) :
    protectCount virt size = pageCount (virt % PAGE_SIZE_4K + size) := by
  have hdown : alignDown virt PAGE_SIZE_4K = virt / PAGE_SIZE_4K * PAGE_SIZE_4K :=
    alignDown_eq (k := 12) hvirt (by decide)
  have hoff : sub64 virt (alignDown virt PAGE_SIZE_4K) = virt % PAGE_SIZE_4K := by
    rw [hdown, sub64_eq (Nat.div_mul_le_self _ _)]
    have hdm := Nat.div_add_mod virt PAGE_SIZE_4K
    rw [Nat.mul_comm] at hdm
    omega
  have hsum : add64 (virt % PAGE_SIZE_4K) size = virt % PAGE_SIZE_4K + size := by
    refine add64_eq ?_
    unfold PAGE_SIZE_4K at *
    omega
  have hup : alignUp (virt % PAGE_SIZE_4K + size) PAGE_SIZE_4K =
      pageCount (virt % PAGE_SIZE_4K + size) * PAGE_SIZE_4K :=
        alignUp_eq (k := 12) (by decide) hround
  rw [protectCount, hoff, hsum, hup]
  exact Nat.mul_div_cancel _ (by decide)

/-- What the call did when it answers `true`. -/
theorem protect_changed {s s' : Vm} {as : AddressSpace} {level : Nat → Nat} {virt size flags : Nat}
    (hl : Layered s.mem as level) (h0 : as.pml4Phys ≠ 0) (hvirt : virt < U64)
    (hwrap : NoWrapAround virt size) (hrep : Reprotected level flags s.mem s'.mem)
    (hall : ∀ j < protectCount virt size,
      Protectable s.mem as (add64 (alignDown virt PAGE_SIZE_4K) (j * PAGE_SIZE_4K)))
    (hdone : ∀ j < protectCount virt size, ∀ a,
      mapEntry s.mem as (add64 (alignDown virt PAGE_SIZE_4K) (j * PAGE_SIZE_4K)) = some a →
        s'.mem a = s.mem a &&& PA_MASK ||| pageFlags flags)
    {v : Nat} (hv : virt ≤ v) (hv' : v < virt + size) :
    v < U64 ∧ ∃ target old, debugResolve s.mem as v = some (target, old) ∧
      debugResolve s'.mem as v = some (target, pageFlags flags) := by
  have hlt : v < U64 := Nat.lt_of_lt_of_le hv' hwrap.1
  rw [protectCount_eq hvirt hwrap.2] at hall hdone
  have hdown : alignDown virt PAGE_SIZE_4K = virt / PAGE_SIZE_4K * PAGE_SIZE_4K :=
    alignDown_eq (k := 12) hvirt (by decide)
  -- The page of `v` is one of those that were looked at.
  have hj : v / PAGE_SIZE_4K - virt / PAGE_SIZE_4K < pageCount (virt % PAGE_SIZE_4K + size) := by
    unfold pageCount PAGE_SIZE_4K
    omega
  have haddr : add64 (alignDown virt PAGE_SIZE_4K)
      ((v / PAGE_SIZE_4K - virt / PAGE_SIZE_4K) * PAGE_SIZE_4K) =
      v / PAGE_SIZE_4K * PAGE_SIZE_4K := by
    have hle : virt / PAGE_SIZE_4K ≤ v / PAGE_SIZE_4K := Nat.div_le_div_right hv
    have hsum : virt / PAGE_SIZE_4K * PAGE_SIZE_4K +
        (v / PAGE_SIZE_4K - virt / PAGE_SIZE_4K) * PAGE_SIZE_4K =
        v / PAGE_SIZE_4K * PAGE_SIZE_4K := by
      rw [← Nat.add_mul, Nat.add_sub_cancel' hle]
    rw [hdown, add64_eq ?_, hsum]
    rw [hsum]
    exact Nat.lt_of_le_of_lt (Nat.div_mul_le_self _ _) hlt
  have hsame := mapEntry_congr s.mem as
    (show v / PAGE_SIZE_4K * PAGE_SIZE_4K / PAGE_SIZE_4K = v / PAGE_SIZE_4K from
      Nat.mul_div_cancel _ (by decide))
  obtain ⟨a, ha, hpresent, -⟩ := hall _ hj
  have hbits := hdone _ hj a ha
  rw [haddr, hsame] at ha
  obtain ⟨hpresent', hpa, hflags⟩ := leafEntry_bits (s.mem a) flags
  refine ⟨hlt, _, _, by rw [debugResolve_of_mapEntry h0 ha, if_neg hpresent], ?_⟩
  rw [debugResolve_of_mapEntry h0 ((hrep.mapEntry_eq hl v).trans ha), hbits, if_neg hpresent', hpa,
    hflags]

/-- In every reachable address space over a kernel half with levels: `protect_process_mapping`
keeps its word exactly when `ProtectKeepsWord` holds. -/
theorem protectProcessMapping_iff (s : VmState) (hs : vmSystem.Reachable s) (level : Nat → Nat)
    (hkernel : KernelHalf s.vm.mem s.as s.vm.tables level) (virt size prot : Nat)
    (hvirt : virt < U64) :
    ProtectOk s.vm s.as virt size prot ↔ ProtectKeepsWord s.vm s.as virt size := by
  obtain ⟨A, ⟨T, h, -⟩, -⟩ := refines_of_reachable hs
  obtain ⟨level', hl⟩ := layered_of_inv h hkernel
  have h0 : s.as.pml4Phys ≠ 0 := Nat.ne_of_gt (h.tree.table _ _ _ h.tree.root).2.pos
  have hdown : alignDown virt PAGE_SIZE_4K = virt / PAGE_SIZE_4K * PAGE_SIZE_4K :=
    alignDown_eq (k := 12) hvirt (by decide)
  by_cases hzero : size = 0
  · have hcall : s.vm.protectProcessMapping s.as virt size prot = (false, s.vm) := if_pos hzero
    refine ⟨fun _ => .inl hzero, fun _ => ⟨fun hcon => ?_, fun _ v => ?_⟩⟩
    · rw [hcall] at hcon
      contradiction
    · rw [hcall]
  -- The loop succeeds exactly if every page that the count covers can be protected.
  obtain ⟨ok, s', hloop, hrep, hiff, hdone⟩ := protectPages_spec 0 (protectCount virt size)
    (mappingFlagsFromProt prot) hl h0 (show PAGE_SIZE_4K ∣ alignDown virt PAGE_SIZE_4K by
      rw [hdown]
      exact Nat.dvd_mul_left _ _)
  simp only [Nat.zero_mul, Nat.zero_add] at hloop hiff hdone
  have hcall : s.vm.protectProcessMapping s.as virt size prot = (ok, s') :=
    (if_neg hzero).trans hloop
  constructor
  · -- Without any of the three conditions the call succeeds on a range that it has not covered.
    intro hword
    by_contra hkeeps
    rw [ProtectKeepsWord, not_or, not_or] at hkeeps
    obtain ⟨-, hwrap, hpages⟩ := hkeeps
    have hall : ∀ j < protectCount virt size,
        Protectable s.vm.mem s.as (add64 (alignDown virt PAGE_SIZE_4K) (j * PAGE_SIZE_4K)) := by
      intro j hj
      by_contra hcon
      exact hpages ⟨j, hj, hcon⟩
    have hok : (s.vm.protectProcessMapping s.as virt size prot).1 = true := by
      rw [hcall]
      exact hiff.mpr hall
    by_cases hend : virt + size ≤ U64
    · -- The rounding wraps, so the range has nearly all addresses, mapped or not.
      obtain ⟨key, hkey, hnone⟩ := exists_unmapped h.tree
      have huser : USER_IMAGE_BASE ≤ key * 512 * PAGE_SIZE_4K ∧
          key * 512 * PAGE_SIZE_4K < USER_MAP_LIMIT := by
        unfold UserKey at hkey
        unfold USER_IMAGE_BASE USER_MAP_LIMIT PAGE_SIZE_4K
        omega
      have hround : U64 < virt % PAGE_SIZE_4K + size + PAGE_SIZE_4K := by
        by_contra hle
        exact hwrap ⟨hend, Nat.le_of_not_lt hle⟩
      have hpage : key * 512 * PAGE_SIZE_4K / PAGE_SIZE_4K = key * 512 :=
        Nat.mul_div_cancel _ (by decide)
      have hin : virt ≤ key * 512 * PAGE_SIZE_4K ∧ key * 512 * PAGE_SIZE_4K < virt + size := by
        rw [U64_eq] at hend hround
        unfold USER_IMAGE_BASE USER_MAP_LIMIT PAGE_SIZE_4K at *
        omega
      obtain ⟨-, target, old, hres, -⟩ := hword.changed hok _ hin.1 hin.2
      rw [debugResolve_eq h.tree (userKey_of_user huser.1 huser.2), hpage, resolve,
        Nat.mul_div_cancel _ (by decide), hnone] at hres
      contradiction
    · -- The range reaches beyond the last address.
      have hbeyond := (hword.changed hok U64 (Nat.le_of_lt hvirt) (Nat.lt_of_not_le hend)).1
      exact absurd hbeyond (Nat.lt_irrefl _)
  · -- An entry that is rewritten keeps its target, and on success these are the pages of the
    -- range.
    intro hkeeps
    refine ⟨fun hok v hv hv' => ?_, fun _ v => ?_⟩
    · rw [hcall] at hok ⊢
      rcases hkeeps with hcon | hwrap | ⟨j, hj, hcon⟩
      · exact absurd hcon hzero
      · exact protect_changed hl h0 hvirt hwrap hrep (hiff.mp hok) (hdone hok) hv hv'
      · exact absurd (hiff.mp hok j hj) hcon
    · rw [hcall]
      exact hrep.target hl v

/-- Nothing is mapped outside the user slots, so there is no kernel half. -/
theorem kernelHalf_empty {m : Words} {as : AddressSpace} {tables : List Nat}
    (hslots : ∀ i < 512, i < 128 ∨ 256 ≤ i →
      m (slot (tableFromPhys as.pml4Phys) i) &&& PTE_PRESENT = 0) :
    KernelHalf m as tables fun _ => 0 where
  slots i hi hslot hpresent := by
    have hfirst : USER_PML4_FIRST = 128 := by decide
    have hlimit : USER_PML4_LIMIT = 256 := by decide
    rw [hfirst, hlimit] at hslot
    exact absurd (hslots i hi hslot) hpresent
  child _ _ _ hp := by omega
  aligned _ hp := absurd rfl hp
  apart _ hp := absurd rfl hp

/-- The first space with one page mapped, user and writable. -/
def mappedSpace : VmState :=
  ⟨(firstSpace.vm.mapPage firstSpace.as 0x400000000000 0x5000 3).2, firstSpace.as⟩

theorem mappedSpace_reachable : vmSystem.Reachable mappedSpace := by
  refine .step (l := .mapPage 0x400000000000 0x5000 3 true) (.init firstSpace_init)
    ⟨by decide, by decide, Prod.ext ?_ rfl, rfl⟩
  with_unfolding_all decide

/-- `mprotect` of the page to read-only. -/
theorem protectProcessMapping_iff_one_page :
    (mappedSpace.vm.protectProcessMapping mappedSpace.as 0x400000000010 0x20 1).1 = true ∧
      ProtectOk mappedSpace.vm mappedSpace.as 0x400000000010 0x20 1 := by
  have hkernel : KernelHalf mappedSpace.vm.mem mappedSpace.as mappedSpace.vm.tables fun _ => 0 :=
    kernelHalf_empty (by with_unfolding_all decide)
  refine ⟨by with_unfolding_all decide,
    (protectProcessMapping_iff mappedSpace mappedSpace_reachable _ hkernel
    0x400000000010 0x20 1 (by rw [U64_eq]; decide)).mpr (.inr (.inl ⟨?_, ?_⟩))⟩
  · rw [U64_eq]
    decide
  · rw [U64_eq]
    decide

/-- `mprotect(addr, SIZE_MAX, PROT_READ)` where nothing is mapped: the rounded length wraps to 0,
no page is looked at and the answer is `true`. -/
theorem wrapped_length_protects_nothing :
    ¬ ∀ (s : VmState), vmSystem.Reachable s → ∀ level,
      KernelHalf s.vm.mem s.as s.vm.tables level → ∀ virt size prot, virt < U64 → size < U64 →
        ProtectOk s.vm s.as virt size prot := by
  intro hclaim
  have hkernel : KernelHalf firstSpace.vm.mem firstSpace.as firstSpace.vm.tables fun _ => 0 :=
    kernelHalf_empty (by with_unfolding_all decide)
  have hword := hclaim firstSpace (.init firstSpace_init) _ hkernel 0x400000000000 (2 ^ 64 - 1) 1
    (by rw [U64_eq]; decide) (by rw [U64_eq]; decide)
  have hrun : (firstSpace.vm.protectProcessMapping firstSpace.as 0x400000000000 (2 ^ 64 - 1) 1).1 =
      true ∧ debugResolve firstSpace.vm.mem firstSpace.as 0x400000000000 = none := by
    with_unfolding_all decide
  obtain ⟨-, target, old, hres, -⟩ :=
    hword.changed hrun.1 0x400000000000 (Nat.le_refl _) (by decide)
  exact Option.some_ne_none _ (hres.symm.trans hrun.2)

end VKernel.Proofs.Memory

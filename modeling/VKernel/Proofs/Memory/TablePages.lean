import VKernel.Memory.VirtualMemory
import VKernel.Proofs.Memory.PhysAllocator

/-!
# `VKernel.Proofs.Memory.TablePages`: fresh pages and entry bits

Two things that the page-table proofs rest on. The allocator hands out pages that lie in no
used region (`allocatePage_spec`), so a new table is none of the tables in use. And an entry
is a page address with flag bits: the masks of the source take it apart again
(`linkEntry_ok`, `leafOf_leafEntry`).
-/

set_option autoImplicit false

namespace VKernel.Proofs.Memory

open VKernel.Memory VKernel.Lib

/-! ### Fresh pages -/

/-- What the allocator's list satisfies: ascending regions of whole pages. -/
structure AllocOk (a : PhysAllocator) : Prop where
  asc : RegionsAscending a.freeList
  ok : ∀ r ∈ a.freeList, RegionOk r
  start : ∀ r ∈ a.freeList, PAGE_SIZE_4K ∣ r.start
  size : ∀ r ∈ a.freeList, PAGE_SIZE_4K ∣ r.size

/-- Memory of one region. -/
theorem allocOk_singleton {a : PhysAllocator} {r : MemoryRegion} (hlist : a.freeList = [r])
    (hr : RegionOk r) (hstart : PAGE_SIZE_4K ∣ r.start) (hsize : PAGE_SIZE_4K ∣ r.size) :
    AllocOk a where
  asc := by
    rw [hlist]
    exact List.pairwise_singleton _ _
  ok q hq := by
    rw [hlist, List.mem_singleton] at hq
    exact hq ▸ hr
  start q hq := by
    rw [hlist, List.mem_singleton] at hq
    exact hq ▸ hstart
  size q hq := by
    rw [hlist, List.mem_singleton] at hq
    exact hq ▸ hsize

/-- The address lies in a used region. -/
def UsedAt (a : PhysAllocator) (p : Nat) : Prop :=
  ∃ r ∈ a.freeList, r.used = true ∧ r.start ≤ p ∧ p < r.stop

/-- The address lies in a free region. -/
def FreeAt (a : PhysAllocator) (p : Nat) : Prop :=
  ∃ r ∈ a.freeList, r.used = false ∧ r.start ≤ p ∧ p < r.stop

/-- What `allocate_user_pages` asks for. -/
abbrev blockRequest (n : Nat) : PageRequest := ⟨n, PAGE_SIZE_4K, IDENTITY_BRIDGE_ALLOC_MAX⟩

/-- What `alloc_table_page` asks for. -/
abbrev tableRequest : PageRequest := blockRequest 1

theorem blockRequest_ok {n : Nat} (hn : n < 2 ^ 32) : RequestOk (blockRequest n) := by
  refine ⟨hn, ⟨12, by decide, rfl⟩, ?_⟩
  show IDENTITY_BRIDGE_ALLOC_MAX < U64
  rw [U64_eq]
  decide

/-- The allocator after a block of `n` pages at `phys` was taken from its free pages. -/
structure BlockTaken (a a' : PhysAllocator) (phys n : Nat) : Prop where
  ok : AllocOk a'
  dvd : PAGE_SIZE_4K ∣ phys
  below : phys + n * PAGE_SIZE_4K ≤ IDENTITY_BRIDGE_ALLOC_MAX
  free : ∀ x, phys ≤ x → x < phys + n * PAGE_SIZE_4K → FreeAt a x
  region : ∃ r ∈ a'.freeList, r.used = true ∧ r.start = phys ∧ n * PAGE_SIZE_4K ≤ r.size
  kept : ∀ r ∈ a.freeList, r.used = true → r ∈ a'.freeList
  new : ∀ r ∈ a'.freeList, r.used = true → r ∈ a.freeList ∨ r.start = phys
  freeAt : ∀ x, FreeAt a' x → FreeAt a x

section Blocks

variable {a : PhysAllocator} {r : MemoryRegion} {n : Nat}

/-- An address is not free and used at once. -/
theorem AllocOk.not_used {x : Nat} (h : AllocOk a) (hfree : FreeAt a x) : ¬ UsedAt a x := by
  rintro ⟨m, hm, hmu, hmx⟩
  obtain ⟨r, hr, hru, hrx⟩ := hfree
  have hmr := h.asc.eq_of_overlap hm hr hmx hrx
  exact absurd (hru ▸ hmr ▸ hmu) Bool.false_ne_true

/-- A region of whole pages below `2 ^ 64` has room for its first page. -/
theorem AllocOk.room (h : AllocOk a) (hr : r ∈ a.freeList) :
    PAGE_SIZE_4K ≤ r.size ∧ r.start + r.size < U64 :=
  ⟨Nat.le_of_dvd (h.ok r hr).pos (h.size r hr), (h.ok r hr).lt⟩

/-- A request for whole pages starts at the start of the region. -/
theorem AllocOk.alignedStart (h : AllocOk a) (hr : r ∈ a.freeList) :
    (blockRequest n).alignedStart r = r.start := by
  obtain ⟨hroom, hlt⟩ := h.room hr
  have hk : r.start + 2 ^ 12 ≤ U64 := by
    unfold PAGE_SIZE_4K at hroom
    omega
  exact alignUp_of_dvd (by decide) hk (h.start r hr)

/-- What a block taken from a free region leaves: the whole region as used, or its first `n`
pages as used and the rest as free. -/
theorem AllocOk.carve (h : AllocOk a) (hr : r ∈ a.freeList) (hn : n < 2 ^ 32)
    (hfits : r.start + n * PAGE_SIZE_4K ≤ r.stop) (nodes : Nat) :
    Memory.carve nodes (blockRequest n) r = [{ r with used := true }] ∨
      (n * PAGE_SIZE_4K < r.size ∧ Memory.carve nodes (blockRequest n) r =
        [{ r with size := n * PAGE_SIZE_4K, used := true },
          ⟨r.start + n * PAGE_SIZE_4K, r.size - n * PAGE_SIZE_4K, false⟩]) := by
  have hlt := (h.room hr).2
  have hstart := h.alignedStart hr (n := n)
  have hsize : (blockRequest n).size = n * PAGE_SIZE_4K := (blockRequest_ok hn).size_eq
  have hpre : (blockRequest n).preSize r = 0 := by
    unfold PageRequest.preSize
    rw [hstart, sub64_eq (Nat.le_refl _), Nat.sub_self]
  unfold MemoryRegion.stop at hfits
  generalize n * PAGE_SIZE_4K = bytes at *
  have hsum : add64 r.start bytes = r.start + bytes := add64_eq (by omega)
  have hpost : (blockRequest n).postSize r = r.size - bytes := by
    unfold PageRequest.postSize
    rw [hstart, hsize, hsum, add64_eq hlt, sub64_eq (by omega)]
    omega
  unfold Memory.carve
  simp only [hpre, hpost, hstart, hsize, hsum, if_true]
  split
  · split
    · exact Or.inr ⟨by omega, rfl⟩
    · exact Or.inl rfl
  · exact Or.inl rfl

/-- The list with one block taken. -/
theorem AllocOk.take {l₁ l₂ new : List MemoryRegion} {bytes : Nat} (h : AllocOk a)
    (hl : a.freeList = l₁ ++ [r] ++ l₂) (hpos : 0 < bytes) (hdvd : PAGE_SIZE_4K ∣ bytes)
    (hnew : new = [{ r with used := true }] ∨
      (bytes < r.size ∧ new = [{ r with size := bytes, used := true },
        ⟨r.start + bytes, r.size - bytes, false⟩]))
    {a' : PhysAllocator} (ha' : a'.freeList = l₁ ++ new ++ l₂) : AllocOk a' := by
  have hr : r ∈ a.freeList := by simp [hl]
  have hstart := h.start r hr
  have hsize := h.size r hr
  have hall : RegionsOk (RegionsCover a.freeList) a.freeList := ⟨h.asc, h.ok, fun _ => Iff.rfl⟩
  have hold : Tiles MemoryRegion.start MemoryRegion.stop r.start r.stop [r] :=
    ⟨rfl, Nat.lt_add_of_pos_right (h.ok r hr).pos, rfl⟩
  have htiles : Tiles MemoryRegion.start MemoryRegion.stop r.start r.stop new := by
    rcases hnew with rfl | ⟨hlt', rfl⟩
    · exact ⟨rfl, Nat.lt_add_of_pos_right (h.ok r hr).pos, rfl⟩
    · simp only [Tiles, MemoryRegion.stop, true_and]
      omega
  have hmem : ∀ m ∈ new, PAGE_SIZE_4K ∣ m.start ∧ PAGE_SIZE_4K ∣ m.size := by
    intro m hm
    rcases hnew with rfl | ⟨-, rfl⟩
    · rw [List.mem_singleton.mp hm]
      exact ⟨hstart, hsize⟩
    · rcases List.mem_cons.mp hm with rfl | hm
      · exact ⟨hstart, hdvd⟩
      · rw [List.mem_singleton.mp hm]
        exact ⟨Nat.dvd_add hstart hdvd, Nat.dvd_sub hsize hdvd⟩
  have hall' : ∀ m ∈ a'.freeList, PAGE_SIZE_4K ∣ m.start ∧ PAGE_SIZE_4K ∣ m.size := by
    intro m hm
    rw [ha'] at hm
    simp only [List.mem_append] at hm
    rcases hm with (hm | hm) | hm
    · exact ⟨h.start m (by simp [hl, hm]), h.size m (by simp [hl, hm])⟩
    · exact hmem m hm
    · exact ⟨h.start m (by simp [hl, hm]), h.size m (by simp [hl, hm])⟩
  have hnewOk := (hl ▸ hall).retile (List.cons_ne_nil _ _) hold htiles
  exact ⟨ha' ▸ hnewOk.asc, ha' ▸ hnewOk.ok, fun m hm => (hall' m hm).1, fun m hm => (hall' m hm).2⟩

/-- One call of `allocate_pages` for a block of whole pages below the ceiling: it fails and
changes nothing, or it takes the block from free pages. -/
theorem allocateBlock_spec (h : AllocOk a) (hn : n < 2 ^ 32)
    (hwrap : ∀ r ∈ a.freeList, r.start + n * PAGE_SIZE_4K < U64) {phys : Nat} {a' : PhysAllocator}
    (hcall : a.allocatePages (blockRequest n) = (phys, a')) :
    phys = 0 ∧ a' = a ∨ phys ≠ 0 ∧ BlockTaken a a' phys n := by
  unfold PhysAllocator.allocatePages at hcall
  by_cases h0 : n = 0
  · rw [if_pos h0, Prod.mk.injEq] at hcall
    exact .inl ⟨hcall.1.symm, hcall.2.symm⟩
  rw [if_neg h0] at hcall
  cases hsearch : allocateIn (freeNodes a.freeList) (blockRequest n) a.freeList with
  | none =>
    simp only [hsearch, Prod.mk.injEq] at hcall
    exact .inl ⟨hcall.1.symm, hcall.2.symm⟩
  | some out =>
    obtain ⟨addr, list⟩ := out
    simp only [hsearch, Prod.mk.injEq] at hcall
    obtain ⟨rfl, rfl⟩ := hcall
    obtain ⟨l₁, r, l₂, hl, hfind, haddr, hlist⟩ := allocateIn_cases hsearch
    have hr := List.mem_of_find?_eq_some hfind
    obtain ⟨hroom, hlt⟩ := h.room hr
    have hstart := h.alignedStart hr (n := n)
    have hsize : (blockRequest n).size = n * PAGE_SIZE_4K := (blockRequest_ok hn).size_eq
    have hpos : 0 < n * PAGE_SIZE_4K := Nat.mul_pos (Nat.pos_of_ne_zero h0) (by decide)
    have hpage := (h.ok r hr).page
    have hsmall : r.start + PAGE_SIZE_4K ≤ U64 := by omega
    have hsum := hwrap r hr
    have hfit := fit_of_usable (blockRequest_ok hn) (h.ok r hr)
      ⟨hsmall, by rw [hstart, hsize]; exact hsum⟩ (List.find?_some hfind)
    have hfits := hfit.fits
    rw [hstart, hsize] at hfits
    have hbelow := hfit.below (show IDENTITY_BRIDGE_ALLOC_MAX ≠ 0 by decide)
    rw [hstart, hsize] at hbelow
    have hcarve := h.carve hr hn hfits (freeNodes a.freeList)
    obtain rfl : addr = r.start := haddr.trans hstart
    have hok : AllocOk { a with freeList := list } :=
      h.take hl hpos (Nat.dvd_mul_left _ _) hcarve hlist
    have hold : ∀ m, m ∈ a.freeList ↔ (m ∈ l₁ ∨ m = r) ∨ m ∈ l₂ := fun m => by simp [hl, or_assoc]
    have hmem : ∀ m, m ∈ list ↔
        (m ∈ l₁ ∨ m ∈ Memory.carve (freeNodes a.freeList) (blockRequest n) r) ∨ m ∈ l₂ :=
      fun m => by simp [hlist, or_assoc]
    refine .inr ⟨?_, ⟨hok.asc, hok.ok, hok.start, hok.size⟩, h.start r hr, hbelow,
      fun x hx hx' => ⟨r, hr, hfit.free, hx, Nat.lt_of_lt_of_le hx' hfits⟩, ?_, ?_, ?_, ?_⟩
    · unfold PAGE_SIZE_4K at hpage
      omega
    · rcases hcarve with hc | ⟨-, hc⟩
      · refine ⟨{ r with used := true }, (hmem _).mpr (.inl (.inr ?_)), rfl, rfl, ?_⟩
        · rw [hc]
          exact List.mem_cons_self
        · unfold MemoryRegion.stop at hfits
          dsimp only
          omega
      · refine ⟨{ r with size := n * PAGE_SIZE_4K, used := true },
          (hmem _).mpr (.inl (.inr ?_)), rfl, rfl, Nat.le_refl _⟩
        rw [hc]
        exact List.mem_cons_self
    · intro m hm hmu
      rcases (hold m).mp hm with (hm' | rfl) | hm'
      · exact (hmem m).mpr (.inl (.inl hm'))
      · exact absurd (hfit.free ▸ hmu) Bool.false_ne_true
      · exact (hmem m).mpr (.inr hm')
    · intro m hm hmu
      rcases (hmem m).mp hm with (hm' | hm') | hm'
      · exact .inl ((hold m).mpr (.inl (.inl hm')))
      · refine .inr ?_
        rcases hcarve with hc | ⟨-, hc⟩
        · rw [hc, List.mem_singleton] at hm'
          rw [hm']
        · rw [hc, List.mem_cons, List.mem_singleton] at hm'
          rcases hm' with rfl | rfl
          · rfl
          · exact absurd hmu Bool.false_ne_true
      · exact .inl ((hold m).mpr (.inr hm'))
    · rintro x ⟨m, hm, hmu, hmx⟩
      rcases (hmem m).mp hm with (hm' | hm') | hm'
      · exact ⟨m, (hold m).mpr (.inl (.inl hm')), hmu, hmx⟩
      · -- What is still free of the region that was taken is its tail.
        rcases hcarve with hc | ⟨-, hc⟩
        · rw [hc, List.mem_singleton] at hm'
          rw [hm'] at hmu
          exact absurd hmu.symm Bool.false_ne_true
        · rw [hc, List.mem_cons, List.mem_singleton] at hm'
          rcases hm' with rfl | rfl
          · exact absurd hmu.symm Bool.false_ne_true
          · refine ⟨r, hr, hfit.free, ?_⟩
            unfold MemoryRegion.stop at hmx hfits ⊢
            dsimp only at hmx
            omega
      · exact ⟨m, (hold m).mpr (.inr hm'), hmu, hmx⟩

/-- What was used stays used. -/
theorem BlockTaken.usedAt {a' : PhysAllocator} {phys x : Nat} (h : BlockTaken a a' phys n)
    (hx : UsedAt a x) : UsedAt a' x := by
  obtain ⟨m, hm, hmu, hmx⟩ := hx
  exact ⟨m, h.kept m hm hmu, hmu, hmx⟩

/-- One call of `allocate_pages` for a table. The block is the page. -/
theorem allocatePage_spec (h : AllocOk a) {phys : Nat} {a' : PhysAllocator}
    (hcall : a.allocatePages tableRequest = (phys, a')) :
    phys = 0 ∧ a' = a ∨ phys ≠ 0 ∧ BlockTaken a a' phys 1 := by
  refine allocateBlock_spec h (by decide) (fun r hr => ?_) hcall
  obtain ⟨hroom, hlt⟩ := h.room hr
  omega

end Blocks

/-! ### Entry bits -/

/-- A page that may hold a table. -/
structure TableOk (p : Nat) : Prop where
  dvd : PAGE_SIZE_4K ∣ p
  pos : 0 < p
  lt : p < IDENTITY_BRIDGE_ALLOC_MAX

/-- A page address shares no bit with the flags in the low twelve. -/
theorem page_and_low {p f : Nat} (hp : PAGE_SIZE_4K ∣ p) (hf : f < 2 ^ 12) : p &&& f = 0 := by
  obtain ⟨k, rfl⟩ := hp
  have hk : PAGE_SIZE_4K * k = k <<< 12 := by
    rw [Nat.shiftLeft_eq, Nat.mul_comm]
    rfl
  rw [hk]
  apply Nat.eq_of_testBit_eq
  intro i
  rw [Nat.testBit_and, Nat.testBit_shiftLeft, Nat.zero_testBit]
  by_cases hi : 12 ≤ i
  · rw [Nat.testBit_lt_two_pow (Nat.lt_of_lt_of_le hf (Nat.pow_le_pow_right (by decide) hi)),
      Bool.and_false]
  · simp [hi]

/-- `PA_MASK` keeps a page address of 52 bits. -/
theorem and_PA_MASK {p : Nat} (hdvd : PAGE_SIZE_4K ∣ p) (hlt : p < 2 ^ 52) : p &&& PA_MASK = p := by
  have hmask : PA_MASK = (2 ^ 40 - 1) <<< 12 := by decide
  obtain ⟨k, hk⟩ := hdvd
  have hk' : p = k <<< 12 := by
    rw [hk, Nat.shiftLeft_eq, Nat.mul_comm]
    rfl
  have hk40 : k < 2 ^ 40 := by
    unfold PAGE_SIZE_4K at hk
    omega
  rw [hmask, hk', ← Nat.shiftLeft_and_distrib, Nat.and_two_pow_sub_one_of_lt_two_pow hk40]

theorem page_and_PA_MASK {p : Nat} (hp : TableOk p) : p &&& PA_MASK = p :=
  and_PA_MASK hp.dvd (Nat.lt_trans hp.lt (by decide))

theorem PA_MASK_and_NOT_PA_MASK : PA_MASK &&& NOT_PA_MASK = 0 := by decide

/-- What the entry of a parent says about its child: nothing there, or a present, small
entry with the child's address. -/
def EntryOk (e : Nat) : Option Nat → Prop
  | none => e &&& PTE_PRESENT = 0
  | some c => e &&& PTE_PRESENT ≠ 0 ∧ e &&& PTE_HUGE = 0 ∧ e &&& PA_MASK = c

/-- The entry that `ensure_next_table` writes for a new child. -/
theorem linkEntry_ok {c : Nat} (hc : TableOk c) (flags : Nat) :
    EntryOk (c ||| PTE_PRESENT ||| PTE_WRITABLE ||| (flags &&& PTE_USER)) (some c) := by
  have hp : c &&& PTE_PRESENT = 0 := page_and_low hc.dvd (by decide)
  have hh : c &&& PTE_HUGE = 0 := page_and_low hc.dvd (by decide)
  have hm := page_and_PA_MASK hc
  refine ⟨?_, ?_, ?_⟩
  · simp only [Nat.and_or_distrib_right, Nat.and_assoc, hp]
    simp [PTE_PRESENT, PTE_WRITABLE, PTE_USER]
  · simp only [Nat.and_or_distrib_right, Nat.and_assoc, hh]
    simp [PTE_PRESENT, PTE_WRITABLE, PTE_USER, PTE_HUGE]
  · simp only [Nat.and_or_distrib_right, Nat.and_assoc, hm]
    simp [PTE_PRESENT, PTE_WRITABLE, PTE_USER, PA_MASK]

/-- Adding the writable and the user bit to an entry does not change its child. -/
theorem EntryOk.addFlags {e : Nat} {c : Option Nat} (h : EntryOk e c)
    (hp : e &&& PTE_PRESENT ≠ 0) (flags : Nat) :
    EntryOk (e ||| (PTE_WRITABLE ||| (flags &&& PTE_USER))) c := by
  cases c with
  | none => exact absurd h hp
  | some c =>
    obtain ⟨-, hh, hm⟩ := h
    refine ⟨?_, ?_, ?_⟩
    · simp only [Nat.and_or_distrib_right, Nat.and_assoc]
      simpa [PTE_PRESENT, PTE_WRITABLE, PTE_USER] using hp
    · simp only [Nat.and_or_distrib_right, Nat.and_assoc, hh]
      simp [PTE_WRITABLE, PTE_USER, PTE_HUGE]
    · simp only [Nat.and_or_distrib_right, Nat.and_assoc, hm]
      simp [PTE_WRITABLE, PTE_USER, PA_MASK]

/-- What a page-table entry maps its page to: the physical page and the flags. -/
def leafOf (e : Nat) : Option (Nat × Nat) :=
  if e &&& PTE_PRESENT = 0 then none else some (e &&& PA_MASK, e &&& NOT_PA_MASK)

/-- The flags of a leaf are present and do not reach into the address. -/
theorem pageFlags_bits (flags : Nat) :
    pageFlags flags &&& PTE_PRESENT ≠ 0 ∧ pageFlags flags &&& PA_MASK = 0 ∧
      pageFlags flags &&& NOT_PA_MASK = pageFlags flags := by
  unfold pageFlags
  split_ifs <;> decide

/-- The entry that `map_page` writes maps to the page and the flags it was given. -/
theorem leafOf_leafEntry (phys flags : Nat) :
    leafOf ((phys &&& PA_MASK) ||| pageFlags flags) =
      some (phys &&& PA_MASK, pageFlags flags) := by
  obtain ⟨hp, hm, hn⟩ := pageFlags_bits flags
  have hpresent : ((phys &&& PA_MASK) ||| pageFlags flags) &&& PTE_PRESENT ≠ 0 := by
    have h0 : PA_MASK &&& PTE_PRESENT = 0 := by decide
    rw [Nat.and_or_distrib_right, Nat.and_assoc, h0, Nat.and_zero, Nat.zero_or]
    exact hp
  have haddr : ((phys &&& PA_MASK) ||| pageFlags flags) &&& PA_MASK = phys &&& PA_MASK := by
    rw [Nat.and_or_distrib_right, Nat.and_assoc, Nat.and_self, hm, Nat.or_zero]
  have hflags : ((phys &&& PA_MASK) ||| pageFlags flags) &&& NOT_PA_MASK = pageFlags flags := by
    rw [Nat.and_or_distrib_right, Nat.and_assoc, PA_MASK_and_NOT_PA_MASK, Nat.and_zero,
      Nat.zero_or, hn]
  rw [leafOf, if_neg hpresent, haddr, hflags]

theorem leafOf_zero : leafOf 0 = none := by
  simp [leafOf]

end VKernel.Proofs.Memory

import VKernel.Proofs.Process.MemoryRecords

/-!
# `VKernel.Proofs.Process.UserMemory`: the records are the memory of the process

A process that calls `malloc`, `free`, `mmap`, `munmap`, `mprotect` and `brk` in any order is
protected by nothing but the list of records that the kernel keeps for it. `userMemory_safe` says
what the list is worth: at any time, a user address resolves to what the records say, and where
there is no record, to what was there when the program was loaded. Two blocks share neither
addresses nor physical pages, every block is in use in the allocator, and every region in use
belongs to a table, to a record or to somebody else.

Each call is one lemma over those of `Proofs/Process/MemoryRecords.lean`.
-/

set_option autoImplicit false
set_option maxRecDepth 20000

namespace VKernel.Proofs.Process

open VKernel VKernel.Memory VKernel.Lib VKernel.Process VKernel.Process.UserMemory
open VKernel.Process.MemoryState
open VKernel.Proofs.Memory

section Calls

variable {before : Nat → Option Nat} {foreign : List MemoryRegion} {s : UserMemory} {T : Tables}
variable {r : ProcessAllocation} {l₁ l₂ : List ProcessAllocation}

/-! ### The search for a range -/

/-- The loop of `user_range_is_unmapped` on user pages. -/
theorem frame_of_rangeIsUnmapped {page₀ n : Nat} (h : VmInv s.vm s.as T)
    (huser : ∀ j, j < n → UserKey 0 (page₀ + j))
    (hnone : rangeIsUnmapped s.vm.mem s.as (page₀ * PAGE_SIZE_4K) n = true) {page : Nat}
    (hlo : page₀ ≤ page) (hhi : page < page₀ + n) : frame s.vm.mem T page = none := by
  induction n generalizing page₀ with
  | zero => omega
  | succ n ih =>
    rw [rangeIsUnmapped, Bool.and_eq_true] at hnone
    obtain ⟨hfirst, hrest⟩ := hnone
    have hkey := huser 0 (Nat.zero_lt_succ _)
    rw [Nat.add_zero] at hkey
    have hpage : page₀ * PAGE_SIZE_4K / PAGE_SIZE_4K = page₀ := Nat.mul_div_cancel _ (by decide)
    rcases Nat.eq_or_lt_of_le hlo with rfl | hlt
    · rw [debugResolve_eq h.tree (by rw [hpage]; exact hkey), hpage, Option.isNone_iff_eq_none,
        Option.map_eq_none_iff] at hfirst
      rw [frame, hfirst]
      rfl
    · have hnext : add64 (page₀ * PAGE_SIZE_4K) PAGE_SIZE_4K = (page₀ + 1) * PAGE_SIZE_4K := by
        rw [add64_eq, Nat.add_mul, Nat.one_mul]
        rw [userKey_zero] at hkey
        rw [U64_eq]
        unfold PAGE_SIZE_4K USER_MAP_LIMIT at *
        omega
      rw [hnext] at hrest
      refine ih (fun j hj => ?_) hrest hlt (by omega)
      rw [show page₀ + 1 + j = page₀ + (j + 1) by omega]
      exact huser (j + 1) (Nat.succ_lt_succ hj)

/-- A range that `allocate_process_mapping` may take. -/
structure FreeRange (s : UserMemory) (T : Tables) (base bytes : Nat) : Prop where
  dvd : PAGE_SIZE_4K ∣ base
  lo : USER_MMAP_BASE ≤ base
  hi : base + bytes ≤ USER_MAP_LIMIT
  unmapped : ∀ page, base / PAGE_SIZE_4K ≤ page →
    page < base / PAGE_SIZE_4K + bytes / PAGE_SIZE_4K → frame s.vm.mem T page = none

/-- The search ends at a range in which nothing is mapped. -/
theorem searchBase_spec {bytes n base found : Nat} (h : VmInv s.vm s.as T)
    (hbytes : PAGE_SIZE_4K ∣ bytes) (hlt : bytes < U64) (hdvd : PAGE_SIZE_4K ∣ base)
    (hlo : USER_MMAP_BASE ≤ base)
    (hfound : searchBase s.vm.mem s.as bytes n base = some found) : FreeRange s T found bytes := by
  induction n generalizing base with
  | zero => cases hfound
  | succ n ih =>
    unfold searchBase at hfound
    split at hfound
    · rename_i hroom
      obtain ⟨hmore, hlimit⟩ := hroom
      have hbase : base < USER_MAP_LIMIT := Nat.lt_of_lt_of_le hmore hlimit
      -- A sum that wraps would be below the base.
      have hsum : add64 base bytes = base + bytes := by
        refine add64_eq (Nat.lt_of_not_le fun hwrap => ?_)
        have hbase' : base < U64 := by
          rw [U64_eq]
          unfold USER_MAP_LIMIT at hbase
          omega
        have hvalue : add64 base bytes = base + bytes - U64 := by
          unfold add64
          rw [Nat.mod_eq_sub_mod hwrap, Nat.mod_eq_of_lt (by omega)]
        omega
      rw [hsum] at hlimit
      split at hfound
      · rename_i hunmapped
        obtain rfl := Option.some.inj hfound
        refine ⟨hdvd, hlo, hlimit, fun page hpage hpage' => ?_⟩
        obtain ⟨b, rfl⟩ := hdvd
        obtain ⟨c, rfl⟩ := hbytes
        have hdiv : ∀ k, PAGE_SIZE_4K * k / PAGE_SIZE_4K = k :=
          fun k => Nat.mul_div_cancel_left _ (by decide)
        rw [hdiv] at hpage hpage'
        rw [hdiv] at hpage'
        unfold userRangeIsUnmapped at hunmapped
        split at hunmapped
        · cases hunmapped
        · have hdown : alignDown (PAGE_SIZE_4K * b) PAGE_SIZE_4K = b * PAGE_SIZE_4K := by
            rw [show PAGE_SIZE_4K = 2 ^ 12 from rfl, alignDown_eq ?_ (by decide),
              Nat.mul_div_cancel_left _ (by decide)]
            rw [U64_eq]
            unfold PAGE_SIZE_4K USER_MAP_LIMIT at *
            omega
          have hup : alignUp (PAGE_SIZE_4K * b + PAGE_SIZE_4K * c) PAGE_SIZE_4K =
              PAGE_SIZE_4K * b + PAGE_SIZE_4K * c := by
            refine alignUp_of_dvd (k := 12) (by decide) ?_
              (Nat.dvd_add (Nat.dvd_mul_right _ _) (Nat.dvd_mul_right _ _))
            rw [U64_eq]
            unfold USER_MAP_LIMIT at hlimit
            omega
          have hcount : (PAGE_SIZE_4K * b + PAGE_SIZE_4K * c - b * PAGE_SIZE_4K) / PAGE_SIZE_4K =
              c := by
            rw [Nat.mul_comm b, Nat.add_sub_cancel_left, hdiv]
          simp only [hsum, hdown, hup, hcount] at hunmapped
          refine frame_of_rangeIsUnmapped h (fun j hj => ?_) hunmapped hpage hpage'
          rw [userKey_zero]
          unfold PAGE_SIZE_4K USER_IMAGE_BASE USER_MMAP_BASE USER_MAP_LIMIT at *
          omega
      · have hnext : add64 base PAGE_SIZE_4K = base + PAGE_SIZE_4K := by
          refine add64_eq ?_
          rw [U64_eq]
          unfold PAGE_SIZE_4K USER_MAP_LIMIT at *
          omega
        rw [hnext] at hfound
        exact ih (Nat.dvd_add hdvd (Nat.dvd_refl _)) (Nat.le_trans hlo (Nat.le_add_right _ _))
          hfound
    · cases hfound

/-- Nothing starts behind an empty range. -/
theorem searchBase_zero (m : Words) (as : AddressSpace) (n base : Nat) :
    searchBase m as 0 n base = none := by
  cases n with
  | zero => rfl
  | succ n =>
    unfold searchBase
    rw [if_neg fun hroom => ?_]
    have hle : add64 base 0 ≤ base := Nat.mod_le _ _
    omega

/-- `align_up` is a `u64`. -/
theorem alignUp_lt_U64 (val align : Nat) : alignUp val align < U64 := by
  have hpos := U64_pos
  have hle : alignUp val align ≤ not64 (sub64 align 1) := Nat.and_le_right
  unfold not64 at hle
  omega

theorem mappingBase_spec {size base : Nat} (h : MemInv before foreign s T) (hsize : size < U64)
    (hfound : s.mappingBase size USER_MMAP_BASE = some base) :
    size ≠ 0 ∧ alignUp size PAGE_SIZE_4K = pageCount size * PAGE_SIZE_4K ∧
      FreeRange s T base (pageCount size * PAGE_SIZE_4K) := by
  unfold UserMemory.mappingBase at hfound
  split at hfound
  · cases hfound
  · rename_i h0
    have hroom : size + PAGE_SIZE_4K ≤ U64 := by
      refine Nat.le_of_not_lt fun hcon => ?_
      have hzero : alignUp size PAGE_SIZE_4K = 0 := alignUp_wrapped (k := 12) (by decide) hsize hcon
      simp only [hzero, searchBase_zero] at hfound
      cases hfound
    have hround : alignUp size PAGE_SIZE_4K = pageCount size * PAGE_SIZE_4K :=
      alignUp_eq (k := 12) (by decide) hroom
    have hnext : s.as.mapNext + PAGE_SIZE_4K ≤ U64 := by
      have hle := h.next
      rw [U64_eq]
      unfold PAGE_SIZE_4K USER_MAP_LIMIT at *
      omega
    have hmmap : alignUp USER_MMAP_BASE PAGE_SIZE_4K = USER_MMAP_BASE :=
      alignUp_of_dvd (k := 12) (by decide) (by rw [U64_eq]; decide) (by decide)
    refine ⟨h0, hround, ?_⟩
    rw [← hround]
    refine searchBase_spec h.vm ⟨pageCount size, by rw [hround, Nat.mul_comm]⟩
      (alignUp_lt_U64 _ _) ?_ ?_ hfound
    · split
      · rw [hmmap]
        decide
      · exact alignUp_dvd (k := 12) (by decide) hnext
    · split
      · exact Nat.le_of_eq hmmap.symm
      · omega

/-! ### The calls -/

/-- `allocate_process_mapping`: no trace, or a block whose record is still to be linked. -/
theorem allocateProcessMapping_spec {size : Nat} (flags : Nat) (h : MemInv before foreign s T)
    (hsize : size < U64) (hsuffice : ∀ base, s.mappingBase size USER_MMAP_BASE = some base →
      PagesSuffice ⟨s.vm, s.as⟩ base (alignUp size PAGE_SIZE_4K)) :
    s.allocateProcessMapping size flags USER_MMAP_BASE = (none, s) ∨
      ∃ base phys s' T', s.allocateProcessMapping size flags USER_MMAP_BASE =
          (some (base, phys), s') ∧ base ≠ 0 ∧ phys ≠ 0 ∧ size ≠ 0 ∧
        ∀ requested, MemInv before foreign
          { s' with allocations := ⟨base, phys, requested, size, true⟩ :: s'.allocations } T' := by
  unfold UserMemory.allocateProcessMapping
  cases hfound : s.mappingBase size USER_MMAP_BASE with
  | none => exact .inl rfl
  | some base =>
    obtain ⟨h0, hround, hrange⟩ := mappingBase_spec h hsize hfound
    have hsuffice := hsuffice base hfound
    have hagain : pageCount (pageCount size * PAGE_SIZE_4K) = pageCount size := pageCount_mul _
    have hpos := pageCount_pos h0
    have hlt : pageCount size * PAGE_SIZE_4K < U64 := hround ▸ alignUp_lt_U64 _ _
    have hlo := hrange.lo
    rw [hround] at hsuffice
    simp only [hround]
    have hspec := allocateUserPages_spec flags h.vm h.bound hrange.dvd
      (Nat.le_trans (by decide) hlo) (by rw [hagain]; exact hrange.hi) hlt
      (Nat.ne_of_gt (Nat.mul_pos hpos (by decide))) hsuffice
    rw [hagain] at hspec
    rcases hspec with hcall | ⟨phys, vm', T', hcall, hadd⟩
    · rw [hcall]
      exact .inl (if_pos rfl)
    · have hunmapped := hrange.unmapped
      rw [Nat.mul_div_cancel _ (by decide)] at hunmapped
      have hsum : add64 base (pageCount size * PAGE_SIZE_4K) =
          base + pageCount size * PAGE_SIZE_4K := by
        refine add64_eq ?_
        have hhi := hrange.hi
        rw [U64_eq]
        unfold USER_MAP_LIMIT at hhi
        omega
      have hbase : base ≠ 0 := by
        unfold USER_MMAP_BASE at hlo
        omega
      refine .inr ⟨base, phys, { s with
        vm := vm', as := { s.as with mapNext := base + pageCount size * PAGE_SIZE_4K } }, T', ?_,
        hbase, hadd.ne_zero, h0, fun requested => ?_⟩
      · rw [hcall, hsum]
        exact if_neg hadd.ne_zero
      · have hnew := h.addBlock (r := ⟨base, phys, requested, size, true⟩) hadd hrange.dvd h0
          hrange.hi rfl (.inl hlo)
          (fun r hr => (h.apart_of_unmapped hpos hunmapped hr).symm) fun page hp hp' => ?_
        · exact hnew.setNext hrange.hi
        · -- What is not mapped now has no record, so it was not mapped before.
          have hnone := hunmapped page hp hp'
          have huser : UserKey 0 page := by
            have hhi := hrange.hi
            rw [userKey_zero]
            unfold firstPage at hp
            unfold endPage at hp'
            dsimp only at hp hp'
            unfold PAGE_SIZE_4K USER_IMAGE_BASE USER_MMAP_BASE USER_MAP_LIMIT at *
            omega
          rw [h.pages page huser, backing] at hnone
          cases hholder : holder firstPage endPage s.allocations page with
          | none =>
            rw [hholder] at hnone
            exact hnone
          | some r =>
            rw [hholder] at hnone
            cases hnone

theorem track_cases {user raw size : Nat} (s : UserMemory) (room : Bool) (requested : Nat)
    (hu : user ≠ 0) (hr : raw ≠ 0) (hs : size ≠ 0) :
    s.track room user raw requested size true = (false, s) ∨
      s.track room user raw requested size true =
        (true, { s with allocations := ⟨user, raw, requested, size, true⟩ :: s.allocations }) := by
  unfold UserMemory.track
  rw [if_neg (by simp [hu, hr, hs])]
  cases room with
  | false => exact .inl rfl
  | true => exact .inr rfl

/-- A block without a record is given back at once. -/
theorem MemInv.giveBack {user raw requested size : Nat}
    (h : MemInv before foreign
      { s with allocations := ⟨user, raw, requested, size, true⟩ :: s.allocations } T) :
    MemInv before foreign ((s.unmap user size).freePages raw size) T :=
  h.unlink (show _ = [] ++ _ :: _ from rfl)

theorem MemInv.malloc {size : Nat} (h : MemInv before foreign s T) (room executable : Bool)
    (hsuffice : ∀ base, s.mappingBase (alignUp size 16) USER_MMAP_BASE = some base →
      PagesSuffice ⟨s.vm, s.as⟩ base (alignUp (alignUp size 16) PAGE_SIZE_4K)) :
    ∃ T', MemInv before foreign (s.mallocInternal room size executable).2 T' := by
  unfold UserMemory.mallocInternal
  split
  · exact ⟨T, h⟩
  dsimp only
  split
  · exact ⟨T, h⟩
  rcases allocateProcessMapping_spec (MAP_WRITABLE ||| MAP_USER |||
      (if executable then MAP_EXECUTABLE else 0)) h (alignUp_lt_U64 size 16) hsuffice with
    hcall | ⟨base, phys, s', T', hcall, hbase, hphys, h0, hnew⟩
  · rw [hcall]
    exact ⟨T, h⟩
  · rw [hcall]
    dsimp only
    rcases track_cases s' room size hbase hphys h0 with htrack | htrack
    · rw [htrack]
      exact ⟨T', (hnew 0).giveBack⟩
    · rw [htrack]
      exact ⟨T', hnew size⟩

theorem MemInv.mmap {length : Nat} (h : MemInv before foreign s T) (room : Bool)
    (prot flags : Nat) (fd : Int)
    (hsuffice : ∀ base, s.mappingBase (alignUp length PAGE_SIZE_4K) USER_MMAP_BASE = some base →
      PagesSuffice ⟨s.vm, s.as⟩ base (alignUp (alignUp length PAGE_SIZE_4K) PAGE_SIZE_4K)) :
    ∃ T', MemInv before foreign (s.mmap room length prot flags fd).2 T' := by
  unfold UserMemory.mmap
  split
  · exact ⟨T, h⟩
  split
  · exact ⟨T, h⟩
  split
  · exact ⟨T, h⟩
  dsimp only
  rcases allocateProcessMapping_spec (mappingFlagsFromProt prot) h (alignUp_lt_U64 length _)
      hsuffice with hcall | ⟨base, phys, s', T', hcall, hbase, hphys, h0, hnew⟩
  · rw [hcall]
    exact ⟨T, h⟩
  · rw [hcall]
    dsimp only
    rcases track_cases s' room (alignUp length PAGE_SIZE_4K) hbase hphys h0 with htrack | htrack
    · rw [htrack]
      exact ⟨T', (hnew 0).giveBack⟩
    · rw [htrack]
      exact ⟨T', hnew _⟩

theorem MemInv.free (h : MemInv before foreign s T) (ptr : Nat) :
    MemInv before foreign (s.free ptr) T := by
  unfold UserMemory.free
  split
  · exact h
  cases hfind : s.allocations.find? fun r => r.userPtr == ptr with
  | none => exact h
  | some r =>
    obtain ⟨l₁, l₂, hl, -, herase, -⟩ := find?_split hfind
    have hr : r ∈ s.allocations := by simp [hl]
    dsimp only
    rw [herase, UserMemory.release,
      if_pos ((h.blocks r hr).raw_ne_user (h.placed r hr))]
    exact h.unlink hl

theorem MemInv.munmap (h : MemInv before foreign s T) (addr length : Nat) :
    MemInv before foreign (s.munmap addr length).2 T := by
  unfold UserMemory.munmap
  split
  · exact h
  dsimp only
  cases hfind : s.allocations.find? (isMapping addr (alignUp length PAGE_SIZE_4K)) with
  | none => exact h
  | some r =>
    obtain ⟨l₁, l₂, hl, hp, herase, -⟩ := find?_split hfind
    have haddr : r.userPtr = addr := by
      simp only [isMapping, Bool.and_eq_true, beq_iff_eq] at hp
      exact hp.1.2
    dsimp only
    rw [herase, ← haddr]
    exact h.unlink hl

theorem MemInv.mprotect {addr length : Nat} (h : MemInv before foreign s T) (prot : Nat)
    (hlo : USER_IMAGE_BASE ≤ addr) (hhi : addr + length ≤ USER_MAP_LIMIT) :
    ∃ T', MemInv before foreign (s.mprotect addr length prot).2 T' := by
  obtain ⟨T', e, hinv, hgrown, hframes⟩ := protectProcessMapping_spec prot h.vm hlo hhi
  exact ⟨T', h.grown hinv hgrown hframes⟩

/-! ### `brk` -/

/-- The record at the end of the heap. -/
theorem MemInv.top (h : MemInv before foreign s T) (hr : r ∈ s.allocations)
    (htop : s.isTop r = true) : r.userPtr + r.allocatedSize = s.brkMappedEnd ∧
      USER_HEAP_BASE ≤ r.userPtr ∧ PAGE_SIZE_4K ∣ r.allocatedSize := by
  have hok := h.blocks r hr
  have hends := hok.ends
  have hle := le_pageCount r.allocatedSize
  have hsum : add64 r.userPtr r.allocatedSize = r.userPtr + r.allocatedSize := by
    refine add64_eq ?_
    rw [U64_eq]
    unfold USER_MAP_LIMIT at hends
    omega
  simp only [isTop, Bool.and_eq_true, beq_iff_eq] at htop
  have hend : r.userPtr + r.allocatedSize = s.brkMappedEnd := hsum.symm.trans htop.2
  rcases h.placed r hr with hmmap | ⟨hlo, -, hdvd⟩
  · -- A mapping ends behind the heap.
    have hheap := h.heap.hi
    have hne := hok.ne_zero
    omega
  · exact ⟨hend, hlo, hdvd⟩

/-- The other records lie in front of the block at the end of the heap. -/
theorem MemInv.placed_of_top (h : MemInv before foreign s T) (hl : s.allocations = l₁ ++ r :: l₂)
    (htop : s.isTop r = true) {r' : ProcessAllocation} (hr' : r' ∈ l₁ ++ l₂) :
    Placed r.userPtr r' := by
  have hr : r ∈ s.allocations := by simp [hl]
  have hmem : r' ∈ s.allocations := by
    rw [hl]
    simp only [List.mem_append, List.mem_cons] at hr' ⊢
    exact hr'.imp_right Or.inr
  obtain ⟨hend, hlo, hdvd⟩ := h.top hr htop
  rcases h.placed r' hmem with hmmap | ⟨hlo', hhi', hdvd'⟩
  · exact .inl hmmap
  · refine .inr ⟨hlo', ?_, hdvd'⟩
    have hapart := h.apart
    rw [hl] at hapart
    have hside := hapart.middle.2 r' hr'
    have hne := (h.blocks r' hmem).ne_zero
    obtain ⟨u, hu⟩ := (h.blocks r hr).dvd
    obtain ⟨u', hu'⟩ := (h.blocks r' hmem).dvd
    obtain ⟨a, ha⟩ := hdvd
    obtain ⟨a', ha'⟩ := hdvd'
    unfold firstPage endPage pageCount at hside
    rw [hu, hu', ha, ha'] at hside
    rw [hu', ha'] at hhi'
    rw [hu, ha] at hend
    rw [ha'] at hne
    rw [hu, hu', ha']
    unfold PAGE_SIZE_4K at *
    omega

/-- The loop that gives pages of the heap back. -/
theorem MemInv.shrink {desired n : Nat} (h : MemInv before foreign s T)
    (hlo : USER_HEAP_BASE ≤ desired) (hdvd : PAGE_SIZE_4K ∣ desired) :
    MemInv before foreign (s.shrink desired n).2 T := by
  induction n generalizing s with
  | zero => exact h
  | succ n ih =>
    unfold UserMemory.shrink
    split
    · exact h
    rename_i hmore
    rw [Nat.not_le] at hmore
    cases hfind : s.allocations.find? s.isTop with
    | none => exact h
    | some top =>
      obtain ⟨l₁, l₂, hl, htop, herase, hchange⟩ := find?_split hfind
      have hmem : top ∈ s.allocations := by simp [hl]
      obtain ⟨hend, htoplo, htopdvd⟩ := h.top hmem htop
      have hok := h.blocks top hmem
      have hheap := h.heap
      dsimp only
      split
      · -- The whole block goes.
        rw [herase]
        have hgone := h.unlink hl
        refine ih (hgone.setEnd ⟨hok.dvd, htoplo, ?_⟩ fun r' hr' => ?_)
        · have hhi := hheap.hi
          omega
        · refine h.placed_of_top hl htop ?_
          have hlist : ((({ s with allocations := l₁ ++ l₂ } : UserMemory).unmap top.userPtr
              top.allocatedSize).freePages top.rawPtr top.allocatedSize).allocations =
              l₁ ++ l₂ := by
            unfold UserMemory.freePages
            split <;> rfl
          rwa [hlist] at hr'
      · -- The new end lies inside of the block.
        rename_i hinside
        rw [Nat.not_le] at hinside
        have hkeep : sub64 top.allocatedSize (s.brkMappedEnd - desired) =
            desired - top.userPtr := by
          rw [sub64_eq (by omega)]
          omega
        have hrest : s.brkMappedEnd - desired = top.allocatedSize - (desired - top.userPtr) := by
          omega
        have hbelow := hok.below
        have hsize := le_pageCount top.allocatedSize
        have hends := hok.ends
        have huser : add64 top.userPtr (desired - top.userPtr) =
            top.userPtr + (desired - top.userPtr) := by
          refine add64_eq ?_
          rw [U64_eq]
          unfold USER_MAP_LIMIT at hends
          omega
        have hraw : add64 top.rawPtr (desired - top.userPtr) =
            top.rawPtr + (desired - top.userPtr) := by
          refine add64_eq ?_
          rw [U64_eq]
          unfold IDENTITY_BRIDGE_ALLOC_MAX at hbelow
          omega
        have hkeepdvd : PAGE_SIZE_4K ∣ desired - top.userPtr := Nat.dvd_sub hdvd hok.dvd
        rw [hkeep, huser, hraw, hrest, hchange]
        have hkept : ∀ e, desired ≤ e → Placed e { top with
            allocatedSize := desired - top.userPtr
            requestedSize := desired - top.userPtr } := by
          intro e he
          refine .inr ⟨htoplo, ?_, hkeepdvd⟩
          dsimp only
          omega
        have hcut := h.cutBlock hl (by omega) (by omega) hkeepdvd htopdvd
          (desired - top.userPtr) (hkept _ (Nat.le_of_lt hmore))
        refine hcut.setEnd ⟨hdvd, hlo, ?_⟩ fun r' hr' => ?_
        · exact Nat.le_trans (Nat.le_of_lt hmore) hheap.hi
        · have hcases : r' ∈ l₁ ++ l₂ ∨ r' = { top with
              allocatedSize := desired - top.userPtr
              requestedSize := desired - top.userPtr } := by
            simp only [List.mem_append, List.mem_cons] at hr' ⊢
            tauto
          rcases hcases with hother | rfl
          · exact (h.placed_of_top hl htop hother).mono (Nat.le_of_lt hinside)
          · exact hkept _ (Nat.le_refl _)

/-- `free_process_allocation_pages` of a block. -/
theorem freePages_eq (s : UserMemory) {ptr size : Nat} (hp : ptr ≠ 0) (h0 : size ≠ 0) :
    s.freePages ptr size = { s with
      vm := { s.vm with
        alloc := s.vm.alloc.freePagesAt ptr
          (sub64 (add64 size PAGE_SIZE_4K) 1 / PAGE_SIZE_4K % 2 ^ 32) } } :=
  if_neg (not_or.mpr ⟨hp, h0⟩)

theorem MemInv.adjustBrk {requested : Nat} (h : MemInv before foreign s T) (room : Bool)
    (hbefore : ∀ page, USER_HEAP_BASE / PAGE_SIZE_4K ≤ page → page < USER_MMAP_BASE / PAGE_SIZE_4K →
      before page = none)
    (hsuffice : s.brkMappedEnd < alignUp requested PAGE_SIZE_4K → requested < USER_MMAP_BASE →
      PagesSuffice ⟨s.vm, s.as⟩ s.brkMappedEnd
        (alignUp requested PAGE_SIZE_4K - s.brkMappedEnd)) :
    ∃ T', MemInv before foreign (s.adjustBrk room requested).2 T' := by
  unfold UserMemory.adjustBrk
  split
  · exact ⟨T, h⟩
  split
  · exact ⟨T, h⟩
  rename_i hrange
  rw [not_or, Nat.not_lt, Nat.not_le, h.base] at hrange
  obtain ⟨hrlo, hrhi⟩ := hrange
  have hroom : requested + 2 ^ 12 ≤ U64 := by
    rw [U64_eq]
    unfold USER_MMAP_BASE at hrhi
    omega
  have hdvd : PAGE_SIZE_4K ∣ alignUp requested PAGE_SIZE_4K :=
    alignUp_dvd (k := 12) (by decide) hroom
  have hle : requested ≤ alignUp requested PAGE_SIZE_4K := le_alignUp (k := 12) (by decide) hroom
  have hmax : alignUp requested PAGE_SIZE_4K ≤ USER_MMAP_BASE :=
    alignUp_le_of_dvd (k := 12) (by decide) hroom (Nat.le_of_lt hrhi) (by decide)
  have hheap := h.heap
  dsimp only
  split
  · rename_i hgrow
    have hsuffice := hsuffice hgrow hrhi
    generalize alignUp requested PAGE_SIZE_4K = desired at *
    -- The new block goes from the old end of the heap to the new one.
    obtain ⟨g, hg⟩ : PAGE_SIZE_4K ∣ desired - s.brkMappedEnd := Nat.dvd_sub hdvd hheap.dvd
    have hcount : pageCount (desired - s.brkMappedEnd) = g := by
      rw [hg, Nat.mul_comm, pageCount_mul]
    have hends : s.brkMappedEnd + pageCount (desired - s.brkMappedEnd) * PAGE_SIZE_4K ≤
        USER_MAP_LIMIT := by
      rw [hcount]
      unfold PAGE_SIZE_4K USER_MMAP_BASE USER_MAP_LIMIT at *
      omega
    have hlo := hheap.lo
    have h0 : desired - s.brkMappedEnd ≠ 0 := by omega
    have hstart : s.brkMappedEnd ≠ 0 := by
      unfold USER_HEAP_BASE at hlo
      omega
    have hsize : desired - s.brkMappedEnd < U64 := by
      rw [U64_eq]
      unfold USER_MMAP_BASE at hmax
      omega
    rcases allocateUserPages_spec (MAP_USER ||| MAP_WRITABLE) h.vm h.bound hheap.dvd
        (Nat.le_trans (by decide) hlo) hends hsize h0 hsuffice with
      hcall | ⟨phys, vm', T', hcall, hadd⟩
    · rw [hcall]
      simp only [if_true]
      exact ⟨T, h⟩
    · rw [hcall]
      simp only [if_neg hadd.ne_zero]
      have hraised : MemInv before foreign { s with brkMappedEnd := desired } T :=
        h.setEnd ⟨hdvd, by omega, hmax⟩ fun r hr => (h.placed r hr).mono (Nat.le_of_lt hgrow)
      have hnew : ∀ requestedSize, MemInv before foreign
          { s with
            vm := vm'
            allocations := ⟨s.brkMappedEnd, phys, requestedSize, desired - s.brkMappedEnd, true⟩ ::
              s.allocations
            brkMappedEnd := desired } T' := by
        intro requestedSize
        refine hraised.addBlock
          (r := ⟨s.brkMappedEnd, phys, requestedSize, desired - s.brkMappedEnd,
            true⟩) hadd hheap.dvd
          h0 hends rfl (.inr ⟨hlo, ?_, ⟨g, hg⟩⟩) (fun r hr => ?_) fun page hp hp' => ?_
        · dsimp only
          omega
        · obtain ⟨u, hu⟩ := (h.blocks r hr).dvd
          obtain ⟨e, he⟩ := hheap.dvd
          unfold firstPage endPage
          dsimp only
          rw [hcount]
          rcases h.placed r hr with hmmap | ⟨hlo', hhi', a, ha⟩
          · left
            unfold PAGE_SIZE_4K USER_MMAP_BASE at *
            omega
          · right
            rw [ha] at hhi' ⊢
            unfold pageCount
            unfold PAGE_SIZE_4K at *
            omega
        · refine hbefore page ?_ ?_
          · unfold firstPage at hp
            dsimp only at hp
            unfold PAGE_SIZE_4K USER_HEAP_BASE at *
            omega
          · unfold endPage at hp'
            dsimp only at hp'
            rw [hcount] at hp'
            unfold PAGE_SIZE_4K USER_MMAP_BASE at *
            omega
      rcases track_cases { s with vm := vm' } room (desired - s.brkMappedEnd) hstart hadd.ne_zero h0
        with htrack | htrack
      · rw [htrack]
        refine ⟨T', ?_⟩
        have hback := (hnew 0).giveBack (s := { s with vm := vm', brkMappedEnd := desired })
        dsimp only
        rw [freePages_eq _ hadd.ne_zero h0] at hback ⊢
        exact hback.setEnd hheap h.placed
      · rw [htrack]
        exact ⟨T', (hnew _).setCurrent requested⟩
  · have hshrunk := h.shrink (n := s.allocations.length) (Nat.le_trans hrlo hle) hdvd
    generalize s.shrink (alignUp requested PAGE_SIZE_4K) s.allocations.length = out at hshrunk ⊢
    obtain ⟨ok, s'⟩ := out
    cases ok with
    | false => exact ⟨T, hshrunk⟩
    | true => exact ⟨T, hshrunk.setCurrent requested⟩

/-! ### The end of the process -/

/-- What a block gives back does not depend on the list. -/
theorem release_allocations (s : UserMemory) (l : List ProcessAllocation) (r : ProcessAllocation) :
    { s.release r with allocations := l } =
    ({ s with allocations := l } : UserMemory).release r := by
  unfold UserMemory.release UserMemory.freePages UserMemory.unmap
  split_ifs <;> rfl

theorem MemInv.cleanup {l : List ProcessAllocation}
    (h : MemInv before foreign { s with allocations := l } T) :
    MemInv before foreign { l.foldl UserMemory.release s with allocations := [] } T := by
  induction l generalizing s with
  | nil => exact h
  | cons r l ih =>
    refine ih ?_
    have hr : r ∈ ({ s with allocations := r :: l } : UserMemory).allocations := List.mem_cons_self
    rw [release_allocations, UserMemory.release,
      if_pos ((h.blocks r hr).raw_ne_user (h.placed r hr))]
    exact h.unlink (show _ = [] ++ _ :: _ from rfl)

end Calls

/-! ### Runs -/

/-- A process after `load_process_context`: an address space with an image and perhaps a window in
it, nothing where the heap is going to be, and no records. -/
structure Loaded (s : UserMemory) : Prop where
  space : vmSystem.Reachable ⟨s.vm, s.as⟩
  bound : AllocBound s.vm.alloc
  clear : ∀ v, USER_HEAP_BASE ≤ v → v < USER_MMAP_BASE → debugResolve s.vm.mem s.as v = none
  allocations : s.allocations = []
  base : s.brkBase = USER_HEAP_BASE
  mappedEnd : s.brkMappedEnd = USER_HEAP_BASE
  next : s.as.mapNext = USER_MMAP_BASE

/-- `mprotect` is called on user addresses. The rest of the kernel leaves alone what the process
holds: its regions, and the words of its tables. -/
def Enabled (s : UserMemory) : MemoryCall → Prop
  | .mprotect addr length _ => USER_IMAGE_BASE ≤ addr ∧ addr + length ≤ USER_MAP_LIMIT
  | .others alloc mem =>
    AllocOk alloc ∧ AllocBound alloc ∧ (∀ p ∈ s.vm.tables, UsedAt alloc p) ∧
      (∀ r ∈ s.vm.alloc.freeList, r.used = true → holds s r.start = true → r ∈ alloc.freeList) ∧
      ∀ p ∈ s.vm.tables, ∀ i < 512, mem (slot p i) = s.vm.mem (slot p i)
  | _ => True

/-- The runs of a process from the state in which it was loaded. -/
def memorySystem (s₀ : UserMemory) : TransitionSystem MemoryState MemoryCall where
  init s := s = ⟨s₀, foreignOf s₀⟩
  step s call t := Enabled s.own call ∧ t = s.next call

/-- When a call asks for a block and gets one, there are pages for the tables as well. Without
them `allocate_user_pages` leaves a part of the range mapped. -/
def TablesSuffice (s : MemoryState) : MemoryCall → Prop
  | .malloc size _ _ =>
    ∀ base, s.own.mappingBase (alignUp size 16) USER_MMAP_BASE = some base →
      PagesSuffice ⟨s.own.vm, s.own.as⟩ base (alignUp (alignUp size 16) PAGE_SIZE_4K)
  | .mmap length _ _ _ _ =>
    ∀ base, s.own.mappingBase (alignUp length PAGE_SIZE_4K) USER_MMAP_BASE = some base →
      PagesSuffice ⟨s.own.vm, s.own.as⟩ base
        (alignUp (alignUp length PAGE_SIZE_4K) PAGE_SIZE_4K)
  | .brk requested _ =>
    s.own.brkMappedEnd < alignUp requested PAGE_SIZE_4K → requested < USER_MMAP_BASE →
      PagesSuffice ⟨s.own.vm, s.own.as⟩ s.own.brkMappedEnd
        (alignUp requested PAGE_SIZE_4K - s.own.brkMappedEnd)
  | _ => True

section Runs

variable {before : Nat → Option Nat} {s t : MemoryState} {T : Tables}

/-- Each call keeps the invariant. -/
theorem MemInv.step {call : MemoryCall} (h : MemInv before s.foreign s.own T)
    (hbefore : ∀ page, USER_HEAP_BASE / PAGE_SIZE_4K ≤ page → page < USER_MMAP_BASE / PAGE_SIZE_4K →
      before page = none)
    (hen : Enabled s.own call) (hsuffice : TablesSuffice s call) :
    ∃ T', MemInv before (s.next call).foreign (s.next call).own T' := by
  cases call with
  | malloc size executable room => exact h.malloc room executable hsuffice
  | free ptr => exact ⟨T, h.free ptr⟩
  | mmap length prot flags fd room => exact h.mmap room prot flags fd hsuffice
  | munmap addr length => exact ⟨T, h.munmap addr length⟩
  | mprotect addr length prot => exact h.mprotect prot hen.1 hen.2
  | brk requested room => exact h.adjustBrk room hbefore hsuffice
  | cleanup => exact ⟨T, h.cleanup⟩
  | others alloc mem =>
    obtain ⟨hok, hbound, hused, hkept, hmem⟩ := hen
    exact ⟨T, h.otherChange hok hbound hused hkept hmem⟩

/-- A process that was just loaded. -/
theorem Loaded.memInv {s₀ : UserMemory} (h : Loaded s₀) : ∃ T, VmInv s₀.vm s₀.as T ∧
    (∀ page, USER_HEAP_BASE / PAGE_SIZE_4K ≤ page → page < USER_MMAP_BASE / PAGE_SIZE_4K →
      frame s₀.vm.mem T page = none) ∧
    MemInv (frame s₀.vm.mem T) (foreignOf s₀) s₀ T := by
  obtain ⟨A, ⟨T, hinv, -⟩, -⟩ := refines_of_reachable h.space
  refine ⟨T, hinv, fun page hlo hhi => ?_, ⟨hinv, h.bound, fun page _ => ?_, ?_, ?_, ?_, ?_, ?_,
    h.base, ?_, ?_, fun q hq => ?_, fun q hq hu => ?_⟩⟩
  · have hnone := h.clear (page * PAGE_SIZE_4K)
      (by unfold PAGE_SIZE_4K USER_HEAP_BASE at *; omega)
      (by unfold PAGE_SIZE_4K USER_MMAP_BASE at *; omega)
    have hpage : page * PAGE_SIZE_4K / PAGE_SIZE_4K = page := Nat.mul_div_cancel _ (by decide)
    have huser : UserKey 0 page := by
      rw [userKey_zero]
      unfold PAGE_SIZE_4K USER_IMAGE_BASE USER_HEAP_BASE USER_MMAP_BASE USER_MAP_LIMIT at *
      omega
    have hlook : debugResolve s₀.vm.mem s₀.as (page * PAGE_SIZE_4K) = _ :=
      debugResolve_eq hinv.tree (by rwa [hpage])
    rw [hpage] at hlook
    rw [show debugResolve s₀.vm.mem s₀.as (page * PAGE_SIZE_4K) = none from hnone] at hlook
    rw [frame, Option.map_eq_none_iff.mp hlook.symm]
    rfl
  · rw [h.allocations]
    rfl
  · rw [h.allocations]
    exact fun r hr => absurd hr List.not_mem_nil
  · rw [h.allocations]
    exact fun r hr => absurd hr List.not_mem_nil
  · rw [h.allocations]
    exact List.Pairwise.nil
  · rw [h.allocations]
    exact List.Pairwise.nil
  · rw [h.allocations]
    exact fun r hr => absurd hr List.not_mem_nil
  · rw [h.mappedEnd]
    exact ⟨by decide, Nat.le_refl _, by decide⟩
  · rw [h.next]
    decide
  · obtain ⟨hmem, hmine⟩ := List.mem_filter.mp hq
    rw [Bool.and_eq_true] at hmine
    refine ⟨hmem, hmine.1, fun r hr => ?_⟩
    rw [h.allocations] at hr
    exact absurd hr List.not_mem_nil
  · cases hholds : holds s₀ q.start with
    | true => exact .inl rfl
    | false =>
      refine .inr (List.mem_filter.mpr ⟨hq, ?_⟩)
      rw [hholds, hu]
      rfl

/-- The end of the last page of a block. -/
def blockEnd (r : ProcessAllocation) : Nat :=
  r.userPtr + pageCount r.allocatedSize * PAGE_SIZE_4K

/-- The physical address that the records put behind a user address, or else the one that was there
when the program was loaded. -/
def backedBy (s₀ s : UserMemory) (v : Nat) : Option Nat :=
  (holder ProcessAllocation.userPtr blockEnd s.allocations v).elim
    ((debugResolve s₀.vm.mem s₀.as v).map Prod.fst) fun r => some (r.rawPtr + (v - r.userPtr))

/-- What the records are worth. -/
structure UserMemorySafe (s₀ : UserMemory) (s : MemoryState) : Prop where
  /-- A user address resolves to what the records say. -/
  resolves : ∀ v, USER_IMAGE_BASE ≤ v → v < USER_MAP_LIMIT →
    (debugResolve s.own.vm.mem s.own.as v).map Prod.fst = backedBy s₀ s.own v
  /-- Two blocks share no address. -/
  apart : Spaced ProcessAllocation.userPtr blockEnd s.own.allocations
  /-- Two blocks share no physical page. -/
  rawApart : Spaced ProcessAllocation.rawPtr
    (fun r => r.rawPtr + pageCount r.allocatedSize * PAGE_SIZE_4K) s.own.allocations
  /-- A block is in use in the allocator. -/
  inUse : ∀ r ∈ s.own.allocations, ∃ q ∈ s.own.vm.alloc.freeList, q.used = true ∧
    q.start = r.rawPtr ∧ pageCount r.allocatedSize * PAGE_SIZE_4K ≤ q.size
  /-- What is in use belongs to a table, to a record or to somebody else. -/
  noLeak : ∀ q ∈ s.own.vm.alloc.freeList, q.used = true →
    holds s.own q.start = true ∨ q ∈ s.foreign
  /-- What belongs to somebody else stays in use. -/
  untouched : ∀ q ∈ s.foreign, q ∈ s.own.vm.alloc.freeList ∧ q.used = true

/-- On addresses the blocks are held as on pages. -/
theorem holder_page {l : List ProcessAllocation} (hl : ∀ r ∈ l, PAGE_SIZE_4K ∣ r.userPtr)
    (v : Nat) :
    holder ProcessAllocation.userPtr blockEnd l v =
      holder firstPage endPage l (v / PAGE_SIZE_4K) := by
  induction l with
  | nil => rfl
  | cons r l ih =>
    obtain ⟨u, hu⟩ := hl r List.mem_cons_self
    have hiff : (r.userPtr ≤ v ∧ v < blockEnd r) ↔
        (firstPage r ≤ v / PAGE_SIZE_4K ∧ v / PAGE_SIZE_4K < endPage r) := by
      unfold blockEnd firstPage endPage
      rw [hu]
      unfold PAGE_SIZE_4K
      omega
    rw [holder_cons, holder_cons, if_congr hiff rfl rfl,
      ih fun r' hr' => hl r' (List.mem_cons_of_mem _ hr')]

/-- The invariant gives what the records are worth. -/
theorem MemInv.safe {s₀ : UserMemory} {T₀ : Tables}
    (h : MemInv (frame s₀.vm.mem T₀) s.foreign s.own T)
    (h₀ : VmInv s₀.vm s₀.as T₀) : UserMemorySafe s₀ s where
  resolves v hlo hhi := by
    have huser := userKey_of_user hlo hhi
    have hlook : ∀ {vm : Vm} {as : AddressSpace} {T : Tables}, VmInv vm as T →
        (debugResolve vm.mem as v).map Prod.fst =
          (frame vm.mem T (v / PAGE_SIZE_4K)).map (· + v % PAGE_SIZE_4K) := by
      intro vm as T hinv
      rw [debugResolve_eq hinv.tree huser, frame, Option.map_map, Option.map_map]
      rfl
    rw [hlook h.vm, h.pages _ huser, backing, backedBy, hlook h₀,
      holder_page fun r hr => (h.blocks r hr).dvd]
    cases hholder : holder firstPage endPage s.own.allocations (v / PAGE_SIZE_4K) with
    | none => rfl
    | some r =>
      obtain ⟨hr, hfirst, -⟩ := holder_mem hholder
      obtain ⟨u, hu⟩ := (h.blocks r hr).dvd
      have hsum : r.rawPtr + (v / PAGE_SIZE_4K - firstPage r) * PAGE_SIZE_4K + v % PAGE_SIZE_4K =
          r.rawPtr + (v - r.userPtr) := by
        unfold firstPage at hfirst ⊢
        rw [hu] at hfirst ⊢
        unfold PAGE_SIZE_4K at *
        omega
      exact congrArg some hsum
  apart := by
    refine h.apart.imp_of_mem fun {r r'} hr hr' hside => ?_
    obtain ⟨u, hu⟩ := (h.blocks r hr).dvd
    obtain ⟨u', hu'⟩ := (h.blocks r' hr').dvd
    unfold blockEnd
    unfold firstPage endPage at hside
    rw [hu, hu'] at hside ⊢
    unfold PAGE_SIZE_4K at *
    omega
  rawApart := by
    refine h.raws.imp_of_mem fun {r r'} hr hr' hne => ?_
    obtain ⟨q, hq, -, hstart, hle, -⟩ := (h.blocks r hr).region
    obtain ⟨q', hq', -, hstart', hle', -⟩ := (h.blocks r' hr').region
    have hpos := (h.vm.alloc.ok q hq).pos
    have hpos' := (h.vm.alloc.ok q' hq').pos
    have hqq : q ≠ q' := fun heq => hne (by rw [← hstart, ← hstart', heq])
    have hstop : q.stop = q.start + q.size := rfl
    have hstop' : q'.stop = q'.start + q'.size := rfl
    have hside := h.vm.alloc.asc.disjoint hq hq' hqq (by omega) (by omega)
    dsimp only
    omega
  inUse r hr := by
    obtain ⟨q, hq, hu, hstart, hle, -⟩ := (h.blocks r hr).region
    exact ⟨q, hq, hu, hstart, hle⟩
  noLeak := h.accounted
  untouched q hq := ⟨(h.others q hq).1, (h.others q hq).2.1⟩

/-- In every run of memory calls, whatever their arguments, in which the pages for the tables do not
run out, the records are the memory of the process. -/
theorem userMemory_safe (s₀ : UserMemory) (h₀ : Loaded s₀) (s : MemoryState)
    (hs : ((memorySystem s₀).restrict TablesSuffice).Reachable s) : UserMemorySafe s₀ s := by
  obtain ⟨T₀, hvm, hclear, hinit⟩ := h₀.memInv
  have hinv : ∃ T, MemInv (frame s₀.vm.mem T₀) s.foreign s.own T := by
    refine hs.invariant (P := fun s => ∃ T, MemInv (frame s₀.vm.mem T₀) s.foreign s.own T)
      (fun s hs => ⟨T₀, ?_⟩) fun s call t _ h hstep => ?_
    · rw [show s = ⟨s₀, foreignOf s₀⟩ from hs]
      exact hinit
    · obtain ⟨T, hT⟩ := h
      obtain ⟨hsuffice, hen, rfl⟩ := hstep
      exact hT.step hclear hen hsuffice
  obtain ⟨T, hT⟩ := hinv
  exact hT.safe hvm

/-- Memory with 16 free pages, and a process in it that has nothing mapped. -/
def emptyProcess : UserMemory :=
  let vm : Vm := ⟨⟨[⟨0x100000, 0x10000, false⟩], 16, 0, 16⟩, fun _ => 0, []⟩
  let (as, vm) := (vm.createAddressSpace 0x1000 1).getD (⟨0, 0, 0⟩, vm)
  ⟨vm, as, [], USER_HEAP_BASE, USER_HEAP_BASE, USER_HEAP_BASE⟩

theorem emptyProcess_loaded : Loaded emptyProcess := by
  have hinit : vmSystem.init ⟨emptyProcess.vm, emptyProcess.as⟩ := by
    refine ⟨⟨⟨[⟨0x100000, 0x10000, false⟩], 16, 0, 16⟩, fun _ => 0, []⟩, 0x1000, 1, ?_, rfl, ?_⟩
    · exact allocOk_singleton rfl ⟨by decide, by decide, by rw [U64_eq]; decide⟩ ⟨0x100, by decide⟩
        ⟨16, by decide⟩
    · have hsome : (Vm.createAddressSpace
        ⟨⟨[⟨0x100000, 0x10000, false⟩], 16, 0, 16⟩, fun _ => 0, []⟩
          0x1000 1).isSome = true := by with_unfolding_all decide
      obtain ⟨out, hout⟩ := Option.isSome_iff_exists.mp hsome
      rw [emptyProcess, hout]
      rfl
  refine ⟨.init hinit, by unfold AllocBound; with_unfolding_all decide, fun v hlo hhi => ?_, rfl,
    rfl, rfl,
    by with_unfolding_all decide⟩
  -- A new address space maps nothing.
  obtain ⟨⟨T, hinv, hA⟩, -⟩ := refines_init hinit
  have huser : UserKey 0 (v / PAGE_SIZE_4K) :=
    userKey_of_user (Nat.le_trans (by decide) hlo) (Nat.lt_of_lt_of_le hhi (by decide))
  rw [debugResolve_eq hinv.tree huser, ← hA _ huser]
  rfl

/-- A `malloc` of 20 bytes. -/
theorem userMemory_safe_malloc :
    ∃ s, ((memorySystem emptyProcess).restrict TablesSuffice).Reachable s ∧
    s.own.allocations = [⟨USER_MMAP_BASE, 0x101000, 20, 32, true⟩] ∧
      UserMemorySafe emptyProcess s := by
  have hbase : emptyProcess.mappingBase (alignUp 20 16) USER_MMAP_BASE = some USER_MMAP_BASE := by
    with_unfolding_all decide
  have hsuffice : TablesSuffice ⟨emptyProcess, foreignOf emptyProcess⟩ (.malloc 20 false true) := by
    intro base hfound
    obtain rfl := Option.some.inj (hbase.symm.trans hfound)
    refine ⟨by with_unfolding_all decide, fun _ => ?_⟩
    unfold TablesFor
    with_unfolding_all decide
  have hs : ((memorySystem emptyProcess).restrict TablesSuffice).Reachable _ :=
    .step (.init rfl) (l := .malloc 20 false true) ⟨hsuffice, trivial, rfl⟩
  exact ⟨_, hs, by with_unfolding_all decide, userMemory_safe emptyProcess emptyProcess_loaded _ hs⟩

end Runs

end VKernel.Proofs.Process

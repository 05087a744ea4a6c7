import VKernel.Process.UserMemory
import VKernel.Proofs.Memory.UserBlocks

/-!
# `VKernel.Proofs.Process.MemoryRecords`: the invariant of the memory of a process

`MemInv` ties the records of a process to its page tables and to the allocator: a user page is
backed by what the records say, and where there is no record, by what was there when the program was
loaded.

There are three things that happen to a block, and one lemma for each of them. `MemInv.addBlock` is
for a new block, `MemInv.unlink` for one that goes, and `MemInv.cutBlock` for a `brk` that ends
inside of a block. A call that has to give its new block back, because there is no room for the
record, is the second one behind the first.
-/

set_option autoImplicit false
set_option maxRecDepth 20000

namespace VKernel.Proofs.Process

open VKernel VKernel.Memory VKernel.Lib VKernel.Process VKernel.Process.UserMemory
open VKernel.Process.MemoryState
open VKernel.Proofs.Memory

/-! ### The invariant -/

/-- The first page of a block. -/
def firstPage (r : ProcessAllocation) : Nat := r.userPtr / PAGE_SIZE_4K

/-- The page behind a block. -/
def endPage (r : ProcessAllocation) : Nat :=
  r.userPtr / PAGE_SIZE_4K + pageCount r.allocatedSize

/-- The physical page that the records put behind a page, or else what was there before. -/
def backing (before : Nat → Option Nat) (l : List ProcessAllocation) (page : Nat) : Option Nat :=
  (holder firstPage endPage l page).elim (before page) fun r =>
    some (r.rawPtr + (page - firstPage r) * PAGE_SIZE_4K)

/-- A block of whole pages in the user range, with a region of the allocator that no table lies
in. -/
structure BlockOk (s : Vm) (r : ProcessAllocation) : Prop where
  dvd : PAGE_SIZE_4K ∣ r.userPtr
  ne_zero : r.allocatedSize ≠ 0
  ends : r.userPtr + pageCount r.allocatedSize * PAGE_SIZE_4K ≤ USER_MAP_LIMIT
  fromPhys : r.fromPhys = true
  raw_ne_zero : r.rawPtr ≠ 0
  below : r.rawPtr + pageCount r.allocatedSize * PAGE_SIZE_4K ≤ IDENTITY_BRIDGE_ALLOC_MAX
  region : ∃ q ∈ s.alloc.freeList, q.used = true ∧ q.start = r.rawPtr ∧
    pageCount r.allocatedSize * PAGE_SIZE_4K ≤ q.size ∧ ∀ p ∈ s.tables, ¬ (q.start ≤ p ∧ p < q.stop)

/-- A block is one of `mmap` or `malloc`, or it lies below the end of the heap. -/
def Placed (mappedEnd : Nat) (r : ProcessAllocation) : Prop :=
  USER_MMAP_BASE ≤ r.userPtr ∨
    USER_HEAP_BASE ≤ r.userPtr ∧ r.userPtr + r.allocatedSize ≤ mappedEnd ∧
      PAGE_SIZE_4K ∣ r.allocatedSize

/-- The end of the heap. -/
structure HeapEnd (mappedEnd : Nat) : Prop where
  dvd : PAGE_SIZE_4K ∣ mappedEnd
  lo : USER_HEAP_BASE ≤ mappedEnd
  hi : mappedEnd ≤ USER_MMAP_BASE

/-- The invariant. `before` is what the pages were mapped to when the program was loaded. -/
structure MemInv (before : Nat → Option Nat) (foreign : List MemoryRegion) (s : UserMemory)
    (T : Tables) : Prop where
  vm : VmInv s.vm s.as T
  bound : AllocBound s.vm.alloc
  pages : ∀ page, UserKey 0 page → frame s.vm.mem T page = backing before s.allocations page
  blocks : ∀ r ∈ s.allocations, BlockOk s.vm r
  fresh : ∀ r ∈ s.allocations, ∀ page, firstPage r ≤ page → page < endPage r → before page = none
  apart : Spaced firstPage endPage s.allocations
  raws : s.allocations.Pairwise fun r r' => r.rawPtr ≠ r'.rawPtr
  placed : ∀ r ∈ s.allocations, Placed s.brkMappedEnd r
  base : s.brkBase = USER_HEAP_BASE
  heap : HeapEnd s.brkMappedEnd
  next : s.as.mapNext ≤ USER_MAP_LIMIT
  others : ∀ q ∈ foreign, q ∈ s.vm.alloc.freeList ∧ q.used = true ∧
    ∀ r ∈ s.allocations, r.rawPtr ≠ q.start
  accounted : ∀ q ∈ s.vm.alloc.freeList, q.used = true → holds s q.start = true ∨ q ∈ foreign

theorem holds_iff {s : UserMemory} {start : Nat} :
    holds s start = true ↔ start ∈ s.vm.tables ∨ ∃ r ∈ s.allocations, r.rawPtr = start := by
  simp [holds]

section Blocks

variable {before : Nat → Option Nat} {foreign : List MemoryRegion} {s : UserMemory} {T : Tables}
variable {r : ProcessAllocation} {l₁ l₂ : List ProcessAllocation}

theorem pageCount_pos {size : Nat} (h : size ≠ 0) : 0 < pageCount size := by
  unfold pageCount PAGE_SIZE_4K
  omega

theorem le_pageCount (size : Nat) : size ≤ pageCount size * PAGE_SIZE_4K := by
  unfold pageCount PAGE_SIZE_4K
  omega

/-- Whole pages. -/
theorem pageCount_mul (n : Nat) : pageCount (n * PAGE_SIZE_4K) = n := by
  unfold pageCount PAGE_SIZE_4K
  omega

/-- A block lies behind the image. -/
theorem Placed.lo {e : Nat} (h : Placed e r) : USER_HEAP_BASE ≤ r.userPtr := by
  rcases h with h | ⟨h, -⟩
  · exact Nat.le_trans (by decide) h
  · exact h

/-- The pages of a block are user pages. -/
theorem BlockOk.user {vm : Vm} {e page : Nat} (h : BlockOk vm r) (hp : Placed e r)
    (hlo : firstPage r ≤ page) (hhi : page < endPage r) : UserKey 0 page := by
  have hends := h.ends
  have hstart := hp.lo
  rw [userKey_zero]
  unfold firstPage at hlo
  unfold endPage at hhi
  unfold PAGE_SIZE_4K USER_IMAGE_BASE USER_HEAP_BASE USER_MAP_LIMIT at *
  omega

/-- A block's physical address is not its user address. -/
theorem BlockOk.raw_ne_user {vm : Vm} {e : Nat} (h : BlockOk vm r) (hp : Placed e r) :
    r.rawPtr ≠ r.userPtr := by
  have hbelow := h.below
  have hstart := hp.lo
  unfold IDENTITY_BRIDGE_ALLOC_MAX USER_HEAP_BASE at *
  omega

/-- A block is not larger than the memory that can be mapped. -/
theorem BlockOk.size_lt {vm : Vm} (h : BlockOk vm r) : r.allocatedSize < 2 ^ 32 := by
  have hbelow := h.below
  have hle := le_pageCount r.allocatedSize
  unfold IDENTITY_BRIDGE_ALLOC_MAX at hbelow
  omega

/-- The region of a block, as what `unmapRange_release` asks for. -/
theorem BlockOk.owns {vm : Vm} (h : BlockOk vm r) : ∃ q ∈ vm.alloc.freeList, q.used = true ∧
    q.start = r.rawPtr ∧ ∀ p ∈ vm.tables, ¬ (q.start ≤ p ∧ p < q.stop) := by
  obtain ⟨q, hq, hu, hstart, -, hclear⟩ := h.region
  exact ⟨q, hq, hu, hstart, hclear⟩

/-- A block depends on the allocator and on the list of tables only. -/
theorem BlockOk.congr {vm vm' : Vm} (h : BlockOk vm r) (halloc : vm'.alloc = vm.alloc)
    (htables : vm'.tables = vm.tables) : BlockOk vm' r where
  dvd := h.dvd
  ne_zero := h.ne_zero
  ends := h.ends
  fromPhys := h.fromPhys
  raw_ne_zero := h.raw_ne_zero
  below := h.below
  region := by
    rw [halloc, htables]
    exact h.region

/-- Where a record holds the page. -/
theorem backing_of_mem {l : List ProcessAllocation} {page : Nat} (h : Spaced firstPage endPage l)
    (hr : r ∈ l) (hlo : firstPage r ≤ page) (hhi : page < endPage r) :
    backing before l page = some (r.rawPtr + (page - firstPage r) * PAGE_SIZE_4K) := by
  rw [backing, h.holder_eq hr ⟨hlo, hhi⟩]
  rfl

/-- The page count that goes to `free_pages`. -/
theorem freeCount_eq {size : Nat} (h0 : size ≠ 0) (hsize : size < 2 ^ 32) :
    sub64 (add64 size PAGE_SIZE_4K) 1 / PAGE_SIZE_4K % 2 ^ 32 ≠ 0 := by
  have hsum : add64 size PAGE_SIZE_4K = size + PAGE_SIZE_4K := by
    refine add64_eq ?_
    rw [U64_eq]
    unfold PAGE_SIZE_4K
    omega
  rw [hsum, sub64_eq (by unfold PAGE_SIZE_4K; omega)]
  unfold PAGE_SIZE_4K
  omega

/-! ### A block goes -/

/-- A record is unlinked, and its block is unmapped and given back. -/
theorem MemInv.unlink (h : MemInv before foreign s T) (hl : s.allocations = l₁ ++ r :: l₂) :
    MemInv before foreign
      ((({ s with allocations := l₁ ++ l₂ } : UserMemory).unmap r.userPtr r.allocatedSize).freePages
        r.rawPtr r.allocatedSize) T := by
  have hr : r ∈ s.allocations := by simp [hl]
  have hrest : ∀ r' ∈ l₁ ++ l₂, r' ∈ s.allocations := by
    intro r' hr'
    rw [hl]
    simp only [List.mem_append, List.mem_cons] at hr' ⊢
    exact hr'.imp_right Or.inr
  have hok := h.blocks r hr
  have hplaced := h.placed r hr
  have hsize := hok.size_lt
  have hgone := unmapRange_release h.vm h.bound hok.dvd
    (Nat.le_trans (by decide) hplaced.lo)
    (Nat.le_trans (Nat.add_le_add_left (le_pageCount _) _) hok.ends) hok.ne_zero hok.raw_ne_zero
    (freeCount_eq hok.ne_zero hsize) hok.owns
  have hstate : (({ s with allocations := l₁ ++ l₂ } : UserMemory).unmap r.userPtr
      r.allocatedSize).freePages r.rawPtr r.allocatedSize =
      { s with
        vm := { s.vm.unmapRange s.as r.userPtr r.allocatedSize with
          alloc := s.vm.alloc.freePagesAt r.rawPtr
            (sub64 (add64 r.allocatedSize PAGE_SIZE_4K) 1 / PAGE_SIZE_4K % 2 ^ 32) }
        allocations := l₁ ++ l₂ } := by
    obtain ⟨m, hm⟩ := unmapRange_eq s.vm s.as r.userPtr r.allocatedSize
    unfold UserMemory.freePages UserMemory.unmap
    rw [if_neg (not_or.mpr ⟨hok.raw_ne_zero, hok.ne_zero⟩)]
    simp only [hm]
  rw [hstate]
  -- No other record has the region.
  have hraws : ∀ r' ∈ l₁ ++ l₂, r'.rawPtr ≠ r.rawPtr := by
    have hpair := h.raws
    rw [hl] at hpair
    simp only [List.pairwise_append, List.pairwise_cons, List.mem_cons] at hpair
    obtain ⟨-, ⟨hbehind, -⟩, hfront⟩ := hpair
    intro r' hr'
    rcases List.mem_append.mp hr' with hr' | hr'
    · exact hfront r' hr' r (Or.inl rfl)
    · exact (hbehind r' hr').symm
  have hapart := h.apart
  rw [hl] at hapart
  generalize { s.vm.unmapRange s.as r.userPtr r.allocatedSize with
    alloc := s.vm.alloc.freePagesAt r.rawPtr
      (sub64 (add64 r.allocatedSize PAGE_SIZE_4K) 1 / PAGE_SIZE_4K % 2 ^ 32) } = vm' at hgone ⊢
  refine ⟨hgone.inv, hgone.bound, fun page hpage => ?_, fun r' hr' => ?_,
    fun r' hr' => h.fresh r' (hrest r' hr'), hapart.middle.1, ?_,
    fun r' hr' => h.placed r' (hrest r' hr'), h.base, h.heap, h.next, fun q hq => ?_,
    fun q hq hu => ?_⟩
  · show frame vm'.mem T page = backing before (l₁ ++ l₂) page
    have hold := h.pages page hpage
    have hpages : resolve vm'.mem T page =
        if firstPage r ≤ page ∧ page < endPage r then none else resolve s.vm.mem T page :=
      hgone.pages page
    rw [hl] at hold
    rw [frame, hpages, backing, holder_unlink hapart]
    by_cases hin : firstPage r ≤ page ∧ page < endPage r
    · have hbefore := h.fresh r hr page hin.1 hin.2
      rw [if_pos hin, if_pos hin]
      exact hbefore.symm
    · rw [if_neg hin, if_neg hin]
      exact hold
  · obtain ⟨hdvd, hne, hends, hphys, hraw, hbelow, q, hq, hu, hstart, hle, hclear⟩ :=
      h.blocks r' (hrest r' hr')
    refine ⟨hdvd, hne, hends, hphys, hraw, hbelow, q, (hgone.used q hu).mpr ⟨hq, ?_⟩, hu, hstart,
      hle, fun p hp => hclear p (hgone.tables ▸ hp)⟩
    rw [hstart]
    exact hraws r' hr'
  · have hsub : (l₁ ++ l₂).Sublist s.allocations := by
      rw [hl]
      exact List.Sublist.append_left (List.sublist_cons_self _ _) _
    exact h.raws.sublist hsub
  · obtain ⟨hmem, hu, hne⟩ := h.others q hq
    exact ⟨(hgone.used q hu).mpr ⟨hmem, (hne r hr).symm⟩, hu, fun r' hr' => hne r' (hrest r' hr')⟩
  · obtain ⟨hold, hne⟩ := (hgone.used q hu).mp hq
    rcases h.accounted q hold hu with hholds | hforeign
    · refine .inl (holds_iff.mpr ?_)
      rcases holds_iff.mp hholds with htable | ⟨r', hr', hraw⟩
      · exact .inl (hgone.tables.symm ▸ htable)
      · rw [hl] at hr'
        simp only [List.mem_append, List.mem_cons] at hr'
        rcases hr' with hr' | rfl | hr'
        · exact .inr ⟨r', List.mem_append_left _ hr', hraw⟩
        · exact absurd hraw.symm hne
        · exact .inr ⟨r', List.mem_append_right _ hr', hraw⟩
    · exact .inr hforeign

/-! ### A block comes -/

/-- A range is apart from all blocks when nothing is mapped in it. -/
theorem MemInv.apart_of_unmapped (h : MemInv before foreign s T) {first n : Nat} (hn : 0 < n)
    (hnone : ∀ page, first ≤ page → page < first + n → frame s.vm.mem T page = none)
    (hr : r ∈ s.allocations) : endPage r ≤ first ∨ first + n ≤ firstPage r := by
  have hok := h.blocks r hr
  have hpos : firstPage r < endPage r := Nat.lt_add_of_pos_right (pageCount_pos hok.ne_zero)
  by_contra hcon
  rw [not_or, Nat.not_le, Nat.not_le] at hcon
  -- A common page would be mapped.
  have hlo : firstPage r ≤ max first (firstPage r) := Nat.le_max_right _ _
  have hhi : max first (firstPage r) < endPage r := by omega
  have hmapped := h.pages _ (hok.user (h.placed r hr) hlo hhi)
  rw [backing_of_mem h.apart hr hlo hhi, hnone _ (Nat.le_max_left _ _) (by omega)] at hmapped
  cases hmapped

/-- A new block and its record. -/
theorem MemInv.addBlock {T' : Tables} {vm' : Vm} {flags : Nat} (h : MemInv before foreign s T)
    (hadd : BlockAdded s.vm s.as T r.userPtr r.rawPtr (pageCount r.allocatedSize) flags vm' T')
    (hdvd : PAGE_SIZE_4K ∣ r.userPtr) (h0 : r.allocatedSize ≠ 0)
    (hends : r.userPtr + pageCount r.allocatedSize * PAGE_SIZE_4K ≤ USER_MAP_LIMIT)
    (hphys : r.fromPhys = true) (hplaced : Placed s.brkMappedEnd r)
    (hapart : ∀ r' ∈ s.allocations, endPage r ≤ firstPage r' ∨ endPage r' ≤ firstPage r)
    (hfresh : ∀ page, firstPage r ≤ page → page < endPage r → before page = none) :
    MemInv before foreign { s with vm := vm', allocations := r :: s.allocations } T' := by
  obtain ⟨q, hq, hqu, hqstart, hqsize, hqclear⟩ := hadd.region
  -- A region that was in use does not start at the new block.
  have hnew : ∀ m ∈ s.vm.alloc.freeList, m.used = true → m.start ≠ r.rawPtr := by
    intro m hm hu heq
    have hpos := (h.vm.alloc.ok m hm).pos
    refine h.vm.alloc.not_used hadd.free ⟨m, hm, hu, Nat.le_of_eq heq, ?_⟩
    unfold MemoryRegion.stop
    omega
  have hraw : ∀ r' ∈ s.allocations, r.rawPtr ≠ r'.rawPtr := by
    intro r' hr' heq
    obtain ⟨m, hm, hu, hstart, -⟩ := (h.blocks r' hr').owns
    exact hnew m hm hu (hstart.trans heq.symm)
  refine ⟨hadd.inv, hadd.bound, fun page hpage => ?_, fun r' hr' => ?_, fun r' hr' => ?_,
    h.apart.cons hapart, h.raws.cons hraw, fun r' hr' => ?_, h.base, h.heap, h.next,
    fun m hm => ?_, fun m hm hu => ?_⟩
  · show frame vm'.mem T' page = backing before (r :: s.allocations) page
    have hpages : resolve vm'.mem T' page = if firstPage r ≤ page ∧ page < endPage r then
        some (r.rawPtr + (page - firstPage r) * PAGE_SIZE_4K, pageFlags flags)
        else resolve s.vm.mem T page := hadd.pages page
    rw [frame, hpages, backing, holder_cons]
    by_cases hin : firstPage r ≤ page ∧ page < endPage r
    · rw [if_pos hin, if_pos hin]
      rfl
    · rw [if_neg hin, if_neg hin]
      exact h.pages page hpage
  · rcases List.mem_cons.mp hr' with rfl | hr'
    · exact ⟨hdvd, h0, hends, hphys, hadd.ne_zero, hadd.below, q, hq, hqu, hqstart, hqsize, hqclear⟩
    · obtain ⟨hdvd', hne, hends', hphys', hraw', hbelow, m, hm, hu, hstart, hle, hclear⟩ :=
        h.blocks r' hr'
      refine ⟨hdvd', hne, hends', hphys', hraw', hbelow, m, hadd.kept m hm hu, hu, hstart, hle,
        fun p hp hin => ?_⟩
      rcases hadd.tables p hp with hold | hfree
      · exact hclear p hold hin
      · exact h.vm.alloc.not_used hfree ⟨m, hm, hu, hin⟩
  · rcases List.mem_cons.mp hr' with rfl | hr'
    · exact hfresh
    · exact h.fresh r' hr'
  · rcases List.mem_cons.mp hr' with rfl | hr'
    · exact hplaced
    · exact h.placed r' hr'
  · obtain ⟨hmem, hu, hne⟩ := h.others m hm
    refine ⟨hadd.kept m hmem hu, hu, fun r' hr' => ?_⟩
    rcases List.mem_cons.mp hr' with rfl | hr'
    · exact (hnew m hmem hu).symm
    · exact hne r' hr'
  · rcases hadd.new m hm hu with hold | hstart | htable
    · rcases h.accounted m hold hu with hholds | hforeign
      · refine .inl (holds_iff.mpr ?_)
        rcases holds_iff.mp hholds with htable | ⟨r', hr', hraw'⟩
        · exact .inl (hadd.subset _ htable)
        · exact .inr ⟨r', List.mem_cons_of_mem _ hr', hraw'⟩
      · exact .inr hforeign
    · exact .inl (holds_iff.mpr (.inr ⟨r, List.mem_cons_self, hstart.symm⟩))
    · exact .inl (holds_iff.mpr (.inl htable))

/-! ### A block gets smaller -/

/-- A block gives up its end. The allocator is asked to free pages in the middle of a region, and
does nothing. -/
theorem MemInv.cutBlock {keep : Nat} (h : MemInv before foreign s T)
    (hl : s.allocations = l₁ ++ r :: l₂) (hpos : keep ≠ 0) (hlt : keep < r.allocatedSize)
    (hdvd : PAGE_SIZE_4K ∣ keep) (hwhole : PAGE_SIZE_4K ∣ r.allocatedSize)
    (requested : Nat) (hplaced : Placed s.brkMappedEnd { r with
      allocatedSize := keep, requestedSize := requested }) :
    MemInv before foreign
      { (s.unmap (r.userPtr + keep) (r.allocatedSize - keep)).freePages (r.rawPtr + keep)
          (r.allocatedSize - keep) with
        allocations := l₁ ++ { r with allocatedSize := keep, requestedSize := requested } :: l₂ }
      T := by
  have hr : r ∈ s.allocations := by simp [hl]
  have hok := h.blocks r hr
  have hlo := (h.placed r hr).lo
  obtain ⟨c, rfl⟩ := hdvd
  obtain ⟨d, hd⟩ := hwhole
  have hcount : pageCount r.allocatedSize = d := by rw [hd, Nat.mul_comm, pageCount_mul]
  have hkeep : pageCount (PAGE_SIZE_4K * c) = c := by rw [Nat.mul_comm, pageCount_mul]
  have hcd : c < d := by
    rw [hd] at hlt
    exact Nat.lt_of_mul_lt_mul_left hlt
  have hends := hok.ends
  rw [hcount] at hends
  obtain ⟨q, hq, hqu, hqstart, hqsize, hqclear⟩ := hok.region
  rw [hcount] at hqsize
  have hnothing : ∀ n, s.vm.alloc.freePagesAt (r.rawPtr + PAGE_SIZE_4K * c) n = s.vm.alloc := by
    intro n
    refine h.vm.alloc.freePagesAt_inside hq (by omega) ?_ n
    unfold MemoryRegion.stop
    unfold PAGE_SIZE_4K at *
    omega
  obtain ⟨hinv, hres⟩ : VmInv (s.vm.unmapRange s.as (r.userPtr + PAGE_SIZE_4K * c)
      (r.allocatedSize - PAGE_SIZE_4K * c)) s.as T ∧ _ :=
    unmapRange_spec h.vm (Nat.le_trans (Nat.le_trans (by decide) hlo) (Nat.le_add_right _ _))
      (by unfold PAGE_SIZE_4K at *; omega)
  obtain ⟨m, hm⟩ := unmapRange_eq s.vm s.as (r.userPtr + PAGE_SIZE_4K * c)
    (r.allocatedSize - PAGE_SIZE_4K * c)
  have hstate : (s.unmap (r.userPtr + PAGE_SIZE_4K * c)
      (r.allocatedSize - PAGE_SIZE_4K * c)).freePages (r.rawPtr + PAGE_SIZE_4K * c)
      (r.allocatedSize - PAGE_SIZE_4K * c) = { s with vm := { s.vm with mem := m } } := by
    unfold UserMemory.freePages UserMemory.unmap
    rw [hm, if_neg (by omega)]
    simp only [hnothing]
  rw [hstate]
  rw [hm] at hinv hres
  generalize hr' : ({ r with
    allocatedSize := PAGE_SIZE_4K * c, requestedSize := requested } : ProcessAllocation) = r' at *
  have hfirst : firstPage r' = firstPage r := by rw [← hr']; rfl
  have hend : endPage r' = firstPage r + c := by rw [← hr']; exact congrArg _ hkeep
  have hend' : endPage r = firstPage r + d := congrArg _ hcount
  have hapart := h.apart
  rw [hl] at hapart
  have hmem : ∀ t ∈ l₁ ++ r' :: l₂, t ∈ s.allocations ∨ t = r' := by
    intro t ht
    rw [hl]
    simp only [List.mem_append, List.mem_cons] at ht ⊢
    tauto
  -- The records have the physical addresses that they had.
  have hraws : (l₁ ++ r' :: l₂).map ProcessAllocation.rawPtr =
      s.allocations.map ProcessAllocation.rawPtr := by
    rw [hl, ← hr', List.map_append, List.map_append]
    rfl
  have hraw : ∀ start, (∃ t ∈ l₁ ++ r' :: l₂, t.rawPtr = start) ↔
      ∃ t ∈ s.allocations, t.rawPtr = start := by
    intro start
    rw [← List.mem_map, hraws, List.mem_map]
  refine ⟨hinv, h.bound, fun page hpage => ?_, fun t ht => ?_, fun t ht page hlo' hhi' => ?_,
    (holder_shorten hapart hfirst (x := 0) (by omega)).1, ?_, fun t ht =>
      ?_, h.base, h.heap, h.next,
    fun q' hq' => ?_, fun q' hq' hu => ?_⟩
  · show frame m T page = backing before (l₁ ++ r' :: l₂) page
    have hold := h.pages page hpage
    rw [hl] at hold
    have hgone : (r.allocatedSize - PAGE_SIZE_4K * c ≠ 0 ∧
        (r.userPtr + PAGE_SIZE_4K * c) / PAGE_SIZE_4K ≤ page ∧ page * PAGE_SIZE_4K <
          r.userPtr + PAGE_SIZE_4K * c + (r.allocatedSize - PAGE_SIZE_4K * c)) ↔
        firstPage r + c ≤ page ∧ page < firstPage r + d := by
      obtain ⟨u, hu⟩ := hok.dvd
      unfold firstPage
      unfold PAGE_SIZE_4K at *
      omega
    rw [frame, hres, backing, (holder_shorten hapart hfirst (x := page) (by omega)).2, hend, hfirst,
      hend', if_congr hgone rfl rfl]
    by_cases hin : firstPage r ≤ page ∧ page < firstPage r + c
    · -- A page that stays.
      rw [if_pos hin, if_neg (by omega)]
      have hback : backing before (l₁ ++ r :: l₂) page = _ :=
        backing_of_mem hapart (by simp : r ∈ l₁ ++ r :: l₂) hin.1 (by omega)
      rw [hback] at hold
      rw [Option.elim_some, hfirst, ← hr']
      exact hold
    · by_cases hall : firstPage r ≤ page ∧ page < firstPage r + d
      · rw [if_neg hin, if_pos hall, if_pos (by omega), Option.map_none, Option.elim_none]
        exact (h.fresh r hr page hall.1 (by omega)).symm
      · rw [if_neg hin, if_neg hall, if_neg (by omega)]
        exact hold
  · rcases hmem t ht with ht | rfl
    · exact (h.blocks t ht).congr rfl rfl
    · subst hr'
      refine ⟨hok.dvd, hpos, ?_, hok.fromPhys, hok.raw_ne_zero, ?_, q, hq, hqu, hqstart, ?_,
        hqclear⟩
      · show r.userPtr + pageCount (PAGE_SIZE_4K * c) * PAGE_SIZE_4K ≤ USER_MAP_LIMIT
        rw [hkeep]
        unfold PAGE_SIZE_4K at *
        omega
      · show r.rawPtr + pageCount (PAGE_SIZE_4K * c) * PAGE_SIZE_4K ≤ IDENTITY_BRIDGE_ALLOC_MAX
        have hbelow := hok.below
        rw [hcount] at hbelow
        rw [hkeep]
        unfold PAGE_SIZE_4K at *
        omega
      · show pageCount (PAGE_SIZE_4K * c) * PAGE_SIZE_4K ≤ q.size
        rw [hkeep]
        unfold PAGE_SIZE_4K at *
        omega
  · rcases hmem t ht with ht | rfl
    · exact h.fresh t ht page hlo' hhi'
    · exact h.fresh r hr page (by omega) (by omega)
  · have hpair := h.raws
    rw [← List.pairwise_map (f := ProcessAllocation.rawPtr) (R := (· ≠ ·))] at hpair ⊢
    rw [hraws]
    exact hpair
  · rcases hmem t ht with ht | rfl
    · exact h.placed t ht
    · exact hplaced
  · obtain ⟨hq'mem, hu, hne⟩ := h.others q' hq'
    refine ⟨hq'mem, hu, fun t ht heq => ?_⟩
    obtain ⟨t', ht', heq'⟩ := (hraw q'.start).mp ⟨t, ht, heq⟩
    exact hne t' ht' heq'
  · rcases h.accounted q' hq' hu with hholds | hforeign
    · exact .inl (holds_iff.mpr ((holds_iff.mp hholds).imp_right (hraw q'.start).mpr))
    · exact .inr hforeign

/-! ### Other changes -/

/-- The tables change, and every page stays where it is. -/
theorem MemInv.grown {T' : Tables} {vm' : Vm} {e : Nat} (h : MemInv before foreign s T)
    (hinv : VmInv vm' s.as T') (hgrown : Grown s.vm vm' e)
    (hframes : ∀ page, frame vm'.mem T' page = frame s.vm.mem T page) :
    MemInv before foreign { s with vm := vm' } T' where
  vm := hinv
  bound := h.bound.takeTables h.vm.alloc hgrown.taken
  pages page hpage := (hframes page).trans (h.pages page hpage)
  blocks r hr := by
    obtain ⟨hdvd, hne, hends, hphys, hraw, hbelow, q, hq, hu, hstart, hle, hclear⟩ := h.blocks r hr
    refine ⟨hdvd, hne, hends, hphys, hraw, hbelow, q, hgrown.kept q hq hu, hu, hstart, hle,
      fun p hp hin => ?_⟩
    rcases hgrown.tables p hp with hold | hfree
    · exact hclear p hold hin
    · exact h.vm.alloc.not_used
        (hfree p (Nat.le_refl _) (Nat.lt_add_of_pos_right (by decide))) ⟨q, hq, hu, hin⟩
  fresh := h.fresh
  apart := h.apart
  raws := h.raws
  placed := h.placed
  base := h.base
  heap := h.heap
  next := h.next
  others q hq := by
    obtain ⟨hmem, hu, hne⟩ := h.others q hq
    exact ⟨hgrown.kept q hmem hu, hu, hne⟩
  accounted q hq hu := by
    rcases hgrown.new q hq hu with hold | ⟨htable, -⟩
    · rcases h.accounted q hold hu with hholds | hforeign
      · exact .inl (holds_iff.mpr ((holds_iff.mp hholds).imp_left (hgrown.subset _)))
      · exact .inr hforeign
    · exact .inl (holds_iff.mpr (.inl htable))

/-- The rest of the kernel and the programs change the allocator and memory, but not what the
process holds. -/
theorem MemInv.otherChange {alloc : PhysAllocator} {mem : Words} (h : MemInv before foreign s T)
    (hok : AllocOk alloc) (hbound : AllocBound alloc) (hused : ∀ p ∈ s.vm.tables, UsedAt alloc p)
    (hkept : ∀ r ∈ s.vm.alloc.freeList, r.used = true → holds s r.start = true → r ∈ alloc.freeList)
    (hmem : ∀ p ∈ s.vm.tables, ∀ i < 512, mem (slot p i) = s.vm.mem (slot p i)) :
    MemInv before (foreignOf { s with vm := { s.vm with alloc := alloc, mem := mem } })
      { s with vm := { s.vm with alloc := alloc, mem := mem } } T := by
  have hagree : ∀ p ∈ s.vm.tables, TableOk p → ∀ j < 512, mem (slot p j) = s.vm.mem (slot p j) :=
    fun p hp _ j hj => hmem p hp j hj
  obtain ⟨htree, hres⟩ := h.vm.tree.of_agree hagree
  refine ⟨⟨htree, hok, hused, h.vm.owned⟩, hbound, fun page hpage => ?_, fun r hr => ?_, h.fresh,
    h.apart, h.raws, h.placed, h.base, h.heap, h.next, fun q hq => ?_, fun q hq hu => ?_⟩
  · show frame mem T page = _
    rw [frame, hres]
    exact h.pages page hpage
  · obtain ⟨hdvd, hne, hends, hphys, hraw, hbelow, q, hq, hu, hstart, hle, hclear⟩ := h.blocks r hr
    exact ⟨hdvd, hne, hends, hphys, hraw, hbelow, q,
      hkept q hq hu (holds_iff.mpr (.inr ⟨r, hr, hstart.symm⟩)), hu, hstart, hle, hclear⟩
  · obtain ⟨hin, hmine⟩ := List.mem_filter.mp hq
    rw [Bool.and_eq_true, Bool.not_eq_true'] at hmine
    refine ⟨hin, hmine.1, fun r hr heq => ?_⟩
    rw [holds_iff.mpr (.inr ⟨r, hr, heq⟩)] at hmine
    exact absurd hmine.2 Bool.noConfusion
  · cases hholds : holds { s with vm := { s.vm with alloc := alloc, mem := mem } } q.start with
    | true => exact .inl rfl
    | false =>
      refine .inr (List.mem_filter.mpr ⟨hq, ?_⟩)
      rw [hholds, hu]
      rfl

/-- The next address for a mapping moves on. -/
theorem MemInv.setNext (h : MemInv before foreign s T) {next : Nat}
    (hnext : next ≤ USER_MAP_LIMIT) :
    MemInv before foreign { s with as := { s.as with mapNext := next } } T :=
  { h with vm := ⟨h.vm.tree, h.vm.alloc, h.vm.used, h.vm.owned⟩, next := hnext }

/-- The end of the heap moves. -/
theorem MemInv.setEnd (h : MemInv before foreign s T) {e : Nat} (he : HeapEnd e)
    (hall : ∀ r ∈ s.allocations, Placed e r) :
    MemInv before foreign { s with brkMappedEnd := e } T :=
  { h with heap := he, placed := hall }

/-- The break is not looked at. -/
theorem MemInv.setCurrent (h : MemInv before foreign s T) (current : Nat) :
    MemInv before foreign { s with brkCurrent := current } T :=
  { h with }

/-- The end of the heap moves up. -/
theorem Placed.mono {e e' : Nat} (h : Placed e r) (hle : e ≤ e') : Placed e' r := by
  rcases h with h | ⟨hlo, hhi, hdvd⟩
  · exact .inl h
  · exact .inr ⟨hlo, Nat.le_trans hhi hle, hdvd⟩

end Blocks

end VKernel.Proofs.Process

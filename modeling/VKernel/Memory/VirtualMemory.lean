import VKernel.Lib.Transition
import VKernel.Memory.PhysAllocator

/-!
# `VKernel.Memory.VirtualMemory`: the page-table manager of `virtual_memory.cpp`

An address space is the physical address of its PML4 table. All four levels of tables are
pages of 512 `u64` entries in identity-mapped physical memory, so memory is a function from
the byte address of a word to the word, and `table[index]` is the word at `slot table index`.

`Vm` also holds the physical allocator that the tables come from. The list `tables` is not in
the source: it records the table pages of the address space, newest first.

Not modelled: `make_region_writable`, which sets `PTE_WRITABLE` in the firmware's tables for
the identity map so that the kernel may write to the page, and `invlpg`, which drops a cached
translation. Neither changes an entry of the user range.
-/

set_option autoImplicit false

namespace VKernel.Memory

open VKernel.Lib

/-- `PA_MASK`. -/
def PA_MASK : Nat := 0x000FFFFFFFFFF000

/-- `~PA_MASK`. -/
def NOT_PA_MASK : Nat := 0xFFF0000000000FFF

/-- `PTE_PRESENT`. -/
def PTE_PRESENT : Nat := 1

/-- `PTE_WRITABLE`. -/
def PTE_WRITABLE : Nat := 2

/-- `PTE_USER`. -/
def PTE_USER : Nat := 4

/-- `PTE_HUGE`. -/
def PTE_HUGE : Nat := 0x80

/-- `PTE_XD`. -/
def PTE_XD : Nat := 0x8000000000000000

/-- `MAP_WRITABLE`. -/
def MAP_WRITABLE : Nat := 1

/-- `MAP_USER`. -/
def MAP_USER : Nat := 2

/-- `MAP_EXECUTABLE`. -/
def MAP_EXECUTABLE : Nat := 4

/-- `USER_IMAGE_BASE`. -/
def USER_IMAGE_BASE : Nat := 0x0000400000000000

/-- `USER_HEAP_BASE`. -/
def USER_HEAP_BASE : Nat := 0x0000410000000000

/-- `USER_MMAP_BASE`. -/
def USER_MMAP_BASE : Nat := 0x0000500000000000

/-- `USER_MAP_LIMIT`. -/
def USER_MAP_LIMIT : Nat := 0x0000800000000000

/-- `USER_PML4_FIRST`. -/
def USER_PML4_FIRST : Nat := USER_IMAGE_BASE >>> 39 &&& 0x1FF

/-- `USER_PML4_LIMIT`. -/
def USER_PML4_LIMIT : Nat := USER_MAP_LIMIT >>> 39 &&& 0x1FF

/-- `IDENTITY_BRIDGE_ALLOC_MAX`. -/
def IDENTITY_BRIDGE_ALLOC_MAX : Nat := 0x80000000

/-- Physical memory: the `u64` at a byte address. -/
abbrev Words := Nat → Nat

/-- `table_from_phys`. -/
def tableFromPhys (phys : Nat) : Nat := phys &&& PA_MASK

/-- The address of `table[index]`. -/
def slot (table index : Nat) : Nat := table + 8 * index

/-- `page_flags`. -/
def pageFlags (flags : Nat) : Nat :=
  PTE_PRESENT ||| (if flags &&& MAP_WRITABLE ≠ 0 then PTE_WRITABLE else 0)
    ||| (if flags &&& MAP_USER ≠ 0 then PTE_USER else 0)
    ||| (if flags &&& MAP_EXECUTABLE = 0 then PTE_XD else 0)

/-- Physical memory and the allocator, with the table pages of the address space. -/
structure Vm where
  alloc : PhysAllocator
  mem : Words
  tables : List Nat

/-- `address_space`. -/
structure AddressSpace where
  pml4Phys : Nat
  heapNext : Nat
  mapNext : Nat
  deriving DecidableEq, Repr

/-- A store to one word. -/
def Vm.write (s : Vm) (addr value : Nat) : Vm := { s with mem := Function.update s.mem addr value }

/-- `memory::set` with byte 0. -/
def zeroBytes (m : Words) (dest n : Nat) : Words :=
  fun a => if dest ≤ a ∧ a < dest + n then 0 else m a

/-- `memory::set` of one page with byte 0. -/
def zeroPage (m : Words) (page : Nat) : Words := zeroBytes m page PAGE_SIZE_4K

/-- `memory::copy` of one page. -/
def copyPage (m : Words) (dst src : Nat) : Words :=
  fun a => if dst ≤ a ∧ a < dst + PAGE_SIZE_4K then m (src + (a - dst)) else m a

/-- The loop of `create_address_space` that clears the user slots of a PML4 table. -/
def clearUserSlots (m : Words) (table : Nat) : Words :=
  fun a => if slot table USER_PML4_FIRST ≤ a ∧ a < slot table USER_PML4_LIMIT then 0 else m a

/-- `alloc_table_page`. The result 0 means failure. -/
def Vm.allocTablePage (s : Vm) : Nat × Vm :=
  let (phys, alloc) := s.alloc.allocatePages ⟨1, PAGE_SIZE_4K, IDENTITY_BRIDGE_ALLOC_MAX⟩
  if phys = 0 then (0, { s with alloc := alloc })
  else (phys, ⟨alloc, zeroPage s.mem phys, phys :: s.tables⟩)

/-- `ensure_next_table`. The result 0 is null. -/
def Vm.ensureNextTable (s : Vm) (table index flags : Nat) : Nat × Vm :=
  let entry := s.mem (slot table index)
  if entry &&& PTE_PRESENT = 0 then
    let (child, s) := s.allocTablePage
    if child = 0 then (0, s)
    else
      let s := s.write (slot table index)
        (child ||| PTE_PRESENT ||| PTE_WRITABLE ||| (flags &&& PTE_USER))
      (tableFromPhys (s.mem (slot table index)), s)
  else if entry &&& PTE_HUGE ≠ 0 then (0, s)
  else
    let s := s.write (slot table index) (entry ||| (PTE_WRITABLE ||| (flags &&& PTE_USER)))
    (tableFromPhys (s.mem (slot table index)), s)

/-- `pml4_idx`. -/
def pml4Idx (virt : Nat) : Nat := virt >>> 39 &&& 0x1FF

/-- `pdpt_idx`. -/
def pdptIdx (virt : Nat) : Nat := virt >>> 30 &&& 0x1FF

/-- `pd_idx`. -/
def pdIdx (virt : Nat) : Nat := virt >>> 21 &&& 0x1FF

/-- `pt_idx`. -/
def ptIdx (virt : Nat) : Nat := virt >>> 12 &&& 0x1FF

/-- `create_address_space`, where `as` is the answer of `g_kernel_heap.allocate_zero`. The
kernel's PML4 is cloned and the user slots of the clone are cleared. -/
def Vm.createAddressSpace (s : Vm) (kernelCr3 as : Nat) : Option (AddressSpace × Vm) :=
  if as = 0 then none
  else
    let (pml4Phys, s) := s.allocTablePage
    if pml4Phys = 0 then none
    else
      let dst := tableFromPhys pml4Phys
      let src := tableFromPhys kernelCr3
      some (⟨pml4Phys, USER_HEAP_BASE, USER_MMAP_BASE⟩,
        { s with mem := clearUserSlots (copyPage s.mem dst src) dst })

/-- `debug_resolve`: the physical address and the flags, or `none` for `false`. -/
def debugResolve (m : Words) (as : AddressSpace) (virt : Nat) : Option (Nat × Nat) :=
  if as.pml4Phys = 0 then none
  else
    let pml4e := m (slot (tableFromPhys as.pml4Phys) (pml4Idx virt))
    if pml4e &&& PTE_PRESENT = 0 ∨ pml4e &&& PTE_HUGE ≠ 0 then none
    else
      let pdpte := m (slot (tableFromPhys pml4e) (pdptIdx virt))
      if pdpte &&& PTE_PRESENT = 0 then none
      else if pdpte &&& PTE_HUGE ≠ 0 then
        some ((pdpte &&& PA_MASK) + (virt &&& (1 <<< 30 - 1)), pdpte &&& NOT_PA_MASK)
      else
        let pde := m (slot (tableFromPhys pdpte) (pdIdx virt))
        if pde &&& PTE_PRESENT = 0 then none
        else if pde &&& PTE_HUGE ≠ 0 then
          some ((pde &&& PA_MASK) + (virt &&& (1 <<< 21 - 1)), pde &&& NOT_PA_MASK)
        else
          let pte := m (slot (tableFromPhys pde) (ptIdx virt))
          if pte &&& PTE_PRESENT = 0 then none
          else some ((pte &&& PA_MASK) + (virt &&& (PAGE_SIZE_4K - 1)), pte &&& NOT_PA_MASK)

/-- `map_page`. -/
def Vm.mapPage (s : Vm) (as : AddressSpace) (virt phys flags : Nat) : Bool × Vm :=
  if as.pml4Phys = 0 ∨ phys = 0 then (false, s)
  else if ¬ isAligned virt PAGE_SIZE_4K ∨ ¬ isAligned phys PAGE_SIZE_4K then (false, s)
  else
    let user := if flags &&& MAP_USER ≠ 0 then PTE_USER else 0
    let (pdpt, s) := s.ensureNextTable (tableFromPhys as.pml4Phys) (pml4Idx virt) user
    if pdpt = 0 then (false, s)
    else
      let (pd, s) := s.ensureNextTable pdpt (pdptIdx virt) user
      if pd = 0 then (false, s)
      else
        let (pt, s) := s.ensureNextTable pd (pdIdx virt) user
        if pt = 0 then (false, s)
        else (true, s.write (slot pt (ptIdx virt)) ((phys &&& PA_MASK) ||| pageFlags flags))

/-- The loop of `map_contiguous`, from `offset` on for `n` pages. -/
def Vm.mapPages (s : Vm) (as : AddressSpace) (virt phys flags offset : Nat) : Nat → Bool × Vm
  | 0 => (true, s)
  | n + 1 =>
    match s.mapPage as (add64 virt offset) (add64 phys offset) flags with
    | (false, s) => (false, s)
    | (true, s) => s.mapPages as virt phys flags (offset + PAGE_SIZE_4K) n

/-- `map_contiguous`. -/
def Vm.mapContiguous (s : Vm) (as : AddressSpace) (virt phys size flags : Nat) : Bool × Vm :=
  s.mapPages as virt phys flags 0 (alignUp size PAGE_SIZE_4K / PAGE_SIZE_4K)

/-- The body of the loop of `unmap_range`. -/
def Vm.unmapPage (s : Vm) (as : AddressSpace) (addr : Nat) : Vm :=
  let pml4e := s.mem (slot (tableFromPhys as.pml4Phys) (pml4Idx addr))
  if pml4e &&& PTE_PRESENT = 0 then s
  else
    let pdpte := s.mem (slot (tableFromPhys pml4e) (pdptIdx addr))
    if pdpte &&& PTE_PRESENT = 0 ∨ pdpte &&& PTE_HUGE ≠ 0 then s
    else
      let pde := s.mem (slot (tableFromPhys pdpte) (pdIdx addr))
      if pde &&& PTE_PRESENT = 0 ∨ pde &&& PTE_HUGE ≠ 0 then s
      else s.write (slot (tableFromPhys pde) (ptIdx addr)) 0

/-- The loop of `unmap_range`, for `n` pages from `addr` on. -/
def Vm.unmapPages (s : Vm) (as : AddressSpace) (addr : Nat) : Nat → Vm
  | 0 => s
  | n + 1 => (s.unmapPage as addr).unmapPages as (addr + PAGE_SIZE_4K) n

/-- `unmap_range`. The bounds of the loop are page-aligned, so it runs once for each page
between them. -/
def Vm.unmapRange (s : Vm) (as : AddressSpace) (virt size : Nat) : Vm :=
  if as.pml4Phys = 0 ∨ size = 0 then s
  else
    let start := alignDown virt PAGE_SIZE_4K
    let stop := alignUp (add64 virt size) PAGE_SIZE_4K
    s.unmapPages as start ((stop - start) / PAGE_SIZE_4K)

/-- `allocate_user_pages`. The result is the physical address, with 0 for `false`. -/
def Vm.allocateUserPages (s : Vm) (as : AddressSpace) (virt size flags : Nat) : Nat × Vm :=
  if size = 0 ∨ ¬ isAligned virt PAGE_SIZE_4K then (0, s)
  else
    let bytes := alignUp size PAGE_SIZE_4K
    let pageCount := bytes / PAGE_SIZE_4K % 2 ^ 32
    let (phys, alloc) := s.alloc.allocatePages ⟨pageCount, PAGE_SIZE_4K, IDENTITY_BRIDGE_ALLOC_MAX⟩
    if phys = 0 then (0, { s with alloc := alloc })
    else
      match { s with alloc := alloc, mem := zeroBytes s.mem phys bytes }.mapContiguous as virt phys
        bytes flags with
      | (true, s) => (phys, s)
      | (false, s) => (0, { s with alloc := s.alloc.freePagesAt phys pageCount })

/-- The loop of `free_page_table_tree` over the entries of a table, where `free` is the
recursive call on a child. -/
def freeEntries (free : Nat → Vm → Vm) (freeChild : Bool) (table : Nat) : List Nat → Vm → Vm
  | [], s => s
  | index :: rest, s =>
    let entry := s.mem (slot table index)
    if entry &&& PTE_PRESENT = 0 ∨ entry &&& PTE_HUGE ≠ 0 then
      freeEntries free freeChild table rest s
    else
      let s := free (tableFromPhys entry) s
      let s := if freeChild then { s with alloc := s.alloc.freePagesAt (entry &&& PA_MASK) 1 }
        else s
      freeEntries free freeChild table rest (s.write (slot table index) 0)

/-- `free_page_table_tree`. Only tables are freed: the entries of level 1 lead to pages that
are owned elsewhere. -/
def freePageTableTree : Nat → Nat → Vm → Vm
  | 0, _, s => s
  | level + 1, table, s =>
    if table = 0 then s
    else freeEntries (freePageTableTree level) (decide (0 < level)) table (List.range 512) s

/-- The loop of `destroy_address_space` over the user slots of the PML4. The entry is read
again after the tree below it is gone. -/
def destroyUserSlots (pml4 : Nat) : List Nat → Vm → Vm
  | [], s => s
  | index :: rest, s =>
    let entry := s.mem (slot pml4 index)
    if entry &&& PTE_PRESENT ≠ 0 ∧ entry &&& PTE_HUGE = 0 then
      let s := freePageTableTree 3 (tableFromPhys entry) s
      let s := { s with alloc := s.alloc.freePagesAt (s.mem (slot pml4 index) &&& PA_MASK) 1 }
      destroyUserSlots pml4 rest (s.write (slot pml4 index) 0)
    else destroyUserSlots pml4 rest s

/-- `destroy_address_space`. -/
def Vm.destroyAddressSpace (s : Vm) (as : AddressSpace) : Vm :=
  if as.pml4Phys = 0 then s
  else
    let s := destroyUserSlots (tableFromPhys as.pml4Phys)
      (List.range' USER_PML4_FIRST (USER_PML4_LIMIT - USER_PML4_FIRST)) s
    { s with alloc := s.alloc.freePagesAt as.pml4Phys 1 }

end VKernel.Memory

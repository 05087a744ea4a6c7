import VKernel.Lib.Spans
import VKernel.Memory.Protection

/-!
# `VKernel.Process.UserMemory`: the memory calls of a process

A process gets memory through `malloc`, `mmap` and `brk` and gives it back through `free`,
`munmap` and a lower `brk` (`kernel_api.cpp`). For every block the kernel keeps a
`process_allocation` in a list that hangs on the process: where the block is in the address space,
and which physical pages are behind it. What is left of the list when the process ends is released
by `cleanup_process_context` (`process.cpp`).

The record itself is a piece of the kernel's heap. `room` is the answer of the heap, and giving a
record back to it is not modelled. A heap that grows takes pages from the physical allocator; that
is a change by the rest of the kernel (`MemoryCall.others`). So are the stores of programs to their
pages. Every process that `load_process_context` makes has an address space, so the branches for a
task without one are left out.

`allocate_process_mapping` is cut in two: `mappingBase` is its search for a range in which nothing
is mapped.
-/

set_option autoImplicit false

namespace VKernel.Process

open VKernel VKernel.Memory VKernel.Lib

/-- `VK_ERR_NOMEM`. -/
def VK_ERR_NOMEM : Int := 12

/-- `VK_ERR_INVAL`. -/
def VK_ERR_INVAL : Int := 22

/-- `VK_ERR_NOSYS`. -/
def VK_ERR_NOSYS : Int := 38

/-- `VK_MAP_FIXED`. -/
def VK_MAP_FIXED : Nat := 2

/-- `VK_MAP_ANONYMOUS`. -/
def VK_MAP_ANONYMOUS : Nat := 4

/-- `process_allocation`, without its link. -/
structure ProcessAllocation where
  userPtr : Nat
  rawPtr : Nat
  requestedSize : Nat
  allocatedSize : Nat
  fromPhys : Bool
  deriving DecidableEq, Repr

/-- The fields of `process_task_context` that the memory calls use, and the memory. -/
structure UserMemory where
  vm : Vm
  as : AddressSpace
  allocations : List ProcessAllocation
  brkBase : Nat
  brkCurrent : Nat
  brkMappedEnd : Nat

namespace UserMemory

/-- `free_process_allocation_pages`. -/
def freePages (s : UserMemory) (ptr size : Nat) : UserMemory :=
  if ptr = 0 ∨ size = 0 then s
  else
    { s with
      vm := { s.vm with
        alloc := s.vm.alloc.freePagesAt ptr
          (sub64 (add64 size PAGE_SIZE_4K) 1 / PAGE_SIZE_4K % 2 ^ 32) } }

/-- `vm::unmap_range`. -/
def unmap (s : UserMemory) (virt size : Nat) : UserMemory :=
  { s with vm := s.vm.unmapRange s.as virt size }

/-- `track_process_allocation`. -/
def track (s : UserMemory) (room : Bool) (userPtr rawPtr requestedSize allocatedSize : Nat)
    (fromPhys : Bool) : Bool × UserMemory :=
  if userPtr = 0 ∨ rawPtr = 0 ∨ allocatedSize = 0 then (false, s)
  else if room = false then (false, s)
  else
    (true, { s with
      allocations := ⟨userPtr, rawPtr, requestedSize, allocatedSize, fromPhys⟩ :: s.allocations })

/-- What a block that is no longer tracked gives back: `stub_free` and the loop of
`cleanup_process_context`. A block of the kernel's heap is the only one that is not made of
pages. -/
def release (s : UserMemory) (r : ProcessAllocation) : UserMemory :=
  if r.rawPtr ≠ r.userPtr then
    (s.unmap r.userPtr r.allocatedSize).freePages r.rawPtr r.allocatedSize
  else if r.fromPhys = true then s.freePages r.rawPtr r.allocatedSize
  else s

/-! ### Mappings -/

/-- The loop of `user_range_is_unmapped`, for `n` pages from `addr` on. -/
def rangeIsUnmapped (m : Words) (as : AddressSpace) (addr : Nat) : Nat → Bool
  | 0 => true
  | n + 1 =>
    (debugResolve m as addr).isNone && rangeIsUnmapped m as (add64 addr PAGE_SIZE_4K) n

/-- `user_range_is_unmapped`. -/
def userRangeIsUnmapped (m : Words) (as : AddressSpace) (start size : Nat) : Bool :=
  if size = 0 then false
  else
    let alignedStart := alignDown start PAGE_SIZE_4K
    let alignedEnd := alignUp (add64 start size) PAGE_SIZE_4K
    rangeIsUnmapped m as alignedStart ((alignedEnd - alignedStart) / PAGE_SIZE_4K)

/-- The loop of `allocate_process_mapping`: the first base from which on nothing is mapped. -/
def searchBase (m : Words) (as : AddressSpace) (bytes : Nat) : Nat → Nat → Option Nat
  | 0, _ => none
  | n + 1, base =>
    if base < add64 base bytes ∧ add64 base bytes ≤ USER_MAP_LIMIT then
      if userRangeIsUnmapped m as base bytes then some base
      else searchBase m as bytes n (add64 base PAGE_SIZE_4K)
    else none

/-- The range that `allocate_process_mapping` takes. The base moves on by a page in each round and
stays below `USER_MAP_LIMIT`, so there are no more rounds than pages. -/
def mappingBase (s : UserMemory) (size minAddr : Nat) : Option Nat :=
  if size = 0 then none
  else
    let bytes := alignUp size PAGE_SIZE_4K
    let base := alignUp s.as.mapNext PAGE_SIZE_4K
    let base := if base < minAddr then alignUp minAddr PAGE_SIZE_4K else base
    searchBase s.vm.mem s.as bytes (USER_MAP_LIMIT / PAGE_SIZE_4K) base

/-- `allocate_process_mapping`: the base and the physical address, or `none` for `false`. -/
def allocateProcessMapping (s : UserMemory) (size flags minAddr : Nat) :
    Option (Nat × Nat) × UserMemory :=
  match s.mappingBase size minAddr with
  | none => (none, s)
  | some base =>
    let bytes := alignUp size PAGE_SIZE_4K
    let (phys, vm) := s.vm.allocateUserPages s.as base bytes flags
    if phys = 0 then (none, { s with vm := vm })
    else (some (base, phys), { s with vm := vm, as := { s.as with mapNext := add64 base bytes } })

/-! ### The calls -/

/-- `stub_malloc_internal`. The result 0 is null. -/
def mallocInternal (s : UserMemory) (room : Bool) (size : Nat) (executable : Bool) :
    Nat × UserMemory :=
  if size = 0 then (0, s)
  else
    let rounded := alignUp size 16
    if rounded < size then (0, s)
    else
      match s.allocateProcessMapping rounded
        (MAP_WRITABLE ||| MAP_USER ||| (if executable then MAP_EXECUTABLE else 0))
        USER_MMAP_BASE with
      | (none, s) => (0, s)
      | (some (virt, phys), s) =>
        match s.track room virt phys size rounded true with
        | (false, s) => (0, (s.unmap virt rounded).freePages phys rounded)
        | (true, s) => (virt, s)

/-- `stub_free`. -/
def free (s : UserMemory) (ptr : Nat) : UserMemory :=
  if ptr = 0 then s
  else
    match s.allocations.find? fun r => r.userPtr == ptr with
    | none => s
    | some r =>
      { s with allocations := s.allocations.eraseP fun r => r.userPtr == ptr }.release r

/-- `VK_SYS_MMAP`. -/
def mmap (s : UserMemory) (room : Bool) (length prot flags : Nat) (fd : Int) : Int × UserMemory :=
  if length = 0 then (-VK_ERR_INVAL, s)
  else if flags &&& VK_MAP_FIXED ≠ 0 then (-VK_ERR_NOSYS, s)
  else if flags &&& VK_MAP_ANONYMOUS = 0 ∨ fd ≠ -1 then (-VK_ERR_NOSYS, s)
  else
    let bytes := alignUp length PAGE_SIZE_4K
    match s.allocateProcessMapping bytes (mappingFlagsFromProt prot) USER_MMAP_BASE with
    | (none, s) => (-VK_ERR_NOMEM, s)
    | (some (base, phys), s) =>
      match s.track room base phys bytes bytes true with
      | (false, s) => (-VK_ERR_NOMEM, (s.unmap base bytes).freePages phys bytes)
      | (true, s) => (base, s)

/-- The record that `untrack_process_mapping` looks for. -/
def isMapping (virt bytes : Nat) (r : ProcessAllocation) : Bool :=
  r.rawPtr != r.userPtr && r.fromPhys && r.userPtr == virt && r.allocatedSize == bytes

/-- `VK_SYS_MUNMAP`. -/
def munmap (s : UserMemory) (addr length : Nat) : Int × UserMemory :=
  if length = 0 then (-VK_ERR_INVAL, s)
  else
    let bytes := alignUp length PAGE_SIZE_4K
    match s.allocations.find? (isMapping addr bytes) with
    | none => (-VK_ERR_INVAL, s)
    | some r =>
      let s := { s with allocations := s.allocations.eraseP (isMapping addr bytes) }
      (0, (s.unmap addr r.allocatedSize).freePages r.rawPtr r.allocatedSize)

/-- `VK_SYS_MPROTECT`. -/
def mprotect (s : UserMemory) (addr length prot : Nat) : Int × UserMemory :=
  match s.vm.protectProcessMapping s.as addr length prot with
  | (ok, vm) => (if ok then 0 else -VK_ERR_INVAL, { s with vm := vm })

/-- The record that `adjust_process_brk` looks for: the block at the end of the heap. -/
def isTop (s : UserMemory) (r : ProcessAllocation) : Bool :=
  r.rawPtr != r.userPtr && r.fromPhys && decide (s.brkBase ≤ r.userPtr) &&
    add64 r.userPtr r.allocatedSize == s.brkMappedEnd

/-- The loop of `adjust_process_brk` that gives pages back. A round that goes on has taken a record
from the list, so there are no more rounds than records. -/
def shrink (desired : Nat) : Nat → UserMemory → Bool × UserMemory
  | 0, s => (decide (s.brkMappedEnd ≤ desired), s)
  | n + 1, s =>
    if s.brkMappedEnd ≤ desired then (true, s)
    else
      match s.allocations.find? s.isTop with
      | none => (false, s)
      | some top =>
        if desired ≤ top.userPtr then
          let s := { s with allocations := s.allocations.eraseP s.isTop }
          let s := (s.unmap top.userPtr top.allocatedSize).freePages top.rawPtr
            top.allocatedSize
          shrink desired n { s with brkMappedEnd := top.userPtr }
        else
          -- The block keeps its first pages.
          let shrinkBytes := s.brkMappedEnd - desired
          let keepBytes := sub64 top.allocatedSize shrinkBytes
          let keep := fun r : ProcessAllocation =>
            { r with allocatedSize := keepBytes, requestedSize := keepBytes }
          let s' := (s.unmap (add64 top.userPtr keepBytes) shrinkBytes).freePages
            (add64 top.rawPtr keepBytes) shrinkBytes
          (true, { s' with
            allocations := changeFirst s.isTop keep s.allocations
            brkMappedEnd := desired })

/-- `adjust_process_brk`. -/
def adjustBrk (s : UserMemory) (room : Bool) (requested : Nat) : Int × UserMemory :=
  if requested = 0 then (s.brkCurrent, s)
  else if requested < s.brkBase ∨ USER_MMAP_BASE ≤ requested then (-VK_ERR_INVAL, s)
  else
    let desired := alignUp requested PAGE_SIZE_4K
    if s.brkMappedEnd < desired then
      let start := s.brkMappedEnd
      let growBytes := desired - start
      let (phys, vm) := s.vm.allocateUserPages s.as start growBytes (MAP_USER ||| MAP_WRITABLE)
      let s := { s with vm := vm }
      if phys = 0 then (-VK_ERR_NOMEM, s)
      else
        match s.track room start phys growBytes growBytes true with
        | (false, s) => (-VK_ERR_NOMEM, (s.unmap start growBytes).freePages phys growBytes)
        | (true, s) => (requested, { s with brkMappedEnd := desired, brkCurrent := requested })
    else
      match s.shrink desired s.allocations.length with
      | (false, s) => (-VK_ERR_INVAL, s)
      | (true, s) => (requested, { s with brkCurrent := requested })

/-- The part of `cleanup_process_context` that releases the blocks of the process. -/
def cleanupAllocations (s : UserMemory) : UserMemory :=
  { s.allocations.foldl release s with allocations := [] }

end UserMemory

/-! ### Runs -/

/-- A call of the process, or a change by the rest of the kernel and the programs. -/
inductive MemoryCall
  | malloc (size : Nat) (executable room : Bool)
  | free (ptr : Nat)
  | mmap (length prot flags : Nat) (fd : Int) (room : Bool)
  | munmap (addr length : Nat)
  | mprotect (addr length prot : Nat)
  | brk (requested : Nat) (room : Bool)
  | cleanup
  | others (alloc : PhysAllocator) (mem : Words)

/-- The memory of a process, with the regions of the allocator that are in use by others. -/
structure MemoryState where
  own : UserMemory
  foreign : List MemoryRegion

namespace MemoryState

/-- The process holds the region that starts here: it is a table or the block of a record. -/
def holds (s : UserMemory) (start : Nat) : Bool :=
  decide (start ∈ s.vm.tables) || s.allocations.any fun r => r.rawPtr == start

/-- The regions in use that the process does not hold. -/
def foreignOf (s : UserMemory) : List MemoryRegion :=
  s.vm.alloc.freeList.filter fun r => r.used && !holds s r.start

/-- The state after a call. -/
def next (s : MemoryState) : MemoryCall → MemoryState
  | .malloc size executable room => { s with own := (s.own.mallocInternal room size executable).2 }
  | .free ptr => { s with own := s.own.free ptr }
  | .mmap length prot flags fd room => { s with own := (s.own.mmap room length prot flags fd).2 }
  | .munmap addr length => { s with own := (s.own.munmap addr length).2 }
  | .mprotect addr length prot => { s with own := (s.own.mprotect addr length prot).2 }
  | .brk requested room => { s with own := (s.own.adjustBrk room requested).2 }
  | .cleanup => { s with own := s.own.cleanupAllocations }
  | .others alloc mem =>
    let own := { s.own with vm := { s.own.vm with alloc := alloc, mem := mem } }
    ⟨own, foreignOf own⟩

end MemoryState

end VKernel.Process

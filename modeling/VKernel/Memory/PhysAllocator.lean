import VKernel.Types

/-!
# `VKernel.Memory.PhysAllocator`: the physical page allocator of `memory.cpp`

`phys_allocator` keeps the free and the used physical ranges in one singly linked list of
`memory_region` nodes, in ascending order. The nodes come from a fixed pool of
`REGION_POOL_SIZE` entries, where `size == 0` marks an unused entry.

The list is a `List MemoryRegion` here, in link order. Every linked node has a nonzero
size and every node that leaves the list is cleared by `free_region_node`, so the pool
entries with `size != 0` are exactly the linked nodes, and `alloc_region_node` succeeds
exactly while fewer than `REGION_POOL_SIZE` nodes are linked (`freeNodes`).

`allocatePages` is first fit over this list. The loop body is cut in two: `usable` is the
run of `continue` tests a region has to pass, `carve` is what the allocation makes of the
region it takes.
-/

set_option autoImplicit false

namespace VKernel.Memory

/-- `memory_type`, the kernel's names for the UEFI memory types. -/
inductive MemoryType
  | reserved | loaderCode | loaderData | bootServicesCode | bootServicesData
  | runtimeServicesCode | runtimeServicesData | conventional | unusable | acpiReclaimable
  | nvs | memoryMappedIo | memoryMappedIoPortSpace | palCode | persistent
  deriving DecidableEq, Repr

/-- `memory_map_entry`, the fields that the allocator reads. -/
structure MemoryMapEntry where
  physicalStart : Nat
  numberOfPages : Nat
  type : MemoryType
  deriving DecidableEq, Repr

/-- `memory_region`, without its `next` link. -/
structure MemoryRegion where
  start : Nat
  size : Nat
  used : Bool
  deriving DecidableEq, Repr

/-- `memory_region::end`, as a mathematical sum. -/
def MemoryRegion.stop (r : MemoryRegion) : Nat := r.start + r.size

/-- `REGION_POOL_SIZE`. -/
def REGION_POOL_SIZE : Nat := 512

/-- `phys_allocator`. The list is `free_list_` in link order. -/
structure PhysAllocator where
  freeList : List MemoryRegion
  totalPages : Nat
  usedPages : Nat
  freePages : Nat
  deriving DecidableEq, Repr

/-- How many calls of `alloc_region_node` can still succeed. -/
def freeNodes (list : List MemoryRegion) : Nat := REGION_POOL_SIZE - list.length

/-- The types that `phys_allocator::init` takes over as free memory. -/
def MemoryType.isFree (t : MemoryType) : Bool :=
  t == .conventional || t == .bootServicesCode || t == .bootServicesData

/-- The node that `phys_allocator::init` links for a free, nonempty entry, or `none` when
the entry is only page 0. Page 0 is cut off, so that 0 can stand for failure. -/
def entryRegion (e : MemoryMapEntry) : Option MemoryRegion :=
  let size := e.numberOfPages * PAGE_SIZE_4K % U64
  if e.physicalStart = 0 then
    if size ≤ PAGE_SIZE_4K then none
    else some ⟨PAGE_SIZE_4K, size - PAGE_SIZE_4K, false⟩
  else some ⟨e.physicalStart, size, false⟩

/-- The loop of `phys_allocator::init`. It stops at the first free entry for which no node
is left. -/
def PhysAllocator.initFrom (s : PhysAllocator) : List MemoryMapEntry → PhysAllocator
  | [] => s
  | e :: es =>
    let s := { s with totalPages := add64 s.totalPages e.numberOfPages }
    if ¬ e.type.isFree ∨ e.numberOfPages = 0 then s.initFrom es
    else if freeNodes s.freeList = 0 then s
    else
      match entryRegion e with
      | none => s.initFrom es
      | some r =>
        { s with
          freeList := s.freeList ++ [r]
          freePages := add64 s.freePages e.numberOfPages }.initFrom es

/-- `phys_allocator::init`. -/
def PhysAllocator.init (map : List MemoryMapEntry) : PhysAllocator :=
  PhysAllocator.initFrom ⟨[], 0, 0, 0⟩ map

/-- The arguments of one `allocate_pages` call. -/
structure PageRequest where
  pageCount : Nat
  alignment : Nat
  maxAddr : Nat
  deriving DecidableEq, Repr

/-- `req_size`. -/
def PageRequest.size (q : PageRequest) : Nat := q.pageCount * PAGE_SIZE_4K % U64

/-- `aligned_start` for a region. -/
def PageRequest.alignedStart (q : PageRequest) (r : MemoryRegion) : Nat :=
  alignUp r.start q.alignment

/-- `pre_size`: what stays free before the allocation. -/
def PageRequest.preSize (q : PageRequest) (r : MemoryRegion) : Nat :=
  sub64 (q.alignedStart r) r.start

/-- `post_size`: what stays free after the allocation. -/
def PageRequest.postSize (q : PageRequest) (r : MemoryRegion) : Nat :=
  sub64 (add64 r.start r.size) (add64 (q.alignedStart r) q.size)

/-- The region passes every `continue` of the loop of `allocate_pages`: it is free, the
aligned request ends inside it and below the ceiling, and when a fragment stays before the
request there is a node for the request. -/
def usable (nodes : Nat) (q : PageRequest) (r : MemoryRegion) : Bool :=
  !r.used &&
  decide (add64 (q.alignedStart r) q.size ≤ add64 r.start r.size) &&
  (q.maxAddr == 0 || decide (add64 (q.alignedStart r) q.size ≤ q.maxAddr)) &&
  (q.preSize r == 0 || decide (0 < nodes))

/-- The nodes that replace the region the allocation takes. Without a node for the tail,
an allocation at the front of the region keeps the whole region; an allocation in its
middle links no node for the tail. -/
def carve (nodes : Nat) (q : PageRequest) (r : MemoryRegion) : List MemoryRegion :=
  let tail : MemoryRegion := ⟨add64 (q.alignedStart r) q.size, q.postSize r, false⟩
  if q.preSize r = 0 then
    if 0 < q.postSize r then
      if 0 < nodes then [{ r with size := q.size, used := true }, tail]
      else [{ r with used := true }]
    else [{ r with used := true }]
  else
    let pre : MemoryRegion := { r with size := q.preSize r }
    let alloc : MemoryRegion := ⟨q.alignedStart r, q.size, true⟩
    if 0 < q.postSize r ∧ 1 < nodes then [pre, alloc, tail] else [pre, alloc]

/-- The loop of `allocate_pages`: the first usable region is carved. -/
def allocateIn (nodes : Nat) (q : PageRequest) :
    List MemoryRegion → Option (Nat × List MemoryRegion)
  | [] => none
  | r :: rs =>
    if usable nodes q r then some (q.alignedStart r, carve nodes q r ++ rs)
    else (allocateIn nodes q rs).map fun out => (out.1, r :: out.2)

/-- `phys_allocator::allocate_pages`. The result 0 means failure. -/
def PhysAllocator.allocatePages (s : PhysAllocator) (q : PageRequest) : Nat × PhysAllocator :=
  if q.pageCount = 0 then (0, s)
  else
    match allocateIn (freeNodes s.freeList) q s.freeList with
    | none => (0, s)
    | some (addr, list) =>
      (addr, { s with
        freeList := list
        usedPages := add64 s.usedPages q.pageCount
        freePages := sub64 s.freePages q.pageCount })

/-- The two regions `a` and `b`, with `a` directly before `b`, or their union when both
are free and adjacent. -/
def coalesce (a b : MemoryRegion) : List MemoryRegion :=
  if !a.used && !b.used && add64 a.start a.size == b.start
  then [{ a with size := add64 a.size b.size }] else [a, b]

/-- The freed region with what follows it: it merges with the next region first. -/
def mergeNext (r : MemoryRegion) : List MemoryRegion → List MemoryRegion
  | [] => [r]
  | next :: rest => coalesce r next ++ rest

/-- The freed region, already merged with its successor, after its predecessor. -/
def mergePrev (prev : Option MemoryRegion) : List MemoryRegion → List MemoryRegion
  | [] => prev.toList
  | r :: rest =>
    match prev with
    | none => r :: rest
    | some p => coalesce p r ++ rest

/-- The loop of `free_pages`: `prev` is the region before the head of the list. The
result starts at `prev`. `none` means that no used region starts at `addr`. -/
def freeIn (addr : Nat) :
    Option MemoryRegion → List MemoryRegion → Option (List MemoryRegion)
  | _, [] => none
  | prev, r :: rs =>
    if r.start = addr ∧ r.used = true then
      some (mergePrev prev (mergeNext { r with used := false } rs))
    else (freeIn addr (some r) rs).map fun out => prev.toList ++ out

/-- `phys_allocator::free_pages`. -/
def PhysAllocator.freePagesAt (s : PhysAllocator) (addr pageCount : Nat) : PhysAllocator :=
  if addr = 0 ∨ pageCount = 0 then s
  else
    match freeIn addr none s.freeList with
    | none => s
    | some list =>
      { s with
        freeList := list
        usedPages := sub64 s.usedPages pageCount
        freePages := add64 s.freePages pageCount }

end VKernel.Memory

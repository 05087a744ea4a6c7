import VKernel.Lib.LinkedList
import VKernel.Lib.Transition
import VKernel.Memory.PhysAllocator

/-!
# `VKernel.Memory.KernelHeap`: the kernel heap of `memory.cpp`

`kernel_heap` keeps all its blocks, free and used, in one doubly linked list. The nodes are
the `heap_block` headers that stand in front of the data they describe, so they live in the
memory that the heap hands out. Here `mem` is that memory as far as it holds headers: a
header is a payload (`size`, `used`) with the two links, at its address.

The link updates of the source come in two shapes. `insertFirst` and `insertAfter` of
`Lib.LinkedList` put a header into the list (`add_region`, and the split in `allocate`), and
`absorb` takes the header behind a block out of the list and gives its bytes to the block
(`add_region` and `free`).

`expand` asks `g_phys_alloc` for pages. What it answers is an argument of the call, one
answer for each round of the loop in `allocate`.
-/

set_option autoImplicit false

namespace VKernel.Memory

open VKernel.Lib VKernel.Lib.LinkedList

/-- The payload of a `heap_block`: `size` counts the data bytes behind the header. -/
structure Header where
  size : Nat
  used : Bool
  deriving DecidableEq, Repr

/-- `sizeof(heap_block)`. -/
def HEADER_SIZE : Nat := 32

/-- `HEAP_MIN_ALIGNMENT`. -/
def HEAP_MIN_ALIGNMENT : Nat := 16

/-- `HEAP_MIN_SPLIT_DATA_SIZE`. -/
def HEAP_MIN_SPLIT_DATA_SIZE : Nat := 16

/-- `config::kernel_heap_min_subheap_size`. -/
def KERNEL_HEAP_MIN_SUBHEAP_SIZE : Nat := 1024 * 1024

/-- `kernel_heap`. `regions` is not in the source: it records the base and the size of every
region that the heap was given, newest first. -/
structure KernelHeap where
  mem : Store Header
  freeList : Nat
  totalBytes : Nat
  subheapCount : Nat
  expanding : Bool
  regions : List (Nat × Nat)

/-- `heap_block::data`. -/
def blockData (block : Nat) : Nat := add64 block HEADER_SIZE

/-- `heap_block::end`. -/
def blockEnd (m : Store Header) (block : Nat) : Nat :=
  add64 (add64 block HEADER_SIZE) (m block).val.size

/-- A write to the bytes from `lo` to `hi`. The headers that the range touches hold what
`f` says afterwards, the others are as before. -/
def overwrite (m : Store Header) (lo hi : Nat) (f : Store Header) : Store Header :=
  fun a => if a < hi ∧ lo < a + HEADER_SIZE then f a else m a

/-- `memory::set` with byte 0. -/
def memorySetZero (m : Store Header) (dest n : Nat) : Store Header :=
  overwrite m dest (dest + n) fun _ => ⟨⟨0, false⟩, 0, 0⟩

/-- `find_heap_block`, with a bound on the number of blocks it looks at. -/
def findHeapBlock (m : Store Header) (size : Nat) : Nat → Nat → Nat
  | 0, _ => 0
  | fuel + 1, block =>
    if block = 0 then 0
    else if ¬ (m block).val.used ∧ size ≤ (m block).val.size then block
    else findHeapBlock m size fuel (m block).next

/-- The walk of `add_region` to the last block below `block`, with a bound on the number of
blocks it looks at. -/
def findPredecessor (m : Store Header) (block : Nat) : Nat → Nat → Nat
  | 0, current => current
  | fuel + 1, current =>
    if (m current).next ≠ 0 ∧ (m current).next < block then
      findPredecessor m block fuel (m current).next
    else current

/-- Give the bytes of the block at `c` to the block at `a` before it, header included, and
take `c` out of the list. -/
def absorb (m : Store Header) (a c : Nat) : Store Header :=
  bypass
    (setVal m a
      { (m a).val with
        size := add64 (m a).val.size (add64 (m c).val.size HEADER_SIZE) }) a c

/-- Coalesce a block with the next one, if that is free and adjacent. -/
def coalesceNext (m : Store Header) (block : Nat) : Store Header :=
  let next := (m block).next
  if next ≠ 0 ∧ ¬ (m next).val.used ∧ blockEnd m block = next then absorb m block next
  else m

/-- Coalesce a block with the previous one, if that is free and adjacent. The second
component is the block that the bytes belong to afterwards. -/
def coalescePrev (m : Store Header) (block : Nat) : Store Header × Nat :=
  let prev := (m block).prev
  if prev ≠ 0 ∧ ¬ (m prev).val.used ∧ blockEnd m prev = block then (absorb m prev block, prev)
  else (m, block)

/-- The heap before `init`. -/
def KernelHeap.empty (m : Store Header) : KernelHeap := ⟨m, 0, 0, 0, false, []⟩

/-- `kernel_heap::init`, with `false` for `invalid_param`. -/
def KernelHeap.init (h : KernelHeap) (base size : Nat) : KernelHeap × Bool :=
  if base = 0 ∨ size ≤ HEADER_SIZE then (h, false)
  else
    ({ mem := Function.update h.mem base ⟨⟨sub64 size HEADER_SIZE, false⟩, 0, 0⟩
       freeList := base
       totalBytes := size
       subheapCount := 1
       expanding := false
       regions := [(base, size)] }, true)

/-- The part of `add_region` that puts the new header into the list. -/
def KernelHeap.link (h : KernelHeap) (block : Nat) (v : Header) : KernelHeap :=
  let m := Function.update h.mem block ⟨v, 0, 0⟩
  if h.freeList = 0 ∨ block < h.freeList then
    { h with mem := insertFirst m h.freeList block v, freeList := block }
  else
    { h with mem := insertAfter m (findPredecessor m block U64 h.freeList) block v }

/-- `kernel_heap::add_region`, with `false` for `invalid_param`. -/
def KernelHeap.addRegion (h : KernelHeap) (base size : Nat) : KernelHeap × Bool :=
  if base = 0 ∨ size ≤ HEADER_SIZE then (h, false)
  else
    let h := h.link base ⟨sub64 size HEADER_SIZE, false⟩
    let (m, block) := coalescePrev h.mem base
    ({ h with
       mem := coalesceNext m block
       totalBytes := add64 h.totalBytes size
       subheapCount := (h.subheapCount + 1) % 2 ^ 32
       regions := (base, size) :: h.regions }, true)

/-- The request that `expand` makes of the physical allocator, with the bytes it adds to the
heap, or `none` where one of its size checks fails. -/
def expandRequest (size alignment : Nat) : Option (Nat × PageRequest) :=
  if size = 0 then none
  else
    let maxSize := not64 0
    let effectiveAlignment := max alignment HEAP_MIN_ALIGNMENT
    let alignmentSlack := max effectiveAlignment PAGE_SIZE_4K
    if size > sub64 (sub64 maxSize HEADER_SIZE) alignmentSlack then none
    else
      let minimumBytes := add64 (add64 size HEADER_SIZE) alignmentSlack
      if minimumBytes > sub64 maxSize PAGE_SIZE_4K / 2 then none
      else
        let rounded := alignUp (add64 (minimumBytes * 2 % U64) PAGE_SIZE_4K) PAGE_SIZE_4K
        let growBytes := max rounded KERNEL_HEAP_MIN_SUBHEAP_SIZE
        let pageCount := growBytes / PAGE_SIZE_4K
        if pageCount = 0 ∨ pageCount > 0xFFFFFFFF then none
        else
          let requested := max alignment PAGE_SIZE_4K
          let physAlignment := if requested ≤ 0xFFFFFFFF then requested else PAGE_SIZE_4K
          some (growBytes, ⟨pageCount, physAlignment, 0⟩)

/-- `kernel_heap::expand`, where `phys` is the answer of `g_phys_alloc.allocate_pages`. -/
def KernelHeap.expand (h : KernelHeap) (size alignment phys : Nat) : KernelHeap × Bool :=
  match expandRequest size alignment with
  | none => (h, false)
  | some (growBytes, _) =>
    if phys = 0 then (h, false)
    else { h with mem := memorySetZero h.mem phys growBytes }.addRegion phys growBytes

/-- What `allocate` does to the block it takes: mark it used, and split off the bytes that
are not needed when they are worth a block of their own. -/
def takeBlock (m : Store Header) (block size : Nat) : Store Header :=
  let m := setVal m block { (m block).val with used := true }
  let blockSize := (m block).val.size
  if blockSize > add64 (add64 size HEADER_SIZE) HEAP_MIN_SPLIT_DATA_SIZE then
    let newBlock := add64 (add64 block HEADER_SIZE) size
    let m := insertAfter m block newBlock ⟨sub64 (sub64 blockSize size) HEADER_SIZE, false⟩
    setVal m block { (m block).val with size := size }
  else m

/-- The search of `kernel_heap::allocate` and what it does with the block it finds. -/
def KernelHeap.tryAllocate (h : KernelHeap) (size : Nat) : Option (KernelHeap × Nat) :=
  let block := findHeapBlock h.mem size U64 h.freeList
  if block ≠ 0 then some ({ h with mem := takeBlock h.mem block size }, blockData block)
  else none

/-- The loop of `kernel_heap::allocate`. The list holds the answers of the physical
allocator, one for each round that goes to `expand`. `none` is a call that does not return
yet: it spins while someone else has set `expanding_`, or goes on to a further round. -/
def KernelHeap.allocateLoop (h : KernelHeap) (size : Nat) :
    List Nat → Option (KernelHeap × Nat)
  | [] => h.tryAllocate size
  | phys :: answers =>
    match h.tryAllocate size with
    | some r => some r
    | none =>
      if h.expanding then none
      else
        let (h', expanded) := { h with expanding := true }.expand size HEAP_MIN_ALIGNMENT phys
        if expanded then { h' with expanding := false }.allocateLoop size answers
        else some ({ h' with expanding := false }, 0)

/-- `kernel_heap::allocate`. -/
def KernelHeap.allocate (h : KernelHeap) (size : Nat) (answers : List Nat) :
    Option (KernelHeap × Nat) :=
  if size = 0 then some (h, 0)
  else h.allocateLoop (alignUp size HEAP_MIN_ALIGNMENT) answers

/-- `kernel_heap::allocate_zero`. -/
def KernelHeap.allocateZero (h : KernelHeap) (size : Nat) (answers : List Nat) :
    Option (KernelHeap × Nat) :=
  match h.allocate size answers with
  | none => none
  | some (h, ptr) =>
    if ptr ≠ 0 then some ({ h with mem := memorySetZero h.mem ptr size }, ptr)
    else some (h, ptr)

/-- `kernel_heap::free`. -/
def KernelHeap.free (h : KernelHeap) (ptr : Nat) : KernelHeap :=
  if ptr = 0 then h
  else
    let block := sub64 ptr HEADER_SIZE
    let m := setVal h.mem block { (h.mem block).val with used := false }
    { h with mem := (coalescePrev (coalesceNext m block) block).1 }

/-! ### Runs -/

/-- A heap with the allocations that its callers hold: the pointer and the size that was
asked for. -/
structure HeapState where
  heap : KernelHeap
  live : List (Nat × Nat)

/-- One call on the heap, or a write of a caller to memory it holds. -/
inductive HeapOp
  | init (base size : Nat)
  | addRegion (base size : Nat)
  | allocate (size : Nat) (answers : List Nat)
  | allocateZero (size : Nat) (answers : List Nat)
  | free (ptr : Nat)
  | write (ptr size : Nat) (f : Store Header)

/-- Remember what an allocation returned. -/
def HeapState.grant (s : HeapState) (size : Nat) : KernelHeap × Nat → HeapState
  | (h, ptr) => ⟨h, if ptr = 0 then s.live else (ptr, size) :: s.live⟩

/-- The state after a call. A successful `init` starts over. -/
def HeapState.next (s : HeapState) : HeapOp → Option HeapState
  | .init base size =>
    let (h, ok) := s.heap.init base size
    some ⟨h, if ok then [] else s.live⟩
  | .addRegion base size => some { s with heap := (s.heap.addRegion base size).1 }
  | .allocate size answers => (s.heap.allocate size answers).map (s.grant size)
  | .allocateZero size answers => (s.heap.allocateZero size answers).map (s.grant size)
  | .free ptr => some ⟨s.heap.free ptr, s.live.filter fun g => g.1 ≠ ptr⟩
  | .write ptr size f =>
    some { s with heap := { s.heap with mem := overwrite s.heap.mem ptr (ptr + size) f } }

/-- Two ranges, each a base with a size, share no byte. -/
def Apart (a b : Nat × Nat) : Prop := a.1 + a.2 ≤ b.1 ∨ b.1 + b.2 ≤ a.1

instance (a b : Nat × Nat) : Decidable (Apart a b) :=
  inferInstanceAs (Decidable (_ ∨ _))

/-- A region that may be given to a heap with the given regions: aligned for the heap, with
its end below `2 ^ 64`, and disjoint from the regions that the heap has. -/
structure SubheapOk (regions : List (Nat × Nat)) (r : Nat × Nat) : Prop where
  aligned : HEAP_MIN_ALIGNMENT ∣ r.1
  lt : r.1 + r.2 < U64
  apart : ∀ r' ∈ regions, Apart r r'

instance (regions : List (Nat × Nat)) (r : Nat × Nat) : Decidable (SubheapOk regions r) :=
  decidable_of_iff (HEAP_MIN_ALIGNMENT ∣ r.1 ∧ r.1 + r.2 < U64 ∧ ∀ r' ∈ regions, Apart r r')
    ⟨fun ⟨h₁, h₂, h₃⟩ => ⟨h₁, h₂, h₃⟩, fun ⟨h₁, h₂, h₃⟩ => ⟨h₁, h₂, h₃⟩⟩

/-- The physical allocator hands out disjoint pages: every answer to a request of `growBytes`
is 0 or the base of a region that may be added to what the heap has by then. -/
def AnswersOk (growBytes : Nat) : List (Nat × Nat) → List Nat → Prop
  | _, [] => True
  | regions, phys :: answers =>
    (phys ≠ 0 → SubheapOk regions (phys, growBytes)) ∧
      AnswersOk growBytes (if phys = 0 then regions else (phys, growBytes) :: regions) answers

/-- `AnswersOk` is decided answer by answer. -/
def decidableAnswersOk (growBytes : Nat) :
    ∀ regions answers, Decidable (AnswersOk growBytes regions answers)
  | _, [] => isTrue trivial
  | _, _ :: answers => @instDecidableAnd _ _ _ (decidableAnswersOk growBytes _ answers)

instance (growBytes : Nat) (regions : List (Nat × Nat)) (answers : List Nat) :
    Decidable (AnswersOk growBytes regions answers) :=
  decidableAnswersOk growBytes regions answers

/-- What an allocation of `size` bytes relies on. -/
def AllocationOk (s : HeapState) (size : Nat) (answers : List Nat) : Prop :=
  size + HEAP_MIN_ALIGNMENT ≤ U64 ∧
    ∀ grow ∈ expandRequest (alignUp size HEAP_MIN_ALIGNMENT) HEAP_MIN_ALIGNMENT,
      AnswersOk grow.1 s.heap.regions answers

instance (s : HeapState) (size : Nat) (answers : List Nat) :
    Decidable (AllocationOk s size answers) :=
  inferInstanceAs (Decidable (_ ∧ _))

/-- What the heap may rely on. `init` gets an aligned region and forgets the earlier ones,
`add_region` gets a disjoint one, the round-up of a size does not wrap, and callers free and
write only what they hold. -/
def HeapState.Allowed (s : HeapState) : HeapOp → Prop
  | .init base size => SubheapOk [] (base, size)
  | .addRegion base size => SubheapOk s.heap.regions (base, size)
  | .allocate size answers => AllocationOk s size answers
  | .allocateZero size answers => AllocationOk s size answers
  | .free ptr => ptr = 0 ∨ ∃ g ∈ s.live, g.1 = ptr
  | .write ptr size _ => (ptr, size) ∈ s.live

instance (s : HeapState) : ∀ op, Decidable (s.Allowed op)
  | .init _ _ => inferInstanceAs (Decidable (SubheapOk _ _))
  | .addRegion _ _ => inferInstanceAs (Decidable (SubheapOk _ _))
  | .allocate _ _ => inferInstanceAs (Decidable (AllocationOk _ _ _))
  | .allocateZero _ _ => inferInstanceAs (Decidable (AllocationOk _ _ _))
  | .free _ => inferInstanceAs (Decidable (_ ∨ _))
  | .write _ _ _ => inferInstanceAs (Decidable (_ ∈ _))

/-- The heap as a transition system. Before the first call the heap is empty and memory
holds anything. -/
def heapSystem : TransitionSystem HeapState HeapOp :=
  (TransitionSystem.ofFun (fun s => ∃ m, s = ⟨KernelHeap.empty m, []⟩) HeapState.next).restrict
    HeapState.Allowed

end VKernel.Memory

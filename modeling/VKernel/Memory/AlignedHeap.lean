import VKernel.Memory.KernelHeap

/-!
# `VKernel.Memory.AlignedHeap`: aligned allocations of the kernel heap

`allocate_zero_aligned` looks for a free block with an aligned place for the data. The header
of the used block stands in front of that place, so the place is either the block's own data, or
far enough behind it that the bytes before the new header can stay a free block
(`alignedPlace`). The free block is then cut into up to three: a free one in front, the used one
and a free one behind (`takeAligned`).

The writes of `takeAligned` are those of the source in their order. The order matters where two
of the headers are one, which the source has a test for: it asks for a prefix of 0 bytes in front
of a used block that starts where the free one does.
-/

set_option autoImplicit false

namespace VKernel.Memory

open VKernel.Lib VKernel.Lib.LinkedList

/-- `aligned_heap_candidate`. -/
structure AlignedHeapCandidate where
  block : Nat
  alignedData : Nat
  usedHeaderAddr : Nat
  prefixDataSize : Nat
  suffixTotal : Nat
  deriving DecidableEq, Repr

/-- The inner loop of `find_aligned_heap_block`, with a bound on the number of places it looks
at: from one multiple of the alignment to the next. -/
def alignedPlace (block dataStart blockEnd size alignment : Nat) : Nat → Nat → Nat
  | 0, alignedData => alignedData
  | fuel + 1, alignedData =>
    let usedHeaderAddr := sub64 alignedData HEADER_SIZE
    if usedHeaderAddr = block then alignedData
    else if usedHeaderAddr ≥ dataStart ∧
        sub64 usedHeaderAddr dataStart ≥ HEAP_MIN_SPLIT_DATA_SIZE then alignedData
    else if add64 alignedData size > blockEnd then alignedData
    else alignedPlace block dataStart blockEnd size alignment fuel (add64 alignedData alignment)

/-- The body of the loop of `find_aligned_heap_block`, with `none` for the `continue`s. -/
def alignedFit (m : Store Header) (size alignment block : Nat) : Option AlignedHeapCandidate :=
  if (m block).val.used then none
  else
    let dataStart := add64 block HEADER_SIZE
    let blockEnd := add64 dataStart (m block).val.size
    let alignedData :=
      alignedPlace block dataStart blockEnd size alignment U64 (alignUp dataStart alignment)
    if alignedData < dataStart then none
    else
      let usedHeaderAddr := sub64 alignedData HEADER_SIZE
      if usedHeaderAddr < block ∨ add64 alignedData size > blockEnd then none
      else
        some {
          block := block
          alignedData := alignedData
          usedHeaderAddr := usedHeaderAddr
          prefixDataSize := sub64 usedHeaderAddr dataStart
          suffixTotal := sub64 blockEnd (add64 alignedData size) }

/-- `find_aligned_heap_block`, with a bound on the number of blocks it looks at. -/
def findAlignedHeapBlock (m : Store Header) (size alignment : Nat) :
    Nat → Nat → Option AlignedHeapCandidate
  | 0, _ => none
  | fuel + 1, block =>
    if block = 0 then none
    else
      match alignedFit m size alignment block with
      | some fit => some fit
      | none => findAlignedHeapBlock m size alignment fuel (m block).next

/-- The first part of what `allocate_zero_aligned` does with a candidate: the used block gets a
header of its own behind the prefix, unless the prefix is empty. -/
def splitPrefix (m : Store Header) (fit : AlignedHeapCandidate) : Store Header × Nat :=
  let block := fit.block
  let oldNext := (m block).next
  if fit.prefixDataSize = 0 ∧ fit.usedHeaderAddr = block then (m, block)
  else
    let m := setVal m block { (m block).val with size := fit.prefixDataSize }
    let usedBlock := fit.usedHeaderAddr
    let m := Function.update m usedBlock { m usedBlock with prev := block, next := oldNext }
    let m := setNext m block usedBlock
    (setPrev m oldNext usedBlock, usedBlock)

/-- The second part: the used block ends behind the request when the rest is worth a block. -/
def splitSuffix (m : Store Header) (usedBlock oldNext size : Nat) (fit : AlignedHeapCandidate) :
    Store Header :=
  let m := setVal m usedBlock { (m usedBlock).val with used := true }
  if fit.suffixTotal > HEADER_SIZE + HEAP_MIN_SPLIT_DATA_SIZE then
    let suffix := add64 fit.alignedData size
    let m := Function.update m suffix
      ⟨⟨sub64 fit.suffixTotal HEADER_SIZE, false⟩, oldNext, usedBlock⟩
    let m := setVal m usedBlock { (m usedBlock).val with size := size }
    let m := setNext m usedBlock suffix
    setPrev m oldNext suffix
  else
    let m := setVal m usedBlock { (m usedBlock).val with size := add64 size fit.suffixTotal }
    let m := setNext m usedBlock oldNext
    setPrev m oldNext usedBlock

/-- What `allocate_zero_aligned` does to the list for the candidate that it found. -/
def takeAligned (m : Store Header) (fit : AlignedHeapCandidate) (size : Nat) : Store Header :=
  let oldNext := (m fit.block).next
  let (m, usedBlock) := splitPrefix m fit
  splitSuffix m usedBlock oldNext size fit

/-- The search of `allocate_zero_aligned` and what it does with the candidate it finds. -/
def KernelHeap.tryAllocateAligned (h : KernelHeap) (size alignment : Nat) :
    Option (KernelHeap × Nat) :=
  (findAlignedHeapBlock h.mem size alignment U64 h.freeList).map fun fit =>
    ({ h with mem := memorySetZero (takeAligned h.mem fit size) fit.alignedData size },
      fit.alignedData)

/-- The loop of `allocate_zero_aligned`. The list and the result are as in `allocateLoop`. -/
def KernelHeap.allocateAlignedLoop (h : KernelHeap) (size alignment : Nat) :
    List Nat → Option (KernelHeap × Nat)
  | [] => h.tryAllocateAligned size alignment
  | phys :: answers =>
    match h.tryAllocateAligned size alignment with
    | some r => some r
    | none =>
      if h.expanding then none
      else
        let (h', expanded) := { h with expanding := true }.expand size alignment phys
        if expanded then
          { h' with expanding := false }.allocateAlignedLoop size alignment answers
        else some ({ h' with expanding := false }, 0)

/-- `kernel_heap::allocate_zero_aligned`. -/
def KernelHeap.allocateZeroAligned (h : KernelHeap) (size alignment : Nat) (answers : List Nat) :
    Option (KernelHeap × Nat) :=
  if size = 0 then some (h, 0)
  else if alignment ≤ HEAP_MIN_ALIGNMENT then h.allocateZero size answers
  else if alignment &&& sub64 alignment 1 ≠ 0 then some (h, 0)
  else h.allocateAlignedLoop (alignUp size HEAP_MIN_ALIGNMENT) alignment answers

end VKernel.Memory

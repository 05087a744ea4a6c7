import VKernel.Loader.ElfSpec
import VKernel.Memory.AlignedHeap
import VKernel.Memory.PhysAllocator
import VKernel.Memory.VirtualMemory

/-!
# `VKernel.Loader.ElfPlacement`: where the loader puts an image

The loader takes the base of an image and its size from the program headers without a check.
Here are the three numbers that it takes from them (`lowestVaddr`, `highestEnd`,
`largestAlign`), what is expected of the place (`InWindow`, `KeepsAlignment`), and the
conditions on a file under which it is met (`PlacementFits`, `AlignmentFits`).

`kernelAllocators` are the allocators of the kernel in one state of its heap and of its page
allocator. What `allocate_user_pages` answers is left open: the base of an image in an address
space is not its to choose.
-/

set_option autoImplicit false

namespace VKernel.Loader

open VKernel.Memory

/-! ### The headers -/

/-- The program headers of a file. -/
def fileHeaders (file : List UInt8) : List Phdr := parsePhdrs file (parseEhdr file)

/-- The `PT_LOAD` headers. -/
def loadHeaders (phdrs : List Phdr) : List Phdr := phdrs.filter fun ph => ph.type = PT_LOAD

/-- The lowest address of a `PT_LOAD` segment. -/
def lowestVaddr (phdrs : List Phdr) : Nat :=
  (loadHeaders phdrs).foldl (fun low ph => min low ph.vaddr) (U64 - 1)

/-- The highest end of a `PT_LOAD` segment. An end that wraps counts by what is left of it. -/
def highestEnd (phdrs : List Phdr) : Nat :=
  (loadHeaders phdrs).foldl (fun high ph => max high (add64 ph.vaddr ph.memsz)) 0

/-- The largest alignment of a `PT_LOAD` segment, and at least a page. -/
def largestAlign (phdrs : List Phdr) : Nat :=
  (loadHeaders phdrs).foldl (fun align ph => max align ph.align) 4096

/-- The size of the image. -/
def imageBytes (phdrs : List Phdr) : Nat :=
  elfAlignUp (sub64 (highestEnd phdrs) (lowestVaddr phdrs)) 4096

/-! ### The window of the image -/

/-- The loader accepts the file and finds a place for its image. From here on it returns no
error any more. -/
structure Accepted (file : List UInt8) (alloc : Allocators) (preferredBase : Option Nat)
    (span : Span) (place : Place) : Prop where
  header : checkHeader file = .ok (parseEhdr file)
  spanned : computeSpan file (parseEhdr file) (fileHeaders file) = .ok span
  chosen : choosePlace alloc preferredBase span = some place

/-- The image lies in the window that address spaces keep for it, and the entry point and the
segments lie in the image. -/
structure InWindow (result : LoadResult) (phdrs : List Phdr) (bias : Nat) : Prop where
  low : USER_IMAGE_BASE ≤ result.imageBase
  high : result.imageBase + result.imageSize ≤ USER_HEAP_BASE
  entry : result.imageBase ≤ result.entry ∧ result.entry < result.imageBase + result.imageSize
  segments : ∀ ph ∈ loadHeaders phdrs, result.imageBase ≤ add64 ph.vaddr bias ∧
    add64 ph.vaddr bias + ph.memsz ≤ result.imageBase + result.imageSize

/-- The file, loaded into an address space at `USER_IMAGE_BASE`, lies in the window. -/
def LoadsInWindow (file : List UInt8) (alloc : Allocators) : Prop :=
  ∃ span place, Accepted file alloc (some USER_IMAGE_BASE) span place ∧
    InWindow (loadResult (parseEhdr file) (fileHeaders file) span place) (fileHeaders file)
      (place.loadBias span)

/-- What the headers have to say for that. Bit 46 is the only bit of `USER_IMAGE_BASE`: the
mask of the alignment must leave it. -/
structure PlacementFits (file : List UInt8) : Prop where
  base : (largestAlign (fileHeaders file) - 1).testBit 46 = false
  size : imageBytes (fileHeaders file) ≤ USER_HEAP_BASE - USER_IMAGE_BASE
  entry : sub64 (parseEhdr file).entry (lowestVaddr (fileHeaders file)) <
    imageBytes (fileHeaders file)
  segments : ∀ ph ∈ loadHeaders (fileHeaders file),
    ph.vaddr - lowestVaddr (fileHeaders file) + ph.memsz ≤ imageBytes (fileHeaders file)

/-! ### The alignment of the segments -/

/-- The allocators in a state of the heap, with the answers that its expansions get, and of the
page allocator. -/
def kernelAllocators (userPages : Nat → Nat → Nat) (heap : KernelHeap) (answers : List Nat)
    (physAlloc : PhysAllocator) : Allocators where
  userPages := userPages
  heapZeroAligned size alignment :=
    match heap.allocateZeroAligned size alignment answers with
    | some (_, ptr) => ptr
    | none => 0
  pages count alignment := (physAlloc.allocatePages ⟨count, alignment, 0⟩).1

/-- The alignments of the segments are powers of two, and file and memory agree on them. -/
def AlignedHeaders (phdrs : List Phdr) : Prop :=
  ∀ ph ∈ loadHeaders phdrs,
    (∃ k < 64, ph.align = 2 ^ k) ∧ ph.vaddr % ph.align = ph.offset % ph.align

/-- Every segment runs at an address that agrees with its link-time address modulo its
alignment, and the bias is a multiple of all alignments. -/
structure KeepsAlignment (phdrs : List Phdr) (bias : Nat) : Prop where
  segments : ∀ ph ∈ loadHeaders phdrs, add64 ph.vaddr bias % ph.align = ph.vaddr % ph.align
  bias : ∀ ph ∈ loadHeaders phdrs, ph.align ∣ bias

/-- The pages for the image when the heap has none and the largest alignment is cut to 32
bits. -/
def cutAlignmentPages (alloc : Allocators) (preferredBase : Option Nat) (phdrs : List Phdr) :
    Option Nat :=
  let size := imageBytes phdrs
  if preferredBase = none ∧ alloc.heapZeroAligned size (largestAlign phdrs) = 0 ∧
      2 ^ 32 ≤ largestAlign phdrs then
    some (alloc.pages ((size + PAGE_SIZE_4K - 1) / PAGE_SIZE_4K % 2 ^ 32)
      (max PAGE_SIZE_4K (largestAlign phdrs % 2 ^ 32)))
  else none

/-- When the alignments are kept: the lowest address is a multiple of each of them. Pages with a
cut alignment must happen to lie as far from a multiple as the lowest address does. -/
def AlignmentFits (alloc : Allocators) (preferredBase : Option Nat) (phdrs : List Phdr) : Prop :=
  match cutAlignmentPages alloc preferredBase phdrs with
  | none => ∀ ph ∈ loadHeaders phdrs, ph.align ∣ lowestVaddr phdrs
  | some phys => ∀ ph ∈ loadHeaders phdrs, phys % ph.align = lowestVaddr phdrs % ph.align

end VKernel.Loader

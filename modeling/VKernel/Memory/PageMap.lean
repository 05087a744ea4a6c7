import VKernel.Memory.VirtualMemory

/-!
# `VKernel.Memory.PageMap`: what an address space is for

The purpose of the page tables, stated without them: an address space is a map from page
numbers to a physical page with flags. `pageMapSystem` says what each call does to the map.
The events carry the result of the call, so that the same event can be compared with a call
of the code.
-/

set_option autoImplicit false

namespace VKernel.Memory

open VKernel.Lib

/-- A map from page numbers to physical pages and flags. -/
abbrev PageMap := Nat → Option (Nat × Nat)

/-- One call on an address space with its result, or a change of the physical allocator by
the rest of the kernel. -/
inductive VmEvent
  | mapPage (virt phys flags : Nat) (ok : Bool)
  | mapContiguous (virt phys size flags : Nat) (ok : Bool)
  | unmapRange (virt size : Nat)
  | others (alloc : PhysAllocator)

/-- The number of pages that hold `size` bytes. -/
def pageCount (size : Nat) : Nat := (size + (PAGE_SIZE_4K - 1)) / PAGE_SIZE_4K

/-- Map `n` pages from the page of `virt` on to the physical pages from `phys` on. -/
def PageMap.mapRange (A : PageMap) (virt phys flags n : Nat) : PageMap :=
  fun page =>
    if virt / PAGE_SIZE_4K ≤ page ∧ page < virt / PAGE_SIZE_4K + n then
      some (add64 phys ((page - virt / PAGE_SIZE_4K) * PAGE_SIZE_4K) &&& PA_MASK, pageFlags flags)
    else A page

/-- Unmap every page that holds a byte of the range. -/
def PageMap.unmapRange (A : PageMap) (virt size : Nat) : PageMap :=
  fun page =>
    if size ≠ 0 ∧ virt / PAGE_SIZE_4K ≤ page ∧ page * PAGE_SIZE_4K < virt + size then none
    else A page

/-- The abstract address space. A `map_page` that fails changes nothing; a `map_contiguous`
that fails has mapped the pages before the one that failed. -/
def pageMapSystem : TransitionSystem PageMap VmEvent where
  init A := ∀ page, A page = none
  step A e A' :=
    match e with
    | .mapPage virt phys flags ok => A' = if ok then A.mapRange virt phys flags 1 else A
    | .mapContiguous virt phys size flags ok =>
      if ok then A' = A.mapRange virt phys flags (pageCount size)
      else ∃ n < pageCount size, A' = A.mapRange virt phys flags n
    | .unmapRange virt size => A' = A.unmapRange virt size
    | .others _ => A' = A

/-- Memory with an address space in it. -/
structure VmState where
  vm : Vm
  as : AddressSpace

end VKernel.Memory

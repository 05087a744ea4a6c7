import VKernel.Memory.VirtualMemory

/-!
# `VKernel.Memory.Protection`: changing the protection of mapped pages

`protect_process_mapping` of `kernel_api.cpp`, which `VK_SYS_MPROTECT` calls with whatever the
program passes. Every page is looked up and mapped again to where it was, with new flags. The
process context is the address space here: the call fails at once when there is none.
-/

set_option autoImplicit false

namespace VKernel.Memory

/-- `VK_PROT_NONE`. -/
def VK_PROT_NONE : Nat := 0

/-- `VK_PROT_WRITE`. -/
def VK_PROT_WRITE : Nat := 2

/-- `VK_PROT_EXEC`. -/
def VK_PROT_EXEC : Nat := 4

/-- `mapping_flags_from_prot`. -/
def mappingFlagsFromProt (prot : Nat) : Nat :=
  (if prot ≠ VK_PROT_NONE then MAP_USER else 0)
    ||| (if prot &&& VK_PROT_WRITE ≠ 0 then MAP_WRITABLE else 0)
    ||| (if prot &&& VK_PROT_EXEC ≠ 0 then MAP_EXECUTABLE else 0)

/-- The loop of `protect_process_mapping`, from `offset` on for `n` pages. -/
def Vm.protectPages (s : Vm) (as : AddressSpace) (start flags offset : Nat) : Nat → Bool × Vm
  | 0 => (true, s)
  | n + 1 =>
    match debugResolve s.mem as (add64 start offset) with
    | none => (false, s)
    | some (phys, _) =>
      match s.mapPage as (add64 start offset) (alignDown phys PAGE_SIZE_4K) flags with
      | (false, s) => (false, s)
      | (true, s) => s.protectPages as start flags (offset + PAGE_SIZE_4K) n

/-- The pages that the loop of `protect_process_mapping` goes over. -/
def protectCount (virt size : Nat) : Nat :=
  alignUp (add64 (sub64 virt (alignDown virt PAGE_SIZE_4K)) size) PAGE_SIZE_4K / PAGE_SIZE_4K

/-- `protect_process_mapping`. -/
def Vm.protectProcessMapping (s : Vm) (as : AddressSpace) (virt size prot : Nat) : Bool × Vm :=
  if size = 0 then (false, s)
  else
    s.protectPages as (alignDown virt PAGE_SIZE_4K) (mappingFlagsFromProt prot) 0
      (protectCount virt size)

end VKernel.Memory

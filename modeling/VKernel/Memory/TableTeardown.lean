import VKernel.Memory.VirtualMemory

/-!
# `VKernel.Memory.TableTeardown`: the calls of `destroy_address_space`

The teardown of an address space once more, with the calls of `free_pages` written down in their
order in place of being made. The walk never asks the allocator for anything, so that what it
does to memory and which pages it frees can be told apart from what becomes of them.
-/

set_option autoImplicit false

namespace VKernel.Memory

open VKernel.Lib

/-- The loop of `free_page_table_tree`: the memory it leaves and the pages it frees. -/
def freeEntriesLog (free : Nat → Words → Words × List Nat) (freeChild : Bool) (table : Nat) :
    List Nat → Words → Words × List Nat
  | [], m => (m, [])
  | index :: rest, m =>
    let entry := m (slot table index)
    if entry &&& PTE_PRESENT = 0 ∨ entry &&& PTE_HUGE ≠ 0 then
      freeEntriesLog free freeChild table rest m
    else
      let below := free (tableFromPhys entry) m
      let calls := if freeChild then below.2 ++ [entry &&& PA_MASK] else below.2
      let later := freeEntriesLog free freeChild table rest
        (Function.update below.1 (slot table index) 0)
      (later.1, calls ++ later.2)

/-- `free_page_table_tree`. -/
def freePageTableTreeLog : Nat → Nat → Words → Words × List Nat
  | 0, _, m => (m, [])
  | level + 1, table, m =>
    if table = 0 then (m, [])
    else freeEntriesLog (freePageTableTreeLog level) (decide (0 < level)) table (List.range 512) m

/-- The loop of `destroy_address_space`. -/
def destroyUserSlotsLog (pml4 : Nat) : List Nat → Words → Words × List Nat
  | [], m => (m, [])
  | index :: rest, m =>
    let entry := m (slot pml4 index)
    if entry &&& PTE_PRESENT ≠ 0 ∧ entry &&& PTE_HUGE = 0 then
      let below := freePageTableTreeLog 3 (tableFromPhys entry) m
      let calls := below.2 ++ [below.1 (slot pml4 index) &&& PA_MASK]
      let later := destroyUserSlotsLog pml4 rest (Function.update below.1 (slot pml4 index) 0)
      (later.1, calls ++ later.2)
    else destroyUserSlotsLog pml4 rest m

/-- The pages that `destroy_address_space` calls `free_pages` for, in order. -/
def destroyCalls (m : Words) (as : AddressSpace) : List Nat :=
  if as.pml4Phys = 0 then []
  else
    (destroyUserSlotsLog (tableFromPhys as.pml4Phys)
      (List.range' USER_PML4_FIRST (USER_PML4_LIMIT - USER_PML4_FIRST)) m).2 ++ [as.pml4Phys]

/-- Memory after a walk, and the calls of `free_pages` made after all. -/
def Vm.replay (s : Vm) (log : Words × List Nat) : Vm :=
  { s with
    mem := log.1
    alloc := log.2.foldl (fun alloc page => alloc.freePagesAt page 1) s.alloc }

/-- The loop makes the calls that are written down if the recursive call does. -/
theorem freeEntries_eq_replay {free : Nat → Vm → Vm} {freeLog : Nat → Words → Words × List Nat}
    (hfree : ∀ table (s : Vm), free table s = s.replay (freeLog table s.mem)) (freeChild : Bool)
    (table : Nat) (indices : List Nat) (s : Vm) :
    freeEntries free freeChild table indices s =
      s.replay (freeEntriesLog freeLog freeChild table indices s.mem) := by
  induction indices generalizing s with
  | nil => rfl
  | cons index rest ih =>
    unfold freeEntries freeEntriesLog
    dsimp only
    by_cases hskip : s.mem (slot table index) &&& PTE_PRESENT = 0 ∨
        s.mem (slot table index) &&& PTE_HUGE ≠ 0
    · rw [if_pos hskip, if_pos hskip]
      exact ih s
    · rw [if_neg hskip, if_neg hskip, hfree, ih]
      cases freeChild with
      | true =>
        simp only [Vm.replay, Vm.write, if_true, List.foldl_append, List.foldl_cons,
          List.foldl_nil]
      | false =>
        simp only [Vm.replay, Vm.write, Bool.false_eq_true, if_false, List.foldl_append]

/-- `free_page_table_tree` makes the calls that are written down. -/
theorem freePageTableTree_eq_replay (level table : Nat) (s : Vm) :
    freePageTableTree level table s = s.replay (freePageTableTreeLog level table s.mem) := by
  induction level generalizing table s with
  | zero => rfl
  | succ level ih =>
    unfold freePageTableTree freePageTableTreeLog
    split_ifs
    · rfl
    · exact freeEntries_eq_replay ih _ _ _ _

theorem destroyUserSlots_eq_replay (pml4 : Nat) (indices : List Nat) (s : Vm) :
    destroyUserSlots pml4 indices s = s.replay (destroyUserSlotsLog pml4 indices s.mem) := by
  induction indices generalizing s with
  | nil => rfl
  | cons index rest ih =>
    unfold destroyUserSlots destroyUserSlotsLog
    dsimp only
    by_cases htable : s.mem (slot pml4 index) &&& PTE_PRESENT ≠ 0 ∧
        s.mem (slot pml4 index) &&& PTE_HUGE = 0
    · rw [if_pos htable, if_pos htable, freePageTableTree_eq_replay, ih]
      simp only [Vm.replay, Vm.write, List.foldl_append, List.foldl_cons, List.foldl_nil]
    · rw [if_neg htable, if_neg htable]
      exact ih s

/-- `destroy_address_space` frees the pages of `destroyCalls`, in that order, and does nothing else
to the allocator. -/
theorem destroyAddressSpace_alloc (s : Vm) (as : AddressSpace) :
    (s.destroyAddressSpace as).alloc =
      (destroyCalls s.mem as).foldl (fun alloc page => alloc.freePagesAt page 1) s.alloc := by
  unfold Vm.destroyAddressSpace destroyCalls
  split_ifs
  · rfl
  · rw [destroyUserSlots_eq_replay, List.foldl_append]
    rfl

end VKernel.Memory

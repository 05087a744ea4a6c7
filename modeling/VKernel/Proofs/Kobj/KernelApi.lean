import VKernel.Kobj.KernelApi
import VKernel.Proofs.Kobj.Closure

/-!
# `VKernel.Proofs.Kobj.KernelApi`: listings through the kernel API

`klist` fills the array of `stub_kobj_list` up to its 64 slots and returns the number of all
children. `stub_kobj_list_exact` says that the call is right as long as the caller's array and the
children are not both longer than that. Beyond, the copying loop reads behind the array.

Every registry can be that long: a table of 64 PCI devices or tasks has 65 children with `count`.
-/

set_option autoImplicit false

namespace VKernel.Proofs.Kobj

open VKernel VKernel.Kobj VKernel.Sched

/-! ### The copying loop -/

/-- As far as the array goes, its children are copied one after the other. -/
theorem copyItems_eq (items : List KChildInfo) (front slots : List VkKobjChild) {rounds : Nat}
    (hitems : front.length + rounds ≤ items.length) (hslots : rounds ≤ slots.length) :
    copyItems items front.length rounds (front ++ slots) =
      some (front ++ ((items.drop front.length).take rounds).map vkChild ++ slots.drop rounds) := by
  induction rounds generalizing front slots with
  | zero => simp [copyItems]
  | succ rounds ih =>
    obtain ⟨old, slots, rfl⟩ := List.exists_cons_of_length_pos (Nat.lt_of_lt_of_le (by simp) hslots)
    have hitem : front.length < items.length := by omega
    have hset : (front ++ old :: slots).set front.length (vkChild items[front.length]) =
        (front ++ [vkChild items[front.length]]) ++ slots := by
      simp
    have hnext : front.length + 1 = (front ++ [vkChild items[front.length]]).length := by simp
    have hrest := ih (front ++ [vkChild items[front.length]]) slots
      (by rw [← hnext]; omega) (by simpa using hslots)
    rw [← hnext] at hrest
    rw [copyItems, List.getElem?_eq_getElem hitem]
    dsimp only
    rw [hset, hrest, List.drop_eq_getElem_cons hitem, List.take_succ_cons, List.map_cons,
      List.drop_succ_cons]
    simp

/-- A loop that runs beyond the array reads behind it. -/
theorem copyItems_none (items : List KChildInfo) (out : List VkKobjChild) {index rounds : Nat}
    (h : items.length < index + rounds) (hindex : index ≤ items.length) :
    copyItems items index rounds out = none := by
  induction rounds generalizing index out with
  | zero => omega
  | succ rounds ih =>
    rw [copyItems]
    cases hitem : items[index]? with
    | none => rfl
    | some item =>
      have hin := (List.getElem?_eq_some_iff.mp hitem).1
      exact ih _ (by omega) hin

/-! ### The children of a path -/

section Path

variable (w : Registries) (path : List UInt8)

/-- The children of the node that the path resolves to. -/
def pathChildren : List KChildInfo :=
  match resolveInternal w (cstr path) with
  | none => []
  | some r => nodeChildren w r.node

theorem lists_pathChildren (out : List KChildInfo) :
    Lists (klist w path out) out (pathChildren w path) := by
  cases hr : resolveInternal w (cstr path) with
  | none =>
    rw [pathChildren, klist, hr]
    exact ⟨rfl, (List.append_nil _).symm.trans (by simp)⟩
  | some r =>
    rw [pathChildren, hr]
    exact klist_lists hr out

theorem enumeratedChildren_eq : enumeratedChildren w path = pathChildren w path := by
  have hcount := (lists_pathChildren w path []).1
  rw [enumeratedChildren, hcount, (lists_pathChildren w path _).2, List.length_replicate,
    List.take_length, List.drop_eq_nil_of_le (by rw [List.length_replicate]), List.append_nil]

/-- What `klist` leaves in the array of `stub_kobj_list`. -/
theorem klist_items :
    (klist w path (List.replicate STUB_LIST_ITEMS blankChild)).1 = (pathChildren w path).length ∧
      (klist w path (List.replicate STUB_LIST_ITEMS blankChild)).2.length = STUB_LIST_ITEMS ∧
      ∀ n ≤ STUB_LIST_ITEMS, n ≤ (pathChildren w path).length →
        (klist w path (List.replicate STUB_LIST_ITEMS blankChild)).2.take n =
          (pathChildren w path).take n := by
  obtain ⟨hcount, hitems⟩ :=
    lists_pathChildren w path (List.replicate STUB_LIST_ITEMS blankChild)
  rw [List.length_replicate] at hitems
  refine ⟨hcount, ?_, ?_⟩
  · rw [hitems, List.length_append, List.length_take, List.length_drop, List.length_replicate]
    omega
  · intro n hn hchildren
    rw [hitems, List.take_append_of_le_length (by rw [List.length_take]; omega), List.take_take,
      Nat.min_eq_left hn]

/-- A listing through the kernel API is exact if and only if no more children are copied than the
array between has. -/
theorem stub_kobj_list_exact (out : List VkKobjChild) :
    ListedExactly w path out ↔ min (enumeratedChildren w path).length out.length ≤ 64 := by
  have hsize : STUB_LIST_ITEMS = 64 := rfl
  obtain ⟨hcount, hlength, htake⟩ := klist_items w path
  rw [ListedExactly, enumeratedChildren_eq, stubKobjList]
  dsimp only
  rw [hcount]
  by_cases hempty : out.length = 0
  · -- Nothing is copied, and there is no slot.
    have hnil : out = [] := List.length_eq_zero_iff.mp hempty
    rw [if_pos hempty, hnil]
    simp
  · rw [if_neg hempty]
    have hlimit : (if (pathChildren w path).length < out.length then (pathChildren w path).length
        else out.length) = min (pathChildren w path).length out.length := by
      split <;> omega
    rw [hlimit]
    by_cases hfits : min (pathChildren w path).length out.length ≤ 64
    · have hcopied := @copyItems_eq
        (klist w path (List.replicate STUB_LIST_ITEMS blankChild)).2 [] out
        (min (pathChildren w path).length out.length)
        (by rw [hlength, List.length_nil]; omega) (by omega)
      rw [List.length_nil, List.drop_zero, List.nil_append, List.nil_append,
        htake _ (by omega) (by omega)] at hcopied
      rw [hcopied]
      refine iff_of_true ?_ hfits
      rcases Nat.le_total (pathChildren w path).length out.length with hshort | hlong
      · rw [Nat.min_eq_left hshort, List.take_length,
          List.take_of_length_le (by rw [List.length_map]; exact hshort)]
        rfl
      · -- The array is full, so no slot is left over.
        rw [Nat.min_eq_right hlong, List.map_take, List.drop_length,
          List.drop_eq_nil_of_le hlong]
        rfl
    · have hover := @copyItems_none (klist w path (List.replicate STUB_LIST_ITEMS blankChild)).2
        out 0 (min (pathChildren w path).length out.length) (by omega) (Nat.zero_le _)
      rw [hover]
      exact iff_of_false (fun h => by cases h) hfits

end Path

/-- A table of 64 PCI devices. -/
def fullPciRegistries : Registries :=
  { smallRegistries with pciCount := 64, pciFits := Nat.le_refl _ }

/-- An array for `n` children. -/
def emptyItems (n : Nat) : List VkKobjChild := List.replicate n ⟨[], 0⟩

/-- The 65 children of `dev/pci` do not go into an array of 65 slots. -/
theorem full_pci_list_overruns :
    ¬ ListedExactly fullPciRegistries (ascii "dev/pci/") (emptyItems 65) := by
  have hr : resolveInternal fullPciRegistries (cstr (ascii "dev/pci/")) =
      some (makeResolved .devPci) := rfl
  have hcount : (pathChildren fullPciRegistries (ascii "dev/pci/")).length = 65 := by
    rw [pathChildren, hr]
    rfl
  rw [stub_kobj_list_exact, enumeratedChildren_eq, hcount, emptyItems, List.length_replicate]
  omega

end VKernel.Proofs.Kobj

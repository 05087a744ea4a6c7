import Mathlib.Data.List.Basic

/-!
# `VKernel.Lib.Shuffle`: merging lists

`Shuffle lists merged` says that `merged` has the elements of all `lists`, each list in its own
order. The elements are told apart by tags: the tag of an element is the index of the list
that it comes from.
-/

set_option autoImplicit false

namespace VKernel.Lib

variable {α : Type*}

/-- The elements with tag `k`. -/
def untag (tagged : List (Nat × α)) (k : Nat) : List α :=
  (tagged.filter fun p => p.1 == k).map Prod.snd

/-- `merged` is a merge of `lists` that keeps the order of each. -/
def Shuffle (lists : List (List α)) (merged : List α) : Prop :=
  ∃ tagged : List (Nat × α), tagged.map Prod.snd = merged ∧
    ∀ k, untag tagged k = lists.getD k []

theorem Shuffle.nil : Shuffle ([] : List (List α)) [] := ⟨[], rfl, fun _ => rfl⟩

/-- A list that comes behind all others. -/
theorem Shuffle.snoc {lists : List (List α)} {merged : List α} (h : Shuffle lists merged)
    (l : List α) : Shuffle (lists ++ [l]) (merged ++ l) := by
  obtain ⟨tagged, rfl, htags⟩ := h
  refine ⟨tagged ++ l.map fun a => (lists.length, a), by simp [Function.comp_def], fun k => ?_⟩
  have hsplit : untag (tagged ++ l.map fun a => (lists.length, a)) k =
      untag tagged k ++ untag (l.map fun a => (lists.length, a)) k := by
    simp [untag]
  rw [hsplit, htags k]
  by_cases hk : k = lists.length
  · -- The new list is the one with this tag.
    subst hk
    have hall : untag (l.map fun a => (lists.length, a)) lists.length = l := by
      simp [untag, List.filter_map, Function.comp_def]
    rw [hall]
    simp [List.getD]
  · have hnone : untag (l.map fun a => (lists.length, a)) k = [] := by
      simp [untag, List.filter_map, Function.comp_def, Ne.symm hk]
    rw [hnone, List.append_nil]
    rcases Nat.lt_or_gt_of_ne hk with hlt | hgt
    · simp [List.getD, List.getElem?_append_left hlt]
    · simp [List.getD, List.getElem?_eq_none (show lists.length ≤ k by omega),
        List.getElem?_eq_none (show (lists ++ [l]).length ≤ k by simp; omega)]

/-- The elements of the lists are those of the merge. -/
theorem Shuffle.mem {lists : List (List α)} {merged : List α} (h : Shuffle lists merged)
    {k : Nat} {a : α} (ha : a ∈ lists.getD k []) : a ∈ merged := by
  obtain ⟨tagged, rfl, htags⟩ := h
  rw [← htags k] at ha
  obtain ⟨p, hp, rfl⟩ := List.mem_map.mp ha
  exact List.mem_map_of_mem (List.mem_filter.mp hp).1

end VKernel.Lib

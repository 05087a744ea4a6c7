import Mathlib.Data.Set.Insert
import Mathlib.Logic.Function.Basic
import Mathlib.Data.List.Nodup

/-!
# `VKernel.Lib.Chains`: allocation tables whose entries link into chains

A table gives every cell a `Link`: the cell is free, or goes on at another cell, or is the
last of its chain, or is unusable. `Chain f a cs` says that the chain from `a` runs through
the cells `cs`, in order, and ends. Such a chain is determined by its first cell
(`Chain.unique`) and visits no cell twice (`Chain.nodup`).
-/

set_option autoImplicit false

namespace VKernel.Lib

/-- What a cell of an allocation table says. -/
inductive Link (α : Type*) where
  | free
  | next (a : α)
  | last
  | bad
  deriving DecidableEq

/-- The chain from a cell: the cells in order, the last one marked as such. -/
inductive Chain {α : Type*} (f : α → Link α) : α → List α → Prop
  | last {a : α} (h : f a = .last) : Chain f a [a]
  | cons {a b : α} {cs : List α} (h : f a = .next b) (hb : Chain f b cs) : Chain f a (a :: cs)

namespace Chain

variable {α : Type*} {f f' : α → Link α} {a b x : α} {cs ds : List α}

theorem head_mem (h : Chain f a cs) : a ∈ cs := by
  cases h with
  | last h => exact List.mem_singleton_self a
  | cons h hb => exact List.mem_cons_self

theorem ne_nil (h : Chain f a cs) : cs ≠ [] := List.ne_nil_of_mem h.head_mem

/-- The first cell determines the chain. -/
theorem unique (h : Chain f a cs) (h' : Chain f a ds) : cs = ds := by
  induction h generalizing ds with
  | last h =>
    cases h' with
    | last _ => rfl
    | cons h2 _ => rw [h] at h2; cases h2
  | cons h hb ih =>
    cases h' with
    | last h2 => rw [h] at h2; cases h2
    | cons h2 hb2 =>
      rw [h] at h2
      cases h2
      rw [ih hb2]

/-- From each of its cells on, a chain is a chain. -/
theorem of_mem (h : Chain f a cs) (hx : x ∈ cs) : ∃ ys zs, cs = ys ++ zs ∧ Chain f x zs := by
  induction h with
  | last h =>
    rw [List.mem_singleton] at hx
    subst hx
    exact ⟨[], [x], rfl, .last h⟩
  | @cons a b cs h hb ih =>
    rcases List.mem_cons.mp hx with rfl | hx
    · exact ⟨[], x :: cs, rfl, .cons h hb⟩
    · obtain ⟨ys, zs, rfl, hzs⟩ := ih hx
      exact ⟨a :: ys, zs, rfl, hzs⟩

/-- A chain visits no cell twice: a second visit would go on as the first one did, and never
end. -/
theorem nodup (h : Chain f a cs) : cs.Nodup := by
  induction h with
  | last h => exact List.nodup_singleton _
  | @cons a b cs h hb ih =>
    refine List.nodup_cons.mpr ⟨?_, ih⟩
    intro ha
    obtain ⟨ys, zs, rfl, hzs⟩ := hb.of_mem ha
    have hlen := congrArg List.length (hzs.unique (.cons h hb))
    simp only [List.length_cons, List.length_append] at hlen
    omega

/-- A chain depends on its own cells only. -/
theorem congr (h : Chain f a cs) (hf : ∀ x ∈ cs, f' x = f x) : Chain f' a cs := by
  induction h with
  | last h => exact .last ((hf _ List.mem_cons_self).trans h)
  | cons h hb ih =>
    refine .cons ((hf _ List.mem_cons_self).trans h) (ih ?_)
    intro x hx
    exact hf x (List.mem_cons_of_mem _ hx)

/-- The cells of a chain are in use. -/
theorem ne_free (h : Chain f a cs) (hx : x ∈ cs) : f x ≠ .free := by
  obtain ⟨ys, zs, -, hzs⟩ := h.of_mem hx
  cases hzs with
  | last h => rw [h]; exact fun h => by cases h
  | cons h _ => rw [h]; exact fun h => by cases h

/-- Linking the last cell of a chain to another chain appends it. -/
theorem append_of_link [DecidableEq α] (h : Chain f a cs) (hb : Chain f b ds)
    (hdisj : ∀ x ∈ cs, x ∉ ds) :
    Chain (Function.update f (cs.getLast h.ne_nil) (.next b)) a (cs ++ ds) := by
  induction h with
  | @last a h =>
    refine .cons (Function.update_self ..) (hb.congr ?_)
    intro x hx
    apply Function.update_of_ne
    rintro rfl
    exact hdisj _ (List.mem_singleton_self _) hx
  | @cons a c cs h hc ih =>
    have hne : a ≠ (a :: cs).getLast (List.cons_ne_nil a cs) := by
      intro ha
      rw [List.getLast_cons hc.ne_nil] at ha
      have hnodup := List.nodup_cons.mp (Chain.cons h hc).nodup
      exact hnodup.1 (ha ▸ List.getLast_mem hc.ne_nil)
    refine .cons ((Function.update_of_ne hne _ _).trans h) ?_
    rw [List.getLast_cons hc.ne_nil]
    exact ih fun x hx => hdisj x (List.mem_cons_of_mem _ hx)

end Chain

end VKernel.Lib

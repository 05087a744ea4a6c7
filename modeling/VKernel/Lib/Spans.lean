import Mathlib.Data.List.Pairwise
import Mathlib.Tactic.Common

/-!
# `VKernel.Lib.Spans`: a list of spans in any order

A table of records in which each record holds the points of a half-open span `[lo a, hi a)`. The
records stand in any order, since new ones are linked at the front; what counts is that the spans
are `Spaced`. Then a point has one `holder` at most, and the three operations on such a table
change it in one span each:

* `holder_cons`: a new record holds its span.
* `holder_unlink`: with a record its span is free, and the other points keep their holders.
* `holder_shorten`: a record that gives up the end of its span holds what is left.

`find?_split` is the view of a linked list that is searched for a record: the list in front of it,
the record and the list behind.
-/

set_option autoImplicit false

namespace VKernel.Lib

section Spans

variable {α : Type*} (lo hi : α → Nat)

/-- No two spans share a point. -/
def Spaced (l : List α) : Prop := l.Pairwise fun a b => hi a ≤ lo b ∨ hi b ≤ lo a

/-- The first record whose span has the point. -/
def holder (l : List α) (x : Nat) : Option α := l.find? fun a => decide (lo a ≤ x ∧ x < hi a)

variable {lo hi} {a b : α} {l l₁ l₂ : List α} {x : Nat}

theorem holder_cons :
    holder lo hi (a :: l) x = if lo a ≤ x ∧ x < hi a then some a else holder lo hi l x := by
  unfold holder
  by_cases h : lo a ≤ x ∧ x < hi a
  · rw [if_pos h]
    exact List.find?_cons_of_pos (decide_eq_true h)
  · rw [if_neg h]
    exact List.find?_cons_of_neg (by rwa [decide_eq_true_eq])

theorem holder_mem (h : holder lo hi l x = some a) : a ∈ l ∧ lo a ≤ x ∧ x < hi a :=
  ⟨List.mem_of_find?_eq_some h,
    of_decide_eq_true (List.find?_some (p := fun a => decide (lo a ≤ x ∧ x < hi a)) h)⟩

theorem holder_eq_none_iff : holder lo hi l x = none ↔ ∀ a ∈ l, ¬ (lo a ≤ x ∧ x < hi a) := by
  unfold holder
  rw [List.find?_eq_none]
  exact forall₂_congr fun a _ => not_congr decide_eq_true_iff

/-- Two records of the list with a common point are the same. -/
theorem Spaced.eq_of_common (h : Spaced lo hi l) (ha : a ∈ l) (hb : b ∈ l)
    (hax : lo a ≤ x ∧ x < hi a) (hbx : lo b ≤ x ∧ x < hi b) : a = b := by
  induction h with
  | nil => exact absurd ha List.not_mem_nil
  | cons hfirst _ ih =>
    rcases List.mem_cons.mp ha with rfl | ha' <;> rcases List.mem_cons.mp hb with rfl | hb'
    · rfl
    · exact absurd (hfirst b hb') (by omega)
    · exact absurd (hfirst a ha') (by omega)
    · exact ih ha' hb'

/-- The holder of a point is the record whose span has it. -/
theorem Spaced.holder_eq (h : Spaced lo hi l) (ha : a ∈ l) (hx : lo a ≤ x ∧ x < hi a) :
    holder lo hi l x = some a := by
  cases hb : holder lo hi l x with
  | none => exact absurd hx (holder_eq_none_iff.mp hb a ha)
  | some b =>
    obtain ⟨hmem, hbx⟩ := holder_mem hb
    rw [h.eq_of_common hmem ha hbx hx]

/-- What is apart from every record can be linked in front. -/
theorem Spaced.cons (h : Spaced lo hi l) (ha : ∀ b ∈ l, hi a ≤ lo b ∨ hi b ≤ lo a) :
    Spaced lo hi (a :: l) :=
  List.Pairwise.cons ha h

/-- A record of the list is apart from those in front of it and behind it. -/
theorem Spaced.middle (h : Spaced lo hi (l₁ ++ a :: l₂)) :
    Spaced lo hi (l₁ ++ l₂) ∧ ∀ b ∈ l₁ ++ l₂, hi a ≤ lo b ∨ hi b ≤ lo a := by
  unfold Spaced at h ⊢
  simp only [List.pairwise_append, List.pairwise_cons, List.mem_cons] at h ⊢
  obtain ⟨h₁, ⟨ha, h₂⟩, hall⟩ := h
  refine ⟨⟨h₁, h₂, fun b hb c hc => hall b hb c (Or.inr hc)⟩, fun b hb => ?_⟩
  rcases List.mem_append.mp hb with hb | hb
  · exact (hall b hb a (Or.inl rfl)).symm
  · exact ha b hb

/-- The order of the list does not matter. -/
theorem Spaced.insert (h : Spaced lo hi (l₁ ++ l₂))
    (ha : ∀ b ∈ l₁ ++ l₂, hi a ≤ lo b ∨ hi b ≤ lo a) : Spaced lo hi (l₁ ++ a :: l₂) := by
  unfold Spaced at h ⊢
  simp only [List.pairwise_append, List.pairwise_cons, List.mem_cons] at h ⊢
  obtain ⟨h₁, h₂, hall⟩ := h
  refine ⟨h₁, ⟨fun b hb => ha b (List.mem_append_right _ hb), h₂⟩, ?_⟩
  rintro b hb c (rfl | hc)
  · exact (ha b (List.mem_append_left _ hb)).symm
  · exact hall b hb c hc

/-- A record is unlinked: its span has no holder any more. -/
theorem holder_unlink (h : Spaced lo hi (l₁ ++ a :: l₂)) :
    holder lo hi (l₁ ++ l₂) x =
      if lo a ≤ x ∧ x < hi a then none else holder lo hi (l₁ ++ a :: l₂) x := by
  obtain ⟨-, hall⟩ := h.middle
  by_cases hx : lo a ≤ x ∧ x < hi a
  · rw [if_pos hx, holder_eq_none_iff]
    intro b hb hbx
    have hside := hall b hb
    omega
  · rw [if_neg hx]
    unfold holder
    rw [List.find?_append, List.find?_append,
      List.find?_cons_of_neg (by rwa [decide_eq_true_eq])]

/-- A record gives up the end of its span. -/
theorem holder_shorten (h : Spaced lo hi (l₁ ++ a :: l₂)) (hlo : lo b = lo a) (hhi : hi b ≤ hi a) :
    Spaced lo hi (l₁ ++ b :: l₂) ∧ holder lo hi (l₁ ++ b :: l₂) x =
      if lo b ≤ x ∧ x < hi b then some b
      else if lo a ≤ x ∧ x < hi a then none else holder lo hi (l₁ ++ a :: l₂) x := by
  obtain ⟨hrest, hall⟩ := h.middle
  have hnew : Spaced lo hi (l₁ ++ b :: l₂) := by
    refine hrest.insert fun c hc => ?_
    have hside := hall c hc
    omega
  refine ⟨hnew, ?_⟩
  by_cases hx : lo b ≤ x ∧ x < hi b
  · rw [if_pos hx, hnew.holder_eq (by simp) hx]
  · rw [if_neg hx, ← holder_unlink h, holder_unlink hnew, if_neg hx]

/-! ### Searching a linked list -/

/-- The first record that the search accepts is changed in place. -/
def changeFirst (p : α → Bool) (f : α → α) : List α → List α
  | [] => []
  | a :: l => if p a then f a :: l else a :: changeFirst p f l

/-- A search that finds a record cuts the list in two. -/
theorem find?_split {p : α → Bool} (h : l.find? p = some a) :
    ∃ l₁ l₂, l = l₁ ++ a :: l₂ ∧ p a = true ∧ l.eraseP p = l₁ ++ l₂ ∧
      ∀ f, changeFirst p f l = l₁ ++ f a :: l₂ := by
  induction l with
  | nil => cases h
  | cons c l ih =>
    by_cases hc : p c = true
    · rw [List.find?_cons_of_pos hc, Option.some.injEq] at h
      subst h
      exact ⟨[], l, rfl, hc, List.eraseP_cons_of_pos hc, fun f => if_pos hc⟩
    · rw [List.find?_cons_of_neg hc] at h
      obtain ⟨l₁, l₂, rfl, ha, herase, hchange⟩ := ih h
      refine ⟨c :: l₁, l₂, rfl, ha, ?_, fun f => ?_⟩
      · rw [List.eraseP_cons_of_neg hc, herase]
        rfl
      · show (if p c = true then f c :: (l₁ ++ a :: l₂)
          else c :: changeFirst p f (l₁ ++ a :: l₂)) = _
        rw [if_neg hc, hchange]
        rfl

end Spans

end VKernel.Lib

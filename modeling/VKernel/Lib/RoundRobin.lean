import Mathlib.Data.List.Sort

/-!
# `VKernel.Lib.RoundRobin`: serving a fixed set in cyclic order

A round-robin server has a sorted list of clients and the client it served last. It serves
the first one in `cyclicAfter`, the list read from behind that client on, with
wrap-around. `cyclicAfter_step` says that this list is a queue: serving its head moves the
head to the end. `Rotates` is a run of such a queue, and `Rotates.window` is fairness: as
many consecutive turns as there are clients serve each of them once.
-/

set_option autoImplicit false

namespace VKernel.Lib

section Cyclic

variable {α : Type*} [LinearOrder α]

/-- The members of `l` behind `cur`, then those up to it. -/
def cyclicAfter (l : List α) (cur : α) : List α :=
  l.filter (cur < ·) ++ l.filter (· ≤ cur)

theorem mem_cyclicAfter {l : List α} {cur x : α} : x ∈ cyclicAfter l cur ↔ x ∈ l := by
  unfold cyclicAfter
  rw [List.mem_append, List.mem_filter, List.mem_filter, decide_eq_true_iff, decide_eq_true_iff,
    ← and_or_left]
  exact and_iff_left (lt_or_ge cur x)

theorem filter_cyclicAfter (p : α → Bool) (l : List α) (cur : α) :
    (cyclicAfter l cur).filter p = cyclicAfter (l.filter p) cur := by
  unfold cyclicAfter
  rw [List.filter_append, List.filter_comm, List.filter_comm p]

theorem cyclicAfter_perm (l : List α) (cur : α) : (cyclicAfter l cur).Perm l := by
  have hswap : l.filter (· ≤ cur) = l.filter fun x => !decide (cur < x) :=
    List.filter_congr fun x _ => by rw [← decide_not, decide_eq_decide, not_lt]
  unfold cyclicAfter
  rw [hswap]
  exact List.filter_append_perm _ l

/-- In front of `x` everything is up to `x`, behind it nothing is. -/
theorem cyclicAfter_split {a b : List α} {x : α} (ha : ∀ y ∈ a, y < x) (hb : ∀ y ∈ b, x < y) :
    cyclicAfter (a ++ x :: b) x = b ++ (a ++ [x]) := by
  have ha₁ : a.filter (x < ·) = [] :=
    List.filter_eq_nil_iff.mpr fun y hy => by simpa using (ha y hy).le
  have ha₂ : a.filter (· ≤ x) = a :=
    List.filter_eq_self.mpr fun y hy => by simpa using (ha y hy).le
  have hb₁ : b.filter (x < ·) = b := List.filter_eq_self.mpr fun y hy => by simpa using hb y hy
  have hb₂ : b.filter (· ≤ x) = [] :=
    List.filter_eq_nil_iff.mpr fun y hy => by simpa using hb y hy
  unfold cyclicAfter
  rw [List.filter_append, List.filter_append, List.filter_cons, List.filter_cons, ha₁, ha₂, hb₁,
    hb₂]
  simp

/-- Serving the head moves it to the end. -/
theorem cyclicAfter_step {l : List α} (hl : l.Pairwise (· < ·)) {cur x : α} {rest : List α}
    (h : cyclicAfter l cur = x :: rest) : cyclicAfter l x = rest ++ [x] := by
  have hx : x ∈ l := mem_cyclicAfter.mp (h ▸ List.mem_cons_self)
  obtain ⟨a, b, rfl⟩ := List.append_of_mem hx
  obtain ⟨-, hb, hab⟩ := List.pairwise_append.mp hl
  have ha : ∀ y ∈ a, y < x := fun y hy => hab y hy x List.mem_cons_self
  have hb : ∀ y ∈ b, x < y := (List.pairwise_cons.mp hb).1
  rw [cyclicAfter_split ha hb]
  by_cases hcur : cur < x
  · -- `x` is the first one behind `cur`, so what is in front of it is up to `cur`.
    have hafter : (a ++ x :: b).filter (cur < ·) = a.filter (cur < ·) ++ x :: b := by
      have hb' : b.filter (cur < ·) = b :=
        List.filter_eq_self.mpr fun y hy => by simpa using hcur.trans (hb y hy)
      rw [List.filter_append, List.filter_cons, hb', decide_eq_true hcur]
      rfl
    have hupto : (a ++ x :: b).filter (· ≤ cur) = a.filter (· ≤ cur) := by
      have hb' : b.filter (· ≤ cur) = [] :=
        List.filter_eq_nil_iff.mpr fun y hy => by simpa using hcur.trans (hb y hy)
      rw [List.filter_append, List.filter_cons, hb', decide_eq_false (not_le.mpr hcur)]
      exact List.append_nil _
    unfold cyclicAfter at h
    rw [hafter, hupto, List.append_assoc] at h
    have hnone : a.filter (cur < ·) = [] := by
      cases hfront : a.filter (cur < ·) with
      | nil => rfl
      | cons y ys =>
        rw [hfront, List.cons_append, List.cons.injEq] at h
        have hy : y ∈ a := List.mem_of_mem_filter (hfront ▸ List.mem_cons_self)
        exact absurd h.1 (ha y hy).ne
    have hall : a.filter (· ≤ cur) = a := by
      refine List.filter_eq_self.mpr fun y hy => ?_
      have := List.filter_eq_nil_iff.mp hnone y hy
      simpa using this
    rw [hnone, hall, List.nil_append, List.cons_append, List.cons.injEq] at h
    rw [← h.2, List.append_assoc]
  · -- Nothing is behind `cur`, and `x` is the first of all.
    have hle : x ≤ cur := not_lt.mp hcur
    have hnone : (a ++ x :: b).filter (cur < ·) = [] := by
      cases hfront : (a ++ x :: b).filter (cur < ·) with
      | nil => rfl
      | cons y ys =>
        have hy := List.mem_filter.mp (hfront ▸ List.mem_cons_self : y ∈ _)
        unfold cyclicAfter at h
        rw [hfront, List.cons_append, List.cons.injEq] at h
        rw [h.1, decide_eq_true_iff] at hy
        exact absurd hy.2 hcur
    have hperm := cyclicAfter_perm (a ++ x :: b) cur
    have hall : (a ++ x :: b).filter (· ≤ cur) = a ++ x :: b := by
      refine List.filter_eq_self.mpr fun y hy => ?_
      have := List.filter_eq_nil_iff.mp hnone y hy
      simpa using this
    unfold cyclicAfter at h
    rw [hnone, hall, List.nil_append] at h
    cases a with
    | nil =>
      rw [List.nil_append, List.cons.injEq] at h
      rw [h.2]
      rfl
    | cons y ys =>
      rw [List.cons_append, List.cons.injEq] at h
      exact absurd h.1 (ha y List.mem_cons_self).ne

end Cyclic

section Queue

variable {α : Type*}

/-- The clients that a queue serves: its head each time, which then goes to the end. -/
inductive Rotates : List α → List α → Prop
  | idle (q : List α) : Rotates q []
  | turn {x : α} {rest served : List α} (h : Rotates (rest ++ [x]) served) :
      Rotates (x :: rest) (x :: served)

/-- After some turns the rest of the run is one of a queue with the same clients. -/
theorem Rotates.drop {q served : List α} (pre : List α) (h : Rotates q (pre ++ served)) :
    ∃ q', q'.Perm q ∧ Rotates q' served := by
  induction pre generalizing q with
  | nil => exact ⟨q, .refl q, h⟩
  | cons x pre ih =>
    cases h with
    | turn h =>
      rename_i rest
      obtain ⟨q', hperm, hq'⟩ := ih h
      exact ⟨q', hperm.trans (List.perm_append_singleton x rest), hq'⟩

/-- The first turns serve the queue from its head on. -/
theorem Rotates.front {a b served : List α} (h : Rotates (a ++ b) served)
    (hlen : a.length ≤ served.length) : a <+: served := by
  induction a generalizing b served with
  | nil => exact List.nil_prefix
  | cons x a ih =>
    cases h with
    | idle => exact absurd hlen (by simp)
    | turn h =>
      rename_i served
      have h : Rotates (a ++ (b ++ [x])) served := List.append_assoc a b [x] ▸ h
      exact List.cons_prefix_cons.mpr ⟨rfl, ih h (by simpa using hlen)⟩

/-- As many consecutive turns as there are clients serve each of them once. -/
theorem Rotates.window {q served w : List α} (h : Rotates q served) (hw : w <:+: served)
    (hlen : w.length = q.length) : w.Perm q := by
  obtain ⟨pre, post, rfl⟩ := hw
  rw [List.append_assoc] at h
  obtain ⟨q', hperm, hq'⟩ := h.drop pre
  have hlen' : q'.length = w.length := by rw [hperm.length_eq, hlen]
  rw [← List.append_nil q'] at hq'
  have hfront := hq'.front (by rw [List.length_append]; omega)
  have hprefix : q' <+: w :=
    List.prefix_of_prefix_length_le hfront (List.prefix_append w post) hlen'.le
  exact hprefix.eq_of_length hlen' ▸ hperm

end Queue

end VKernel.Lib

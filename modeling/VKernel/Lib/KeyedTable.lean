import Mathlib.Data.List.Induction
import Mathlib.Order.Lattice

/-!
# `VKernel.Lib.KeyedTable`: a table that is sorted in place and searched by halving

`sortByKey` is the insertion sort of an array, loop by loop: each entry is taken out, the entries in
front of it with larger keys move up by one place, and it goes to the place that is left. The result
has the same entries (`sortByKey_perm`) with keys in order (`sortByKey_ordered`).

`upperBound` halves an interval of places and finds the first entry with a key above a bound;
`floorEntry` is the entry in front of it. In a table with keys in order that is an entry with the
greatest key that the bound allows (`floorEntry_eq_some`), and there is none only if every key is
above the bound (`floorEntry_eq_none_iff`).
-/

set_option autoImplicit false

namespace VKernel.Lib.KeyedTable

variable {α κ : Type} [LinearOrder κ] (key : α → κ)

/-- The keys are in order. -/
def Ordered (es : List α) : Prop := es.Pairwise fun a b => key a ≤ key b

/-! ### The sort -/

/-- The entries in front of place `j` with larger keys than `x` move up, and `x` gets the place. -/
def moveDown (x : α) : Nat → List α → List α
  | 0, es => es.set 0 x
  | j + 1, es =>
    match es[j]? with
    | none => es
    | some e => if key x < key e then moveDown x j (es.set (j + 1) e) else es.set (j + 1) x

/-- A round of the sort, for the entry at place `i`. -/
def sortRound (es : List α) (i : Nat) : List α :=
  match es[i]? with
  | none => es
  | some x => moveDown key x i es

/-- The rounds for all places but the first. -/
def sortByKey (es : List α) : List α :=
  (List.range' 1 (es.length - 1)).foldl (sortRound key) es

variable {key}

/-- Of the entries in front of the place, and of `x`, it makes a sequence in order. What is behind
the place stays. -/
theorem moveDown_spec (x slot : α) {front : List α} (hordered : Ordered key front)
    (back : List α) :
    ∃ out, moveDown key x front.length (front ++ slot :: back) = out ++ back ∧
      out.Perm (x :: front) ∧ Ordered key out := by
  -- From the last entry in front of the place to the first one, as the loop goes.
  induction front using List.reverseRecOn generalizing slot back with
  | nil =>
    refine ⟨[x], ?_, List.Perm.refl _, List.pairwise_singleton _ _⟩
    rw [List.length_nil, List.nil_append, moveDown]
    rfl
  | append_singleton front e ih =>
    have hfront := List.pairwise_append.mp hordered
    have hentry : ((front ++ [e]) ++ slot :: back)[front.length]? = some e := by simp
    have hset : ∀ y, ((front ++ [e]) ++ slot :: back).set (front.length + 1) y
        = front ++ e :: y :: back := by
      intro y
      simp
    rw [List.length_append, List.length_singleton, moveDown, hentry]
    by_cases hlt : key x < key e
    · -- `e` moves up. All that the loop makes of the rest is not above it.
      obtain ⟨out, hout, hperm, hordered'⟩ := ih e hfront.1 (e :: back)
      have hbelow : ∀ a ∈ out, key a ≤ key e := by
        intro a ha
        rcases List.mem_cons.mp (hperm.mem_iff.mp ha) with rfl | ha
        · exact le_of_lt hlt
        · exact hfront.2.2 a ha e List.mem_cons_self
      refine ⟨out ++ [e], ?_, ?_, ?_⟩
      · show (if key x < key e then _ else _) = _
        rw [if_pos hlt, hset, hout, List.append_assoc]
        rfl
      · exact hperm.append_right [e]
      · refine List.pairwise_append.mpr ⟨hordered', List.pairwise_singleton _ _, ?_⟩
        intro a ha b hb
        rw [List.mem_singleton.mp hb]
        exact hbelow a ha
    · -- `x` stays behind `e`, and so behind all others.
      refine ⟨front ++ [e, x], ?_, ?_, ?_⟩
      · show (if key x < key e then _ else _) = _
        rw [if_neg hlt, hset, List.append_assoc]
        rfl
      · have hmoved : ((front ++ [e]) ++ [x]).Perm ([x] ++ (front ++ [e])) := List.perm_append_comm
        rwa [List.append_assoc] at hmoved
      · have hge : ∀ a ∈ front ++ [e], key a ≤ key x := by
          intro a ha
          rcases List.mem_append.mp ha with ha | ha
          · exact le_trans (hfront.2.2 a ha e List.mem_cons_self) (le_of_not_gt hlt)
          · rw [List.mem_singleton.mp ha]
            exact le_of_not_gt hlt
        rw [show front ++ [e, x] = (front ++ [e]) ++ [x] from by simp]
        refine List.pairwise_append.mpr ⟨hordered, List.pairwise_singleton _ _, ?_⟩
        intro a ha b hb
        rw [List.mem_singleton.mp hb]
        exact hge a ha

/-- The rounds for `rest`, with what is in front of it in order. -/
theorem sortRounds_spec {done : List α} (hordered : Ordered key done) (rest : List α) :
    ((List.range' done.length rest.length).foldl (sortRound key) (done ++ rest)).Perm
        (done ++ rest) ∧
      Ordered key
        ((List.range' done.length rest.length).foldl (sortRound key) (done ++ rest)) := by
  induction rest generalizing done with
  | nil =>
    rw [List.append_nil]
    exact ⟨List.Perm.refl _, hordered⟩
  | cons x rest ih =>
    obtain ⟨out, hout, hperm, hordered'⟩ := moveDown_spec x x hordered rest
    have hlength : out.length = done.length + 1 := hperm.length_eq
    have hround : sortRound key (done ++ x :: rest) done.length = out ++ rest := by
      rw [sortRound, List.getElem?_append_right (Nat.le_refl _), Nat.sub_self]
      exact hout
    have hrest := ih hordered'
    rw [hlength] at hrest
    rw [List.length_cons, List.range'_succ, List.foldl_cons, hround]
    refine ⟨hrest.1.trans ?_, hrest.2⟩
    -- The round has changed the order only.
    calc (out ++ rest).Perm (x :: done ++ rest) := hperm.append_right rest
      _ = x :: (done ++ rest) := rfl
      List.Perm _ (done ++ x :: rest) := List.perm_middle.symm

theorem sortByKey_spec (es : List α) :
    (sortByKey key es).Perm es ∧ Ordered key (sortByKey key es) := by
  cases es with
  | nil => exact ⟨List.Perm.refl _, List.Pairwise.nil⟩
  | cons e es =>
    -- The first entry alone is in order.
    have hfirst : Ordered key [e] := List.pairwise_singleton _ _
    exact sortRounds_spec hfirst es

/-- The sort keeps the entries. -/
theorem sortByKey_perm (es : List α) : (sortByKey key es).Perm es := (sortByKey_spec es).1

/-- The sort brings the keys in order. -/
theorem sortByKey_ordered (es : List α) : Ordered key (sortByKey key es) := (sortByKey_spec es).2

/-! ### The search -/

variable (key)

/-- The loop of the search, between the places `left` and `right`. -/
def upperBoundLoop (es : List α) (k : κ) (left right : Nat) : Nat :=
  if left < right then
    match es[left + (right - left) / 2]? with
    | none => left
    | some e =>
      if key e ≤ k then upperBoundLoop es k (left + (right - left) / 2 + 1) right
      else upperBoundLoop es k left (left + (right - left) / 2)
  else left
termination_by right - left

/-- The first place with a key above `k`, in a table with keys in order. -/
def upperBound (es : List α) (k : κ) : Nat := upperBoundLoop key es k 0 es.length

/-- The entry in front of the first one with a key above `k`. -/
def floorEntry (es : List α) (k : κ) : Option α :=
  if upperBound key es k = 0 then none
  else
    match es[upperBound key es k - 1]? with
    | none => none
    | some e => if k < key e then none else some e

/-- What the search keeps of an interval: no key in front of it is above `k`, and every key behind
it is. -/
structure Between (es : List α) (k : κ) (left right : Nat) : Prop where
  le : left ≤ right
  le_length : right ≤ es.length
  below : ∀ (i : Nat) (e : α), i < left → es[i]? = some e → key e ≤ k
  above : ∀ (i : Nat) (e : α), right ≤ i → es[i]? = some e → k < key e

variable {key}

/-- Keys in order, by places. -/
theorem Ordered.le_of_le {es : List α} (hordered : Ordered key es) {i j : Nat} {a b : α}
    (hi : es[i]? = some a) (hj : es[j]? = some b) (hle : i ≤ j) : key a ≤ key b := by
  obtain ⟨hi', rfl⟩ := List.getElem?_eq_some_iff.mp hi
  obtain ⟨hj', rfl⟩ := List.getElem?_eq_some_iff.mp hj
  rcases Nat.eq_or_lt_of_le hle with rfl | hlt
  · exact le_refl _
  · exact List.pairwise_iff_getElem.mp hordered i j hi' hj' hlt

/-- The search ends with an interval without places. -/
theorem upperBoundLoop_spec {es : List α} (hordered : Ordered key es) (k : κ) {left right : Nat}
    (h : Between key es k left right) :
    Between key es k (upperBoundLoop key es k left right)
      (upperBoundLoop key es k left right) := by
  fun_induction upperBoundLoop key es k left right with
  | case1 left right hlt hnone =>
    -- There is an entry in the middle.
    have hlength := h.le_length
    have := List.getElem?_eq_none_iff.mp hnone
    omega
  | case2 left right hlt e he hle ih =>
    refine ih ⟨by omega, h.le_length, ?_, h.above⟩
    intro i a hi ha
    exact le_trans (hordered.le_of_le ha he (by omega)) hle
  | case3 left right hlt e he hgt ih =>
    have hlength := h.le_length
    refine ih ⟨by omega, by omega, h.below, ?_⟩
    intro i a hi ha
    exact lt_of_lt_of_le (lt_of_not_ge hgt) (hordered.le_of_le he ha hi)
  | case4 left right hge =>
    have hle := h.le
    have heq : left = right := by omega
    subst heq
    exact h

theorem upperBound_spec {es : List α} (hordered : Ordered key es) (k : κ) :
    Between key es k (upperBound key es k) (upperBound key es k) := by
  refine upperBoundLoop_spec hordered k ⟨Nat.zero_le _, Nat.le_refl _, ?_, ?_⟩
  · intro i e hi
    exact absurd hi (Nat.not_lt_zero i)
  · intro i e hi he
    rw [List.getElem?_eq_none hi] at he
    cases he

/-- The entry that is found has the greatest key that is not above `k`. -/
theorem floorEntry_eq_some {es : List α} (hordered : Ordered key es) {k : κ} {e : α}
    (h : floorEntry key es k = some e) :
    e ∈ es ∧ key e ≤ k ∧ ∀ a ∈ es, key a ≤ k → key a ≤ key e := by
  have hspec := upperBound_spec hordered k
  unfold floorEntry at h
  by_cases hzero : upperBound key es k = 0
  · rw [if_pos hzero] at h
    cases h
  · rw [if_neg hzero] at h
    cases hentry : es[upperBound key es k - 1]? with
    | none =>
      rw [hentry] at h
      cases h
    | some b =>
      rw [hentry] at h
      change (if k < key b then none else some b) = some e at h
      by_cases hlt : k < key b
      · rw [if_pos hlt] at h
        cases h
      · rw [if_neg hlt] at h
        cases h
        refine ⟨List.mem_of_getElem? hentry, le_of_not_gt hlt, fun a ha hak => ?_⟩
        -- An entry that is not above `k` is in front of the bound.
        obtain ⟨i, hi⟩ := List.getElem?_of_mem ha
        by_cases hfront : i < upperBound key es k
        · exact hordered.le_of_le hi hentry (by omega)
        · exact absurd hak (not_le_of_gt (hspec.above i a (Nat.le_of_not_lt hfront) hi))

/-- Nothing is found only if every key is above `k`. -/
theorem floorEntry_eq_none_iff {es : List α} (hordered : Ordered key es) {k : κ} :
    floorEntry key es k = none ↔ ∀ e ∈ es, k < key e := by
  have hspec := upperBound_spec hordered k
  constructor
  · intro h e he
    unfold floorEntry at h
    by_cases hzero : upperBound key es k = 0
    · obtain ⟨i, hi⟩ := List.getElem?_of_mem he
      exact hspec.above i e (by omega) hi
    · -- The entry in front of the bound is not above `k`, so it would have been found.
      have hlength := hspec.le_length
      have hentry := List.getElem?_eq_getElem
        (show upperBound key es k - 1 < es.length from by omega)
      have hbelow := hspec.below _ _ (by omega) hentry
      rw [if_neg hzero, hentry] at h
      change (if k < key _ then none else some _) = none at h
      rw [if_neg (not_lt_of_ge hbelow)] at h
      cases h
  · intro h
    cases hfound : floorEntry key es k with
    | none => rfl
    | some e =>
      obtain ⟨hmem, hle, -⟩ := floorEntry_eq_some hordered hfound
      exact absurd hle (not_le_of_gt (h e hmem))

end VKernel.Lib.KeyedTable

import Mathlib.Data.List.Pairwise
import Mathlib.Tactic.Common

/-!
# `VKernel.Lib.Extents`: lists of half-open ranges

An allocator keeps a list of items that each own a half-open range `[lo a, hi a)`. Two
facts about such a list carry every allocator proof: the ranges stand in ascending order
without overlap (`Ascending`), and a given set of points is the union of the ranges
(`Covers`). Splitting and merging items both replace one contiguous segment of the list
by another, so both are one operation here:

* `Ascending.replace`: a segment may be replaced by any ascending segment inside its
  bounds (`Within`).
* `covers_replace`: if the two segments cover the same points, so do the two lists.
* `Ascending.eq_of_overlap`: a point lies in the range of at most one item.
* `Ascending.eq_of_covers`: where no two ranges touch, the covered points determine the list.

The segments that an allocator exchanges are usually gap-free. `Tiles a b l` says that the
ranges of `l` follow each other without gap from `a` to `b`, and `Ascending.retile` and
`covers_retile` exchange two tilings of the same range.
-/

set_option autoImplicit false

namespace VKernel.Lib

section Extents

variable {α : Type*} (lo hi : α → Nat)

/-- Each range ends before every later one starts. -/
def Ascending (l : List α) : Prop := l.Pairwise fun a b => hi a ≤ lo b

/-- The point `x` lies in the range of some item. -/
def Covers (l : List α) (x : Nat) : Prop := ∃ a ∈ l, lo a ≤ x ∧ x < hi a

instance (l : List α) (x : Nat) : Decidable (Covers lo hi l x) :=
  inferInstanceAs (Decidable (∃ a ∈ l, lo a ≤ x ∧ x < hi a))

/-- Every range of `new` lies between the start of some range of `old` and the end of
some range of `old`. -/
def Within (new old : List α) : Prop :=
  ∀ m ∈ new, (∃ a ∈ old, lo a ≤ lo m) ∧ ∃ b ∈ old, hi m ≤ hi b

variable {lo hi}

theorem ascending_nil : Ascending lo hi ([] : List α) := List.Pairwise.nil

/-- A segment may be replaced by an ascending segment within its bounds. -/
theorem Ascending.replace {l₁ old new l₂ : List α}
    (h : Ascending lo hi (l₁ ++ old ++ l₂)) (hnew : Ascending lo hi new)
    (hw : Within lo hi new old) : Ascending lo hi (l₁ ++ new ++ l₂) := by
  unfold Ascending at h hnew ⊢
  simp only [List.append_assoc, List.pairwise_append, List.mem_append] at h ⊢
  obtain ⟨h₁, ⟨_, h₂, hold₂⟩, h₁all⟩ := h
  refine ⟨h₁, ⟨hnew, h₂, ?_⟩, ?_⟩
  · intro m hm b hb
    obtain ⟨_, c, hc, hmc⟩ := hw m hm
    exact Nat.le_trans hmc (hold₂ c hc b hb)
  · intro a ha b hb
    rcases hb with hb | hb
    · obtain ⟨⟨c, hc, hcb⟩, _⟩ := hw b hb
      exact Nat.le_trans (h₁all a ha c (Or.inl hc)) hcb
    · exact h₁all a ha b (Or.inr hb)

theorem covers_append {l₁ l₂ : List α} {x : Nat} :
    Covers lo hi (l₁ ++ l₂) x ↔ Covers lo hi l₁ x ∨ Covers lo hi l₂ x := by
  simp only [Covers, List.mem_append]
  constructor
  · rintro ⟨a, ha | ha, hx⟩
    · exact Or.inl ⟨a, ha, hx⟩
    · exact Or.inr ⟨a, ha, hx⟩
  · rintro (⟨a, ha, hx⟩ | ⟨a, ha, hx⟩)
    · exact ⟨a, Or.inl ha, hx⟩
    · exact ⟨a, Or.inr ha, hx⟩

theorem covers_cons {a : α} {l : List α} {x : Nat} :
    Covers lo hi (a :: l) x ↔ (lo a ≤ x ∧ x < hi a) ∨ Covers lo hi l x := by
  simp only [Covers, List.mem_cons, exists_eq_or_imp]

@[simp] theorem not_covers_nil {x : Nat} : ¬ Covers lo hi ([] : List α) x := by
  simp [Covers]

/-- Two segments that cover the same points cover the same points in any list. -/
theorem covers_replace {l₁ old new l₂ : List α}
    (h : ∀ x, Covers lo hi new x ↔ Covers lo hi old x) (x : Nat) :
    Covers lo hi (l₁ ++ new ++ l₂) x ↔ Covers lo hi (l₁ ++ old ++ l₂) x := by
  simp only [covers_append, h]

/-- In an ascending list a point lies in the range of at most one item. -/
theorem Ascending.eq_of_overlap {l : List α} (h : Ascending lo hi l) {a b : α} {x : Nat}
    (ha : a ∈ l) (hb : b ∈ l) (hax : lo a ≤ x ∧ x < hi a) (hbx : lo b ≤ x ∧ x < hi b) :
    a = b := by
  induction h with
  | nil => exact absurd ha List.not_mem_nil
  | cons hfirst _ ih =>
    rcases List.mem_cons.mp ha with rfl | ha' <;> rcases List.mem_cons.mp hb with rfl | hb'
    · rfl
    · exact absurd (hfirst b hb') (by omega)
    · exact absurd (hfirst a ha') (by omega)
    · exact ih ha' hb'

/-- Two different nonempty items of an ascending list have disjoint ranges. -/
theorem Ascending.disjoint {l : List α} (h : Ascending lo hi l) {a b : α}
    (ha : a ∈ l) (hb : b ∈ l) (hne : a ≠ b) (hpa : lo a < hi a) (hpb : lo b < hi b) :
    hi a ≤ lo b ∨ hi b ≤ lo a := by
  by_contra hcon
  rw [not_or, Nat.not_le, Nat.not_le] at hcon
  exact hne (h.eq_of_overlap ha hb (x := max (lo a) (lo b)) (by omega) (by omega))

/-! ### The list that covers a set of points -/

section Determined

variable {l l' : List α}

/-- The items with a property cover what the others do not. -/
theorem Ascending.covers_filter (h : Ascending lo hi l) (p : α → Bool) (x : Nat) :
    Covers lo hi (l.filter p) x ↔
      Covers lo hi l x ∧ ¬ Covers lo hi (l.filter fun a => !p a) x := by
  constructor
  · rintro ⟨a, ha, hx⟩
    obtain ⟨hal, hap⟩ := List.mem_filter.mp ha
    refine ⟨⟨a, hal, hx⟩, ?_⟩
    rintro ⟨b, hb, hbx⟩
    obtain ⟨hbl, hbp⟩ := List.mem_filter.mp hb
    rw [h.eq_of_overlap hal hbl hx hbx] at hap
    simp [hap] at hbp
  · rintro ⟨⟨a, hal, hx⟩, hother⟩
    refine ⟨a, List.mem_filter.mpr ⟨hal, ?_⟩, hx⟩
    by_contra hap
    exact hother ⟨a, List.mem_filter.mpr ⟨hal, by simpa using hap⟩, hx⟩

/-- Ascending lists with the same items are the same. -/
theorem Ascending.eq_of_mem_iff (h : Ascending lo hi l) (h' : Ascending lo hi l')
    (hpos : ∀ a, lo a < hi a) (hmem : ∀ a, a ∈ l ↔ a ∈ l') : l = l' := by
  have hsorted : ∀ {k : List α}, Ascending lo hi k → k.Pairwise fun a b => lo a < lo b :=
    fun hk => hk.imp fun {a _} hab => Nat.lt_of_lt_of_le (hpos a) hab
  have hnodup : ∀ {k : List α}, Ascending lo hi k → k.Nodup :=
    fun hk => (hsorted hk).imp fun hab heq => Nat.ne_of_lt hab (congrArg lo heq)
  have hperm := (List.perm_ext_iff_of_nodup (hnodup h) (hnodup h')).mpr hmem
  exact hperm.eq_of_pairwise (fun a b _ _ hab hba => absurd hab (Nat.lt_asymm hba))
    (hsorted h) (hsorted h')

/-- Where no two ranges touch, the points next to a range are not covered. -/
theorem Ascending.not_covers_next (h : Ascending lo hi l) (hpos : ∀ a, lo a < hi a)
    (htouch : ∀ a ∈ l, ∀ b ∈ l, hi a ≠ lo b) {a : α} (ha : a ∈ l) :
    ¬ Covers lo hi l (hi a) ∧ ∀ x, x + 1 = lo a → ¬ Covers lo hi l x := by
  have hsize := hpos a
  refine ⟨?_, fun x hx => ?_⟩
  · rintro ⟨b, hb, hlo, hhi⟩
    have hne : a ≠ b := by
      rintro rfl
      omega
    have hgap := htouch a ha b hb
    have hdis := h.disjoint ha hb hne (hpos a) (hpos b)
    omega
  · rintro ⟨b, hb, hlo, hhi⟩
    have hne : a ≠ b := by
      rintro rfl
      omega
    have hgap := htouch b hb a ha
    have hdis := h.disjoint ha hb hne (hpos a) (hpos b)
    omega

/-- A range is as long as the points that are covered allow. -/
theorem Ascending.exists_range (h : Ascending lo hi l) (h' : Ascending lo hi l')
    (hpos : ∀ a, lo a < hi a) (htouch : ∀ a ∈ l, ∀ b ∈ l, hi a ≠ lo b)
    (htouch' : ∀ a ∈ l', ∀ b ∈ l', hi a ≠ lo b)
    (hcov : ∀ x, Covers lo hi l x ↔ Covers lo hi l' x) {a : α} (ha : a ∈ l) :
    ∃ b ∈ l', lo b = lo a ∧ hi b = hi a := by
  obtain ⟨b, hb, hlo, hhi⟩ := (hcov _).mp ⟨a, ha, Nat.le_refl _, hpos a⟩
  have hsize := hpos a
  obtain ⟨hend, hstart⟩ := h.not_covers_next hpos htouch ha
  obtain ⟨hend', -⟩ := h'.not_covers_next hpos htouch' hb
  have hin : ∀ x, lo b ≤ x → x < hi b → Covers lo hi l x :=
    fun x hlo hhi => (hcov x).mpr ⟨b, hb, hlo, hhi⟩
  refine ⟨b, hb, Nat.le_antisymm hlo ?_, Nat.le_antisymm ?_ ?_⟩
  · -- Otherwise the point before `a` is in `b`.
    by_contra hlt
    exact hstart (lo a - 1) (by omega) (hin _ (by omega) (by omega))
  · by_contra hlt
    exact hend (hin _ (by omega) (by omega))
  · by_contra hlt
    exact hend' ((hcov _).mp ⟨a, ha, by omega, by omega⟩)

/-- Where no two ranges touch, the covered points determine the list. -/
theorem Ascending.eq_of_covers (h : Ascending lo hi l) (h' : Ascending lo hi l')
    (hpos : ∀ a, lo a < hi a) (htouch : ∀ a ∈ l, ∀ b ∈ l, hi a ≠ lo b)
    (htouch' : ∀ a ∈ l', ∀ b ∈ l', hi a ≠ lo b)
    (hcov : ∀ x, Covers lo hi l x ↔ Covers lo hi l' x)
    (hinj : ∀ a ∈ l, ∀ b ∈ l', lo b = lo a → hi b = hi a → b = a) : l = l' := by
  refine h.eq_of_mem_iff h' hpos fun a => ⟨fun ha => ?_, fun ha => ?_⟩
  · obtain ⟨b, hb, hlo, hhi⟩ := h.exists_range h' hpos htouch htouch' hcov ha
    exact hinj a ha b hb hlo hhi ▸ hb
  · obtain ⟨b, hb, hlo, hhi⟩ :=
      h'.exists_range h hpos htouch' htouch (fun x => (hcov x).symm) ha
    exact (hinj b hb a ha hlo.symm hhi.symm).symm ▸ hb

end Determined

/-! ### Gap-free segments -/

variable (lo hi) in
/-- The ranges of the list are nonempty and follow each other without gap from `a` to
`b`. -/
def Tiles : Nat → Nat → List α → Prop
  | a, b, [] => a = b
  | a, b, x :: xs => lo x = a ∧ a < hi x ∧ Tiles (hi x) b xs

theorem Tiles.le {a b : Nat} {l : List α} (h : Tiles lo hi a b l) : a ≤ b := by
  induction l generalizing a with
  | nil => exact Nat.le_of_eq h
  | cons x xs ih => exact Nat.le_trans (Nat.le_of_lt h.2.1) (ih h.2.2)

/-- Every range of a tiling lies inside the tiled range. -/
theorem Tiles.bounds {a b : Nat} {l : List α} (h : Tiles lo hi a b l) {x : α} (hx : x ∈ l) :
    a ≤ lo x ∧ lo x < hi x ∧ hi x ≤ b := by
  induction l generalizing a with
  | nil => exact absurd hx List.not_mem_nil
  | cons y ys ih =>
    obtain ⟨rfl, hlt, hrest⟩ := h
    rcases List.mem_cons.mp hx with rfl | hx
    · exact ⟨Nat.le_refl _, hlt, hrest.le⟩
    · obtain ⟨h₁, h₂, h₃⟩ := ih hrest hx
      exact ⟨by omega, h₂, h₃⟩

theorem Tiles.ascending {a b : Nat} {l : List α} (h : Tiles lo hi a b l) :
    Ascending lo hi l := by
  induction l generalizing a with
  | nil => exact ascending_nil
  | cons x xs ih =>
    exact List.Pairwise.cons (fun y hy => (h.2.2.bounds hy).1) (ih h.2.2)

/-- A tiling covers exactly the tiled range. -/
theorem Tiles.covers_iff {a b : Nat} {l : List α} (h : Tiles lo hi a b l) (x : Nat) :
    Covers lo hi l x ↔ a ≤ x ∧ x < b := by
  induction l generalizing a with
  | nil =>
    have hab : a = b := h
    simp only [not_covers_nil, false_iff]
    omega
  | cons y ys ih =>
    obtain ⟨rfl, hlt, hrest⟩ := h
    have hle := hrest.le
    rw [covers_cons, ih hrest]
    omega

/-- A nonempty tiling starts and ends with items of the list. -/
theorem Tiles.ends {a b : Nat} {l : List α} (h : Tiles lo hi a b l) (hne : l ≠ []) :
    (∃ x ∈ l, lo x = a) ∧ ∃ y ∈ l, hi y = b := by
  induction l generalizing a with
  | nil => exact absurd rfl hne
  | cons x xs ih =>
    refine ⟨⟨x, List.mem_cons_self, h.1⟩, ?_⟩
    cases xs with
    | nil => exact ⟨x, List.mem_cons_self, h.2.2⟩
    | cons z zs =>
      obtain ⟨-, y, hy, hyb⟩ := ih h.2.2 (List.cons_ne_nil _ _)
      exact ⟨y, List.mem_cons_of_mem _ hy, hyb⟩

/-- Two tilings of one range may be exchanged in an ascending list. -/
theorem Ascending.retile {l₁ old new l₂ : List α} {a b : Nat}
    (h : Ascending lo hi (l₁ ++ old ++ l₂)) (hold : Tiles lo hi a b old) (hne : old ≠ [])
    (hnew : Tiles lo hi a b new) : Ascending lo hi (l₁ ++ new ++ l₂) := by
  obtain ⟨⟨x, hx, hxa⟩, y, hy, hyb⟩ := hold.ends hne
  refine h.replace hnew.ascending fun m hm => ?_
  obtain ⟨h₁, -, h₂⟩ := hnew.bounds hm
  exact ⟨⟨x, hx, by omega⟩, y, hy, by omega⟩

/-- Two tilings of one range cover the same points in any list. -/
theorem covers_retile {l₁ old new l₂ : List α} {a b : Nat} (hold : Tiles lo hi a b old)
    (hnew : Tiles lo hi a b new) (x : Nat) :
    Covers lo hi (l₁ ++ new ++ l₂) x ↔ Covers lo hi (l₁ ++ old ++ l₂) x :=
  covers_replace (fun y => (hnew.covers_iff y).trans (hold.covers_iff y).symm) x

end Extents

end VKernel.Lib

import Mathlib.Data.List.Basic
import Mathlib.Logic.Function.Basic

/-!
# `VKernel.Lib.LinkedList`: intrusive doubly linked lists

A `Store` maps addresses to nodes with a payload and two links; address 0 is null. `Seg`
says that a list of (address, payload) pairs is what the links spell out, from the node
after `p` to the node before `q`. A whole list is a segment from 0 to 0.

The three link operations (`insertFirst`, `insertAfter`, `bypass`) write a constant number
of fields, as pointer code does, and each has one lemma that says what it does to the
spelled-out list. They need the addresses to be distinct and not null.
-/

set_option autoImplicit false

namespace VKernel.Lib

/-- A node: its payload and its links. -/
@[ext] structure Node (α : Type*) where
  val : α
  next : Nat
  prev : Nat
  deriving DecidableEq, Repr

/-- Memory, as far as it holds nodes. -/
abbrev Store (α : Type*) := Nat → Node α

namespace LinkedList

variable {α : Type*}

/-- Write the payload of a node. -/
def setVal (m : Store α) (a : Nat) (v : α) : Store α :=
  Function.update m a { m a with val := v }

/-- Write the forward link of a node. -/
def setNext (m : Store α) (a q : Nat) : Store α :=
  Function.update m a { m a with next := q }

/-- Write the backward link of a node, unless the address is null. -/
def setPrev (m : Store α) (a p : Nat) : Store α :=
  if a = 0 then m else Function.update m a { m a with prev := p }

/-- Put a node in front of the list that starts at `head`. -/
def insertFirst (m : Store α) (head n : Nat) (v : α) : Store α :=
  setPrev (Function.update m n ⟨v, head, 0⟩) head n

/-- Put a node behind the node at `a`. -/
def insertAfter (m : Store α) (a n : Nat) (v : α) : Store α :=
  let q := (m a).next
  setPrev (setNext (Function.update m n ⟨v, q, a⟩) a n) q n

/-- Take the node at `c` out of the list, where `a` is the node before it. -/
def bypass (m : Store α) (a c : Nat) : Store α :=
  let q := (m c).next
  setPrev (setNext m a q) q a

/-- The first address of a list, or `q` when it is empty. -/
def headOr (q : Nat) : List (Nat × α) → Nat
  | [] => q
  | b :: _ => b.1

/-- The last address of a list, or `p` when it is empty. -/
def lastOr : Nat → List (Nat × α) → Nat
  | p, [] => p
  | _, b :: l => lastOr b.1 l

/-- The links spell out the list, from behind `p` to before `q`. -/
def Seg (m : Store α) : Nat → List (Nat × α) → Nat → Prop
  | _, [], _ => True
  | p, b :: l, q => m b.1 = ⟨b.2, headOr q l, p⟩ ∧ Seg m b.1 l q

/-- The addresses of a list. -/
abbrev addrs (l : List (Nat × α)) : List Nat := l.map Prod.fst

/-- The head of two lists in a row. -/
@[simp] theorem headOr_append (q : Nat) (l₁ l₂ : List (Nat × α)) :
    headOr q (l₁ ++ l₂) = headOr (headOr q l₂) l₁ := by
  cases l₁ with
  | nil => rfl
  | cons b l => rfl

/-- The last address of two lists in a row. -/
@[simp] theorem lastOr_append (p : Nat) (l₁ l₂ : List (Nat × α)) :
    lastOr p (l₁ ++ l₂) = lastOr (lastOr p l₁) l₂ := by
  induction l₁ generalizing p with
  | nil => rfl
  | cons b l ih => exact ih b.1

/-- A segment is two segments in a row. -/
theorem seg_append {m : Store α} {p q : Nat} {l₁ l₂ : List (Nat × α)} :
    Seg m p (l₁ ++ l₂) q ↔ Seg m p l₁ (headOr q l₂) ∧ Seg m (lastOr p l₁) l₂ q := by
  induction l₁ generalizing p with
  | nil => exact ⟨fun h => ⟨trivial, h⟩, And.right⟩
  | cons b l ih =>
    show (m b.1 = ⟨b.2, headOr q (l ++ l₂), p⟩ ∧ Seg m b.1 (l ++ l₂) q) ↔
      (_ ∧ _) ∧ Seg m (lastOr b.1 l) l₂ q
    rw [headOr_append, ih]
    exact and_assoc.symm

/-- What memory holds at a node of a segment. -/
theorem Seg.node {m : Store α} {p q : Nat} {l₁ l₂ : List (Nat × α)} {b : Nat × α}
    (h : Seg m p (l₁ ++ b :: l₂) q) : m b.1 = ⟨b.2, headOr q l₂, lastOr p l₁⟩ :=
  (seg_append.mp h).2.1

/-- A segment does not notice writes to other addresses. -/
theorem Seg.congr {m m' : Store α} {p q : Nat} {l : List (Nat × α)} (h : Seg m p l q)
    (hm : ∀ a ∈ addrs l, m' a = m a) : Seg m' p l q := by
  induction l generalizing p with
  | nil => trivial
  | cons b l ih =>
    refine ⟨(hm b.1 (by simp)).trans h.1, ih h.2 fun a ha => hm a ?_⟩
    exact List.mem_cons_of_mem _ ha

/-- A write outside a segment keeps it. -/
theorem Seg.update {m : Store α} {p q a : Nat} {l : List (Nat × α)} {n : Node α}
    (h : Seg m p l q) (ha : a ∉ addrs l) : Seg (Function.update m a n) p l q :=
  h.congr fun b hb => Function.update_of_ne (fun heq : b = a => ha (heq ▸ hb)) ..

theorem setPrev_of_ne {m : Store α} {a b p : Nat} (h : b ≠ a) : setPrev m a p b = m b := by
  unfold setPrev
  split
  · rfl
  · exact Function.update_of_ne h ..

/-- A back link outside a segment keeps it. -/
theorem Seg.setPrev_frame {m : Store α} {p q a p' : Nat} {l : List (Nat × α)}
    (h : Seg m p l q) (ha : a ∉ addrs l) : Seg (setPrev m a p') p l q :=
  h.congr fun _ hb => setPrev_of_ne fun heq => ha (heq ▸ hb)

/-- The head is null or in the list. -/
theorem headOr_eq_zero_or_mem (l : List (Nat × α)) : headOr 0 l = 0 ∨ headOr 0 l ∈ addrs l := by
  cases l with
  | nil => exact Or.inl rfl
  | cons b l => exact Or.inr (by simp [headOr])

/-- The last address is in the list. -/
theorem lastOr_mem (p : Nat) {l : List (Nat × α)} (h : l ≠ []) : lastOr p l ∈ addrs l := by
  induction l generalizing p with
  | nil => exact absurd rfl h
  | cons b l ih =>
    cases l with
    | nil => simp [lastOr]
    | cons c l => exact List.mem_cons_of_mem _ (ih b.1 (by simp))

/-- Redirecting the backward link of the first node of the rest of a list. -/
theorem Seg.relink {m : Store α} {p p' : Nat} {l : List (Nat × α)} (h : Seg m p l 0)
    (h0 : 0 ∉ addrs l) (hnd : (addrs l).Nodup) : Seg (setPrev m (headOr 0 l) p') p' l 0 := by
  cases l with
  | nil => trivial
  | cons b l =>
    have hb : b.1 ≠ 0 := fun heq => h0 (by simp [heq])
    have hbl : b.1 ∉ addrs l := (List.nodup_cons.mp hnd).1
    refine ⟨?_, h.2.setPrev_frame hbl⟩
    show setPrev m b.1 p' b.1 = _
    rw [LinkedList.setPrev, if_neg hb, Function.update_self, h.1]

/-- Two lists with the same first address agree as far as the first one goes. -/
theorem Seg.eq_append {m : Store α} {p q : Nat} {l₁ l : List (Nat × α)} (h₁ : Seg m p l₁ q)
    (h : Seg m p l 0) (h0 : 0 ∉ addrs l₁) (hhead : headOr 0 l = headOr q l₁) :
    ∃ l₂, l = l₁ ++ l₂ ∧ headOr 0 l₂ = q := by
  induction l₁ generalizing p l with
  | nil => exact ⟨l, rfl, hhead⟩
  | cons b l₁ ih =>
    cases l with
    | nil => exact absurd (List.mem_cons.mpr (.inl hhead)) h0
    | cons c l =>
      obtain ⟨hb, hrest₁⟩ := h₁
      obtain ⟨hc, hrest⟩ := h
      have haddr : c.1 = b.1 := hhead
      rw [haddr] at hc hrest
      obtain ⟨hval, hnext, -⟩ := Node.mk.inj (hc.symm.trans hb)
      obtain ⟨l₂, rfl, hq⟩ :=
        ih hrest₁ hrest (fun hmem => h0 (List.mem_cons_of_mem _ hmem)) hnext
      exact ⟨l₂, by rw [Prod.ext haddr hval]; rfl, hq⟩

/-- The node behind another one links back to it. -/
theorem Seg.prev_rest {m : Store α} {p : Nat} {l₁ l₂ : List (Nat × α)} {b : Nat × α}
    (h : Seg m p (l₁ ++ b :: l₂) 0) (h0 : headOr 0 l₂ ≠ 0) : (m (headOr 0 l₂)).prev = b.1 := by
  cases l₂ with
  | nil => exact absurd rfl h0
  | cons c l₂ =>
    obtain ⟨-, -, hrest⟩ := seg_append.mp h
    exact congrArg Node.prev hrest.1

theorem setNext_self {m : Store α} {a q : Nat} (h : (m a).next = q) : setNext m a q = m := by
  unfold setNext
  rw [← h]
  exact Function.update_eq_self a m

theorem setPrev_self {m : Store α} {a p : Nat} (h : a ≠ 0 → (m a).prev = p) :
    setPrev m a p = m := by
  unfold setPrev
  split
  · rfl
  · rename_i h0
    rw [← h h0]
    exact Function.update_eq_self a m

/-! ### What a write leaves as it was -/

@[simp] theorem setVal_next (m : Store α) (a : Nat) (v : α) (b : Nat) :
    (setVal m a v b).next = (m b).next := by
  unfold setVal
  by_cases h : b = a
  · rw [h, Function.update_self]
  · rw [Function.update_of_ne h]

@[simp] theorem setVal_prev (m : Store α) (a : Nat) (v : α) (b : Nat) :
    (setVal m a v b).prev = (m b).prev := by
  unfold setVal
  by_cases h : b = a
  · rw [h, Function.update_self]
  · rw [Function.update_of_ne h]

@[simp] theorem setVal_val_self (m : Store α) (a : Nat) (v : α) : (setVal m a v a).val = v := by
  unfold setVal
  rw [Function.update_self]

@[simp] theorem setNext_val (m : Store α) (a q b : Nat) : (setNext m a q b).val = (m b).val := by
  unfold setNext
  by_cases h : b = a
  · rw [h, Function.update_self]
  · rw [Function.update_of_ne h]

@[simp] theorem setNext_prev (m : Store α) (a q b : Nat) :
    (setNext m a q b).prev = (m b).prev := by
  unfold setNext
  by_cases h : b = a
  · rw [h, Function.update_self]
  · rw [Function.update_of_ne h]

@[simp] theorem setNext_next_self (m : Store α) (a q : Nat) : (setNext m a q a).next = q := by
  unfold setNext
  rw [Function.update_self]

@[simp] theorem setPrev_val (m : Store α) (a p b : Nat) : (setPrev m a p b).val = (m b).val := by
  unfold setPrev
  split
  · rfl
  · by_cases h : b = a
    · rw [h, Function.update_self]
    · rw [Function.update_of_ne h]

@[simp] theorem setPrev_next (m : Store α) (a p b : Nat) :
    (setPrev m a p b).next = (m b).next := by
  unfold setPrev
  split
  · rfl
  · by_cases h : b = a
    · rw [h, Function.update_self]
    · rw [Function.update_of_ne h]

theorem setVal_of_ne {m : Store α} {a b : Nat} (v : α) (h : b ≠ a) : setVal m a v b = m b :=
  Function.update_of_ne h ..

theorem setNext_of_ne {m : Store α} {a b : Nat} (q : Nat) (h : b ≠ a) : setNext m a q b = m b :=
  Function.update_of_ne h ..

/-! ### Writes to different fields commute -/

/-- The last value stays. -/
theorem setVal_setVal (m : Store α) (a : Nat) (v w : α) :
    setVal (setVal m a v) a w = setVal m a w := by
  unfold setVal
  rw [Function.update_self, Function.update_idem]

/-- A value and a link are written in any order. -/
theorem setVal_setNext (m : Store α) (a q : Nat) (v : α) :
    setVal (setNext m a q) a v = setNext (setVal m a v) a q := by
  unfold setVal setNext
  rw [Function.update_self, Function.update_self, Function.update_idem, Function.update_idem]

/-- A value and a back link are written in any order. -/
theorem setVal_setPrev (m : Store α) (a b p : Nat) (v : α) :
    setVal (setPrev m b p) a v = setPrev (setVal m a v) b p := by
  unfold setPrev
  split
  · rfl
  · unfold setVal
    by_cases h : a = b
    · subst h
      simp only [Function.update_self, Function.update_idem]
    · rw [Function.update_of_ne h, Function.update_of_ne (Ne.symm h), Function.update_comm h]

/-- A value and another node are written in any order. -/
theorem setVal_update_of_ne {m : Store α} {a b : Nat} (n : Node α) (v : α) (h : a ≠ b) :
    setVal (Function.update m b n) a v = Function.update (setVal m a v) b n := by
  unfold setVal
  rw [Function.update_of_ne h, Function.update_comm h]

/-! ### The operations -/

/-- What every operation needs to know about the list it works on. -/
structure Good (l : List (Nat × α)) : Prop where
  null : 0 ∉ addrs l
  nodup : (addrs l).Nodup

/-- Only the addresses matter. -/
theorem Good.congr {l l' : List (Nat × α)} (g : Good l) (h : addrs l' = addrs l) : Good l' :=
  ⟨h ▸ g.null, h ▸ g.nodup⟩

/-- A new value in a list. -/
theorem seg_setVal {m : Store α} {l₁ l₂ : List (Nat × α)} {a : Nat} {u v : α}
    (h : Seg m 0 (l₁ ++ (a, u) :: l₂) 0) (g : Good (l₁ ++ (a, u) :: l₂)) :
    Seg (setVal m a v) 0 (l₁ ++ (a, v) :: l₂) 0 := by
  have hnd := g.nodup
  simp only [addrs, List.map_append, List.map_cons, List.nodup_append, List.nodup_cons] at hnd
  obtain ⟨hl₁, ha, hl₂⟩ := seg_append.mp h
  refine seg_append.mpr ⟨hl₁.update ?_, ?_, hl₂.update hnd.2.1.1⟩
  · intro hmem
    exact hnd.2.2 a hmem a (by simp) rfl
  · simp only [setVal, Function.update_self, ha]

/-- A new first node. -/
theorem seg_insertFirst {m : Store α} {l : List (Nat × α)} {n : Nat} {v : α}
    (h : Seg m 0 l 0) (g : Good l) (hn : n ∉ addrs l) :
    Seg (insertFirst m (headOr 0 l) n v) 0 ((n, v) :: l) 0 := by
  refine ⟨?_, (h.update hn).relink g.null g.nodup⟩
  unfold insertFirst
  by_cases heq : n = headOr 0 l
  · rcases headOr_eq_zero_or_mem l with h0 | hmem
    · simp [setPrev, h0]
    · exact absurd (heq ▸ hmem) hn
  · rw [setPrev_of_ne heq, Function.update_self]

/-- A new node behind another one. -/
theorem seg_insertAfter {m : Store α} {l₁ l₂ : List (Nat × α)} {a n : Nat} {u v : α}
    (h : Seg m 0 (l₁ ++ (a, u) :: l₂) 0) (g : Good (l₁ ++ (a, u) :: l₂))
    (hn : n ∉ addrs (l₁ ++ (a, u) :: l₂)) :
    Seg (insertAfter m a n v) 0 (l₁ ++ (a, u) :: (n, v) :: l₂) 0 := by
  have hnd := g.nodup
  have h0 := g.null
  simp only [addrs, List.map_append, List.map_cons, List.nodup_append, List.nodup_cons,
    List.mem_append, List.mem_cons, not_or] at hnd h0 hn
  obtain ⟨hl₁, ha, hl₂⟩ := seg_append.mp h
  have hq : (m a).next = headOr 0 l₂ := by rw [ha]
  have hqa : a ≠ headOr 0 l₂ := by
    rcases headOr_eq_zero_or_mem l₂ with h | h
    · intro heq
      exact h0.2.1 (h ▸ heq).symm
    · intro heq
      exact hnd.2.1.1 (heq ▸ h)
  have hqn : n ≠ headOr 0 l₂ ∨ headOr 0 l₂ = 0 := by
    rcases headOr_eq_zero_or_mem l₂ with h | h
    · exact Or.inr h
    · exact Or.inl fun heq => hn.2.2 (heq ▸ h)
  have hql₁ : headOr 0 l₂ ∉ addrs l₁ := by
    rcases headOr_eq_zero_or_mem l₂ with h | h
    · rw [h]
      exact h0.1
    · intro hmem
      exact hnd.2.2 _ hmem _ (Or.inr h) rfl
  unfold insertAfter
  simp only [hq]
  refine seg_append.mpr ⟨?_, ?_, ?_, ?_⟩
  · refine Seg.setPrev_frame ?_ hql₁
    refine Seg.update (hl₁.update hn.1) ?_
    intro hmem
    exact hnd.2.2 a hmem a (Or.inl rfl) rfl
  · rw [setPrev_of_ne hqa]
    simp only [setNext, Function.update_self, Function.update_of_ne (Ne.symm hn.2.1), ha]
    rfl
  · have hsame : setPrev (setNext (Function.update m n ⟨v, headOr 0 l₂, a⟩) a n)
        (headOr 0 l₂) n n = ⟨v, headOr 0 l₂, a⟩ := by
      rcases hqn with hne | hz
      · rw [setPrev_of_ne hne]
        simp [setNext, Function.update_of_ne hn.2.1]
      · simp [setPrev, hz, setNext, Function.update_of_ne hn.2.1]
    exact hsame
  · exact Seg.relink ((hl₂.update hn.2.2).update hnd.2.1.1) h0.2.2 hnd.2.1.2

/-- Unlinking a node that is not the first. -/
theorem seg_bypass {m : Store α} {l₁ l₂ : List (Nat × α)} {a c : Nat} {u w : α}
    (h : Seg m 0 (l₁ ++ (a, u) :: (c, w) :: l₂) 0) (g : Good (l₁ ++ (a, u) :: (c, w) :: l₂)) :
    Seg (bypass m a c) 0 (l₁ ++ (a, u) :: l₂) 0 := by
  have hnd := g.nodup
  have h0 := g.null
  simp only [addrs, List.map_append, List.map_cons, List.nodup_append, List.nodup_cons,
    List.mem_append, List.mem_cons, not_or] at hnd h0
  obtain ⟨hl₁, ha, hc, hl₂⟩ := seg_append.mp h
  have hq : (m c).next = headOr 0 l₂ := by rw [hc]
  have hqa : a ≠ headOr 0 l₂ := by
    rcases headOr_eq_zero_or_mem l₂ with h | h
    · intro heq
      exact h0.2.1 (h ▸ heq).symm
    · intro heq
      exact hnd.2.1.1.2 (heq ▸ h)
  have hql₁ : headOr 0 l₂ ∉ addrs l₁ := by
    rcases headOr_eq_zero_or_mem l₂ with h | h
    · rw [h]
      exact h0.1
    · intro hmem
      exact hnd.2.2 _ hmem _ (Or.inr (Or.inr h)) rfl
  unfold bypass
  simp only [hq]
  refine seg_append.mpr ⟨?_, ?_, ?_⟩
  · refine Seg.setPrev_frame (hl₁.update ?_) hql₁
    intro hmem
    exact hnd.2.2 a hmem a (Or.inl rfl) rfl
  · rw [setPrev_of_ne hqa]
    simp only [setNext, Function.update_self, ha]
  · exact Seg.relink (hl₂.update hnd.2.1.1.2) h0.2.2.2 hnd.2.1.2.2

end LinkedList

end VKernel.Lib

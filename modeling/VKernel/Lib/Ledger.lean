import Mathlib.Logic.Function.Basic

/-!
# `VKernel.Lib.Ledger`: who was granted what, and what was given back

A ledger notes for each holder the one thing it was granted and the list of what was given back
in its name. An entry is `Open` between the grant and the return. `Balanced` says that nothing is
given back that was not granted, and nothing twice; `Exclusive` says that no two open entries are
for the same thing. A grant of something that is not out (`balanced_grant`, `exclusive_grant`) and
the return of an open entry (`balanced_giveBack`, `exclusive_giveBack`) keep both.
-/

set_option autoImplicit false

namespace VKernel.Lib

/-- What each holder was granted, and what was given back for it. -/
structure Ledger (κ α : Type*) where
  granted : κ → Option α
  returned : κ → List α

namespace Ledger

variable {κ α : Type*} [DecidableEq κ]

/-- The ledger before the first grant. -/
def empty : Ledger κ α := ⟨fun _ => none, fun _ => []⟩

/-- A grant. -/
def grant (l : Ledger κ α) (k : κ) (a : α) : Ledger κ α :=
  { l with granted := Function.update l.granted k (some a) }

/-- A return. -/
def giveBack (l : Ledger κ α) (k : κ) (a : α) : Ledger κ α :=
  { l with returned := Function.update l.returned k (l.returned k ++ [a]) }

/-- The holder was granted this, and it is not back. -/
def Open (l : Ledger κ α) (k : κ) (a : α) : Prop := l.granted k = some a ∧ l.returned k = []

/-- Each return is the only one of its holder, and returns what the holder was granted. -/
def Balanced (l : Ledger κ α) : Prop :=
  ∀ k, l.returned k = [] ∨ ∃ a, l.granted k = some a ∧ l.returned k = [a]

/-- What is out is out only once. -/
def Exclusive (l : Ledger κ α) : Prop := ∀ k k' a, l.Open k a → l.Open k' a → k = k'

variable {l : Ledger κ α} {k k' : κ} {a a' : α}

omit [DecidableEq κ] in
/-- A name has one holder. -/
theorem Open.unique (h : l.Open k a) (h' : l.Open k a') : a = a' :=
  Option.some.inj (h.1.symm.trans h'.1)

/-- A name that is granted is open for who asked. -/
theorem open_grant_self (hl : l.Balanced) (hk : l.granted k = none) :
    (l.grant k a).Open k a' ↔ a' = a := by
  have hback : l.returned k = [] := by
    rcases hl k with h | ⟨b, hb, -⟩
    · exact h
    · rw [hk] at hb
      cases hb
  show Function.update l.granted k (some a) k = some a' ∧ l.returned k = [] ↔ a' = a
  rw [Function.update_self, Option.some.injEq]
  exact ⟨fun h => h.1.symm, fun h => ⟨h.symm, hback⟩⟩

/-- The other names are as before. -/
theorem open_grant_of_ne (hne : k' ≠ k) : (l.grant k a).Open k' a' ↔ l.Open k' a' := by
  show Function.update l.granted k (some a) k' = some a' ∧ l.returned k' = [] ↔ _
  rw [Function.update_of_ne hne]
  exact Iff.rfl

/-- Granting a fresh name keeps the balance. -/
theorem balanced_grant (hl : l.Balanced) (hk : l.granted k = none) : (l.grant k a).Balanced := by
  intro k'
  by_cases hne : k' = k
  · subst hne
    rcases hl k' with h | ⟨b, hb, -⟩
    · exact Or.inl h
    · rw [hk] at hb
      cases hb
  · unfold grant
    simp only [Function.update_of_ne hne]
    exact hl k'

/-- Granting to a fresh holder keeps the holders apart. -/
theorem exclusive_grant (hl : l.Balanced) (hk : l.granted k = none) (hex : l.Exclusive)
    (hfresh : ∀ k', ¬ l.Open k' a) : (l.grant k a).Exclusive := by
  intro k₁ k₂ b h₁ h₂
  by_cases hk₁ : k₁ = k
  · by_cases hk₂ : k₂ = k
    · rw [hk₁, hk₂]
    · -- The other entry would be for what has just been granted.
      subst hk₁
      rw [open_grant_self hl hk] at h₁
      rw [open_grant_of_ne hk₂, h₁] at h₂
      exact absurd h₂ (hfresh k₂)
  · rw [open_grant_of_ne hk₁] at h₁
    by_cases hk₂ : k₂ = k
    · subst hk₂
      rw [open_grant_self hl hk] at h₂
      rw [h₂] at h₁
      exact absurd h₁ (hfresh k₁)
    · rw [open_grant_of_ne hk₂] at h₂
      exact hex k₁ k₂ b h₁ h₂

/-- A name that is given back is closed, and the others are as before. -/
theorem open_giveBack_iff : (l.giveBack k a).Open k' a' ↔ k' ≠ k ∧ l.Open k' a' := by
  unfold Open giveBack
  by_cases hne : k' = k
  · subst hne
    simp
  · simp [hne]

/-- Giving back an open name keeps the balance. -/
theorem balanced_giveBack (hl : l.Balanced) (h : l.Open k a) : (l.giveBack k a).Balanced := by
  intro k'
  by_cases hne : k' = k
  · subst hne
    refine Or.inr ⟨a, h.1, ?_⟩
    unfold giveBack
    simp only [Function.update_self, h.2, List.nil_append]
  · unfold giveBack
    simp only [Function.update_of_ne hne]
    exact hl k'

/-- Giving back keeps the holders apart. -/
theorem exclusive_giveBack (hex : l.Exclusive) : (l.giveBack k a).Exclusive := by
  intro k₁ k₂ b h₁ h₂
  exact hex k₁ k₂ b (open_giveBack_iff.mp h₁).2 (open_giveBack_iff.mp h₂).2

end Ledger

end VKernel.Lib

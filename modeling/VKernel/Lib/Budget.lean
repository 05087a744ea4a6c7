import Mathlib

/-!
# `VKernel.Lib.Budget`: what the tasks of several parties may still spend

Each task has a budget, a party has the sum over the list of its tasks, and the system has the sum
over the parties. A step touches one task of one party, so it is enough to compare the budgets of
that task: `sum_map_set` and `sum_map_eraseIdx` lift the difference to the party, and `sum_update`
to the system.
-/

set_option autoImplicit false

namespace VKernel.Lib

section Tasks

variable {τ : Type*} (budget : τ → Nat) {tasks : List τ} {i : Nat} {task : τ}

/-- A task that ends takes its budget along. -/
theorem sum_map_eraseIdx (hi : tasks[i]? = some task) :
    ((tasks.eraseIdx i).map budget).sum + budget task = (tasks.map budget).sum := by
  obtain ⟨hlt, rfl⟩ := List.getElem?_eq_some_iff.mp hi
  have hperm := (List.getElem_cons_eraseIdx_perm hlt).map budget
  have hsum := hperm.sum_eq
  rw [List.map_cons, List.sum_cons] at hsum
  rw [Nat.add_comm, hsum]

/-- A task that goes on as another one exchanges its budget. -/
theorem sum_map_set (hi : tasks[i]? = some task) (next : τ) :
    ((tasks.set i next).map budget).sum + budget task = (tasks.map budget).sum + budget next := by
  obtain ⟨hlt, -⟩ := List.getElem?_eq_some_iff.mp hi
  -- Both lists are the same without the task.
  have hnew := sum_map_eraseIdx budget (List.getElem?_set_self (a := next) hlt)
  have hold := sum_map_eraseIdx budget hi
  rw [List.eraseIdx_set_eq] at hnew
  omega

end Tasks

section Parties

variable {π : Type*} [DecidableEq π] [Fintype π]

/-- One summand is exchanged. -/
theorem sum_update (f : π → Nat) (p : π) (b : Nat) :
    ∑ x, Function.update f p b x + f p = ∑ x, f x + b := by
  have hnew := Finset.sum_update_of_mem (Finset.mem_univ p) f b
  have hold := Finset.sum_update_of_mem (Finset.mem_univ p) f (f p)
  rw [Function.update_eq_self] at hold
  omega

/-- When one party changes, only its summand does. -/
theorem sum_party_update {σ : Type*} (budget : σ → Nat) (states : π → σ) (p : π) (state : σ) :
    ∑ x, budget (Function.update states p state x) + budget (states p) =
      ∑ x, budget (states x) + budget state := by
  have hcomp : budget ∘ Function.update states p state =
      Function.update (budget ∘ states) p (budget state) :=
        Function.comp_update budget states p state
  have hsum := sum_update (budget ∘ states) p (budget state)
  rw [← hcomp] at hsum
  exact hsum

end Parties

end VKernel.Lib

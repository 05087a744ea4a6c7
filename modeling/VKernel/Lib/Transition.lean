import Mathlib.Logic.Relation

/-!
# `VKernel.Lib.Transition`: labelled transition systems

A `TransitionSystem` is an initial-state predicate and a labelled step relation. It is
what every concurrent or long-running component of this development is stated over: one
label is one atomic section of the code, and a statement about every interleaving is one
about every `Reachable` state.

* `Reachable.invariant` is the induction rule: what holds initially and survives one step
  holds of every reachable state.
* `Leads` and `Leads.invariant` are the same for the states that come after a given one.
* `Path` is a run from a given state with its labels.
* `Exec` is a run with its labels, and `Exec.simulated` is the forward-simulation rule.
* `restrict` keeps only the steps that meet a condition on the state before the step and
  the label. A statement about "every run whose steps all meet the condition" is a
  statement about the reachable states of the restricted system, and
  `Reachable.of_restrict` says that these are reachable states of the whole one.
* `OkAlong` and `reachable_of_okAlong` turn a list of labels that all meet a decidable
  condition into a reachable state.
* `run` folds a list of labels over a step function, for the deterministic systems, and
  `reachable_of_run` turns an evaluated run into a reachable state;
  `reachable_of_guarded_run` does the same for a restricted system, and
  `reachable_of_free_run` where the labels meet the condition in every state.
-/

set_option autoImplicit false

namespace VKernel.Lib

/-- Initial states and labelled steps. -/
structure TransitionSystem (σ : Type*) (ℓ : Type*) where
  /-- The states a run may start in. -/
  init : σ → Prop
  /-- `step s l t`: the label `l` takes the state `s` to `t`. -/
  step : σ → ℓ → σ → Prop

namespace TransitionSystem

variable {σ : Type*} {ℓ : Type*}

/-- The states that a run from an initial state passes through. -/
inductive Reachable (T : TransitionSystem σ ℓ) : σ → Prop
  | init {s : σ} (h : T.init s) : Reachable T s
  | step {s t : σ} {l : ℓ} (hs : Reachable T s) (h : T.step s l t) : Reachable T t

/-- What holds initially and is kept by every step out of a reachable state holds of
every reachable state. The step case may use that its source is reachable, so invariants
that were proved earlier can be called there. -/
theorem Reachable.invariant {T : TransitionSystem σ ℓ} {P : σ → Prop}
    (h0 : ∀ s, T.init s → P s)
    (hstep : ∀ s l t, T.Reachable s → P s → T.step s l t → P t)
    {s : σ} (hs : T.Reachable s) : P s := by
  induction hs with
  | init h => exact h0 _ h
  | step hs h ih => exact hstep _ _ _ hs ih h

/-- The states that a run from `s` passes through. -/
inductive Leads (T : TransitionSystem σ ℓ) (s : σ) : σ → Prop
  | refl : Leads T s s
  | step {t u : σ} {l : ℓ} (hst : Leads T s t) (h : T.step t l u) : Leads T s u

theorem Leads.trans {T : TransitionSystem σ ℓ} {s t u : σ} (hst : T.Leads s t)
    (htu : T.Leads t u) : T.Leads s u := by
  induction htu with
  | refl => exact hst
  | step _ h ih => exact .step ih h

theorem Reachable.of_leads {T : TransitionSystem σ ℓ} {s t : σ} (hs : T.Reachable s)
    (h : T.Leads s t) : T.Reachable t := by
  induction h with
  | refl => exact hs
  | step _ h ih => exact .step ih h

/-- What holds at the start of a run and is kept by every step out of a reachable state
holds to its end. -/
theorem Leads.invariant {T : TransitionSystem σ ℓ} {P : σ → Prop} {s t : σ}
    (hs : T.Reachable s) (h0 : P s)
    (hstep : ∀ u l v, T.Reachable u → P u → T.step u l v → P v) (h : T.Leads s t) : P t := by
  induction h with
  | refl => exact h0
  | step hst h ih => exact hstep _ _ _ (hs.of_leads hst) ih h

/-- A run from `s` with the labels of its steps, in order. -/
inductive Path (T : TransitionSystem σ ℓ) (s : σ) : List ℓ → σ → Prop
  | refl : Path T s [] s
  | step {ls : List ℓ} {t u : σ} {l : ℓ} (hst : Path T s ls t) (h : T.step t l u) :
      Path T s (ls ++ [l]) u

/-- A run with the labels of its steps, in order. -/
inductive Exec (T : TransitionSystem σ ℓ) : List ℓ → σ → Prop
  | init {s : σ} (h : T.init s) : Exec T [] s
  | step {ls : List ℓ} {s t : σ} {l : ℓ} (hs : Exec T ls s) (h : T.step s l t) :
      Exec T (ls ++ [l]) t

/-- Forward simulation: when every initial state and every step of `T` is matched by `U` up
to `R`, every run of `T` is matched by a run of `U` with the same labels. -/
theorem Exec.simulated {τ : Type*} {T : TransitionSystem σ ℓ} {U : TransitionSystem τ ℓ}
    {R : σ → τ → Prop} (hinit : ∀ s, T.init s → ∃ u, U.init u ∧ R s u)
    (hstep : ∀ s l t u, R s u → T.step s l t → ∃ v, U.step u l v ∧ R t v)
    {ls : List ℓ} {s : σ} (hs : T.Exec ls s) : ∃ u, U.Exec ls u ∧ R s u := by
  induction hs with
  | init h =>
    obtain ⟨u, hu, hR⟩ := hinit _ h
    exact ⟨u, .init hu, hR⟩
  | step _ h ih =>
    obtain ⟨u, hu, hR⟩ := ih
    obtain ⟨v, hv, hR'⟩ := hstep _ _ _ _ hR h
    exact ⟨v, .step hu hv, hR'⟩

/-- The system with only those steps that meet `ok` in the state before the step. -/
def restrict (T : TransitionSystem σ ℓ) (ok : σ → ℓ → Prop) : TransitionSystem σ ℓ where
  init := T.init
  step s l t := ok s l ∧ T.step s l t

/-- Every run of the restricted system is a run of the whole one. -/
theorem Reachable.of_restrict {T : TransitionSystem σ ℓ} {ok : σ → ℓ → Prop} {s : σ}
    (hs : (T.restrict ok).Reachable s) : T.Reachable s := by
  induction hs with
  | init h => exact .init h
  | step _ h ih => exact .step ih h.2

/-- A weaker condition on the steps leaves more runs. -/
theorem Reachable.restrict_mono {T : TransitionSystem σ ℓ} {ok ok' : σ → ℓ → Prop} {s : σ}
    (hs : (T.restrict ok).Reachable s) (hmono : ∀ s l, ok s l → ok' s l) :
    (T.restrict ok').Reachable s := by
  induction hs with
  | init h => exact .init h
  | step _ h ih => exact .step ih ⟨hmono _ _ h.1, h.2⟩

/-- Two restrictions can be made one after the other. -/
theorem Reachable.restrict_and {T : TransitionSystem σ ℓ} {ok ok' : σ → ℓ → Prop} {s : σ}
    (hs : (T.restrict fun s l => ok s l ∧ ok' s l).Reachable s) :
    ((T.restrict ok).restrict ok').Reachable s := by
  induction hs with
  | init h => exact .init h
  | step _ h ih => exact .step ih ⟨h.1.2, h.1.1, h.2⟩

/-- A total step function is followed along a list of labels that each meet a condition. -/
def OkAlong (next : σ → ℓ → σ) (ok : σ → ℓ → Prop) : σ → List ℓ → Prop
  | _, [] => True
  | s, l :: ls => ok s l ∧ OkAlong next ok (next s l) ls

instance OkAlong.decidable (next : σ → ℓ → σ) (ok : σ → ℓ → Prop) [∀ s l, Decidable (ok s l)] :
    ∀ (ls : List ℓ) (s : σ), Decidable (OkAlong next ok s ls)
  | [], _ => inferInstanceAs (Decidable True)
  | l :: ls, s =>
    have := OkAlong.decidable next ok ls (next s l)
    inferInstanceAs (Decidable (ok s l ∧ OkAlong next ok (next s l) ls))

/-- A list of labels that meet the condition leads to a reachable state. -/
theorem reachable_of_okAlong {T : TransitionSystem σ ℓ} {next : σ → ℓ → σ} {ok : σ → ℓ → Prop}
    (hstep : ∀ s l, ok s l → T.step s l (next s l)) :
    ∀ {ls : List ℓ} {s : σ}, T.Reachable s → OkAlong next ok s ls →
      T.Reachable (ls.foldl next s) := by
  intro ls
  induction ls with
  | nil => exact fun hs _ => hs
  | cons l ls ih => exact fun hs hok => ih (.step hs (hstep _ _ hok.1)) hok.2

/-- The system of a partial step function: `next s l = some t` is the step, `none` means
that `l` is not enabled in `s`. -/
def ofFun (init : σ → Prop) (next : σ → ℓ → Option σ) : TransitionSystem σ ℓ where
  init := init
  step s l t := next s l = some t

/-- The state after a list of labels, or `none` when one of them is not enabled. -/
def run (next : σ → ℓ → Option σ) : σ → List ℓ → Option σ
  | s, [] => some s
  | s, l :: ls => (next s l).bind fun t => run next t ls

/-- A run leads from its first state to its last. -/
theorem leads_of_run {init : σ → Prop} {next : σ → ℓ → Option σ} {s : σ} :
    ∀ {ls : List ℓ} {t u : σ}, (ofFun init next).Leads s t → run next t ls = some u →
      (ofFun init next).Leads s u := by
  intro ls
  induction ls with
  | nil =>
    intro t u hs h
    simp only [run, Option.some.injEq] at h
    exact h ▸ hs
  | cons l ls ih =>
    intro t u hs h
    simp only [run, Option.bind_eq_some_iff] at h
    obtain ⟨v, hv, hrest⟩ := h
    exact ih (.step hs hv) hrest

/-- A run from a reachable state ends in a reachable state. -/
theorem reachable_of_run {init : σ → Prop} {next : σ → ℓ → Option σ} {ls : List ℓ} {s t : σ}
    (hs : (ofFun init next).Reachable s) (h : run next s ls = some t) :
    (ofFun init next).Reachable t :=
  hs.of_leads (leads_of_run .refl h)

/-- The step function that refuses the labels that do not meet `ok`. -/
def guarded (next : σ → ℓ → Option σ) (ok : σ → ℓ → Prop) [∀ s l, Decidable (ok s l)] :
    σ → ℓ → Option σ :=
  fun s l => if ok s l then next s l else none

/-- A guarded run from a reachable state of the restricted system ends in one. -/
theorem reachable_of_guarded_run {init : σ → Prop} {next : σ → ℓ → Option σ}
    {ok : σ → ℓ → Prop} [∀ s l, Decidable (ok s l)] :
    ∀ {ls : List ℓ} {s t : σ}, ((ofFun init next).restrict ok).Reachable s →
      run (guarded next ok) s ls = some t → ((ofFun init next).restrict ok).Reachable t := by
  intro ls
  induction ls with
  | nil =>
    intro s t hs h
    simp only [run, Option.some.injEq] at h
    exact h ▸ hs
  | cons l ls ih =>
    intro s t hs h
    simp only [run, Option.bind_eq_some_iff, guarded] at h
    obtain ⟨u, hu, hrest⟩ := h
    split at hu
    · rename_i hok
      exact ih (.step hs ⟨hok, hu⟩) hrest
    · simp at hu

/-- A run of labels that always meet `ok` leads from a reachable state of the restricted system to
one. -/
theorem reachable_of_free_run {init : σ → Prop} {next : σ → ℓ → Option σ} {ok : σ → ℓ → Prop} :
    ∀ {ls : List ℓ} {s t : σ}, (∀ l ∈ ls, ∀ u, ok u l) →
      ((ofFun init next).restrict ok).Reachable s → run next s ls = some t →
        ((ofFun init next).restrict ok).Reachable t := by
  intro ls
  induction ls with
  | nil =>
    intro s t _ hs h
    simp only [run, Option.some.injEq] at h
    exact h ▸ hs
  | cons l ls ih =>
    intro s t hok hs h
    simp only [run, Option.bind_eq_some_iff] at h
    obtain ⟨u, hu, hrest⟩ := h
    exact ih (fun l' hl' => hok l' (List.mem_cons_of_mem _ hl'))
      (.step hs ⟨hok l List.mem_cons_self s, hu⟩) hrest

end TransitionSystem

end VKernel.Lib

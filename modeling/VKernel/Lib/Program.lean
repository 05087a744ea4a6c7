import Mathlib.Logic.Basic

/-!
# `VKernel.Lib.Program`: programs that ask their environment

A `Program` either is done, or asks its environment for something and goes on with the
answer, or has run out of the rounds it was given for a loop. The signature of requests is a
parameter: a type of requests and, for each request, the type of its answers. One request is
one atomic step, so a program can be run alone against a `Handler`, and several programs can
be interleaved request by request.

* `run` runs a program alone. `none` is a program that did not come to its end.
* `wp` is the weakest precondition of total correctness: the program ends, and in a state
  and with a result that satisfy the postcondition. `wp_iff_run` connects the two, `wp_bind`
  and `wp_mono` are the rules that proofs about programs are made of.
* `Always` is about every environment: whatever the answers are, the program ends with a
  result that satisfies the postcondition.
* `Asks` is about the requests that the program makes in any environment.
* `wlp` is the precondition of partial correctness and safety: every request of the run satisfies
  a condition, and if the program ends, it does so with the postcondition. `wlp_iff_requests`
  connects it with the list of `requests` of a run.
* `Settles` is about programs that are given a number of rounds: from some number on, they end
  with the same result and in the same state.
-/

set_option autoImplicit false

namespace VKernel.Lib

/-- A program over the requests `Req` with answers `Resp`. -/
inductive Program (Req : Type) (Resp : Req → Type) (α : Type) where
  | done (a : α)
  | ask (r : Req) (k : Resp r → Program Req Resp α)
  | diverge

namespace Program

variable {Req : Type} {Resp : Req → Type} {α β W : Type}

/-- Go on with the result of a program. -/
def bind : Program Req Resp α → (α → Program Req Resp β) → Program Req Resp β
  | done a, f => f a
  | ask r k, f => ask r fun x => (k x).bind f
  | diverge, _ => diverge

instance : Monad (Program Req Resp) where
  pure := done
  bind := bind

/-- Programs in a row, grouped either way. -/
theorem bind_assoc {γ : Type} (p : Program Req Resp α) (f : α → Program Req Resp β)
    (g : β → Program Req Resp γ) : (p >>= f) >>= g = p >>= fun a => f a >>= g := by
  induction p with
  | done a => rfl
  | ask r k ih => exact congrArg (ask r) (funext ih)
  | diverge => rfl

/-- One request, and its answer. -/
def request (r : Req) : Program Req Resp (Resp r) := ask r done

/-- How an environment in state `W` answers. -/
abbrev Handler (Resp : Req → Type) (W : Type) := (r : Req) → W → Resp r × W

/-- The program alone in its environment. -/
def run (h : Handler Resp W) : Program Req Resp α → W → Option (α × W)
  | done a, w => some (a, w)
  | ask r k, w => (k (h r w).1).run h (h r w).2
  | diverge, _ => none

/-- The program ends, with a result and in a state that satisfy `Q`. -/
def wp (h : Handler Resp W) : Program Req Resp α → (α → W → Prop) → W → Prop
  | done a, Q, w => Q a w
  | ask r k, Q, w => (k (h r w).1).wp h Q (h r w).2
  | diverge, _, _ => False

variable {h : Handler Resp W}

@[simp] theorem wp_pure (a : α) (Q : α → W → Prop) (w : W) :
    (pure a : Program Req Resp α).wp h Q w ↔ Q a w := Iff.rfl

@[simp] theorem wp_request (r : Req) (Q : Resp r → W → Prop) (w : W) :
    (request r : Program Req Resp (Resp r)).wp h Q w ↔ Q (h r w).1 (h r w).2 := Iff.rfl

/-- The rule of sequencing. -/
@[simp] theorem wp_bind (p : Program Req Resp α) (f : α → Program Req Resp β)
    (Q : β → W → Prop) (w : W) :
    (p >>= f).wp h Q w ↔ p.wp h (fun a => (f a).wp h Q) w := by
  induction p generalizing w with
  | done a => exact Iff.rfl
  | ask r k ih => exact ih _ _
  | diverge => exact Iff.rfl

/-- The rule of consequence. -/
theorem wp_mono {p : Program Req Resp α} {Q R : α → W → Prop} {w : W}
    (hp : p.wp h Q w) (hQR : ∀ a w', Q a w' → R a w') : p.wp h R w := by
  induction p generalizing w with
  | done a => exact hQR _ _ hp
  | ask r k ih => exact ih _ hp
  | diverge => exact hp

/-- A run of a sequence is a run of its parts. -/
theorem run_bind_eq_some {p : Program Req Resp α} {f : α → Program Req Resp β} {w w' : W} {b : β}
    (hrun : (p >>= f).run h w = some (b, w')) :
    ∃ a w₁, p.run h w = some (a, w₁) ∧ (f a).run h w₁ = some (b, w') := by
  induction p generalizing w with
  | done a => exact ⟨a, w, rfl, hrun⟩
  | ask r k ih => exact ih _ hrun
  | diverge => cases hrun

/-- The precondition is about the one run that the program has. -/
theorem wp_iff_run {p : Program Req Resp α} {Q : α → W → Prop} {w : W} :
    p.wp h Q w ↔ ∃ a w', p.run h w = some (a, w') ∧ Q a w' := by
  induction p generalizing w with
  | done a =>
    constructor
    · intro hQ
      exact ⟨a, w, rfl, hQ⟩
    · rintro ⟨a', w', hrun, hQ⟩
      cases hrun
      exact hQ
  | ask r k ih => exact ih _
  | diverge =>
    constructor
    · intro hQ
      exact hQ.elim
    · rintro ⟨a, w', hrun, -⟩
      cases hrun

/-! ### Every environment -/

/-- The program ends, with a result that satisfies `Q`, whatever it is answered. -/
def Always : Program Req Resp α → (α → Prop) → Prop
  | done a, Q => Q a
  | ask _ k, Q => ∀ x, (k x).Always Q
  | diverge, _ => False

/-- What a sequence always returns. -/
@[simp] theorem always_bind (p : Program Req Resp α) (f : α → Program Req Resp β)
    (Q : β → Prop) : (p >>= f).Always Q ↔ p.Always fun a => (f a).Always Q := by
  induction p with
  | done a => exact Iff.rfl
  | ask r k ih => exact forall_congr' ih
  | diverge => exact Iff.rfl

/-- A weaker property. -/
theorem Always.mono {p : Program Req Resp α} {Q R : α → Prop} (hp : p.Always Q)
    (hQR : ∀ a, Q a → R a) : p.Always R := by
  induction p with
  | done a => exact hQR a hp
  | ask r k ih => exact fun x => ih x (hp x)
  | diverge => exact hp

/-- The property that the first program always has is known to the second one. -/
theorem Always.bind {p : Program Req Resp α} {f : α → Program Req Resp β} {Q : α → Prop}
    {R : β → Prop} (hp : p.Always Q) (hf : ∀ a, Q a → (f a).Always R) : (p >>= f).Always R :=
  (always_bind p f R).mpr (hp.mono hf)

theorem always_any (r : Req) : (request r : Program Req Resp (Resp r)).Always fun _ => True :=
  fun _ => trivial

/-- In an environment, too. -/
theorem Always.wp {p : Program Req Resp α} {Q : α → Prop} (hp : p.Always Q) (w : W) :
    p.wp h (fun a _ => Q a) w := by
  induction p generalizing w with
  | done a => exact hp
  | ask r k ih => exact ih _ (hp _) _
  | diverge => exact hp

/-- What a program always returns, a run returns. -/
theorem Always.of_run {p : Program Req Resp α} {Q : α → Prop} (hp : p.Always Q) {w w' : W} {a : α}
    (hrun : p.run h w = some (a, w')) : Q a := by
  obtain ⟨b, w₁, hrun₁, hQ⟩ := wp_iff_run.mp (hp.wp (h := h) w)
  cases hrun.symm.trans hrun₁
  exact hQ

/-- Every request of the program satisfies `P`, whatever it is answered. -/
def Asks (P : Req → Prop) : Program Req Resp α → Prop
  | done _ => True
  | ask r k => P r ∧ ∀ x, (k x).Asks P
  | diverge => True

@[simp] theorem asks_request {P : Req → Prop} {r : Req} :
    (request r : Program Req Resp (Resp r)).Asks P ↔ P r :=
  ⟨fun hr => hr.1, fun hr => ⟨hr, fun _ => trivial⟩⟩

/-- The requests of a sequence. -/
theorem Asks.bind {P : Req → Prop} {p : Program Req Resp α} {f : α → Program Req Resp β}
    (hp : p.Asks P) (hf : ∀ a, (f a).Asks P) : (p >>= f).Asks P := by
  induction p with
  | done a => exact hf a
  | ask r k ih => exact ⟨hp.1, fun x => ih x (hp.2 x)⟩
  | diverge => exact trivial

/-! ### The requests of a run -/

/-- The requests that a run makes, also one that does not come to its end. -/
def requests (h : Handler Resp W) : Program Req Resp α → W → List Req
  | done _, _ => []
  | ask r k, w => r :: (k (h r w).1).requests h (h r w).2
  | diverge, _ => []

/-- A sequence ends as its second part does, if its first part ends. -/
theorem run_bind_eq (p : Program Req Resp α) (f : α → Program Req Resp β) (w : W) :
    (p >>= f).run h w = (p.run h w).bind fun r => (f r.1).run h r.2 := by
  induction p generalizing w with
  | done a => rfl
  | ask r k ih => exact ih _ _
  | diverge => rfl

/-- The requests of a sequence. -/
theorem requests_bind (p : Program Req Resp α) (f : α → Program Req Resp β) (w : W) :
    (p >>= f).requests h w
      = p.requests h w ++ ((p.run h w).elim [] fun r => (f r.1).requests h r.2) := by
  induction p generalizing w with
  | done a => rfl
  | ask r k ih => exact congrArg (r :: ·) (ih _ _)
  | diverge => rfl

/-- Every request of the run satisfies `P`, and the program ends with `Q` if it ends. -/
def wlp (h : Handler Resp W) (P : Req → Prop) : Program Req Resp α → (α → W → Prop) → W → Prop
  | done a, Q, w => Q a w
  | ask r k, Q, w => P r ∧ (k (h r w).1).wlp h P Q (h r w).2
  | diverge, _, _ => True

section Wlp

variable {P : Req → Prop}

/-- The rule of sequencing. -/
@[simp] theorem wlp_bind (p : Program Req Resp α) (f : α → Program Req Resp β)
    (Q : β → W → Prop) (w : W) :
    (p >>= f).wlp h P Q w ↔ p.wlp h P (fun a => (f a).wlp h P Q) w := by
  induction p generalizing w with
  | done a => exact Iff.rfl
  | ask r k ih => exact and_congr_right' (ih _ _)
  | diverge => exact Iff.rfl

/-- The rule of consequence. -/
theorem wlp_mono {p : Program Req Resp α} {Q R : α → W → Prop} {w : W} (hp : p.wlp h P Q w)
    (hQR : ∀ a w', Q a w' → R a w') : p.wlp h P R w := by
  induction p generalizing w with
  | done a => exact hQR _ _ hp
  | ask r k ih => exact ⟨hp.1, ih _ hp.2⟩
  | diverge => exact trivial

/-- The precondition is about the requests and the end of the one run. -/
theorem wlp_iff_requests {p : Program Req Resp α} {Q : α → W → Prop} {w : W} :
    p.wlp h P Q w ↔ (∀ r ∈ p.requests h w, P r) ∧ ∀ a w', p.run h w = some (a, w') → Q a w' := by
  induction p generalizing w with
  | done a =>
    constructor
    · intro hQ
      refine ⟨fun r hr => (by cases hr), fun b w' hrun => ?_⟩
      cases hrun
      exact hQ
    · intro hp
      exact hp.2 a w rfl
  | ask r k ih =>
    constructor
    · rintro ⟨hr, hk⟩
      obtain ⟨hrequests, hrun⟩ := (ih _).mp hk
      exact ⟨List.forall_mem_cons.mpr ⟨hr, hrequests⟩, hrun⟩
    · rintro ⟨hrequests, hrun⟩
      obtain ⟨hr, hrest⟩ := List.forall_mem_cons.mp hrequests
      exact ⟨hr, (ih _).mpr ⟨hrest, hrun⟩⟩
  | diverge =>
    constructor
    · exact fun _ => ⟨fun r hr => (by cases hr), fun _ _ hrun => by cases hrun⟩
    · exact fun _ => trivial

theorem asks_of_forall (hP : ∀ r, P r) (p : Program Req Resp α) : p.Asks P := by
  induction p with
  | done a => exact trivial
  | ask r k ih => exact ⟨hP r, ih⟩
  | diverge => exact trivial

/-- A program that asks for `P` only. -/
theorem Asks.wlp {p : Program Req Resp α} (hp : p.Asks P) {Q : α → W → Prop} {w : W}
    (hQ : ∀ a w', p.run h w = some (a, w') → Q a w') : p.wlp h P Q w := by
  induction p generalizing w with
  | done a => exact hQ a w rfl
  | ask r k ih => exact ⟨hp.1, ih _ (hp.2 _) hQ⟩
  | diverge => exact trivial

/-- Its requests in an environment. -/
theorem Asks.requests {p : Program Req Resp α} (hp : p.Asks P) (w : W) :
    ∀ r ∈ p.requests h w, P r := by
  induction p generalizing w with
  | done a =>
    intro r hr
    cases hr
  | ask r k ih => exact List.forall_mem_cons.mpr ⟨hp.1, ih _ (hp.2 _) _⟩
  | diverge =>
    intro r hr
    cases hr

/-- A weaker property of the requests. -/
theorem Asks.mono {R : Req → Prop} {p : Program Req Resp α} (hp : p.Asks P)
    (hPR : ∀ r, P r → R r) : p.Asks R := by
  induction p with
  | done a => exact trivial
  | ask r k ih => exact ⟨hPR r hp.1, fun x => ih x (hp.2 x)⟩
  | diverge => exact trivial

/-- Total correctness gives partial correctness. -/
theorem wlp_of_wp {p : Program Req Resp α} (hasks : p.Asks P) {Q : α → W → Prop} {w : W}
    (hp : p.wp h Q w) : p.wlp h P Q w := by
  obtain ⟨a, w', hrun, hQ⟩ := wp_iff_run.mp hp
  refine hasks.wlp fun b w₁ hrun₁ => ?_
  cases hrun.symm.trans hrun₁
  exact hQ

end Wlp

/-! ### Rounds -/

/-- From some number of rounds on, the program ends in the same way, and that satisfies `Q`. -/
def Settles (h : Handler Resp W) (p : Nat → Program Req Resp α) (w : W) (Q : α → W → Prop) :
    Prop :=
  ∃ a w', (∃ n₀, ∀ n, n₀ ≤ n → (p n).run h w = some (a, w')) ∧ Q a w'

/-- A weaker property of the outcome. -/
theorem Settles.mono {p : Nat → Program Req Resp α} {w : W} {Q R : α → W → Prop}
    (hp : Settles h p w Q) (hQR : ∀ a w', Q a w' → R a w') : Settles h p w R := by
  obtain ⟨a, w', hrun, hQ⟩ := hp
  exact ⟨a, w', hrun, hQR a w' hQ⟩

/-- A program that needs no rounds. -/
theorem settles_of_wp {p : Program Req Resp α} {w : W} {Q : α → W → Prop} (hp : p.wp h Q w) :
    Settles h (fun _ => p) w Q := by
  obtain ⟨a, w', hrun, hQ⟩ := wp_iff_run.mp hp
  exact ⟨a, w', ⟨0, fun _ _ => hrun⟩, hQ⟩

/-- A program that needs no fuel settles. -/
theorem Always.settles {p : Program Req Resp α} {Q : α → Prop} (hp : p.Always Q) (w : W) :
    Settles h (fun _ => p) w fun a _ => Q a := settles_of_wp (hp.wp w)

/-- The run of a sequence whose first program has run. -/
theorem run_bind {p : Program Req Resp α} {f : α → Program Req Resp β} {w w' : W} {a : α}
    (hrun : p.run h w = some (a, w')) : (p >>= f).run h w = (f a).run h w' := by
  induction p generalizing w with
  | done b =>
    cases hrun
    rfl
  | ask r k ih => exact ih _ hrun
  | diverge => cases hrun

/-- The rule of sequencing. -/
theorem Settles.bind {p : Nat → Program Req Resp α} {f : Nat → α → Program Req Resp β} {w : W}
    {Q : β → W → Prop} (hp : Settles h p w fun a w' => Settles h (fun n => f n a) w' Q) :
    Settles h (fun n => p n >>= f n) w Q := by
  obtain ⟨a, w', ⟨n₁, h₁⟩, b, w'', ⟨n₂, h₂⟩, hQ⟩ := hp
  refine ⟨b, w'', ⟨max n₁ n₂, fun n hn => ?_⟩, hQ⟩
  rw [run_bind (h₁ n (by omega)), h₂ n (by omega)]

/-- Rounds that begin later. -/
theorem settles_succ {p : Nat → Program Req Resp α} {w : W} {Q : α → W → Prop}
    (hp : Settles h (fun n => p (n + 1)) w Q) : Settles h p w Q := by
  obtain ⟨a, w', ⟨n₀, hrun⟩, hQ⟩ := hp
  refine ⟨a, w', ⟨n₀ + 1, fun n hn => ?_⟩, hQ⟩
  obtain ⟨m, rfl⟩ : ∃ m, n = m + 1 := ⟨n - 1, by omega⟩
  exact hrun m (by omega)

/-- One more unit of fuel changes nothing. -/
theorem Settles.succ {p : Nat → Program Req Resp α} {w : W} {Q : α → W → Prop}
    (hp : Settles h p w Q) : Settles h (fun n => p (n + 1)) w Q := by
  obtain ⟨a, w', ⟨n₀, hrun⟩, hQ⟩ := hp
  exact ⟨a, w', ⟨n₀, fun n hn => hrun (n + 1) (by omega)⟩, hQ⟩

end Program

end VKernel.Lib

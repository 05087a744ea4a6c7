import Mathlib.Logic.Function.Basic

/-!
# `VKernel.Lib.TurnQueue`: a shared queue with one entry in it

Two parties share an available ring and a used ring, with free-running indices modulo `M`. The
producer offers an entry by moving `avail`, the device takes it by moving `taken` and gives it
back by moving `used`, and the producer notices by comparing `used` with its own `last`. The
entries have no names: what an index means follows from the turn that it is.

`Turn` says whose turn it is while at most one entry is under way. Each of the four moves takes
one turn to the next (`Turn.offer`, `Turn.take`, `Turn.giveBack`, `Turn.collect`), and the two
comparisons tell the turns apart (`Turn.canTake_iff`, `Turn.hasUsed_iff`).
-/

set_option autoImplicit false

namespace VKernel.Lib

/-- The indices and the used ring. `α` is what the device notes in an entry of it. -/
structure TurnQueue (α : Type) where
  size : Nat
  avail : Nat
  taken : Nat
  used : Nat
  last : Nat
  ring : Nat → α

namespace TurnQueue

variable {α : Type}

/-- The producer offers the entry. -/
def offer (M : Nat) (q : TurnQueue α) : TurnQueue α := { q with avail := (q.avail + 1) % M }

/-- The device takes the oldest entry that is offered. -/
def take (M : Nat) (q : TurnQueue α) : TurnQueue α := { q with taken := (q.taken + 1) % M }

/-- The device gives an entry back, with a note. -/
def giveBack (M : Nat) (q : TurnQueue α) (x : α) : TurnQueue α :=
  { q with ring := Function.update q.ring (q.used % q.size) x, used := (q.used + 1) % M }

/-- The note at the producer's place in the used ring. -/
def note (q : TurnQueue α) : α := q.ring (q.last % q.size)

/-- The producer moves over it. -/
def collect (M : Nat) (q : TurnQueue α) : TurnQueue α := { q with last := (q.last + 1) % M }

/-- The device sees an entry that it has not taken. -/
def CanTake (q : TurnQueue α) : Prop := q.taken ≠ q.avail

/-- The producer sees an entry that was given back. -/
def HasUsed (q : TurnQueue α) : Prop := q.used ≠ q.last

instance (q : TurnQueue α) : Decidable q.CanTake := inferInstanceAs (Decidable (_ ≠ _))

instance (q : TurnQueue α) : Decidable q.HasUsed := inferInstanceAs (Decidable (_ ≠ _))

/-- Whose turn it is. -/
inductive Turn (α : Type)
  /-- The entry is the producer's. -/
  | producer
  /-- It is offered. -/
  | offered
  /-- The device has it. -/
  | device
  /-- It was given back with a note. -/
  | back (x : α)
  deriving DecidableEq, Repr

/-- `avail` has moved. -/
def Turn.availMoved : Turn α → Bool
  | .producer => false
  | _ => true

/-- `taken` has moved. -/
def Turn.takenMoved : Turn α → Bool
  | .producer | .offered => false
  | _ => true

/-- `used` has moved. -/
def Turn.usedMoved : Turn α → Bool
  | .back _ => true
  | _ => false

/-- An index that has moved from `n`, or has not. -/
def moved (M n : Nat) (b : Bool) : Nat := if b then (n + 1) % M else n

/-- The indices of a turn, which starts from `q.last`. -/
structure HasTurn (M : Nat) (q : TurnQueue α) (t : Turn α) : Prop where
  lt : q.last < M
  avail : q.avail = moved M q.last t.availMoved
  taken : q.taken = moved M q.last t.takenMoved
  used : q.used = moved M q.last t.usedMoved
  note : ∀ x, t = .back x → q.note = x

section

variable {M : Nat} {q : TurnQueue α} {t : Turn α}

/-- Indices that differ by one are different. -/
theorem succ_mod_ne {M n : Nat} (hM : 2 ≤ M) (hn : n < M) : (n + 1) % M ≠ n := by
  by_cases h : n + 1 = M
  · rw [h, Nat.mod_self]
    omega
  · rw [Nat.mod_eq_of_lt (by omega)]
    omega

/-- Two indices of one turn agree when both have moved, or neither has. -/
theorem moved_eq_iff {n : Nat} (hM : 2 ≤ M) (hn : n < M) (b c : Bool) :
    moved M n b = moved M n c ↔ b = c := by
  have hne := succ_mod_ne hM hn
  unfold moved
  cases b <;> cases c <;> simp [hne, Ne.symm hne]

/-- A queue without an entry. -/
theorem hasTurn_producer (hM : 0 < M) (size : Nat) (ring : Nat → α) :
    HasTurn M ⟨size, 0, 0, 0, 0, ring⟩ .producer :=
  ⟨hM, rfl, rfl, rfl, fun _ h => by cases h⟩

theorem HasTurn.offer (h : HasTurn M q .producer) : HasTurn M (q.offer M) .offered := by
  refine ⟨h.lt, ?_, h.taken, h.used, fun _ hx => by cases hx⟩
  show (q.avail + 1) % M = (q.last + 1) % M
  rw [show q.avail = q.last from h.avail]

theorem HasTurn.take (h : HasTurn M q .offered) : HasTurn M (q.take M) .device := by
  refine ⟨h.lt, h.avail, ?_, h.used, fun _ hx => by cases hx⟩
  show (q.taken + 1) % M = (q.last + 1) % M
  rw [show q.taken = q.last from h.taken]

theorem HasTurn.giveBack (h : HasTurn M q .device) (x : α) :
    HasTurn M (q.giveBack M x) (.back x) := by
  have hused : q.used = q.last := h.used
  refine ⟨h.lt, h.avail, h.taken, ?_, ?_⟩
  · show (q.used + 1) % M = (q.last + 1) % M
    rw [hused]
  · intro y hy
    cases hy
    -- The device writes to the place at which the producer looks next.
    show Function.update q.ring (q.used % q.size) x (q.last % q.size) = x
    rw [hused, Function.update_self]

theorem HasTurn.collect {x : α} (h : HasTurn M q (.back x)) :
    HasTurn M (q.collect M) .producer :=
  ⟨Nat.mod_lt _ (Nat.lt_of_le_of_lt (Nat.zero_le _) h.lt), h.avail, h.taken, h.used,
    fun _ hy => by cases hy⟩

/-- The device finds an entry exactly when one is offered. -/
theorem HasTurn.canTake_iff (hM : 2 ≤ M) (h : HasTurn M q t) : q.CanTake ↔ t = .offered := by
  unfold CanTake
  rw [h.taken, h.avail, Ne, moved_eq_iff hM h.lt]
  cases t <;> simp [Turn.takenMoved, Turn.availMoved]

/-- The producer finds an entry exactly when one was given back. -/
theorem HasTurn.hasUsed_iff (hM : 2 ≤ M) (h : HasTurn M q t) : q.HasUsed ↔ ∃ x, t = .back x := by
  unfold HasUsed
  rw [h.used]
  show ¬ moved M q.last t.usedMoved = moved M q.last false ↔ _
  rw [moved_eq_iff hM h.lt]
  cases t <;> simp [Turn.usedMoved]

/-- Only the producer's turn has nothing under way. -/
theorem HasTurn.avail_eq_last_iff (hM : 2 ≤ M) (h : HasTurn M q t) :
    q.avail = q.last ↔ t = .producer := by
  rw [h.avail]
  show moved M q.last t.availMoved = moved M q.last false ↔ _
  rw [moved_eq_iff hM h.lt]
  cases t <;> simp [Turn.availMoved]

end

end TurnQueue

end VKernel.Lib

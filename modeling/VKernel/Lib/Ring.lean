import Mathlib.Data.List.Rotate
import Mathlib.Data.Nat.ModEq

/-!
# `VKernel.Lib.Ring`: ring buffers

A ring buffer is an array with a head index. Read from the head on, with wrap-around, it is a
queue followed by the slots that are not in use: `RingHolds`. Storing behind the queue
(`RingHolds.push`) and clearing the head slot (`RingHolds.pop`) are the two operations.
-/

set_option autoImplicit false

namespace VKernel.Lib

variable {α : Type}

/-- From `head` on, the ring `l` holds the queue `q` and then the unused slots `rest`. -/
def RingHolds (l : List α) (head : Nat) (q rest : List α) : Prop := l.rotate head = q ++ rest

/-- The slots are the queue and the rest, in some order. -/
theorem RingHolds.perm {l q rest : List α} {head : Nat} (h : RingHolds l head q rest) :
    l.Perm (q ++ rest) :=
  h ▸ (List.rotate_perm l head).symm

theorem RingHolds.length {l q rest : List α} {head : Nat} (h : RingHolds l head q rest) :
    l.length = q.length + rest.length := by
  rw [h.perm.length_eq, List.length_append]

/-- A store at distance `i` from the head. -/
theorem rotate_set (l : List α) (head : Nat) {i : Nat} (hi : i < l.length) (x : α) :
    (l.set ((head + i) % l.length) x).rotate head = (l.rotate head).set i x := by
  refine List.ext_getElem (by simp) fun k hk _ => ?_
  have hk' : k < l.length := by simpa using hk
  rw [List.getElem_rotate, List.getElem_set, List.getElem_set, List.getElem_rotate]
  simp only [List.length_set]
  -- Two distances below the length lead to one slot only if they are equal.
  have hsame : (head + i) % l.length = (k + head) % l.length ↔ i = k := by
    constructor
    · intro heq
      have hmod : head + i ≡ head + k [MOD l.length] := by
        rw [Nat.add_comm head k]
        exact heq
      exact Nat.ModEq.eq_of_lt_of_lt (Nat.ModEq.add_left_cancel' head hmod) hi hk'
    · rintro rfl
      rw [Nat.add_comm]
  simp only [hsame]

/-- Storing in the first unused slot appends to the queue. -/
theorem RingHolds.push {l q rest : List α} {head : Nat} {y : α}
    (h : RingHolds l head q (y :: rest)) (x : α) :
    RingHolds (l.set ((head + q.length) % l.length) x) head (q ++ [x]) rest := by
  have hlen := h.length
  rw [List.length_cons] at hlen
  unfold RingHolds at h ⊢
  rw [rotate_set l head (by omega), h, List.set_append_right _ _ (Nat.le_refl _), Nat.sub_self,
    List.set_cons_zero, List.append_assoc, List.singleton_append]

/-- The head slot holds the front of the queue. -/
theorem RingHolds.head {l q rest : List α} {head : Nat} {x : α}
    (h : RingHolds l head (x :: q) rest) (hhead : head < l.length) : l[head]? = some x := by
  have hget : (l.rotate head)[0]? = some x := by
    rw [h]
    rfl
  have hpos : 0 < l.length := Nat.lt_of_le_of_lt (Nat.zero_le _) hhead
  rw [List.getElem?_rotate hpos, Nat.zero_add, Nat.mod_eq_of_lt hhead] at hget
  exact hget

/-- Overwriting the head slot and moving the head on removes the front of the queue. -/
theorem RingHolds.pop {l q rest : List α} {head : Nat} {x : α}
    (h : RingHolds l head (x :: q) rest) (hhead : head < l.length) (e : α) :
    RingHolds (l.set head e) ((head + 1) % l.length) q (rest ++ [e]) := by
  have hpos : 0 < l.length := Nat.lt_of_le_of_lt (Nat.zero_le _) hhead
  have hset : (l.set head e).rotate head = e :: (q ++ rest) := by
    have hrot := rotate_set l head hpos e
    rw [Nat.add_zero, Nat.mod_eq_of_lt hhead, h] at hrot
    exact hrot
  have hmod : (l.set head e).rotate ((head + 1) % l.length) = (l.set head e).rotate (head + 1) := by
    have hrot := List.rotate_mod (l.set head e) (head + 1)
    rwa [List.length_set] at hrot
  unfold RingHolds
  rw [hmod, ← List.rotate_rotate, hset, List.rotate_cons_succ, List.rotate_zero, List.append_assoc]

/-- Moving the head on removes the front of the queue; its slot counts as unused from here on. -/
theorem RingHolds.advance {l q rest : List α} {head : Nat} {x : α}
    (h : RingHolds l head (x :: q) rest) (hhead : head < l.length) :
    RingHolds l ((head + 1) % l.length) q (rest ++ [x]) := by
  have hsame : l.set head x = l := by
    have hget := h.head hhead
    rw [List.getElem?_eq_getElem hhead] at hget
    rw [← Option.some.inj hget, List.set_getElem_self]
  have hpop := h.pop hhead x
  rwa [hsame] at hpop

end VKernel.Lib

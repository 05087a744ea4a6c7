import VKernel.Lib.Ring

/-!
# `VKernel.Lib.DroppingQueue`: queues that drop their oldest element when they are full

`DroppingQueue` names the accesses to such a queue. It has two instances. `BoundedFifo` is what
the queue is for: a list of fewer than `n` elements, the oldest first. `DroppingRing` is the usual
code for it: an array of `n` cells with the next cell to write and the next cell to read. Equal
indices mean an empty ring, so one cell stays unused, and a push onto a full ring moves the
reader's index on first.

`heldMap` says that a ring acts as the list of what it holds, whatever its fill level and wherever
its indices are. A program written over `DroppingQueue` then does the same with rings and with
lists, and `QueueMap` is what such a proof needs to know.
-/

set_option autoImplicit false

namespace VKernel.Lib

/-- The accesses to queues that drop their oldest element when they are full. -/
class DroppingQueue (Q : Type → Nat → Type) where
  empty : {α : Type} → {n : Nat} → α → 0 < n → Q α n
  push : {α : Type} → {n : Nat} → Q α n → α → Q α n
  pop : {α : Type} → {n : Nat} → Q α n → Option α × Q α n
  clear : {α : Type} → {n : Nat} → Q α n → Q α n

/-! ### The list -/

/-- Fewer than `n` elements, the oldest first. -/
@[ext]
structure BoundedFifo (α : Type) (n : Nat) where
  items : List α
  bounded : items.length < n

namespace BoundedFifo

variable {α : Type} {n : Nat}

/-- No element. -/
def empty (hn : 0 < n) : BoundedFifo α n := ⟨[], hn⟩

/-- Append an element. A list that is full drops its oldest element for it. -/
def push (q : BoundedFifo α n) (x : α) : BoundedFifo α n :=
  if h : q.items.length + 1 < n then ⟨q.items ++ [x], by simpa using h⟩
  else ⟨(q.items ++ [x]).tail, by
    have hpos := q.bounded
    simp only [List.length_tail, List.length_append, List.length_singleton]
    omega⟩

/-- Remove the oldest element and return it. -/
def pop (q : BoundedFifo α n) : Option α × BoundedFifo α n :=
  (q.items.head?, ⟨q.items.tail, Nat.lt_of_le_of_lt (by simp) q.bounded⟩)

/-- Drop everything. -/
def clear (q : BoundedFifo α n) : BoundedFifo α n :=
  ⟨[], Nat.lt_of_le_of_lt (Nat.zero_le _) q.bounded⟩

end BoundedFifo

instance : DroppingQueue BoundedFifo :=
  ⟨fun _ hn => BoundedFifo.empty hn, BoundedFifo.push, BoundedFifo.pop, BoundedFifo.clear⟩

/-! ### The ring -/

/-- An array of `n` cells, `head` the next one to write and `tail` the next one to read. -/
structure DroppingRing (α : Type) (n : Nat) where
  cells : Vector α n
  head : Fin n
  tail : Fin n

namespace DroppingRing

variable {α : Type} {n : Nat}

/-- The cell behind cell `i`. -/
def next (i : Fin n) : Fin n := ⟨(i.val + 1) % n, Nat.mod_lt _ (Fin.pos i)⟩

/-- Equal indices, and cells that nothing reads before it is written. -/
def empty (x : α) (hn : 0 < n) : DroppingRing α n := ⟨Vector.replicate n x, ⟨0, hn⟩, ⟨0, hn⟩⟩

/-- Store in the head cell. Where the head would meet the tail, the tail moves on first. -/
def push (r : DroppingRing α n) (x : α) : DroppingRing α n where
  cells := r.cells.set r.head x
  head := next r.head
  tail := if next r.head = r.tail then next r.tail else r.tail

/-- The tail cell, unless the indices are equal. -/
def pop (r : DroppingRing α n) : Option α × DroppingRing α n :=
  if r.head = r.tail then (none, r)
  else (some r.cells[r.tail], { r with tail := next r.tail })

/-- Move both indices to the first cell. -/
def clear (r : DroppingRing α n) : DroppingRing α n :=
  { r with head := ⟨0, Fin.pos r.head⟩, tail := ⟨0, Fin.pos r.tail⟩ }

end DroppingRing

instance : DroppingQueue DroppingRing :=
  ⟨DroppingRing.empty, DroppingRing.push, DroppingRing.pop, DroppingRing.clear⟩

namespace DroppingRing

variable {α : Type} {n : Nat}

/-- How far the head is in front of the tail. -/
def count (r : DroppingRing α n) : Nat := (r.head.val + n - r.tail.val) % n

theorem count_lt (r : DroppingRing α n) : r.count < n := Nat.mod_lt _ (Fin.pos r.head)

/-- What the ring holds: the cells from the tail up to the head. -/
def held (r : DroppingRing α n) : BoundedFifo α n where
  items := (r.cells.toList.rotate r.tail).take r.count
  bounded := Nat.lt_of_le_of_lt (List.length_take_le _ _) r.count_lt

theorem length_held (r : DroppingRing α n) : r.held.items.length = r.count := by
  have hlt := r.count_lt
  simp only [held, List.length_take, List.length_rotate, Vector.length_toList]
  omega

/-- Read from the tail on, the ring holds the queue and then the unused cells. -/
theorem ringHolds (r : DroppingRing α n) :
    RingHolds r.cells.toList r.tail r.held.items
      ((r.cells.toList.rotate r.tail).drop r.count) :=
  (List.take_append_drop _ _).symm

/-- The head cell is the first unused one. -/
theorem head_eq (r : DroppingRing α n) : r.head.val = (r.tail.val + r.held.items.length) % n := by
  have hhead := r.head.isLt
  have htail := r.tail.isLt
  rw [length_held, count, Nat.add_mod_mod, show r.tail.val + (r.head.val + n - r.tail.val)
    = r.head.val + n from by omega, Nat.add_mod_right, Nat.mod_eq_of_lt hhead]

/-- The distance of two indices below `n` is determined by where it leads. -/
theorem count_of_head (r : DroppingRing α n) {k : Nat} (hk : k < n)
    (hhead : r.head.val = (r.tail.val + k) % n) : r.count = k := by
  have htail := r.tail.isLt
  unfold count
  rw [hhead]
  by_cases hwrap : r.tail.val + k < n
  · rw [Nat.mod_eq_of_lt hwrap, show r.tail.val + k + n - r.tail.val = k + n from by omega,
      Nat.add_mod_right, Nat.mod_eq_of_lt hk]
  · have hwrapped : (r.tail.val + k) % n = r.tail.val + k - n := by
      rw [Nat.mod_eq_sub_mod (by omega), Nat.mod_eq_of_lt (by omega)]
    rw [hwrapped, show r.tail.val + k - n + n - r.tail.val = k from by omega,
      Nat.mod_eq_of_lt hk]

/-- A ring holds `q` as soon as its cells do and its head is behind them. -/
theorem held_eq {r : DroppingRing α n} {q : BoundedFifo α n} (rest : List α)
    (h : RingHolds r.cells.toList r.tail q.items rest)
    (hhead : r.head.val = (r.tail.val + q.items.length) % n) : r.held = q := by
  have hcount := r.count_of_head q.bounded hhead
  ext1
  show (r.cells.toList.rotate r.tail).take r.count = q.items
  rw [hcount, h, List.take_left]

/-- The test of `push` for a full ring. -/
theorem next_head_eq_tail_iff (r : DroppingRing α n) :
    next r.head = r.tail ↔ r.held.items.length + 1 = n := by
  have htail := r.tail.isLt
  have hbound := r.held.bounded
  have hnext : (next r.head).val = (r.tail.val + (r.held.items.length + 1)) % n := by
    show (r.head.val + 1) % n = _
    rw [r.head_eq, Nat.mod_add_mod, Nat.add_assoc]
  rw [Fin.ext_iff, hnext]
  constructor
  · intro heq
    by_contra hne
    -- A distance between 1 and `n - 1` leads to another cell.
    by_cases hwrap : r.tail.val + (r.held.items.length + 1) < n
    · rw [Nat.mod_eq_of_lt hwrap] at heq
      omega
    · rw [Nat.mod_eq_sub_mod (by omega), Nat.mod_eq_of_lt (by omega)] at heq
      omega
  · intro hfull
    rw [hfull, Nat.add_mod_right, Nat.mod_eq_of_lt htail]

/-- The test of `pop` for an empty ring. -/
theorem head_eq_tail_iff (r : DroppingRing α n) : r.head = r.tail ↔ r.held.items = [] := by
  have hbound := r.held.bounded
  rw [← List.length_eq_zero_iff]
  constructor
  · intro heq
    rw [length_held]
    refine r.count_of_head (Fin.pos r.head) ?_
    rw [heq, Nat.add_zero, Nat.mod_eq_of_lt r.tail.isLt]
  · intro hempty
    have hhead := r.head_eq
    rw [hempty, Nat.add_zero, Nat.mod_eq_of_lt r.tail.isLt] at hhead
    exact Fin.ext hhead

/-! ### A ring acts as the list of what it holds -/

/-- A ring that is not full has an unused cell behind the queue. -/
theorem exists_unused (r : DroppingRing α n) :
    ∃ y rest, RingHolds r.cells.toList r.tail r.held.items (y :: rest) := by
  have hlen := r.ringHolds.length
  have hbound := r.held.bounded
  rw [Vector.length_toList] at hlen
  cases hrest : (r.cells.toList.rotate r.tail).drop r.count with
  | nil =>
    rw [hrest, List.length_nil] at hlen
    omega
  | cons y rest => exact ⟨y, rest, hrest ▸ r.ringHolds⟩

theorem held_push (r : DroppingRing α n) (x : α) : (r.push x).held = r.held.push x := by
  obtain ⟨y, rest, hholds⟩ := r.exists_unused
  have hlen := hholds.length
  have hbound := r.held.bounded
  rw [Vector.length_toList, List.length_cons] at hlen
  -- The cells after the store, read from the tail of before.
  have hstored : RingHolds (r.push x).cells.toList r.tail (r.held.items ++ [x]) rest := by
    have hpush := hholds.push x
    rw [Vector.length_toList, ← r.head_eq] at hpush
    show RingHolds (r.cells.set r.head x).toList _ _ _
    rwa [Vector.toList_set]
  have hhead : (r.push x).head.val = (r.tail.val + (r.held.items.length + 1)) % n := by
    show (r.head.val + 1) % n = _
    rw [r.head_eq, Nat.mod_add_mod, Nat.add_assoc]
  by_cases hfull : next r.head = r.tail
  · -- The oldest element stays in its cell, which is the unused one from here on.
    have hcount := r.next_head_eq_tail_iff.mp hfull
    have htail : (r.push x).tail = next r.tail := if_pos hfull
    have hnil : rest = [] := List.eq_nil_of_length_eq_zero (by omega)
    have hitems : (r.held.push x).items = (r.held.items ++ [x]).tail := by
      rw [BoundedFifo.push, dif_neg (by omega)]
    obtain ⟨first, more, hsplit⟩ := List.exists_cons_of_ne_nil
      (show r.held.items ++ [x] ≠ [] from by simp)
    have hlenMore : more.length + 1 = n := by
      have hlenSplit := congrArg List.length hsplit
      simp only [List.length_append, List.length_cons, List.length_nil] at hlenSplit
      omega
    refine held_eq [first] ?_ ?_
    · rw [hsplit] at hstored
      have hadvanced := hstored.advance (by
        rw [Vector.length_toList]
        exact r.tail.isLt)
      rw [hitems, hsplit, htail]
      rwa [hnil, List.nil_append, Vector.length_toList] at hadvanced
    · rw [hitems, hsplit, htail, hhead]
      show _ = ((r.tail.val + 1) % n + more.length) % n
      rw [Nat.mod_add_mod, hcount, Nat.add_assoc, Nat.add_comm 1, hlenMore]
  · have hcount : r.held.items.length + 1 ≠ n := fun h => hfull (r.next_head_eq_tail_iff.mpr h)
    have htail : (r.push x).tail = r.tail := if_neg hfull
    have hitems : (r.held.push x).items = r.held.items ++ [x] := by
      rw [BoundedFifo.push, dif_pos (by omega)]
    refine held_eq rest ?_ ?_
    · rw [hitems, htail]
      exact hstored
    · rw [hitems, htail, hhead, List.length_append, List.length_singleton]

theorem held_pop (r : DroppingRing α n) :
    r.pop.1 = r.held.pop.1 ∧ r.pop.2.held = r.held.pop.2 := by
  by_cases hempty : r.head = r.tail
  · have hnil := r.head_eq_tail_iff.mp hempty
    rw [pop, if_pos hempty]
    refine ⟨?_, ?_⟩
    · show none = r.held.items.head?
      rw [hnil, List.head?_nil]
    · ext1
      show r.held.items = r.held.items.tail
      rw [hnil, List.tail_nil]
  · have hne : r.held.items ≠ [] := fun h => hempty (r.head_eq_tail_iff.mpr h)
    obtain ⟨first, more, hsplit⟩ := List.exists_cons_of_ne_nil hne
    have hholds := r.ringHolds
    have htail : r.tail.val < r.cells.toList.length := by
      rw [Vector.length_toList]
      exact r.tail.isLt
    rw [hsplit] at hholds
    have hcell : r.cells[r.tail] = first := by
      have hget := hholds.head htail
      rw [List.getElem?_eq_getElem htail, Vector.getElem_toList] at hget
      exact Option.some.inj hget
    rw [pop, if_neg hempty]
    refine ⟨?_, ?_⟩
    · show some r.cells[r.tail] = r.held.items.head?
      rw [hcell, hsplit, List.head?_cons]
    · have hadvanced := hholds.advance htail
      have hitems : r.held.pop.2.items = more := by
        show r.held.items.tail = more
        rw [hsplit, List.tail_cons]
      rw [Vector.length_toList, ← hitems] at hadvanced
      refine held_eq _ hadvanced ?_
      rw [hitems]
      show r.head.val = ((r.tail.val + 1) % n + more.length) % n
      rw [r.head_eq, hsplit, List.length_cons, Nat.mod_add_mod, Nat.add_assoc, Nat.add_comm 1]

/-- Both indices at the first cell: nothing is held. -/
theorem held_of_zero {r : DroppingRing α n} (hhead : r.head.val = 0) (htail : r.tail.val = 0) :
    r.held.items = [] := by
  have hcount : r.count = 0 := r.count_of_head (Fin.pos r.head) (by rw [hhead, htail, Nat.zero_mod])
  show (r.cells.toList.rotate r.tail).take r.count = []
  rw [hcount, List.take_zero]

theorem held_clear (r : DroppingRing α n) : r.clear.held = r.held.clear :=
  BoundedFifo.ext (held_of_zero rfl rfl)

theorem held_empty (x : α) (hn : 0 < n) : (empty x hn).held = BoundedFifo.empty hn :=
  BoundedFifo.ext (held_of_zero rfl rfl)

end DroppingRing

/-- A map of queues that respects their accesses. -/
structure QueueMap (Q R : Type → Nat → Type) [DroppingQueue Q] [DroppingQueue R] where
  toFun : {α : Type} → {n : Nat} → Q α n → R α n
  empty : ∀ {α : Type} {n : Nat} (x : α) (hn : 0 < n),
    toFun (DroppingQueue.empty x hn) = DroppingQueue.empty x hn
  push : ∀ {α : Type} {n : Nat} (q : Q α n) (x : α),
    toFun (DroppingQueue.push q x) = DroppingQueue.push (toFun q) x
  pop : ∀ {α : Type} {n : Nat} (q : Q α n),
    DroppingQueue.pop (toFun q)
      = ((DroppingQueue.pop q).1, toFun (DroppingQueue.pop q).2)
  clear : ∀ {α : Type} {n : Nat} (q : Q α n),
    toFun (DroppingQueue.clear q) = DroppingQueue.clear (toFun q)

/-- A ring acts as the list of what it holds. -/
def heldMap : QueueMap DroppingRing BoundedFifo where
  toFun := DroppingRing.held
  empty := DroppingRing.held_empty
  push := DroppingRing.held_push
  pop := fun r => (Prod.ext r.held_pop.1 r.held_pop.2).symm
  clear := DroppingRing.held_clear

end VKernel.Lib

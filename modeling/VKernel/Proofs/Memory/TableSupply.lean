import VKernel.Proofs.Memory.PageTables

/-!
# `VKernel.Proofs.Memory.TableSupply`: how many tables can still be made

Whether `map_page` succeeds is a matter of pages: it needs one for every table that is missing
on the way to its page, and the allocator has to give them one after the other. `takeTables`
is that row of allocations, and `missingTables` counts what a row of pages asks for.

`Grown s s' n` is what the calls on an address space have in common: `n` tables were taken, no
other region of the allocator changed hands, and memory outside the tables is as it was.
-/

set_option autoImplicit false

namespace VKernel.Proofs.Memory

open VKernel.Memory VKernel.Lib

/-! ### Pages for tables -/

/-- `n` calls of `allocate_pages` for a table in a row, or `none` when one of them fails. -/
def takeTables : Nat → PhysAllocator → Option PhysAllocator
  | 0, a => some a
  | n + 1, a =>
    let (phys, a) := a.allocatePages tableRequest
    if phys = 0 then none else takeTables n a

theorem takeTables_add (m n : Nat) (a : PhysAllocator) :
    takeTables (m + n) a = (takeTables m a).bind (takeTables n) := by
  induction m generalizing a with
  | zero =>
    rw [Nat.zero_add]
    rfl
  | succ m ih =>
    rw [Nat.succ_add, takeTables, takeTables]
    dsimp only
    split
    · rfl
    · exact ih _

/-- What cannot be taken cannot be taken with more. -/
theorem takeTables_none {m n : Nat} {a : PhysAllocator} (h : takeTables m a = none) (hle : m ≤ n) :
    takeTables n a = none := by
  obtain ⟨d, rfl⟩ := Nat.exists_eq_add_of_le hle
  rw [takeTables_add, h]
  rfl

/-! ### Tables that pages ask for -/

/-- How many tables are missing on the way to a page. -/
def missingAt (has : Nat → Nat → Bool) (page : Nat) : Nat :=
  (if has 3 (page / 512 / 512 / 512) then 0 else 1) + (if has 2 (page / 512 / 512) then 0 else 1) +
    (if has 1 (page / 512) then 0 else 1)

/-- The tables with those on the way to a page. -/
def withPath (has : Nat → Nat → Bool) (page : Nat) : Nat → Nat → Bool :=
  fun n k => has n k || decide (n = 3 ∧ k = page / 512 / 512 / 512) ||
    decide (n = 2 ∧ k = page / 512 / 512) || decide (n = 1 ∧ k = page / 512)

/-- How many tables are missing for `n` pages from `page` on. What is made for the first page is
there for the others. -/
def missingTables (has : Nat → Nat → Bool) (page : Nat) : Nat → Nat
  | 0 => 0
  | n + 1 => missingAt has page + missingTables (withPath has page) (page + 1) n

/-- The tables of a tree. -/
def hasTable (T : Tables) : Nat → Nat → Bool := fun n k => (T n k).isSome

/-- Only the tables on the way to the pages are asked for. -/
theorem missingTables_congr {has has' : Nat → Nat → Bool} {page n : Nat}
    (hsame : ∀ l k, 1 ≤ l → l ≤ 3 → UserKey l k → has l k = has' l k)
    (huser : ∀ j, j < n → UserKey 0 (page + j)) :
    missingTables has page n = missingTables has' page n := by
  induction n generalizing has has' page with
  | zero => rfl
  | succ n ih =>
    obtain ⟨h1, h2, h3, -⟩ := userKeys (huser 0 (Nat.zero_lt_succ _))
    rw [Nat.add_zero] at h1 h2 h3
    have hhead : missingAt has page = missingAt has' page := by
      rw [missingAt, missingAt, hsame _ _ (by decide) (by decide) h1,
        hsame _ _ (by decide) (by decide) h2, hsame _ _ (by decide) (by decide) h3]
    rw [missingTables, missingTables, hhead]
    congr 1
    refine ih (fun l k hl hl' hk => ?_) fun j hj => ?_
    · rw [withPath, withPath, hsame l k hl hl' hk]
    · rw [Nat.add_right_comm, Nat.add_assoc]
      exact huser (j + 1) (Nat.succ_lt_succ hj)

/-! ### Growth -/

/-- From `s` to `s'` the address space took `n` tables. -/
structure Grown (s s' : Vm) (n : Nat) : Prop where
  taken : takeTables n s.alloc = some s'.alloc
  kept : ∀ r ∈ s.alloc.freeList, r.used = true → r ∈ s'.alloc.freeList
  new : ∀ r ∈ s'.alloc.freeList, r.used = true →
    r ∈ s.alloc.freeList ∨ r.start ∈ s'.tables ∧ FreeAt s.alloc r.start
  freeAt : ∀ x, FreeAt s'.alloc x → FreeAt s.alloc x
  tables : ∀ p ∈ s'.tables, p ∈ s.tables ∨
    ∀ x, p ≤ x → x < p + PAGE_SIZE_4K → FreeAt s.alloc x
  subset : ∀ p ∈ s.tables, p ∈ s'.tables
  frame : ∀ a, (∀ p ∈ s'.tables, ¬ (p ≤ a ∧ a < p + PAGE_SIZE_4K)) → s'.mem a = s.mem a

section Growth

variable {s t u : Vm} {m n : Nat}

theorem Grown.refl (s : Vm) : Grown s s 0 where
  taken := rfl
  kept _ hr _ := hr
  new _ hr _ := .inl hr
  freeAt _ hx := hx
  tables _ hp := .inl hp
  subset _ hp := hp
  frame _ _ := rfl

theorem Grown.trans (h : Grown s t m) (h' : Grown t u n) : Grown s u (m + n) where
  taken := by
    rw [takeTables_add, h.taken]
    exact h'.taken
  kept r hr hu := h'.kept r (h.kept r hr hu) hu
  new r hr hu := by
    rcases h'.new r hr hu with hr' | ⟨hmem, hfree⟩
    · rcases h.new r hr' hu with hold | ⟨hmem, hfree⟩
      · exact .inl hold
      · exact .inr ⟨h'.subset _ hmem, hfree⟩
    · exact .inr ⟨hmem, h.freeAt _ hfree⟩
  freeAt x hx := h.freeAt x (h'.freeAt x hx)
  tables p hp := by
    rcases h'.tables p hp with hp' | hfree
    · exact h.tables p hp'
    · exact .inr fun x hx hx' => h.freeAt x (hfree x hx hx')
  subset p hp := h'.subset p (h.subset p hp)
  frame a ha := by
    rw [h'.frame a ha]
    exact h.frame a fun p hp => ha p (h'.subset p hp)

/-- A word that is neither free nor in a table stays as it is. -/
theorem Grown.outside {a : Nat} (h : Grown s t n) (hfree : ¬ FreeAt s.alloc a)
    (hout : ∀ p ∈ s.tables, ¬ (p ≤ a ∧ a < p + PAGE_SIZE_4K)) : t.mem a = s.mem a := by
  refine h.frame a fun q hq hin => ?_
  rcases h.tables q hq with hold | hnew
  · exact hout q hold hin
  · exact hfree (hnew a hin.1 hin.2)

/-- A store to a word of a table. -/
theorem Grown.write {p i : Nat} (hp : p ∈ s.tables) (hi : i < 512) (v : Nat) :
    Grown s (s.write (slot p i) v) 0 where
  taken := rfl
  kept _ hr _ := hr
  new _ hr _ := .inl hr
  freeAt _ hx := hx
  tables _ hp := .inl hp
  subset _ hp := hp
  frame a ha := by
    refine Function.update_of_ne (fun heq => ha p hp ?_) ..
    rw [heq]
    unfold slot PAGE_SIZE_4K
    omega

end Growth

end VKernel.Proofs.Memory

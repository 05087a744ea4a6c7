import VKernel.Memory.TableTeardown
import VKernel.Proofs.Memory.VirtualMemory

/-!
# `VKernel.Proofs.Memory.TableTeardown`: an address space frees its tables, once each

`destroyCalls` is the list of pages that the teardown frees (`Memory/TableTeardown.lean`). The
tree of the address space gives the same list without the walk: `subtree T n k` are the tables
below the one named `(n, k)`, and `destroyCalls_eq` says that the walk frees the subtrees of the
user slots and then the PML4.

The walk clears the entries that it has followed, so the loop over a table runs in a memory that
is no longer the one that holds the tree. `LoopOk` says what still holds of it: the entries ahead
and everything below them are as before. A branch that is freed writes only to its own tables
(`TreeFreed`), and tables with different names are different pages.

`Owned` turns this into a statement on the pages: every page that was taken for a table has a
name, so it is freed, and no two names share a page, so it is freed once.
-/

set_option autoImplicit false
set_option maxRecDepth 20000

namespace VKernel.Proofs.Memory

open VKernel.Memory VKernel.Lib

/-! ### The tables below a table -/

/-- The name `(n', k')` is that of `(n, k)` or of a table below it. -/
def AtOrUnder (n k n' k' : Nat) : Prop := n' ≤ n ∧ k' / 512 ^ (n - n') = k

/-- The tables of a branch: what is below its top, and then the top. -/
def branch : Option Nat → List Nat → List Nat
  | none, _ => []
  | some top, below => below ++ [top]

/-- The branches with the given keys. -/
def branches (T : Tables) (n : Nat) (below : Nat → List Nat) (keys : List Nat) : List Nat :=
  keys.flatMap fun key => branch (T n key) (below key)

/-- The tables below the table `(n, k)`, in the order in which they are freed. -/
def subtree (T : Tables) : Nat → Nat → List Nat
  | 0, _ => []
  | 1, _ => []
  | n + 2, k => branches T (n + 1) (subtree T (n + 1)) ((List.range 512).map (512 * k + ·))

section Names

variable {m : Words} {root : Nat} {tables : List Nat} {T : Tables} {n k n' k' p : Nat}

theorem AtOrUnder.refl (n k : Nat) : AtOrUnder n k n k :=
  ⟨Nat.le_refl _, by rw [Nat.sub_self, Nat.pow_zero, Nat.div_one]⟩

/-- Below a child is below its parent. -/
theorem AtOrUnder.parent (h : AtOrUnder n k n' k') : AtOrUnder (n + 1) (k / 512) n' k' := by
  obtain ⟨hle, hkey⟩ := h
  refine ⟨by omega, ?_⟩
  rw [Nat.sub_add_comm hle, Nat.pow_succ, ← Nat.div_div_eq_div_mul, hkey]

/-- Below a table and not the table itself is below one of its children. -/
theorem AtOrUnder.child (h : AtOrUnder (n + 1) k n' k') (hlt : n' ≤ n) :
    AtOrUnder n (k' / 512 ^ (n - n')) n' k' ∧ k' / 512 ^ (n - n') / 512 = k := by
  refine ⟨⟨hlt, rfl⟩, ?_⟩
  have hkey := h.2
  rw [Nat.sub_add_comm hlt, Nat.pow_succ] at hkey
  rw [Nat.div_div_eq_div_mul]
  exact hkey

/-- Keys of a level have nothing in common below them. -/
theorem AtOrUnder.key_eq {j : Nat} (h : AtOrUnder n k n' k') (h' : AtOrUnder n j n' k') : k = j :=
  h.2.symm.trans h'.2

/-- The user keys below the user slots of the PML4. -/
theorem UserKey.top (hk : UserKey n k) :
    128 ≤ k / 512 ^ (3 - n) ∧ k / 512 ^ (3 - n) < 256 := by
  have hpos : 0 < 512 ^ (3 - n) := Nat.pow_pos (by decide)
  exact ⟨(Nat.le_div_iff_mul_le hpos).mpr hk.1, (Nat.div_lt_iff_lt_mul hpos).mpr hk.2⟩

/-- Over a table there are tables up to the user slots. -/
theorem PageTree.ancestor (h : PageTree m root tables T) (h1 : 1 ≤ n') (h3 : n ≤ 3)
    (hk : UserKey n' k') (hunder : AtOrUnder n k n' k') (hp : T n' k' ≠ none) :
    UserKey n k ∧ T n k ≠ none := by
  obtain ⟨hle, hkey⟩ := hunder
  induction hgap : n - n' generalizing n k with
  | zero =>
    obtain rfl : n = n' := by omega
    rw [Nat.sub_self, Nat.pow_zero, Nat.div_one] at hkey
    exact hkey ▸ ⟨hk, hp⟩
  | succ d ih =>
    obtain ⟨n, rfl⟩ : ∃ j, n = j + 1 := ⟨n - 1, by omega⟩
    have hchild := AtOrUnder.child ⟨hle, hkey⟩ (by omega : n' ≤ n)
    obtain ⟨huser, hsome⟩ := ih (by omega) hchild.1.1 rfl (by omega)
    rw [← hchild.2]
    refine ⟨huser.parent (by omega), fun hnone => hsome ?_⟩
    exact h.missing (by omega) (by omega) huser hnone

/-- What a branch consists of. -/
theorem mem_branch {top : Option Nat} {below : List Nat} :
    p ∈ branch top below ↔ top = some p ∨ top ≠ none ∧ p ∈ below := by
  cases top with
  | none => simp [branch]
  | some c => simp [branch, or_comm, eq_comm]

/-- The tables below a table have names below its name. -/
theorem name_of_mem_subtree (hp : p ∈ subtree T n k) :
    ∃ n' k', 1 ≤ n' ∧ n' < n ∧ AtOrUnder n k n' k' ∧ T n' k' = some p := by
  induction n generalizing k with
  | zero => exact absurd hp List.not_mem_nil
  | succ n ih =>
    cases n with
    | zero => exact absurd hp List.not_mem_nil
    | succ n =>
      obtain ⟨key, hkey, hmem⟩ := List.mem_flatMap.mp hp
      obtain ⟨i, hi, rfl⟩ := List.mem_map.mp hkey
      have hparent : (512 * k + i) / 512 = k := by
        have := List.mem_range.mp hi
        omega
      rcases mem_branch.mp hmem with htop | ⟨-, hbelow⟩
      · refine ⟨n + 1, 512 * k + i, by omega, by omega, ?_, htop⟩
        have hself := (AtOrUnder.refl (n + 1) (512 * k + i)).parent
        rwa [hparent] at hself
      · obtain ⟨n', k', h1, hlt, hunder, hT⟩ := ih hbelow
        refine ⟨n', k', h1, by omega, ?_, hT⟩
        have hup := hunder.parent
        rwa [hparent] at hup

/-- A name at or below a name with a key of the list is that of a table of these branches. -/
theorem mem_branches (h : PageTree m root tables T) {keys : List Nat} (h1 : 1 ≤ n') (h3 : n ≤ 3)
    (hk : UserKey n' k') (hunder : AtOrUnder n k n' k') (hmem : k ∈ keys)
    (hbelow : n' < n → T n' k' = some p → p ∈ subtree T n k) (hp : T n' k' = some p) :
    p ∈ branches T n (subtree T n) keys := by
  refine List.mem_flatMap.mpr ⟨k, hmem, mem_branch.mpr ?_⟩
  rcases Nat.lt_or_ge n' n with hlt | hge
  · have hsome := h.ancestor h1 h3 hk hunder (by rw [hp]; exact Option.some_ne_none _)
    exact .inr ⟨hsome.2, hbelow hlt hp⟩
  · obtain rfl : n' = n := Nat.le_antisymm hunder.1 hge
    obtain rfl : k' = k := by
      have := hunder.2
      rwa [Nat.sub_self, Nat.pow_zero, Nat.div_one] at this
    exact .inl hp

/-- The tables with names below that of a table are freed with it. -/
theorem mem_subtree_of_name (h : PageTree m root tables T) (h1 : 1 ≤ n') (hlt : n' < n)
    (h3 : n ≤ 4) (hk : UserKey n' k') (hunder : AtOrUnder n k n' k') (hp : T n' k' = some p) :
    p ∈ subtree T n k := by
  induction n generalizing k with
  | zero => omega
  | succ n ih =>
    cases n with
    | zero => omega
    | succ n =>
      obtain ⟨hchild, hkey⟩ := hunder.child (by omega)
      refine mem_branches h h1 (by omega) hk hchild ?_ (fun hlt' _ => ih hlt' (by omega) hchild)
        hp
      refine List.mem_map.mpr ⟨k' / 512 ^ (n + 1 - n') % 512, ?_, ?_⟩
      · exact List.mem_range.mpr (Nat.mod_lt _ (by decide))
      · omega

/-- A branch and the branches with other keys have no table in common. -/
theorem branch_disjoint (h : PageTree m root tables T) {j q : Nat} (hne : k ≠ j)
    (hp : p ∈ branch (T n k) (subtree T n k)) (hq : q ∈ branch (T n j) (subtree T n j)) :
    p ≠ q := by
  have hname : ∀ {k p}, p ∈ branch (T n k) (subtree T n k) →
      ∃ n' k', AtOrUnder n k n' k' ∧ T n' k' = some p := by
    intro k p hmem
    rcases mem_branch.mp hmem with htop | ⟨-, hbelow⟩
    · exact ⟨n, k, AtOrUnder.refl n k, htop⟩
    · obtain ⟨n', k', -, -, hunder, hT⟩ := name_of_mem_subtree hbelow
      exact ⟨n', k', hunder, hT⟩
  rintro rfl
  obtain ⟨n₁, k₁, hunder₁, hT₁⟩ := hname hp
  obtain ⟨n₂, k₂, hunder₂, hT₂⟩ := hname hq
  obtain ⟨rfl, rfl⟩ := h.inj _ _ _ _ _ hT₁ hT₂
  exact hne (hunder₁.key_eq hunder₂)

/-- Branches with different keys are freed once each if their subtrees are. -/
theorem nodup_branches (h : PageTree m root tables T) {keys : List Nat} (hkeys : keys.Nodup)
    (hsub : ∀ key ∈ keys, (subtree T n key).Nodup) :
    (branches T n (subtree T n) keys).Nodup := by
  refine List.nodup_flatMap.mpr ⟨fun key hkey => ?_, hkeys.imp fun {a b} hne x hx hx' =>
    branch_disjoint h hne hx hx' rfl⟩
  cases hT : T n key with
  | none => exact List.nodup_nil
  | some c =>
    refine List.nodup_append.mpr ⟨hsub key hkey, List.nodup_singleton c, fun x hx y hy hxy => ?_⟩
    obtain rfl := List.mem_singleton.mp hy
    obtain ⟨n', k', -, hlt, -, hT'⟩ := name_of_mem_subtree hx
    have := (h.inj _ _ _ _ _ hT (hxy ▸ hT')).1
    omega

theorem nodup_subtree (h : PageTree m root tables T) (n k : Nat) : (subtree T n k).Nodup := by
  induction n generalizing k with
  | zero => exact List.nodup_nil
  | succ n ih =>
    cases n with
    | zero => exact List.nodup_nil
    | succ n =>
      refine nodup_branches h ?_ fun key _ => ih key
      exact List.nodup_range.map fun a b hab => Nat.add_left_cancel hab

end Names

/-! ### The walk -/

/-- The words of the tables at or below a name are as in another memory. -/
def Agrees (m m₀ : Words) (T : Tables) (n k : Nat) : Prop :=
  ∀ n' k' p j, AtOrUnder n k n' k' → T n' k' = some p → j < 512 → m (slot p j) = m₀ (slot p j)

/-- What `free_page_table_tree` does with the tables of a level: it frees what is below, and
writes to nothing else. -/
def TreeFreed (m₀ : Words) (T : Tables) (n : Nat) : Prop :=
  ∀ k p m, UserKey n k → T n k = some p → Agrees m m₀ T n k →
    (freePageTableTreeLog n p m).2 = subtree T n k ∧
      ∀ n' k' p' j, T n' k' = some p' → j < 512 → ¬ AtOrUnder n k n' k' →
        (freePageTableTreeLog n p m).1 (slot p' j) = m (slot p' j)

section Walk

variable {m m₀ : Words} {root : Nat} {tables : List Nat} {T : Tables} {n k p : Nat}

/-- Words of tables with different names have different addresses. -/
theorem PageTree.slot_ne {n' k' p' i j : Nat} (h : PageTree m₀ root tables T) (hp : T n k = some p)
    (hi : i < 512) (hp' : T n' k' = some p') (hj : j < 512)
    (hne : ¬ (n' = n ∧ k' = k ∧ j = i)) : slot p' j ≠ slot p i := by
  intro heq
  obtain ⟨hpp, hij⟩ := slot_inj (h.table _ _ _ hp').2.dvd (h.table _ _ _ hp).2.dvd hj hi heq
  obtain ⟨hn, hk⟩ := h.inj _ _ _ _ _ hp' (hpp ▸ hp)
  exact hne ⟨hn, hk, hij⟩

/-- The entries that a loop has yet to look at, and what is below them, read as in `m₀`. -/
structure LoopOk (m m₀ : Words) (T : Tables) (n k p : Nat) (indices : List Nat) : Prop where
  lt : ∀ i ∈ indices, i < 512
  user : ∀ i ∈ indices, UserKey n (512 * k + i)
  nodup : indices.Nodup
  entries : ∀ i ∈ indices, m (slot p i) = m₀ (slot p i)
  below : ∀ i ∈ indices, Agrees m m₀ T n (512 * k + i)

theorem LoopOk.tail {i : Nat} {rest : List Nat} (h : LoopOk m m₀ T n k p (i :: rest)) :
    LoopOk m m₀ T n k p rest where
  lt j hj := h.lt j (List.mem_cons_of_mem _ hj)
  user j hj := h.user j (List.mem_cons_of_mem _ hj)
  nodup := (List.nodup_cons.mp h.nodup).2
  entries j hj := h.entries j (List.mem_cons_of_mem _ hj)
  below j hj := h.below j (List.mem_cons_of_mem _ hj)

theorem LoopOk.entry {i : Nat} {rest : List Nat} (hloop : LoopOk m m₀ T n k p (i :: rest))
    (h : PageTree m₀ root tables T) (h1 : 1 ≤ n) (h3 : n ≤ 3) (hp : T (n + 1) k = some p) :
    EntryOk (m (slot p i)) (T n (512 * k + i)) := by
  have hi := hloop.lt i List.mem_cons_self
  have hparent : (512 * k + i) / 512 = k := by omega
  have hindex : (512 * k + i) % 512 = i := by omega
  have hold := h.entry h1 h3 (hloop.user i List.mem_cons_self) (p := p) (by rw [hparent]; exact hp)
  rw [hindex] at hold
  rw [hloop.entries i List.mem_cons_self]
  exact hold

/-- The words that one branch leaves as they were. -/
theorem LoopOk.kept {i c n' k' p' j : Nat} {rest : List Nat}
    (hloop : LoopOk m m₀ T n k p (i :: rest)) (hfreed : TreeFreed m₀ T n)
    (hT : T n (512 * k + i) = some c) (hp' : T n' k' = some p') (hj : j < 512)
    (hunder : ¬ AtOrUnder n (512 * k + i) n' k') :
    (freePageTableTreeLog n c m).1 (slot p' j) = m (slot p' j) :=
  (hfreed _ c m (hloop.user i List.mem_cons_self) hT (hloop.below i List.mem_cons_self)).2
    n' k' p' j hp' hj hunder

/-- A table is not below its child. -/
theorem not_under_child (key : Nat) : ¬ AtOrUnder n key (n + 1) k := fun hcon => by
  have := hcon.1
  omega

/-- After one branch the rest of the loop reads what it would have read before. -/
theorem LoopOk.next {i c : Nat} {rest : List Nat} (hloop : LoopOk m m₀ T n k p (i :: rest))
    (h : PageTree m₀ root tables T) (hfreed : TreeFreed m₀ T n) (hp : T (n + 1) k = some p)
    (hT : T n (512 * k + i) = some c) :
    LoopOk (Function.update (freePageTableTreeLog n c m).1 (slot p i) 0) m₀ T n k p rest where
  lt := hloop.tail.lt
  user := hloop.tail.user
  nodup := hloop.tail.nodup
  entries j hj := by
    have hji : j ≠ i := fun heq => (List.nodup_cons.mp hloop.nodup).1 (heq ▸ hj)
    have hjlt := hloop.tail.lt j hj
    rw [Function.update_of_ne (h.slot_ne hp (hloop.lt i List.mem_cons_self) hp hjlt
      fun hcon => hji hcon.2.2), hloop.kept hfreed hT hp hjlt (not_under_child _)]
    exact hloop.tail.entries j hj
  below j hj n' k' p' j' hunder hp' hj' := by
    have hji : j ≠ i := fun heq => (List.nodup_cons.mp hloop.nodup).1 (heq ▸ hj)
    have hother : ¬ AtOrUnder n (512 * k + i) n' k' := fun hcon => hji (by
      have := hunder.key_eq hcon
      omega)
    rw [Function.update_of_ne (h.slot_ne hp (hloop.lt i List.mem_cons_self) hp' hj'
      fun hcon => not_under_child _ (hcon.1 ▸ hcon.2.1 ▸ hunder)),
      hloop.kept hfreed hT hp' hj' hother]
    exact hloop.tail.below j hj n' k' p' j' hunder hp' hj'

/-- The loop over the entries of a table frees the branches that they lead to. -/
theorem freeEntriesLog_spec (h : PageTree m₀ root tables T) (hfreed : TreeFreed m₀ T n)
    (h1 : 1 ≤ n) (h3 : n ≤ 3) (hp : T (n + 1) k = some p) {indices : List Nat}
    (hloop : LoopOk m m₀ T n k p indices) :
    (freeEntriesLog (freePageTableTreeLog n) true p indices m).2 =
        branches T n (subtree T n) (indices.map (512 * k + ·)) ∧
      ∀ n' k' p' j, T n' k' = some p' → j < 512 →
        (∀ i ∈ indices, ¬ AtOrUnder n (512 * k + i) n' k') →
        ¬ (n' = n + 1 ∧ k' = k ∧ j ∈ indices) →
        (freeEntriesLog (freePageTableTreeLog n) true p indices m).1 (slot p' j) =
          m (slot p' j) := by
  induction indices generalizing m with
  | nil => exact ⟨rfl, fun _ _ _ _ _ _ _ _ => rfl⟩
  | cons i rest ih =>
    have hentry := hloop.entry h h1 h3 hp
    unfold freeEntriesLog
    dsimp only
    cases hT : T n (512 * k + i) with
    | none =>
      rw [hT] at hentry
      rw [if_pos (.inl hentry)]
      obtain ⟨hcalls, hframe⟩ := ih hloop.tail
      refine ⟨?_, fun n' k' p' j hp' hj hunder hself => ?_⟩
      · rw [hcalls]
        simp [branches, branch, hT]
      · exact hframe n' k' p' j hp' hj
          (fun i' hi' => hunder i' (List.mem_cons_of_mem _ hi'))
          fun hcon => hself ⟨hcon.1, hcon.2.1, List.mem_cons_of_mem _ hcon.2.2⟩
    | some c =>
      rw [hT] at hentry
      obtain ⟨hpresent, hsmall, hchild⟩ := hentry
      have htop : tableFromPhys (m (slot p i)) = c := hchild
      obtain ⟨hfirst, -⟩ := hfreed _ c m (hloop.user i List.mem_cons_self) hT
        (hloop.below i List.mem_cons_self)
      rw [if_neg (by rw [not_or, not_not]; exact ⟨hpresent, hsmall⟩), htop, hchild, if_pos rfl,
        hfirst]
      obtain ⟨hcalls, hframe⟩ := ih (hloop.next h hfreed hp hT)
      refine ⟨?_, fun n' k' p' j hp' hj hunder hself => ?_⟩
      · rw [hcalls]
        simp [branches, branch, hT]
      · rw [hframe n' k' p' j hp' hj
          (fun i' hi' => hunder i' (List.mem_cons_of_mem _ hi'))
          fun hcon => hself ⟨hcon.1, hcon.2.1, List.mem_cons_of_mem _ hcon.2.2⟩]
        have hword : ¬ (n' = n + 1 ∧ k' = k ∧ j = i) := fun hcon => hself
          ⟨hcon.1, hcon.2.1, by rw [hcon.2.2]; exact List.mem_cons_self⟩
        rw [Function.update_of_ne
          (h.slot_ne hp (hloop.lt i List.mem_cons_self) hp' hj hword)]
        exact hloop.kept hfreed hT hp' hj (hunder i List.mem_cons_self)

/-- Below a page table there are no tables. -/
theorem freeEntriesLog_leaves {f : Nat → Words → Words × List Nat}
    (hfree : ∀ table m, f table m = (m, [])) {indices : List Nat}
    (hlt : ∀ i ∈ indices, i < 512) :
    (freeEntriesLog f false p indices m).2 = [] ∧
      ∀ a, (∀ j < 512, a ≠ slot p j) → (freeEntriesLog f false p indices m).1 a = m a := by
  induction indices generalizing m with
  | nil => exact ⟨rfl, fun _ _ => rfl⟩
  | cons i rest ih =>
    have hlt' : ∀ j ∈ rest, j < 512 := fun j hj => hlt j (List.mem_cons_of_mem _ hj)
    unfold freeEntriesLog
    dsimp only
    split_ifs
    · exact ih hlt'
    · contradiction
    · rw [hfree]
      obtain ⟨hcalls, hframe⟩ := ih (m := Function.update m (slot p i) 0) hlt'
      refine ⟨by rw [hcalls]; rfl, fun a ha => ?_⟩
      rw [hframe a ha, Function.update_of_ne (ha i (hlt i List.mem_cons_self))]

/-- The loop over a whole table, when everything at or below the table reads as in `m₀`. -/
theorem loopOk_table (h3 : n ≤ 2) (hk : UserKey (n + 1) k) (hp : T (n + 1) k = some p)
    (hagrees : Agrees m m₀ T (n + 1) k) : LoopOk m m₀ T n k p (List.range 512) := by
  have hup : ∀ i ∈ List.range 512, (512 * k + i) / 512 = k := fun i hi => by
    have := List.mem_range.mp hi
    omega
  exact {
    lt := fun i hi => List.mem_range.mp hi
    user := fun i hi => UserKey.child (by omega) (by rw [hup i hi]; exact hk)
    nodup := List.nodup_range
    entries := fun i hi => hagrees _ _ p i (AtOrUnder.refl _ _) hp (List.mem_range.mp hi)
    below := fun i hi n' k' p' j hunder hp' hj => by
      have hparent := hunder.parent
      rw [hup i hi] at hparent
      exact hagrees n' k' p' j hparent hp' hj }

/-- `free_page_table_tree` frees the tables below the one it is given, at every level. -/
theorem treeFreed (h : PageTree m₀ root tables T) (h1 : 1 ≤ n) (h3 : n ≤ 3) : TreeFreed m₀ T n := by
  induction n with
  | zero => omega
  | succ n ih =>
    intro k p m hk hp hagrees
    have hp0 : p ≠ 0 := Nat.ne_of_gt (h.table _ _ _ hp).2.pos
    have hwalk : freePageTableTreeLog (n + 1) p m =
        freeEntriesLog (freePageTableTreeLog n) (decide (0 < n)) p (List.range 512) m := by
      rw [freePageTableTreeLog, if_neg hp0]
    rw [hwalk]
    cases n with
    | zero =>
      have hindices : ∀ i ∈ List.range 512, i < 512 := fun i hi => List.mem_range.mp hi
      have hnothing : ∀ table m, freePageTableTreeLog 0 table m = (m, []) := fun _ _ => rfl
      obtain ⟨hcalls, hframe⟩ := freeEntriesLog_leaves (m := m) (p := p) hnothing hindices
      rw [decide_eq_false (Nat.lt_irrefl 0)]
      refine ⟨hcalls, fun n' k' p' j hp' hj hunder => hframe _ fun i hi heq => ?_⟩
      refine h.slot_ne hp hi hp' hj (fun hcon => hunder ?_) heq
      rw [hcon.1, hcon.2.1]
      exact AtOrUnder.refl _ _
    | succ n =>
      obtain ⟨hcalls, hframe⟩ := freeEntriesLog_spec h (ih (by omega) (by omega)) (by omega)
        (by omega) hp (loopOk_table (by omega) hk hp hagrees)
      rw [decide_eq_true (Nat.succ_pos n)]
      refine ⟨by rw [hcalls, subtree], fun n' k' p' j hp' hj hunder => ?_⟩
      refine hframe n' k' p' j hp' hj (fun i hi hcon => hunder ?_) fun hcon => hunder ?_
      · have hparent := hcon.parent
        have hkey : (512 * k + i) / 512 = k := by
          have := List.mem_range.mp hi
          omega
        rwa [hkey] at hparent
      · rw [hcon.1, hcon.2.1]
        exact AtOrUnder.refl _ _

/-- The loop over the user slots is the loop over the entries of any table: the entry is still
there when it is read again. -/
theorem destroyUserSlotsLog_eq (h : PageTree m₀ root tables T) (hp : T 4 k = some p)
    {indices : List Nat} (hloop : LoopOk m m₀ T 3 k p indices) :
    destroyUserSlotsLog p indices m = freeEntriesLog (freePageTableTreeLog 3) true p indices m := by
  induction indices generalizing m with
  | nil => rfl
  | cons i rest ih =>
    have hfreed := treeFreed h (by decide : 1 ≤ 3) (Nat.le_refl 3)
    have hentry := hloop.entry h (by decide) (Nat.le_refl 3) hp
    unfold destroyUserSlotsLog freeEntriesLog
    dsimp only
    cases hT : T 3 (512 * k + i) with
    | none =>
      rw [hT] at hentry
      rw [if_neg (fun hcon => hcon.1 hentry), if_pos (.inl hentry)]
      exact ih hloop.tail
    | some c =>
      rw [hT] at hentry
      obtain ⟨hpresent, hsmall, hchild⟩ := hentry
      have htop : tableFromPhys (m (slot p i)) = c := hchild
      have hagain := hloop.kept hfreed hT hp (hloop.lt i List.mem_cons_self)
        (not_under_child _)
      rw [if_pos ⟨hpresent, hsmall⟩,
        if_neg (by rw [not_or, not_not]; exact ⟨hpresent, hsmall⟩), if_pos rfl, htop, hagain,
        ih (hloop.next h hfreed hp hT)]

/-- The pages that are freed: the branches of the user slots, and the PML4. -/
theorem destroyCalls_eq {as : AddressSpace} (h : PageTree m as.pml4Phys tables T) :
    destroyCalls m as =
      branches T 3 (subtree T 3) (List.range' 128 128) ++ [as.pml4Phys] := by
  have hroot := (h.table _ _ _ h.root).2
  have hr : tableFromPhys as.pml4Phys = as.pml4Phys := page_and_PA_MASK hroot
  have hloop : LoopOk m m T 3 0 as.pml4Phys (List.range' 128 128) := {
    lt := fun i hi => by
      have := List.mem_range'_1.mp hi
      omega
    user := fun i hi => by
      have := List.mem_range'_1.mp hi
      unfold UserKey
      omega
    nodup := List.nodup_range'
    entries := fun _ _ => rfl
    below := fun _ _ _ _ _ _ _ _ _ => rfl }
  have hslots : List.range' USER_PML4_FIRST (USER_PML4_LIMIT - USER_PML4_FIRST) =
      List.range' 128 128 := rfl
  unfold destroyCalls
  rw [if_neg (Nat.ne_of_gt hroot.pos), hr, hslots, destroyUserSlotsLog_eq h h.root hloop,
    (freeEntriesLog_spec h (treeFreed h (by decide) (Nat.le_refl 3)) (by decide) (Nat.le_refl 3)
      h.root hloop).1]
  simp

/-- What `destroy_address_space` frees is what the tree consists of, each table once. -/
theorem destroyCalls_perm {as : AddressSpace} (h : PageTree m as.pml4Phys tables T)
    (howned : Owned tables T) : (destroyCalls m as).Perm tables := by
  have hname : ∀ {p}, p ∈ branches T 3 (subtree T 3) (List.range' 128 128) →
      ∃ n k, n ≤ 3 ∧ T n k = some p := by
    intro p hp
    obtain ⟨key, -, hmem⟩ := List.mem_flatMap.mp hp
    rcases mem_branch.mp hmem with htop | ⟨-, hbelow⟩
    · exact ⟨3, key, Nat.le_refl 3, htop⟩
    · obtain ⟨n', k', -, hlt, -, hT⟩ := name_of_mem_subtree hbelow
      exact ⟨n', k', Nat.le_of_lt hlt, hT⟩
  have hnodup : (destroyCalls m as).Nodup := by
    rw [destroyCalls_eq h]
    refine List.nodup_append.mpr ⟨nodup_branches h List.nodup_range' fun key _ =>
      nodup_subtree h 3 key, List.nodup_singleton _, fun x hx y hy hxy => ?_⟩
    -- The PML4 has the one name of level 4.
    obtain ⟨n', k', hle, hT⟩ := hname hx
    have hroot := (h.inj _ _ _ _ _ h.root (List.mem_singleton.mp hy ▸ hxy ▸ hT)).1
    omega
  refine (List.perm_ext_iff_of_nodup hnodup howned.nodup).mpr fun p => ?_
  rw [destroyCalls_eq h, List.mem_append, List.mem_singleton]
  constructor
  · rintro (hp | rfl)
    · obtain ⟨n', k', -, hT⟩ := hname hp
      exact (h.table n' k' p hT).1
    · exact (h.table 4 0 _ h.root).1
  · intro hp
    obtain ⟨n', k', ⟨rfl, rfl⟩ | ⟨h1, h3, huser⟩, hT⟩ := howned.named p hp
    · exact .inr (Option.some.inj (hT.symm.trans h.root))
    · obtain ⟨hlo, hhi⟩ := huser.top
      have hunder : AtOrUnder 3 (k' / 512 ^ (3 - n')) n' k' := ⟨h3, rfl⟩
      refine .inl (mem_branches h h1 (Nat.le_refl 3) huser hunder ?_ (fun hlt hT' => ?_) hT)
      · exact List.mem_range'_1.mpr ⟨hlo, hhi⟩
      · exact mem_subtree_of_name h h1 hlt (by decide) huser hunder hT'

end Walk

/-! ### Pages that others keep in use -/

/-- The pages of `K` are neither free nor tables of the address space. -/
structure KeptOut (K : Nat → Prop) (s : Vm) : Prop where
  alloc : AllocOk s.alloc
  free : ∀ p, K p → ¬ FreeAt s.alloc p
  tables : ∀ p, K p → p ∉ s.tables

section Kept

variable {K : Nat → Prop} {s : Vm} {as : AddressSpace}

theorem KeptOut.of_mem_ne {s' : Vm} (h : KeptOut K s) (halloc : s'.alloc = s.alloc)
    (htables : s'.tables = s.tables) : KeptOut K s' where
  alloc := halloc ▸ h.alloc
  free := halloc ▸ h.free
  tables := htables ▸ h.tables

/-- A new table was free before, so it is no page of `K`. -/
theorem KeptOut.allocTablePage (h : KeptOut K s) : KeptOut K s.allocTablePage.2 := by
  unfold Vm.allocTablePage
  cases hpages : s.alloc.allocatePages ⟨1, PAGE_SIZE_4K, IDENTITY_BRIDGE_ALLOC_MAX⟩ with
  | mk phys alloc =>
    dsimp only
    rcases allocatePage_spec h.alloc hpages with ⟨rfl, rfl⟩ | ⟨h0, hblock⟩
    · rw [if_pos rfl]
      exact h
    · rw [if_neg h0]
      have hfree : FreeAt s.alloc phys := hblock.free phys (Nat.le_refl _) (by
        unfold PAGE_SIZE_4K
        omega)
      refine ⟨hblock.ok, fun p hp hcon => h.free p hp (hblock.freeAt p hcon),
        fun p hp hmem => ?_⟩
      rcases List.mem_cons.mp hmem with rfl | hmem
      · exact h.free p hp hfree
      · exact h.tables p hp hmem

theorem KeptOut.ensureNextTable (h : KeptOut K s) (table index flags : Nat) :
    KeptOut K (s.ensureNextTable table index flags).2 := by
  unfold Vm.ensureNextTable
  dsimp only
  split
  · split
    · exact h.allocTablePage
    · exact h.allocTablePage.of_mem_ne rfl rfl
  · split
    · exact h
    · exact h.of_mem_ne rfl rfl

theorem KeptOut.mapPage (as : AddressSpace) (h : KeptOut K s) (virt phys flags : Nat) :
    KeptOut K (s.mapPage as virt phys flags).2 := by
  unfold Vm.mapPage
  dsimp only
  generalize (if flags &&& MAP_USER ≠ 0 then PTE_USER else 0) = user
  have h₃ := h.ensureNextTable (tableFromPhys as.pml4Phys) (pml4Idx virt) user
  generalize s.ensureNextTable (tableFromPhys as.pml4Phys) (pml4Idx virt) user = r₃ at *
  have h₂ := h₃.ensureNextTable r₃.1 (pdptIdx virt) user
  generalize r₃.2.ensureNextTable r₃.1 (pdptIdx virt) user = r₂ at *
  have h₁ := h₂.ensureNextTable r₂.1 (pdIdx virt) user
  generalize r₂.2.ensureNextTable r₂.1 (pdIdx virt) user = r₁ at *
  split_ifs
  · exact h
  · exact h
  · exact h₃
  · exact h₂
  · exact h₁
  · exact h₁.of_mem_ne rfl rfl

theorem KeptOut.mapPages (as : AddressSpace) (h : KeptOut K s) (virt phys flags offset n : Nat) :
    KeptOut K (s.mapPages as virt phys flags offset n).2 := by
  induction n generalizing s offset with
  | zero => exact h
  | succ n ih =>
    have hpage := h.mapPage as (add64 virt offset) (add64 phys offset) flags
    unfold Vm.mapPages
    generalize s.mapPage as (add64 virt offset) (add64 phys offset) flags = out at *
    obtain ⟨ok, s'⟩ := out
    cases ok with
    | false => exact hpage
    | true => exact ih hpage _

theorem KeptOut.unmapPage (h : KeptOut K s) (addr : Nat) : KeptOut K (s.unmapPage as addr) := by
  unfold Vm.unmapPage
  dsimp only
  split
  · exact h
  split
  · exact h
  split
  · exact h
  · exact h.of_mem_ne rfl rfl

theorem KeptOut.unmapPages (h : KeptOut K s) (addr n : Nat) :
    KeptOut K (s.unmapPages as addr n) := by
  induction n generalizing s addr with
  | zero => exact h
  | succ n ih => exact ih (h.unmapPage addr) _

theorem KeptOut.unmapRange (h : KeptOut K s) (virt size : Nat) :
    KeptOut K (s.unmapRange as virt size) := by
  unfold Vm.unmapRange
  split
  · exact h
  · exact h.unmapPages _ _

end Kept

/-! ### Whole histories -/

/-- The pages of `K` are in use for something else than the tables of the address space: for the
kernel's own tables, say, or for memory that is mapped into the address space. -/
def InUse (K : Nat → Prop) (s : Vm) : Prop := ∀ p, K p → ¬ FreeAt s.alloc p ∧ p ∉ s.tables

/-- The steps in which the rest of the kernel frees no page of `K`. -/
def keptSystem (K : Nat → Prop) : TransitionSystem VmState VmEvent :=
  vmSystem.restrict fun _ e => ∀ alloc, e = .others alloc → ∀ p, K p → ¬ FreeAt alloc p

/-- No call makes a page of `K` a table. -/
theorem keptOut_step {K : Nat → Prop} {s t : VmState} {e : VmEvent} (h : KeptOut K s.vm)
    (hstep : (keptSystem K).step s e t) : KeptOut K t.vm := by
  obtain ⟨hothers, hstep⟩ := hstep
  cases e with
  | mapPage virt phys flags ok =>
    obtain ⟨-, -, hcall, -⟩ := hstep
    have hpage := h.mapPage s.as virt phys flags
    rwa [hcall] at hpage
  | mapContiguous virt phys size flags ok =>
    obtain ⟨-, -, -, hcall, -⟩ := hstep
    have hpages := h.mapPages s.as virt phys flags 0
      (alignUp size PAGE_SIZE_4K / PAGE_SIZE_4K)
    rwa [show s.vm.mapPages s.as virt phys flags 0 _ = (ok, t.vm) from hcall] at hpages
  | unmapRange virt size =>
    obtain ⟨-, -, rfl⟩ := hstep
    exact h.unmapRange virt size
  | others alloc =>
    obtain ⟨hok, -, rfl⟩ := hstep
    exact ⟨hok, hothers alloc rfl, h.tables⟩

/-- From a state on in which the pages of `K` are in use, none of them becomes a table. -/
theorem keptOut_leads {K : Nat → Prop} {r s : VmState} (h : KeptOut K r.vm)
    (hrun : (keptSystem K).Leads r s) : KeptOut K s.vm := by
  induction hrun with
  | refl => exact h
  | step _ hstep ih => exact keptOut_step ih hstep

/-- After every history of an address space, `destroy_address_space` frees exactly the pages that
were taken for its tables, each once, and changes the allocator in no other way. Pages that the
rest of the kernel has in use at some time and keeps since then, mapped or not, are not among
them. -/
theorem destroyAddressSpace_frees_tables (s : VmState) (hs : vmSystem.Reachable s) :
    (destroyCalls s.vm.mem s.as).Perm s.vm.tables ∧ s.vm.tables.Nodup ∧
      s.as.pml4Phys ∈ s.vm.tables ∧
      (s.vm.destroyAddressSpace s.as).alloc =
        (destroyCalls s.vm.mem s.as).foldl (fun alloc page => alloc.freePagesAt page 1)
          s.vm.alloc ∧
      ∀ K r, vmSystem.Reachable r → InUse K r.vm → (keptSystem K).Leads r s →
        ∀ p, K p → p ∉ destroyCalls s.vm.mem s.as := by
  obtain ⟨A, ⟨T, hinv, -⟩, -⟩ := refines_of_reachable hs
  have hperm := destroyCalls_perm hinv.tree hinv.owned
  refine ⟨hperm, hinv.owned.nodup, (hinv.tree.table _ _ _ hinv.tree.root).1,
    destroyAddressSpace_alloc s.vm s.as, fun K r hr huse hrun p hp hmem => ?_⟩
  obtain ⟨A', ⟨T', hinv', -⟩, -⟩ := refines_of_reachable hr
  have hkept : KeptOut K r.vm :=
    ⟨hinv'.alloc, fun p hp => (huse p hp).1, fun p hp => (huse p hp).2⟩
  exact (keptOut_leads hkept hrun).tables p hp (hperm.mem_iff.mp hmem)

/-- One page mapped, so that there is a table of every level: the four are freed from the leaves
up, and the page at `0x5000` that is mapped is not. -/
theorem destroyAddressSpace_frees_tables_one_page :
    ∃ s, vmSystem.Reachable s ∧ (keptSystem (· = 0x5000)).Leads firstSpace s ∧
      destroyCalls s.vm.mem s.as = [0x103000, 0x102000, 0x101000, 0x100000] ∧
      (destroyCalls s.vm.mem s.as).Perm s.vm.tables ∧ 0x5000 ∉ destroyCalls s.vm.mem s.as := by
  have hinit : vmSystem.Reachable firstSpace := by
    refine .init ⟨fourPages, 0x1000, 1, fourPages_allocOk, rfl, ?_⟩
    have hsome : (fourPages.createAddressSpace 0x1000 1).isSome = true := by
      with_unfolding_all decide
    obtain ⟨out, hout⟩ := Option.isSome_iff_exists.mp hsome
    simp [firstSpace, hout]
  have huse : InUse (· = 0x5000) firstSpace.vm := by
    rintro p rfl
    refine ⟨?_, by with_unfolding_all decide⟩
    rintro ⟨r, hr, -, hle, -⟩
    have hall : ∀ r ∈ firstSpace.vm.alloc.freeList, 0x5000 < r.start := by
      with_unfolding_all decide
    exact absurd hle (Nat.not_le.mpr (hall r hr))
  have hstep : vmSystem.step firstSpace (.mapPage 0x400000000000 0x5000 3 true)
      ⟨(firstSpace.vm.mapPage firstSpace.as 0x400000000000 0x5000 3).2, firstSpace.as⟩ := by
    refine ⟨by decide, by decide, Prod.ext ?_ rfl, rfl⟩
    with_unfolding_all decide
  have hrun := TransitionSystem.Reachable.step hinit hstep
  have hkeep : (keptSystem (· = 0x5000)).Leads firstSpace _ :=
    .step .refl ⟨fun _ hcon => by contradiction, hstep⟩
  obtain ⟨hperm, -, -, -, hkept⟩ := destroyAddressSpace_frees_tables _ hrun
  exact ⟨_, hrun, hkeep, by with_unfolding_all decide, hperm,
    hkept _ _ hinit huse hkeep _ rfl⟩

end VKernel.Proofs.Memory

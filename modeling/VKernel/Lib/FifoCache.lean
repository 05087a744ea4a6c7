import Mathlib.Data.Finset.Card
import Mathlib.Data.List.Nodup

/-!
# `VKernel.Lib.FifoCache`: a bounded map that forgets its oldest key

The map is the list of its pairs with the oldest key in front. A put changes the value of a key in
its place; a new key goes to the end, and if there are `capacity` keys already the one in front is
dropped. Changing a value does not make a key younger.

`keys_split` follows one key: what stands behind it are the keys added since. The key stays until
`capacity` different ones have been added (`fifoGet_run`).
-/

set_option autoImplicit false

namespace VKernel.Lib

variable {κ ν : Type} [DecidableEq κ]

/-- The keys, oldest first. -/
def fifoKeys (q : List (κ × ν)) : List κ := q.map Prod.fst

/-- The value of a key. -/
def fifoGet (q : List (κ × ν)) (k : κ) : Option ν := (q.find? fun e => e.1 == k).map Prod.snd

/-- The pairs with another value for one key. -/
def fifoUpdate (q : List (κ × ν)) (k : κ) (v : ν) : List (κ × ν) :=
  q.map fun e => if e.1 = k then (k, v) else e

/-- Put a pair into a map with room for `capacity` keys. -/
def fifoPut (capacity : Nat) (q : List (κ × ν)) (e : κ × ν) : List (κ × ν) :=
  if e.1 ∈ fifoKeys q then fifoUpdate q e.1 e.2
  else (q ++ [e]).drop (q.length + 1 - capacity)

/-- Put several pairs. -/
def fifoRun (capacity : Nat) (q : List (κ × ν)) (puts : List (κ × ν)) : List (κ × ν) :=
  puts.foldl (fifoPut capacity) q

/-- The keys that were absent when they were put. -/
def fifoAdded (capacity : Nat) (q : List (κ × ν)) : List (κ × ν) → List κ
  | [] => []
  | e :: puts =>
    if e.1 ∈ fifoKeys q then fifoAdded capacity (fifoPut capacity q e) puts
    else e.1 :: fifoAdded capacity (fifoPut capacity q e) puts

/-- The value of the last put of a key, or `v` if there is none. -/
def lastPut (k : κ) (v : ν) (puts : List (κ × ν)) : ν :=
  puts.foldl (fun v e => if e.1 = k then e.2 else v) v

section Get

variable {q : List (κ × ν)} {k : κ} {v : ν}

omit [DecidableEq κ] in
/-- The keys are those of the entries. -/
theorem mem_fifoKeys : k ∈ fifoKeys q ↔ ∃ v, (k, v) ∈ q := by
  rw [fifoKeys, List.mem_map]
  constructor
  · rintro ⟨e, he, rfl⟩
    exact ⟨e.2, he⟩
  · rintro ⟨v, hv⟩
    exact ⟨(k, v), hv, rfl⟩

/-- With one pair for a key, the value is found wherever the pair stands. -/
theorem fifoGet_eq_some (hq : (fifoKeys q).Nodup) : fifoGet q k = some v ↔ (k, v) ∈ q := by
  constructor
  · intro h
    obtain ⟨e, he, rfl⟩ := Option.map_eq_some_iff.mp h
    have hkey : (e.1 == k) = true := List.find?_some (p := fun e : κ × ν => e.1 == k) he
    rw [← beq_iff_eq.mp hkey]
    exact List.mem_of_find?_eq_some he
  · intro hmem
    have hsome : (q.find? fun e => e.1 == k).isSome :=
      List.find?_isSome.mpr ⟨(k, v), hmem, beq_self_eq_true k⟩
    obtain ⟨e, he⟩ := Option.isSome_iff_exists.mp hsome
    have hkey : (e.1 == k) = true := List.find?_some (p := fun e : κ × ν => e.1 == k) he
    have hsame : e = (k, v) :=
      List.inj_on_of_nodup_map hq (List.mem_of_find?_eq_some he) hmem (beq_iff_eq.mp hkey)
    rw [fifoGet, he, hsame]
    rfl

/-- A key is not found exactly if no entry has it. -/
theorem fifoGet_eq_none : fifoGet q k = none ↔ k ∉ fifoKeys q := by
  rw [fifoGet, Option.map_eq_none_iff, List.find?_eq_none, mem_fifoKeys]
  constructor
  · rintro h ⟨v, hv⟩
    exact h _ hv (beq_self_eq_true k)
  · intro h e he hkey
    exact h ⟨e.2, beq_iff_eq.mp hkey ▸ he⟩

end Get

section Put

variable {capacity : Nat} {q : List (κ × ν)} {k : κ} {v : ν} {e : κ × ν}

/-- An update keeps the keys. -/
theorem fifoKeys_update (q : List (κ × ν)) (k : κ) (v : ν) :
    fifoKeys (fifoUpdate q k v) = fifoKeys q := by
  rw [fifoKeys, fifoUpdate, List.map_map]
  refine List.map_congr_left fun e _ => ?_
  rw [Function.comp_apply]
  split
  · rename_i hkey
    exact hkey.symm
  · rfl

/-- The entries after an update. -/
theorem mem_fifoUpdate {d : κ × ν} :
    d ∈ fifoUpdate q k v ↔ (d.1 = k ∧ d.2 = v ∧ k ∈ fifoKeys q) ∨ (d.1 ≠ k ∧ d ∈ q) := by
  rw [fifoUpdate, List.mem_map]
  constructor
  · rintro ⟨e, he, rfl⟩
    split
    · rename_i hkey
      exact .inl ⟨rfl, rfl, hkey ▸ List.mem_map.mpr ⟨e, he, rfl⟩⟩
    · rename_i hkey
      exact .inr ⟨hkey, he⟩
  · rintro (⟨hkey, hvalue, hmem⟩ | ⟨hkey, hmem⟩)
    · obtain ⟨w, hw⟩ := mem_fifoKeys.mp hmem
      exact ⟨(k, w), hw, (if_pos rfl).trans (Prod.ext hkey.symm hvalue.symm)⟩
    · exact ⟨d, hmem, if_neg hkey⟩

/-- A new key goes to the end, and the oldest ones leave. -/
theorem fifoKeys_put_new (hnew : e.1 ∉ fifoKeys q) :
    fifoKeys (fifoPut capacity q e) =
      (fifoKeys q ++ [e.1]).drop (q.length + 1 - capacity) := by
  rw [fifoPut, if_neg hnew, fifoKeys, List.map_drop, List.map_append]
  rfl

/-- A known key stays where it is. -/
theorem fifoKeys_put_old (hold : e.1 ∈ fifoKeys q) :
    fifoKeys (fifoPut capacity q e) = fifoKeys q := by
  rw [fifoPut, if_pos hold, fifoKeys_update]

/-- No key gets a second pair. -/
theorem nodup_fifoPut (hq : (fifoKeys q).Nodup) : (fifoKeys (fifoPut capacity q e)).Nodup := by
  by_cases hold : e.1 ∈ fifoKeys q
  · rwa [fifoKeys_put_old hold]
  · rw [fifoKeys_put_new hold]
    refine List.Nodup.sublist (List.drop_sublist _ _) ?_
    exact List.nodup_append.mpr ⟨hq, List.nodup_singleton _, by
      rintro a ha b hb rfl
      exact hold (List.mem_singleton.mp hb ▸ ha)⟩

/-- The capacity is kept. -/
theorem length_fifoPut (hq : q.length ≤ capacity) : (fifoPut capacity q e).length ≤ capacity := by
  rw [fifoPut]
  split
  · rwa [fifoUpdate, List.length_map]
  · rw [List.length_drop, List.length_append, List.length_singleton]
    omega

/-- A pair of the map was in it before, or is the one that was put. -/
theorem mem_fifoPut {d : κ × ν} (h : d ∈ fifoPut capacity q e) : d = e ∨ d ∈ q := by
  rw [fifoPut] at h
  split at h
  · rcases mem_fifoUpdate.mp h with ⟨hkey, hvalue, -⟩ | ⟨-, hmem⟩
    · exact .inl (Prod.ext hkey hvalue)
    · exact .inr hmem
  · rcases List.mem_append.mp (List.mem_of_mem_drop h) with hmem | hlast
    · exact .inr hmem
    · exact .inl (List.mem_singleton.mp hlast)

/-- The pair that was put is found. -/
theorem fifoGet_put_self (hcapacity : 0 < capacity) (hq : (fifoKeys q).Nodup) :
    fifoGet (fifoPut capacity q e) e.1 = some e.2 := by
  rw [fifoGet_eq_some (nodup_fifoPut hq), fifoPut]
  split
  · rename_i hold
    exact mem_fifoUpdate.mpr (.inl ⟨rfl, rfl, hold⟩)
  · rw [List.drop_append_of_le_length (by omega)]
    exact List.mem_append_right _ (List.mem_singleton.mpr rfl)

/-- A put of another key keeps the value of a key that stays. -/
theorem fifoGet_put_other (hq : (fifoKeys q).Nodup) (hget : fifoGet q k = some v)
    (hne : e.1 ≠ k) (hstays : k ∈ fifoKeys (fifoPut capacity q e)) :
    fifoGet (fifoPut capacity q e) k = some v := by
  obtain ⟨w, hw⟩ := mem_fifoKeys.mp hstays
  rcases mem_fifoPut hw with hsame | hmem
  · exact absurd (congrArg Prod.fst hsame).symm hne
  · rw [fifoGet_eq_some hq] at hget
    have hvalue : (k, w) = (k, v) := List.inj_on_of_nodup_map hq hmem hget rfl
    rw [fifoGet_eq_some (nodup_fifoPut hq), ← hvalue]
    exact hw

/-- A new key goes behind all others. The key in question is not in front as long as there is
room for the ones behind it and one more. -/
theorem keys_split {older newer : List κ} (hsplit : fifoKeys q = older ++ k :: newer)
    (hnew : e.1 ∉ fifoKeys q) (hroom : newer.length + 1 < capacity) :
    ∃ older', fifoKeys (fifoPut capacity q e) = older' ++ k :: (newer ++ [e.1]) := by
  have hcount : q.length = older.length + (newer.length + 1) := by
    have h := congrArg List.length hsplit
    rwa [fifoKeys, List.length_map, List.length_append, List.length_cons] at h
  refine ⟨older.drop (q.length + 1 - capacity), ?_⟩
  rw [fifoKeys_put_new hnew, hsplit, List.append_assoc, List.cons_append,
    List.drop_append_of_le_length (by omega)]

end Put

section Run

variable {capacity : Nat} {k : κ}

/-- It is kept over a run. -/
theorem length_fifoRun {q : List (κ × ν)} (hq : q.length ≤ capacity) (puts : List (κ × ν)) :
    (fifoRun capacity q puts).length ≤ capacity := by
  induction puts generalizing q with
  | nil => exact hq
  | cons e puts ih => exact ih (length_fifoPut hq)

/-- Every pair comes from the start or from a put. -/
theorem mem_fifoRun {q : List (κ × ν)} {puts : List (κ × ν)} {d : κ × ν}
    (h : d ∈ fifoRun capacity q puts) : d ∈ q ∨ d ∈ puts := by
  induction puts generalizing q with
  | nil => exact .inl h
  | cons e puts ih =>
    rcases ih h with hput | hrest
    · rcases mem_fifoPut hput with rfl | hq
      · exact .inr (List.mem_cons_self ..)
      · exact .inl hq
    · exact .inr (List.mem_cons_of_mem _ hrest)

/-- A key that has fewer than `capacity` different keys behind it, those to come included, keeps
its last value. -/
theorem fifoGet_run {q : List (κ × ν)} {v : ν} {older newer : List κ} {puts : List (κ × ν)}
    (hq : (fifoKeys q).Nodup) (hlength : q.length ≤ capacity)
    (hsplit : fifoKeys q = older ++ k :: newer) (hget : fifoGet q k = some v)
    (hfew : (newer ++ (fifoAdded capacity q puts).filter (· ≠ k)).toFinset.card < capacity) :
    fifoGet (fifoRun capacity q puts) k = some (lastPut k v puts) := by
  induction puts generalizing q v older newer with
  | nil => exact hget
  | cons e puts ih =>
    have hk : k ∈ fifoKeys q := by
      rw [hsplit]
      exact List.mem_append_right _ (List.mem_cons_self ..)
    have hcapacity : 0 < capacity := lt_of_le_of_lt (Nat.zero_le _) hfew
    by_cases hold : e.1 ∈ fifoKeys q
    · rw [fifoAdded, if_pos hold] at hfew
      have hkeys : fifoKeys (fifoPut capacity q e) = fifoKeys q := fifoKeys_put_old hold
      refine ih (nodup_fifoPut hq) (length_fifoPut hlength) (hkeys.trans hsplit) ?_ hfew
      show fifoGet (fifoPut capacity q e) k = some (if e.1 = k then e.2 else v)
      by_cases hsame : e.1 = k
      · rw [if_pos hsame, ← hsame]
        exact fifoGet_put_self hcapacity hq
      · rw [if_neg hsame]
        exact fifoGet_put_other hq hget hsame (hkeys ▸ hk)
    · have hne : e.1 ≠ k := fun h => hold (h ▸ hk)
      rw [fifoAdded, if_neg hold, List.filter_cons_of_pos (by simpa using hne)] at hfew
      -- The keys behind `k` and the new one are different from each other.
      have hroom : newer.length + 1 < capacity := by
        have hnodup : (newer ++ [e.1]).Nodup := by
          rw [hsplit] at hq hold
          have hnewer := ((List.nodup_append.mp hq).2.1).of_cons
          have hnotMem : e.1 ∉ newer := fun h =>
            hold (List.mem_append_right _ (List.mem_cons_of_mem _ h))
          exact List.nodup_append.mpr ⟨hnewer, List.nodup_singleton _, by
            rintro a ha b hb rfl
            exact hnotMem (List.mem_singleton.mp hb ▸ ha)⟩
        have hcard := List.toFinset_card_of_nodup hnodup
        rw [List.length_append, List.length_singleton] at hcard
        rw [← hcard]
        refine lt_of_le_of_lt (Finset.card_le_card fun a ha => ?_) hfew
        rw [List.mem_toFinset, List.mem_append, List.mem_singleton] at ha
        rw [List.mem_toFinset, List.mem_append, List.mem_cons]
        exact ha.imp_right .inl
      obtain ⟨older', hsplit'⟩ := keys_split hsplit hold hroom
      have hstays : k ∈ fifoKeys (fifoPut capacity q e) := by
        rw [hsplit']
        exact List.mem_append_right _ (List.mem_cons_self ..)
      have hvalue := fifoGet_put_other hq hget hne hstays
      rw [← List.singleton_append, ← List.append_assoc] at hfew
      -- The new key is one more behind `k`.
      have hrun := ih (nodup_fifoPut hq) (length_fifoPut hlength) hsplit' hvalue hfew
      rw [lastPut, List.foldl_cons, if_neg hne]
      exact hrun

end Run

end VKernel.Lib

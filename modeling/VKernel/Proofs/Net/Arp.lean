import Mathlib.Data.List.Rotate
import VKernel.Lib.FifoCache
import VKernel.Net.Arp

/-!
# `VKernel.Proofs.Net.Arp`: the ARP cache is a queue of addresses

The slots are filled from the front, and while one is free the cursor stays at 0. From then on it
points at the slot that was filled first. So the valid slots, read from the cursor on, are the
entries in the order in which their addresses were added (`entries`), and an insert is a put into
a map that forgets its oldest key (`entries_cacheInsertLocked`).

What the cache keeps and forgets is known of such maps, from `VKernel.Lib.FifoCache`.
-/

set_option autoImplicit false

namespace VKernel.Proofs.Net

open VKernel.Lib VKernel.Net

/-- The address and the hardware address of an entry. -/
def entryPair (e : ArpCacheEntry) : Ipv4Address × MacAddress := (e.ip, e.mac)

/-- The valid entries from the cursor on. -/
def entries (s : ArpState) : List (Ipv4Address × MacAddress) :=
  ((s.cache.rotate s.nextReplace).filter (·.valid)).map entryPair

/-- No address has two entries, and the free slots lie behind the used ones. The cursor moves only
when there are none. -/
structure CacheOk (s : ArpState) : Prop where
  nodup : (fifoKeys (entries s)).Nodup
  shape : ∃ used free, s.cache = used ++ free ∧ (∀ e ∈ used, e.valid = true) ∧
    (∀ e ∈ free, e.valid = false) ∧ (free ≠ [] → s.nextReplace = 0)

section Step

variable {s : ArpState} {ip : Ipv4Address} {mac : MacAddress}

/-- The entries are those of the slots, in another order. -/
theorem entries_perm (s : ArpState) :
    (entries s).Perm ((s.cache.filter (·.valid)).map entryPair) :=
  ((List.rotate_perm s.cache s.nextReplace).filter _).map _

theorem mem_entries :
    (ip, mac) ∈ entries s ↔ ∃ e ∈ s.cache, isEntryOf ip e = true ∧ e.mac = mac := by
  rw [(entries_perm s).mem_iff, List.mem_map]
  constructor
  · rintro ⟨e, he, hpair⟩
    obtain ⟨hmem, hvalid⟩ := List.mem_filter.mp he
    cases hpair
    exact ⟨e, hmem, by rw [isEntryOf, hvalid, beq_self_eq_true]; rfl, rfl⟩
  · rintro ⟨e, hmem, hentry, rfl⟩
    rw [isEntryOf, Bool.and_eq_true, beq_iff_eq] at hentry
    exact ⟨e, List.mem_filter.mpr ⟨hmem, hentry.1⟩, Prod.ext hentry.2 rfl⟩

theorem mem_keys_entries : ip ∈ fifoKeys (entries s) ↔ s.cache.any (isEntryOf ip) = true := by
  rw [mem_fifoKeys, List.any_eq_true]
  constructor
  · rintro ⟨mac, h⟩
    obtain ⟨e, hmem, hentry, -⟩ := mem_entries.mp h
    exact ⟨e, hmem, hentry⟩
  · rintro ⟨e, hmem, hentry⟩
    exact ⟨e.mac, mem_entries.mpr ⟨e, hmem, hentry, rfl⟩⟩

/-- With one entry for an address, the order of the slots does not matter for a lookup. -/
theorem cacheLookupLocked_eq (hs : CacheOk s) (ip : Ipv4Address) :
    s.cacheLookupLocked ip = fifoGet (entries s) ip := by
  apply Option.ext
  intro mac
  rw [fifoGet_eq_some hs.nodup]
  constructor
  · intro h
    obtain ⟨e, he, rfl⟩ := Option.map_eq_some_iff.mp h
    exact mem_entries.mpr ⟨e, List.mem_of_find?_eq_some he, List.find?_some he, rfl⟩
  · intro h
    obtain ⟨e, hmem, hentry, -⟩ := mem_entries.mp h
    have hsome : (s.cache.find? (isEntryOf ip)).isSome :=
      List.find?_isSome.mpr ⟨e, hmem, hentry⟩
    obtain ⟨d, hd⟩ := Option.isSome_iff_exists.mp hsome
    have hd' : (ip, d.mac) ∈ entries s :=
      mem_entries.mpr ⟨d, List.mem_of_find?_eq_some hd, List.find?_some hd, rfl⟩
    have hsame := List.inj_on_of_nodup_map hs.nodup hd' h rfl
    rw [ArpState.cacheLookupLocked, hd, Option.map_some]
    exact congrArg (fun e => some e.2) hsame

/-- Where an address has one entry, changing the first is changing all. -/
theorem modifyFirst_eq_map {f : ArpCacheEntry → ArpCacheEntry} {l : List ArpCacheEntry}
    (hl : ((l.filter (·.valid)).map (·.ip)).Nodup) :
    modifyFirst (isEntryOf ip) f l = l.map fun e => if isEntryOf ip e then f e else e := by
  induction l with
  | nil => rfl
  | cons e rest ih =>
    rw [modifyFirst, List.map_cons]
    by_cases hentry : isEntryOf ip e = true
    · rw [if_pos hentry, if_pos hentry]
      rw [isEntryOf, Bool.and_eq_true, beq_iff_eq] at hentry
      rw [List.filter_cons_of_pos hentry.1, List.map_cons, List.nodup_cons] at hl
      -- The rest has no entry of the address, so nothing changes there.
      have hrest : (rest.map fun d => if isEntryOf ip d then f d else d) = rest := by
        conv_rhs => rw [← List.map_id rest]
        refine List.map_congr_left fun d hd => if_neg fun hother => hl.1 ?_
        rw [isEntryOf, Bool.and_eq_true, beq_iff_eq] at hother
        rw [hentry.2, ← hother.2]
        exact List.mem_map_of_mem (List.mem_filter.mpr ⟨hd, hother.1⟩)
      rw [hrest]
    · rw [if_neg hentry, if_neg hentry, ih]
      refine List.Nodup.sublist (List.Sublist.map _ ?_) hl
      exact (List.sublist_cons_self e rest).filter _

theorem nodup_slots (hs : CacheOk s) : ((s.cache.filter (·.valid)).map (·.ip)).Nodup := by
  have hperm := (entries_perm s).map Prod.fst
  rw [List.map_map] at hperm
  exact hperm.nodup_iff.mp hs.nodup

/-- An address with an entry keeps its place. -/
theorem entries_update (hs : CacheOk s) :
    ((((modifyFirst (isEntryOf ip) (fun e => { e with mac := mac }) s.cache).rotate
      s.nextReplace).filter (·.valid)).map entryPair) = fifoUpdate (entries s) ip mac := by
  rw [modifyFirst_eq_map (nodup_slots hs), ← List.map_rotate, List.filter_map, fifoUpdate, entries,
    List.map_map, List.map_map]
  have hvalid : ((fun e : ArpCacheEntry => e.valid) ∘
      fun e => if isEntryOf ip e then { e with mac := mac } else e) = (·.valid) := by
    funext e
    rw [Function.comp_apply]
    split <;> rfl
  rw [hvalid]
  refine List.map_congr_left fun e he => ?_
  have hentry : isEntryOf ip e = true ↔ e.ip = ip := by
    rw [isEntryOf, (List.mem_filter.mp he).2, Bool.true_and, beq_iff_eq]
  by_cases hip : e.ip = ip
  · rw [Function.comp_apply, Function.comp_apply, if_pos (hentry.mpr hip), entryPair, entryPair,
      if_pos hip, hip]
  · rw [Function.comp_apply, Function.comp_apply, if_neg (fun h => hip (hentry.mp h)), entryPair,
      if_neg hip]

theorem modifyFirst_append {p : ArpCacheEntry → Bool} {f : ArpCacheEntry → ArpCacheEntry}
    {front rest : List ArpCacheEntry} {e : ArpCacheEntry} (hfront : ∀ d ∈ front, p d = false)
    (he : p e = true) : modifyFirst p f (front ++ e :: rest) = front ++ f e :: rest := by
  induction front with
  | nil => exact if_pos he
  | cons d front ih =>
    obtain ⟨hd, htail⟩ := List.forall_mem_cons.mp hfront
    rw [List.cons_append, modifyFirst, hd, ih htail]
    rfl

theorem filter_used {used free : List ArpCacheEntry} (hused : ∀ e ∈ used, e.valid = true)
    (hfree : ∀ e ∈ free, e.valid = false) : (used ++ free).filter (·.valid) = used := by
  have hnone : free.filter (·.valid) = [] := List.filter_eq_nil_iff.mpr fun e he => by
    rw [hfree e he]
    decide
  rw [List.filter_append, List.filter_eq_self.mpr hused, hnone, List.append_nil]

/-- Replacing the front of a rotated list and turning it on puts the new element at its end. -/
theorem rotate_set {α : Type} {l : List α} {n : Nat} (h : n < l.length) (x : α) :
    (l.set n x).rotate ((n + 1) % l.length) = (l.rotate n).drop 1 ++ [x] := by
  have hfront : (l.take n).length = n := by
    rw [List.length_take]
    omega
  have hset : l.set n x = l.take n ++ [x] ++ l.drop (n + 1) := by
    rw [List.set_eq_take_append_cons_drop, if_pos h, List.append_assoc, List.singleton_append]
  have hlist : l = l.take n ++ l[n] :: l.drop (n + 1) := by
    rw [← List.drop_eq_getElem_cons h, List.take_append_drop]
  have hturned : l.rotate n = l[n] :: l.drop (n + 1) ++ l.take n := by
    have hrotate := List.rotate_append_length_eq (l.take n) (l[n] :: l.drop (n + 1))
    rwa [← hlist, hfront] at hrotate
  have hnext : (l.set n x).rotate ((n + 1) % l.length) = l.drop (n + 1) ++ (l.take n ++ [x]) := by
    have hrotate := List.rotate_append_length_eq (l.take n ++ [x]) (l.drop (n + 1))
    rw [List.length_append, List.length_singleton, hfront, ← hset] at hrotate
    rw [← hrotate, ← List.rotate_mod (l.set n x) (n + 1), List.length_set]
  rw [hnext, hturned, List.cons_append, List.drop_one, List.tail_cons, List.append_assoc]

/-- An insert is a put into the queue of entries, and keeps the order of the slots. -/
theorem entries_cacheInsertLocked (hs : CacheOk s) (ip : Ipv4Address) (mac : MacAddress) :
    entries (s.cacheInsertLocked ip mac) = fifoPut MAX_CACHE_ENTRIES (entries s) (ip, mac) ∧
      CacheOk (s.cacheInsertLocked ip mac) := by
  obtain ⟨used, free, hcache, hused, hfree, hcursor⟩ := hs.shape
  have hsize := s.size
  rw [hcache, List.length_append] at hsize
  -- The keys stay apart in any case, so the order and the shape are left to show.
  suffices h : entries (s.cacheInsertLocked ip mac) =
      fifoPut MAX_CACHE_ENTRIES (entries s) (ip, mac) ∧
      ∃ used free, (s.cacheInsertLocked ip mac).cache = used ++ free ∧
        (∀ e ∈ used, e.valid = true) ∧ (∀ e ∈ free, e.valid = false) ∧
        (free ≠ [] → (s.cacheInsertLocked ip mac).nextReplace = 0) by
    refine ⟨h.1, ?_, h.2⟩
    rw [h.1]
    exact nodup_fifoPut hs.nodup
  by_cases hpresent : s.cache.any (isEntryOf ip) = true
  · rw [ArpState.cacheInsertLocked, if_pos hpresent, fifoPut,
      if_pos (mem_keys_entries.mpr hpresent)]
    refine ⟨entries_update hs, ?_⟩
    have hmap : modifyFirst (isEntryOf ip) (fun e => { e with mac := mac }) s.cache =
        (used.map fun e => if isEntryOf ip e then { e with mac := mac } else e) ++
          free.map fun e => if isEntryOf ip e then { e with mac := mac } else e := by
      rw [modifyFirst_eq_map (nodup_slots hs), hcache, List.map_append]
    have hvalid : ∀ e : ArpCacheEntry,
        (if isEntryOf ip e then { e with mac := mac } else e).valid = e.valid := by
      intro e
      split <;> rfl
    refine ⟨_, _, hmap, ?_, ?_, ?_⟩
    · rw [List.forall_mem_map]
      exact fun e he => (hvalid e).trans (hused e he)
    · rw [List.forall_mem_map]
      exact fun e he => (hvalid e).trans (hfree e he)
    · rw [Ne, List.map_eq_nil_iff]
      exact hcursor
  · have hnew : (ip, mac).1 ∉ fifoKeys (entries s) := fun h => hpresent (mem_keys_entries.mp h)
    rw [fifoPut, if_neg hnew]
    cases free with
    | cons e free =>
      -- There is a free slot: the cursor is at the front, and the entries are the used slots.
      have hzero := hcursor (List.cons_ne_nil _ _)
      obtain ⟨he, hrest⟩ := List.forall_mem_cons.mp hfree
      have hany : (s.cache.any fun e => !e.valid) = true := by
        rw [hcache, List.any_eq_true]
        exact ⟨e, List.mem_append_right _ (List.mem_cons_self ..), by rw [he]; rfl⟩
      have hentries : entries s = used.map entryPair := by
        rw [entries, hzero, List.rotate_zero, hcache, filter_used hused hfree]
      have hmodified : modifyFirst (fun e => !e.valid) (fun _ => ⟨true, ip, mac⟩) s.cache =
          used ++ [⟨true, ip, mac⟩] ++ free := by
        rw [hcache, modifyFirst_append (fun d hd => by rw [hused d hd]; rfl) (by rw [he]; rfl),
          List.append_assoc, List.singleton_append]
      have hused' : ∀ d ∈ used ++ [⟨true, ip, mac⟩], d.valid = true := by
        rw [List.forall_mem_append, List.forall_mem_singleton]
        exact ⟨hused, rfl⟩
      rw [ArpState.cacheInsertLocked, if_neg hpresent, if_pos hany]
      refine ⟨?_, used ++ [⟨true, ip, mac⟩], free, hmodified, hused', hrest, fun _ => hzero⟩
      have hroom : used.length + 1 - MAX_CACHE_ENTRIES = 0 := by
        rw [List.length_cons] at hsize
        omega
      rw [entries]
      dsimp only
      rw [hzero, List.rotate_zero, hmodified, filter_used hused' hrest, hentries, List.length_map,
        hroom, List.drop_zero, List.map_append]
      rfl
    | nil =>
      -- No slot is free: the one at the cursor has the oldest entry.
      have hrange := s.inRange
      rw [List.append_nil] at hcache
      have hvalid : ∀ e ∈ s.cache, e.valid = true := by
        rw [hcache]
        exact hused
      have hany : ¬ (s.cache.any fun e => !e.valid) = true := by
        rw [List.any_eq_true]
        rintro ⟨e, he, hfree⟩
        rw [hvalid e he] at hfree
        cases hfree
      have hcursorSize : s.nextReplace < s.cache.length := by
        rw [s.size]
        exact hrange
      have hvalid' : ∀ e ∈ s.cache.set s.nextReplace ⟨true, ip, mac⟩, e.valid = true := by
        intro e he
        rcases List.mem_or_eq_of_mem_set he with hmem | rfl
        · exact hvalid e hmem
        · rfl
      rw [ArpState.cacheInsertLocked, if_neg hpresent, if_neg hany]
      refine ⟨?_, _, [], (List.append_nil _).symm, hvalid', fun e he => absurd he
        List.not_mem_nil, fun h => absurd rfl h⟩
      have hentries : entries s = (s.cache.rotate s.nextReplace).map entryPair := by
        rw [entries, List.filter_eq_self.mpr]
        exact fun e he => hvalid e (List.mem_rotate.mp he)
      have hlength : (entries s).length + 1 - MAX_CACHE_ENTRIES = 1 := by
        rw [hentries, List.length_map, List.length_rotate, s.size]
        rfl
      have hturned := rotate_set hcursorSize ⟨true, ip, mac⟩
      rw [s.size] at hturned
      have hrotated : ∀ e ∈ (s.cache.set s.nextReplace ⟨true, ip, mac⟩).rotate
          ((s.nextReplace + 1) % MAX_CACHE_ENTRIES), e.valid = true :=
        fun e he => hvalid' e (List.mem_rotate.mp he)
      rw [hlength, hentries, entries]
      dsimp only
      rw [List.filter_eq_self.mpr hrotated, hturned, List.map_append, List.map_drop,
        List.drop_append_of_le_length]
      · rfl
      · rw [List.length_map, List.length_rotate]
        omega

end Step

/-! ### Sequences of inserts -/

theorem entries_initial : entries ArpState.initial = [] := by
  have hfree : ArpState.initial.cache.filter (·.valid) = [] :=
    List.filter_eq_nil_iff.mpr fun e he => by simp [List.eq_of_mem_replicate he]
  have hperm := entries_perm ArpState.initial
  rw [hfree] at hperm
  exact hperm.eq_nil

theorem cacheOk_initial : CacheOk ArpState.initial where
  nodup := by
    rw [entries_initial]
    exact List.nodup_nil
  shape := ⟨[], ArpState.initial.cache, rfl, fun e he => absurd he List.not_mem_nil,
    fun e he => congrArg ArpCacheEntry.valid (List.eq_of_mem_replicate he), fun _ => rfl⟩


/-- The cache after some inserts is the queue after the same puts. -/
theorem entries_insertAll {s : ArpState} (hs : CacheOk s)
    (inserts : List (Ipv4Address × MacAddress)) :
    entries (s.insertAll inserts) = fifoRun MAX_CACHE_ENTRIES (entries s) inserts ∧
      CacheOk (s.insertAll inserts) := by
  induction inserts generalizing s with
  | nil => exact ⟨rfl, hs⟩
  | cons e inserts ih =>
    obtain ⟨hput, hok⟩ := entries_cacheInsertLocked hs e.1 e.2
    obtain ⟨hrun, hend⟩ := ih hok
    refine ⟨hrun.trans ?_, hend⟩
    rw [hput]
    rfl

theorem absentAtInsertion_eq {s : ArpState} (hs : CacheOk s)
    (inserts : List (Ipv4Address × MacAddress)) :
    s.absentAtInsertion inserts = fifoAdded MAX_CACHE_ENTRIES (entries s) inserts := by
  induction inserts generalizing s with
  | nil => rfl
  | cons e inserts ih =>
    obtain ⟨hput, hok⟩ := entries_cacheInsertLocked hs e.1 e.2
    have habsent : s.cacheLookupLocked e.1 = none ↔ e.1 ∉ fifoKeys (entries s) := by
      rw [cacheLookupLocked_eq hs, fifoGet_eq_none]
    rw [ArpState.absentAtInsertion, fifoAdded, ih hok, hput]
    by_cases hold : e.1 ∈ fifoKeys (entries s)
    · rw [if_pos hold, if_neg fun h => habsent.mp h hold]
    · rw [if_neg hold, if_pos (habsent.mpr hold)]

/-- No address is in two slots. -/
theorem slots_unique {s : ArpState} (hs : CacheOk s) {i j : Nat} (hi : i < s.cache.length)
    (hj : j < s.cache.length) (hvalid : s.cache[i].valid = true) (hvalid' : s.cache[j].valid = true)
    (hip : s.cache[i].ip = s.cache[j].ip) : i = j := by
  have hapart := List.pairwise_filter.mp (List.pairwise_map.mp (nodup_slots hs))
  rw [List.pairwise_iff_getElem] at hapart
  rcases Nat.lt_trichotomy i j with hlt | heq | hgt
  · exact absurd hip (hapart i j hi hj hlt hvalid hvalid')
  · exact heq
  · exact absurd hip.symm (hapart j i hj hi hgt hvalid' hvalid)

/-- A lookup gives what was inserted for the address. -/
theorem mem_of_lookup_insertAll {inserts : List (Ipv4Address × MacAddress)} {ip : Ipv4Address}
    {mac : MacAddress}
    (h : (ArpState.initial.insertAll inserts).cacheLookupLocked ip = some mac) :
    (ip, mac) ∈ inserts := by
  obtain ⟨hrun, hok⟩ := entries_insertAll cacheOk_initial inserts
  rw [cacheLookupLocked_eq hok, fifoGet_eq_some hok.nodup, hrun, entries_initial] at h
  exact (mem_fifoRun h).resolve_left List.not_mem_nil

/-- An address stays until `MAX_CACHE_ENTRIES` others were added behind it. -/
theorem lookup_since {s : ArpState} (hs : CacheOk s)
    (hsize : (entries s).length ≤ MAX_CACHE_ENTRIES) {ip : Ipv4Address} {mac : MacAddress}
    {since : List (Ipv4Address × MacAddress)} (habsent : s.cacheLookupLocked ip = none)
    (hfew : (((s.cacheInsertLocked ip mac).absentAtInsertion since).filter (· ≠ ip)).toFinset.card <
      MAX_CACHE_ENTRIES) :
    ((s.cacheInsertLocked ip mac).insertAll since).cacheLookupLocked ip =
      some (lastPut ip mac since) := by
  obtain ⟨hput, hok⟩ := entries_cacheInsertLocked hs ip mac
  obtain ⟨hrun, hend⟩ := entries_insertAll hok since
  rw [cacheLookupLocked_eq hs, fifoGet_eq_none] at habsent
  have hnew : (ip, mac).1 ∉ fifoKeys (entries s) := habsent
  -- The new address has nothing behind it yet.
  have hsplit : fifoKeys (entries (s.cacheInsertLocked ip mac)) =
      (fifoKeys (entries s)).drop ((entries s).length + 1 - MAX_CACHE_ENTRIES) ++ ip :: [] := by
    have hpositive : 0 < MAX_CACHE_ENTRIES := by decide
    have hlength : (fifoKeys (entries s)).length = (entries s).length := List.length_map _
    rw [hput, fifoKeys_put_new hnew, List.drop_append_of_le_length (by omega)]
  have hget : fifoGet (entries (s.cacheInsertLocked ip mac)) ip = some mac := by
    rw [hput]
    exact fifoGet_put_self (e := (ip, mac)) (by decide) hs.nodup
  have hsize' : (entries (s.cacheInsertLocked ip mac)).length ≤ MAX_CACHE_ENTRIES := by
    rw [hput]
    exact length_fifoPut hsize
  rw [absentAtInsertion_eq hok] at hfew
  rw [cacheLookupLocked_eq hend, hrun]
  exact fifoGet_run hok.nodup hsize' hsplit hget hfew

/-- What received frames do to the cache are the inserts that they lead to. -/
theorem observe_eq_insertAll (s : ArpState) (frames : List ReceivedFrame) :
    frames.foldl ArpState.observe s = s.insertAll (frames.filterMap ReceivedFrame.insert) := by
  induction frames generalizing s with
  | nil => rfl
  | cons f frames ih =>
    rw [List.foldl_cons, ih, ArpState.observe, List.filterMap_cons]
    cases f.insert with
    | none => rfl
    | some e => rfl

/-- After any inserts, no address has two valid entries and a lookup gives only what was inserted
for the address. An address that was absent when it was inserted is found with the hardware
address of its last insert, as long as fewer than `MAX_CACHE_ENTRIES` other addresses were absent
at their insertion since. -/
theorem arp_cache_correct :
    (∀ inserts,
      (∀ i j, ∀ (hi : i < (ArpState.initial.insertAll inserts).cache.length)
        (hj : j < (ArpState.initial.insertAll inserts).cache.length),
        (ArpState.initial.insertAll inserts).cache[i].valid = true →
        (ArpState.initial.insertAll inserts).cache[j].valid = true →
        (ArpState.initial.insertAll inserts).cache[i].ip =
          (ArpState.initial.insertAll inserts).cache[j].ip → i = j) ∧
      ∀ ip mac, (ArpState.initial.insertAll inserts).cacheLookupLocked ip = some mac →
        (ip, mac) ∈ inserts) ∧
    ∀ before ip mac since,
      (ArpState.initial.insertAll before).cacheLookupLocked ip = none →
      (((ArpState.initial.insertAll (before ++ [(ip, mac)])).absentAtInsertion since).filter
        (· ≠ ip)).toFinset.card < MAX_CACHE_ENTRIES →
      (ArpState.initial.insertAll (before ++ (ip, mac) :: since)).cacheLookupLocked ip =
        some (lastPut ip mac since) := by
  constructor
  · intro inserts
    have hok := (entries_insertAll cacheOk_initial inserts).2
    exact ⟨fun i j hi hj hvalid hvalid' hip => slots_unique hok hi hj hvalid hvalid' hip,
      fun ip mac h => mem_of_lookup_insertAll h⟩
  · -- The entry is inserted into a valid cache, and the law of such caches does the rest.
    intro before ip mac since habsent hfew
    obtain ⟨hrun, hok⟩ := entries_insertAll cacheOk_initial before
    have hsize : (entries (ArpState.initial.insertAll before)).length ≤ MAX_CACHE_ENTRIES := by
      rw [hrun, entries_initial]
      exact length_fifoRun (Nat.zero_le _) before
    have hafter : ArpState.initial.insertAll (before ++ [(ip, mac)]) =
        (ArpState.initial.insertAll before).cacheInsertLocked ip mac := List.foldl_append
    have hall : ArpState.initial.insertAll (before ++ (ip, mac) :: since) =
        ((ArpState.initial.insertAll before).cacheInsertLocked ip mac).insertAll since :=
      List.foldl_append
    rw [hafter] at hfew
    rw [hall]
    exact lookup_since hok hsize habsent hfew

/-- An address is still found behind the inserts of fifteen others. -/
theorem arp_cache_correct_full :
    (ArpState.initial.insertAll ((makeIpv4 10 0 0 1, makeMac 2 0 0 0 0 1) ::
      (List.range 15).map fun n => (makeIpv4 10 0 1 (UInt8.ofNat n), makeMac 2 0 0 0 1 0))
      ).cacheLookupLocked (makeIpv4 10 0 0 1) = some (makeMac 2 0 0 0 0 1) :=
  arp_cache_correct.2 [] (makeIpv4 10 0 0 1) (makeMac 2 0 0 0 0 1) _ (by decide) (by decide)

end VKernel.Proofs.Net

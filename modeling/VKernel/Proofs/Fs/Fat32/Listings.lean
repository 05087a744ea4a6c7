import VKernel.Fs.Fat32.Listings
import VKernel.Proofs.Fs.Fat32.Scans
import VKernel.Proofs.Fs.Fat32.SlotSearch

/-!
# `VKernel.Proofs.Fs.Fat32.Listings`: the entries that a list of slots shows

A scan that keeps every entry goes through the slots part by part (`shown_append`). Unused slots
show nothing, a new entry shows itself (`scanSlots_newSlots`), and what stands behind the end
mark counts only when the end mark is gone. `searchSlots_placed` says where
`allocate_directory_slots` puts a new entry: among unused slots in front of the end mark, or, when
these are too few, at the end of the directory and over the end mark.
-/

set_option autoImplicit false

namespace VKernel.Proofs.Fs

open VKernel.Lib VKernel.Fs VKernel.Fs.Fat32

/-! ### Scans -/

section Scans

variable {slots pre post : List (EntryLocation × FatEntry)}

theorem shown_eq (slots : List (EntryLocation × FatEntry)) :
    shown slots = stateOf (scanSlots (listCallback keepEntry) slots [] []) := by
  unfold shown stateOf
  split <;> simp_all

/-- What the callback adds for an entry. -/
def shownEntry (ref : DirectoryEntryRef) : List DirectoryEntryInfo :=
  if IsDotName ref.name then []
  else [⟨ref.name, ref.entry.isDirectory, ref.entry.fileSize.toNat, ref.entry.firstCluster⟩]

theorem listCallback_keepEntry (infos : List DirectoryEntryInfo) (ref : DirectoryEntryRef) :
    listCallback keepEntry infos ref = (infos ++ shownEntry ref, false) := by
  unfold listCallback shownEntry
  by_cases h : IsDotName ref.name
  · rw [if_pos h, List.append_nil]
    exact if_pos h
  · rw [if_neg h]
    exact if_neg h

/-- A scan adds to the entries that it starts with. -/
theorem scanSlots_keepEntry (slots : List (EntryLocation × FatEntry)) (pending : PendingLfn)
    (infos : List DirectoryEntryInfo) :
    scanSlots (listCallback keepEntry) slots pending infos =
      match scanSlots (listCallback keepEntry) slots pending [] with
      | .stop more => .stop (infos ++ more)
      | .more p more => .more p (infos ++ more) := by
  induction slots generalizing pending infos with
  | nil => simp [scanSlots]
  | cons s slots ih =>
    obtain ⟨location, e⟩ := s
    rw [scanSlots_cons, scanSlots_cons]
    split
    · simp
    split
    · exact ih [] infos
    split
    · exact ih _ infos
    split
    · exact ih [] infos
    · rw [listCallback_keepEntry, listCallback_keepEntry]
      simp only
      rw [ih [] (infos ++ _), ih [] ([] ++ _)]
      cases scanSlots (listCallback keepEntry) slots [] [] <;> simp

/-- The slots behind some that leave no long name pending. -/
theorem shown_append (infos : List DirectoryEntryInfo)
    (hpre : scanSlots (listCallback keepEntry) pre [] [] = .more [] infos) :
    shown (pre ++ post) = infos ++ shown post := by
  rw [shown_eq, shown_eq, scanSlots_append, hpre]
  simp only
  rw [scanSlots_keepEntry]
  cases scanSlots (listCallback keepEntry) post [] [] <;> rfl

/-- An end mark shows nothing. -/
theorem shown_end {s : EntryLocation × FatEntry} (hs : s.2.firstByte = DIR_ENTRY_END) :
    shown (s :: slots) = [] := by
  obtain ⟨location, e⟩ := s
  rw [shown_eq, scanSlots_cons, if_pos hs]
  rfl

/-- End marks at the end show nothing. -/
theorem shown_append_ends {marks : List (EntryLocation × FatEntry)}
    (hmarks : ∀ s ∈ marks, s.2.firstByte = DIR_ENTRY_END) :
    shown (slots ++ marks) = shown slots := by
  rw [shown_eq, shown_eq, scanSlots_append]
  cases scanSlots (listCallback keepEntry) slots [] [] with
  | stop infos => rfl
  | more pending infos =>
    cases marks with
    | nil => rfl
    | cons s marks =>
      obtain ⟨location, e⟩ := s
      simp only
      rw [scanSlots_cons, if_pos (hmarks _ List.mem_cons_self)]
      rfl

/-- Unused slots show nothing. -/
theorem scanSlots_unused (h : ∀ s ∈ slots, isUnused s = true) (infos : List DirectoryEntryInfo) :
    scanSlots (listCallback keepEntry) slots [] infos = .more [] infos := by
  induction slots with
  | nil => rfl
  | cons s slots ih =>
    obtain ⟨location, e⟩ := s
    have hunused : e.firstByte = DIR_ENTRY_UNUSED := beq_iff_eq.mp (h _ List.mem_cons_self)
    have hend : e.firstByte ≠ DIR_ENTRY_END := by
      rw [hunused]
      decide
    rw [scanSlots_cons, if_neg hend, if_pos hunused]
    exact ih fun s hs => h s (List.mem_cons_of_mem _ hs)

/-- No name that is shown is `.` or `..`. -/
theorem shown_not_dot (slots : List (EntryLocation × FatEntry)) :
    ∀ info ∈ shown slots, ¬ IsDotName info.name := by
  have hscan : ∀ (slots : List (EntryLocation × FatEntry)) (pending : PendingLfn)
      (infos : List DirectoryEntryInfo), (∀ info ∈ infos, ¬ IsDotName info.name) →
      ∀ info ∈ stateOf (scanSlots (listCallback keepEntry) slots pending infos),
        ¬ IsDotName info.name := by
    intro slots
    induction slots with
    | nil => exact fun _ _ h => h
    | cons s slots ih =>
      intro pending infos h
      obtain ⟨location, e⟩ := s
      rw [scanSlots_cons]
      split
      · exact h
      split
      · exact ih [] infos h
      split
      · exact ih _ infos h
      split
      · exact ih [] infos h
      · rw [listCallback_keepEntry]
        refine ih [] _ fun info hinfo => ?_
        rcases List.mem_append.mp hinfo with hinfo | hinfo
        · exact h info hinfo
        · unfold shownEntry at hinfo
          split at hinfo
          · cases hinfo
          next hname =>
            rw [List.mem_singleton.mp hinfo]
            exact hname
  rw [shown_eq]
  exact hscan slots [] [] fun _ h => by cases h

/-- A long name that is pending behind some slots comes from the last of them. -/
theorem scanSlots_pending_last {β : Type} {callback : β → DirectoryEntryRef → β × Bool}
    {state state' : β} {pending p : PendingLfn} {s : EntryLocation × FatEntry}
    (h : scanSlots callback (slots ++ [s]) pending state = .more p state') :
    p = [] ∨ IsLfnSlot s.2 := by
  obtain ⟨location, e⟩ := s
  rw [scanSlots_append] at h
  split at h
  · cases h
  · rw [scanSlots_cons] at h
    split at h
    · cases h
    next hend =>
      split at h
      · cases h
        exact .inl rfl
      next hunused =>
        split at h
        next hattr => exact .inr ⟨hend, hunused, hattr⟩
        · split at h
          · cases h
            exact .inl rfl
          · split at h
            · cases h
            · cases h
              exact .inl rfl

theorem inFront_ne_end {s : EntryLocation × FatEntry} (hs : s ∈ inFront slots) :
    s.2.firstByte ≠ DIR_ENTRY_END := by
  have h := List.mem_takeWhile_imp (show s ∈ slots.takeWhile _ from hs)
  exact bne_iff_ne.mp h

/-- In a directory by the FAT rules, nothing is pending in front of a free slot. -/
theorem scanSlots_inFront (hnames : LongNamesOwned slots) (hsplit : inFront slots = pre ++ post)
    (hfree : ∀ t ∈ post.head?, t.2.firstByte = DIR_ENTRY_UNUSED) :
    ∃ infos, scanSlots (listCallback keepEntry) pre [] [] = .more [] infos := by
  have hend : ∀ s ∈ pre, s.2.firstByte ≠ DIR_ENTRY_END := fun s hs =>
    inFront_ne_end (hsplit ▸ List.mem_append_left _ hs)
  obtain ⟨p, infos, hscan⟩ := scanSlots_passes
    (fun infos e => congrArg Prod.snd (listCallback_keepEntry infos e)) hend [] []
  refine ⟨infos, ?_⟩
  rcases List.eq_nil_or_concat pre with rfl | ⟨front, s, rfl⟩
  · cases hscan
    rfl
  · rw [List.concat_eq_append] at *
    rcases scanSlots_pending_last hscan with rfl | ⟨-, hunused, hattr⟩
    · exact hscan
    · -- the slot that it comes from would have its entry behind it
      rw [List.append_assoc, List.singleton_append] at hsplit
      obtain ⟨t, rest, hpost, hused, -⟩ := hnames front s post hsplit hunused hattr
      rw [hpost] at hfree
      exact absurd (hfree t rfl) hused

end Scans

/-! ### Where a new entry goes -/

section Placement

variable {needed : Nat} {slots : List (EntryLocation × FatEntry)}

/-- A slot of the search in front of the end mark. -/
theorem searchSlots_slot {s : EntryLocation × FatEntry} (hend : s.2.firstByte ≠ DIR_ENTRY_END)
    (run : List EntryLocation) :
    searchSlots needed [s] run false =
      if isUnused s then
        if run.length + 1 = needed then .found (run ++ [s.1]) else .more (run ++ [s.1]) false
      else .more [] false := by
  obtain ⟨location, e⟩ := s
  have hmark : (e.firstByte == DIR_ENTRY_END) = false := beq_eq_false_iff_ne.mpr hend
  rw [searchSlots_cons, hmark, Bool.or_false, Bool.false_or]
  rfl

/-- Unused slots at the end are those that `rtakeWhile` takes. -/
theorem length_le_rtakeWhile {n : Nat} (slots : List (EntryLocation × FatEntry))
    (h : List.replicate n DIR_ENTRY_UNUSED <:+ slots.map fun s => s.2.firstByte) :
    n ≤ (slots.rtakeWhile isUnused).length := by
  induction slots using List.reverseRecOn generalizing n with
  | nil =>
    have hlen := h.length_le
    rw [List.length_replicate] at hlen
    exact hlen.trans (Nat.zero_le _)
  | append_singleton slots s ih =>
    cases n with
    | zero => exact Nat.zero_le _
    | succ n =>
      rw [List.map_append, List.map_singleton, List.replicate_succ', List.suffix_concat_iff] at h
      rcases h with hnil | ⟨front, hsplit, hrest⟩
      · simp at hnil
      · obtain ⟨rfl, hlast⟩ := List.append_inj' hsplit rfl
        have hunused : isUnused s = true := beq_iff_eq.mpr (List.singleton_inj.mp hlast).symm
        rw [List.rtakeWhile_concat_pos _ _ _ hunused, List.length_append]
        exact Nat.succ_le_succ (ih hrest)

/-- The search in slots without an end mark: it finds unused slots, or there are too few next to
each other, and it goes on with those at the end. -/
theorem searchSlots_front (hneeded : 0 < needed) (front : List (EntryLocation × FatEntry))
    (hfront : ∀ s ∈ front, s.2.firstByte ≠ DIR_ENTRY_END) :
    (∃ pre mid post, front = pre ++ mid ++ post ∧ mid.length = needed ∧
      (∀ s ∈ mid, isUnused s = true) ∧
      searchSlots needed front [] false = .found (mid.map Prod.fst)) ∨
    (¬ HasRoom needed front ∧ (front.rtakeWhile isUnused).length < needed ∧
      searchSlots needed front [] false =
        .more ((front.rtakeWhile isUnused).map Prod.fst) false) := by
  induction front using List.reverseRecOn with
  | nil =>
    refine .inr ⟨fun hroom => ?_, hneeded, rfl⟩
    have hlen := hroom.length_le
    rw [List.length_replicate] at hlen
    exact absurd hlen (Nat.not_le_of_lt hneeded)
  | append_singleton front s ih =>
    rw [searchSlots_append]
    rcases ih fun t ht => hfront t (List.mem_append_left _ ht) with
      ⟨pre, mid, post, hsplit, hlen, hunused, hfound⟩ | ⟨hroom, hlt, hmore⟩
    · refine .inl ⟨pre, mid, post ++ [s], ?_, hlen, hunused, by rw [hfound]⟩
      rw [hsplit, List.append_assoc]
    · rw [hmore]
      simp only
      rw [searchSlots_slot (hfront s (by simp)), List.length_map]
      by_cases hs : isUnused s = true
      · rw [if_pos hs]
        have hall : ∀ t ∈ front.rtakeWhile isUnused ++ [s], isUnused t = true := by
          intro t ht
          rcases List.mem_append.mp ht with ht | ht
          · exact List.mem_rtakeWhile_imp ht
          · rw [List.mem_singleton.mp ht]
            exact hs
        by_cases hfull : (front.rtakeWhile isUnused).length + 1 = needed
        · refine .inl ⟨front.rdropWhile isUnused, front.rtakeWhile isUnused ++ [s], [], ?_,
            by simpa using hfull, hall, by rw [if_pos hfull, List.map_append]; rfl⟩
          rw [List.append_nil, ← List.append_assoc, List.rdropWhile_append_rtakeWhile]
        · rw [if_neg hfull, List.rtakeWhile_concat_pos _ _ _ hs, List.length_append]
          refine .inr ⟨fun hroom' => ?_, Nat.lt_of_le_of_ne hlt hfull, by rw [List.map_append]; rfl⟩
          unfold HasRoom at hroom'
          rw [List.map_append, List.map_singleton, List.infix_concat_iff] at hroom'
          rcases hroom' with hsuffix | hinfix
          · have hlong := length_le_rtakeWhile (front ++ [s]) (by simpa using hsuffix)
            rw [List.rtakeWhile_concat_pos _ _ _ hs, List.length_append,
              List.length_singleton] at hlong
            omega
          · exact hroom hinfix
      · rw [if_neg hs, List.rtakeWhile_concat_neg _ _ _ hs]
        refine .inr ⟨fun hroom' => ?_, hneeded, rfl⟩
        unfold HasRoom at hroom'
        rw [List.map_append, List.map_singleton, List.infix_concat_iff] at hroom'
        rcases hroom' with hsuffix | hinfix
        · have hlong := length_le_rtakeWhile (front ++ [s]) (by simpa using hsuffix)
          rw [List.rtakeWhile_concat_neg _ _ _ hs] at hlong
          exact absurd hlong (Nat.not_le_of_lt hneeded)
        · exact hroom hinfix

/-- Behind the end mark the search takes every slot. -/
theorem searchSlots_behind {run locations : List EntryLocation} (hrun : run.length < needed)
    (h : searchSlots needed slots run true = .found locations) :
    ∃ mid post, slots = mid ++ post ∧ run.length + mid.length = needed ∧
      locations = run ++ mid.map Prod.fst := by
  induction slots generalizing run with
  | nil => cases h
  | cons s slots ih =>
    obtain ⟨location, e⟩ := s
    rw [searchSlots_cons, Bool.true_or, Bool.true_or, if_pos rfl] at h
    split at h
    next hfull =>
      cases h
      exact ⟨[(location, e)], slots, rfl, hfull, rfl⟩
    next hfull =>
      have hlen : (run ++ [location]).length = run.length + 1 := by simp
      obtain ⟨mid, post, hsplit, hneeded, hlocations⟩ := ih (by omega) h
      refine ⟨(location, e) :: mid, post, by rw [hsplit]; rfl, ?_, ?_⟩
      · rw [List.length_cons]
        omega
      · rw [hlocations, List.append_assoc]
        rfl

/-- The place `mid` of a new entry: unused slots in front of the end mark, or, when these are too
few, the slots from the unused ones at the end on. -/
inductive Placed (needed : Nat) (slots pre mid post : List (EntryLocation × FatEntry)) : Prop
  | room (hroom : HasRoom needed (inFront slots)) (hunused : ∀ s ∈ mid, isUnused s = true)
      (hfront : ∃ rest, inFront slots = pre ++ mid ++ rest)
  | tail (hroom : ¬ HasRoom needed (inFront slots))
      (hfront : pre = (inFront slots).rdropWhile isUnused)
      (hpost : post = slots.drop (freeTail slots + needed))

/-- Where `allocate_directory_slots` puts a new entry. -/
theorem searchSlots_placed (hneeded : 0 < needed) {locations : List EntryLocation}
    (h : searchSlots needed slots [] false = .found locations) :
    ∃ pre mid post, slots = pre ++ mid ++ post ∧ mid.length = needed ∧
      locations = mid.map Prod.fst ∧ Placed needed slots pre mid post := by
  have hsplit : inFront slots ++ slots.dropWhile (fun s => s.2.firstByte != DIR_ENTRY_END) =
      slots :=
    List.takeWhile_append_dropWhile
  have hmark : ∀ s ∈ (slots.dropWhile fun s => s.2.firstByte != DIR_ENTRY_END).head?,
      s.2.firstByte = DIR_ENTRY_END := by
    intro s hs
    have hnot := List.head?_dropWhile_not (fun s : EntryLocation × FatEntry =>
      s.2.firstByte != DIR_ENTRY_END) slots
    rw [Option.mem_def.mp hs] at hnot
    simpa using hnot
  generalize hbehind : slots.dropWhile (fun s => s.2.firstByte != DIR_ENTRY_END) = behind at *
  rw [← hsplit, searchSlots_append] at h
  rcases searchSlots_front hneeded (inFront slots) fun s hs => inFront_ne_end hs with
    ⟨pre, mid, rest, hfront, hlen, hunused, hfound⟩ | ⟨hroom, hlt, hmore⟩
  · rw [hfound] at h
    cases h
    refine ⟨pre, mid, rest ++ behind, ?_, hlen, rfl, .room ?_ hunused ⟨rest, hfront⟩⟩
    · rw [← List.append_assoc, ← hfront, hsplit]
    · have hbytes : mid.map (fun s => s.2.firstByte) = List.replicate needed DIR_ENTRY_UNUSED := by
        rw [← hlen]
        exact List.map_eq_replicate_iff.mpr fun s hs => beq_iff_eq.mp (hunused s hs)
      refine ⟨pre.map fun s => s.2.firstByte, rest.map fun s => s.2.firstByte, ?_⟩
      rw [← hbytes, hfront, List.map_append, List.map_append]
  · rw [hmore] at h
    simp only at h
    cases behind with
    | nil => cases h
    | cons s behind =>
      rw [searchSlots_endZone (hmark s rfl)] at h
      obtain ⟨mid, post, hrest, hcount, hlocations⟩ :=
        searchSlots_behind (by rw [List.length_map]; exact hlt) h
      rw [List.length_map] at hcount
      have hwhole : slots = (inFront slots).rdropWhile isUnused ++
          ((inFront slots).rtakeWhile isUnused ++ mid) ++ post := by
        rw [← List.append_assoc, List.rdropWhile_append_rtakeWhile, List.append_assoc, ← hrest,
          hsplit]
      refine ⟨_, _, post, hwhole, by rw [List.length_append]; exact hcount,
        by rw [hlocations, List.map_append], .tail hroom rfl ?_⟩
      have hlength : freeTail slots + needed = ((inFront slots).rdropWhile isUnused ++
          ((inFront slots).rtakeWhile isUnused ++ mid)).length := by
        rw [List.length_append, List.length_append, hcount]
        rfl
      have hdrop := congrArg (List.drop (freeTail slots + needed)) hwhole
      rw [hdrop, hlength]
      exact (List.drop_left ..).symm

/-- End marks behind the slots are not in front of one. -/
theorem inFront_append (slots : List (EntryLocation × FatEntry))
    {marks : List (EntryLocation × FatEntry)}
    (hmarks : ∀ s ∈ marks, s.2.firstByte = DIR_ENTRY_END) :
    inFront (slots ++ marks) = inFront slots := by
  have hnone : marks.takeWhile (fun s => s.2.firstByte != DIR_ENTRY_END) = [] := by
    cases marks with
    | nil => rfl
    | cons s marks => exact List.takeWhile_cons_of_neg (by simp [hmarks s List.mem_cons_self])
  unfold inFront
  rw [List.takeWhile_append, hnone, List.append_nil]
  split
  next hlen => exact ((List.takeWhile_prefix _).eq_of_length hlen).symm
  · rfl

/-- Nor do they change what a new name uncovers. -/
theorem uncovered_append {marks : List (EntryLocation × FatEntry)}
    (hmarks : ∀ s ∈ marks, s.2.firstByte = DIR_ENTRY_END) (leaf : List UInt8) :
    uncovered leaf (slots ++ marks) = uncovered leaf slots := by
  have hfront := inFront_append slots hmarks
  unfold uncovered freeTail
  rw [hfront, List.drop_append,
    shown_append_ends fun s hs => hmarks s (List.mem_of_mem_drop hs)]

end Placement

/-! ### What a new entry shows -/

section NewEntry

variable {leaf : List UInt8} {e : FatEntry} {lfns : List LfnEntry}

/-- The characters behind the terminator do not count. -/
theorem collectLfnCharacters_append {tail : List UInt16} (htail : IsLfnTail tail) (cap : Nat)
    (out : List UInt8) (values : List UInt16) :
    collectLfnCharacters cap out (values ++ tail) = collectLfnCharacters cap out values := by
  induction values generalizing out with
  | nil => exact collectLfnCharacters_tail htail
  | cons value values ih =>
    rw [List.cons_append, collectLfnCharacters, collectLfnCharacters]
    split
    · rfl
    · exact ih _

/-- The slots that `build_file_entry` makes. -/
theorem BuiltEntry.slots (h : BuiltEntry leaf e lfns) : lfns.length + 1 = slotsNeeded leaf := by
  unfold slotsNeeded
  cases h with
  | short hvalid _ _ _ =>
    rw [if_pos hvalid]
    rfl
  | long hvalid _ _ _ _ hlfns =>
    rw [if_neg (by simp [hvalid]), (createLfnEntries_eq hlfns).1, List.length_map,
      List.length_range]

/-- The name that `scan_directory` reads for a new entry with nothing pending in front of it. -/
theorem entryName_new (h : BuiltEntry leaf e lfns) {locations : List EntryLocation}
    (hlen : locations.length = lfns.length) :
    entryName e ((lfns.reverse.zip locations).foldl
      (fun p x => PendingLfn.push p x.1 x.2) []) = shownName leaf := by
  unfold entryName shownName
  cases h with
  | short hvalid hname hext hcase =>
    rw [if_pos hvalid]
    show decodeShortName e = _
    unfold decodeShortName
    rw [hname, hext, hcase]
    rfl
  | long hvalid _ _ _ _ hlfns =>
    obtain ⟨heq, hcount, hmax⟩ := createLfnEntries_eq hlfns
    obtain ⟨tail, htail, hflat⟩ := lfnCharacters_flatMap _ leaf rfl
    have hlfnsLen : lfns.length = (leaf.length + 12) / 13 := by
      rw [heq, List.length_map, List.length_range]
    have hzip : (lfns.reverse.zip locations).length = lfns.length := by
      rw [List.length_zip, List.length_reverse, hlen, Nat.min_self]
    have hfst : (lfns.reverse.zip locations).map Prod.fst = lfns.reverse :=
      List.map_fst_zip (by rw [List.length_reverse, hlen])
    have hnonempty : lfns.reverse ≠ [] := by
      apply List.ne_nil_of_length_pos
      rw [List.length_reverse]
      omega
    have hchecks : ∀ lfn ∈ lfns.reverse, lfn.checksum = lfnChecksum e := by
      intro lfn hlfn
      exact (createLfnEntries_isLfnSlot hlfns (List.mem_reverse.mp hlfn)).2
    have hchars : (lfns.flatMap fun lfn => lfn.characters.toList) =
        leaf.map UInt8.toUInt16 ++ tail := by
      rw [heq, List.flatMap_map]
      exact hflat
    rw [foldl_push _ _ (Nat.zero_le _) (by omega), if_pos (by rw [List.length_nil]; omega),
      List.nil_append, hfst, decodeLfnName_of_match hnonempty hchecks, List.reverse_reverse,
      Option.getD_some, hchars, collectLfnCharacters_append htail, if_neg (by simp [hvalid])]

/-- A new entry shows itself, under its name. -/
theorem scanSlots_newSlots (h : BuiltEntry leaf e lfns) (hattr : e.attributes = ATTR_ARCHIVE)
    {locations : List EntryLocation} (hlen : locations.length = lfns.length)
    (location : EntryLocation) (infos : List DirectoryEntryInfo) :
    scanSlots (listCallback keepEntry) (newSlots locations location e lfns) [] infos =
      .more [] (infos ++ if IsDotName (shownName leaf) then []
        else [⟨shownName leaf, false, e.fileSize.toNat, e.firstCluster⟩]) := by
  have hfirst := h.firstByte.ne
  have hlfn : ∀ x ∈ locations.zip (lfns.reverse.map fun lfn => FatEntry.ofBytes lfn.byte),
      IsLfnSlot x.2 := by
    intro x hx
    obtain ⟨lfn, hmem, heq⟩ := List.mem_map.mp (List.of_mem_zip hx).2
    rw [← heq]
    cases h with
    | short _ _ _ _ => cases hmem
    | long _ _ _ _ _ hlfns =>
      exact (createLfnEntries_isLfnSlot hlfns (List.mem_reverse.mp hmem)).1
  have hfold : (locations.zip (lfns.reverse.map fun lfn => FatEntry.ofBytes lfn.byte)).foldl
      (fun p x => PendingLfn.push p (.ofEntry x.2) x.1) [] =
      (lfns.reverse.zip locations).foldl (fun p x => PendingLfn.push p x.1 x.2) [] := by
    rw [← newSlots_pending, List.foldl_map]
  have hnotLfn : ¬ e.attributes = ATTR_LONG_FILE_NAME := by
    rw [hattr]
    decide
  have hnotVolume : ¬ e.isVolumeLabel = true := by
    unfold FatEntry.isVolumeLabel
    rw [hattr]
    decide
  have hfile : e.isDirectory = false := by
    unfold FatEntry.isDirectory
    rw [hattr]
    decide
  have hname := entryName_new h hlen
  unfold newSlots
  rw [scanSlots_append, scanSlots_lfn [] infos hlfn, hfold]
  simp only
  rw [scanSlots_cons, if_neg hfirst.1, if_neg hfirst.2.1, if_neg hnotLfn, if_neg hnotVolume,
    listCallback_keepEntry]
  unfold shownEntry entryRef
  simp only [hname, hfile]
  rfl

/-- A list with a new file and some entries besides it is the old list with the file added exactly
when the file is listed and there are no others. -/
theorem addsFile_iff (name : List UInt8) (size cluster : Nat)
    (front more back : List DirectoryEntryInfo)
    (hdots : ∀ info ∈ front ++ more ++ back, ¬ IsDotName info.name) :
    AddsFile name size (front ++ back) (front ++ (if IsDotName name then []
        else [⟨name, false, size, cluster⟩]) ++ more ++ back) ↔
      ¬ IsDotName name ∧ more = [] := by
  by_cases hname : IsDotName name
  · -- a list never has such a name
    rw [if_pos hname, List.append_nil]
    refine iff_of_false ?_ fun h => h.1 hname
    rintro ⟨front', back', cluster', -, hafter⟩
    exact hdots _ (hafter ▸ List.mem_append_right _ List.mem_cons_self) hname
  · rw [if_neg hname]
    constructor
    · rintro ⟨front', back', cluster', hbefore, hafter⟩
      have hshort := congrArg List.length hbefore
      have hlong := congrArg List.length hafter
      simp only [List.length_append, List.length_cons, List.length_nil] at hshort hlong
      exact ⟨hname, List.eq_nil_of_length_eq_zero (by omega)⟩
    · rintro ⟨-, rfl⟩
      exact ⟨front, back, cluster, rfl, by simp⟩

variable {slots pre mid post : List (EntryLocation × FatEntry)} {locations : List EntryLocation}

/-- The list of a directory with a new entry. `mid` are the slots that it takes. -/
theorem addsFile_newSlots_iff (h : BuiltEntry leaf e lfns) (hattr : e.attributes = ATTR_ARCHIVE)
    (hnames : LongNamesOwned slots) (hsplit : slots = pre ++ mid ++ post) (hmid : mid ≠ [])
    (hplaced : Placed (slotsNeeded leaf) slots pre mid post)
    (hlen : locations.length = lfns.length) (location : EntryLocation) :
    AddsFile (shownName leaf) e.fileSize.toNat (shown slots)
        (shown (pre ++ newSlots locations location e lfns ++ post)) ↔
      ¬ IsDotName (shownName leaf) ∧ uncovered leaf slots = [] := by
  -- nothing is pending in front of the new slots
  obtain ⟨infos, hpre⟩ : ∃ infos,
      scanSlots (listCallback keepEntry) pre [] [] = .more [] infos := by
    rcases hplaced with ⟨-, hunused, rest, hfront⟩ | ⟨-, hfront, -⟩
    · rw [List.append_assoc] at hfront
      refine scanSlots_inFront hnames hfront fun t ht => ?_
      obtain ⟨s, mid, rfl⟩ := List.exists_cons_of_ne_nil hmid
      cases ht
      exact beq_iff_eq.mp (hunused _ List.mem_cons_self)
    · rw [hfront]
      refine scanSlots_inFront hnames List.rdropWhile_append_rtakeWhile.symm fun t ht => ?_
      have hunused : isUnused t = true := List.mem_rtakeWhile_imp (List.mem_of_mem_head? ht)
      exact beq_iff_eq.mp hunused
  have hafter : shown (pre ++ newSlots locations location e lfns ++ post) =
      infos ++ (if IsDotName (shownName leaf) then []
        else [⟨shownName leaf, false, e.fileSize.toNat, e.firstCluster⟩]) ++ shown post := by
    apply shown_append
    rw [scanSlots_append, hpre]
    exact scanSlots_newSlots h hattr hlen location infos
  have hdots : ∀ info ∈ infos ++ shown post, ¬ IsDotName info.name := by
    rw [← shown_append _ hpre]
    exact shown_not_dot _
  rw [hafter]
  unfold uncovered
  rcases hplaced with ⟨hroom, hunused, -⟩ | ⟨hroom, hfront, hpost⟩
  · have hbefore : shown slots = infos ++ shown post := by
      rw [hsplit]
      apply shown_append
      rw [scanSlots_append, hpre]
      exact scanSlots_unused hunused infos
    have hiff := addsFile_iff (shownName leaf) e.fileSize.toNat
      e.firstCluster infos [] (shown post)
      (by simpa using hdots)
    rw [List.append_nil] at hiff
    rw [if_pos hroom, hbefore]
    exact hiff
  · have hbefore : shown slots = infos := by
      have hwhole : slots = (pre ++ (inFront slots).rtakeWhile isUnused) ++
          slots.dropWhile fun s => s.2.firstByte != DIR_ENTRY_END := by
        rw [hfront, List.rdropWhile_append_rtakeWhile]
        exact List.takeWhile_append_dropWhile.symm
      rw [hwhole, shown_append infos]
      · cases hbehind : slots.dropWhile fun s => s.2.firstByte != DIR_ENTRY_END with
        | nil => exact List.append_nil _
        | cons s behind =>
          have hmark := List.head?_dropWhile_not (fun s : EntryLocation × FatEntry =>
            s.2.firstByte != DIR_ENTRY_END) slots
          rw [hbehind] at hmark
          rw [shown_end (by simpa using hmark), List.append_nil]
      · rw [scanSlots_append, hpre]
        exact scanSlots_unused (fun s hs => List.mem_rtakeWhile_imp hs) infos
    have hiff := addsFile_iff (shownName leaf) e.fileSize.toNat
      e.firstCluster infos (shown post) []
      (by simpa using hdots)
    rw [List.append_nil, List.append_nil] at hiff
    rw [if_neg hroom, ← hpost, hbefore]
    exact hiff

end NewEntry

end VKernel.Proofs.Fs

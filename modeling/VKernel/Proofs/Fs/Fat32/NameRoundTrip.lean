import VKernel.Fs.Fat32.Files
import VKernel.Proofs.Fs.Fat32.Aliases
import Mathlib.Data.List.Zip

/-!
# `VKernel.Proofs.Fs.Fat32.NameRoundTrip`: new names in a directory

The slots that `write_file` adds for a new name are the long-name slots, the last part of the
name first, and then the entry (`newSlots`). `scan_directory` collects the long-name slots
that it passes and decodes them with the entry. What it sees of the slots before them is the
pending long name that they leave: it is empty unless they end in stray long-name slots, whose
own entry is gone. The strays belong to the new entry when they carry the checksum of its 8.3
name, as the slots of an older long name with the same alias do.

`ReadBack` is the condition on the name and the strays, and `find_new_iff` the main result: the
lookup of the name finds the new entry exactly when it is met.
-/

set_option autoImplicit false

namespace VKernel.Proofs.Fs

open VKernel.Lib VKernel.Fs VKernel.Fs.Fat32

/-! ### Scans -/

section Scans

variable {β : Type} {callback : β → DirectoryEntryRef → β × Bool}

/-- The state of the callback when a scan, or a part of it, ends. -/
def stateOf : ScanState β → β
  | .stop state => state
  | .more _ state => state

theorem scanSlots_cons (location : EntryLocation) (e : FatEntry)
    (rest : List (EntryLocation × FatEntry)) (pending : PendingLfn) (state : β) :
    scanSlots callback ((location, e) :: rest) pending state =
      if e.firstByte = DIR_ENTRY_END then .stop state
      else if e.firstByte = DIR_ENTRY_UNUSED then scanSlots callback rest [] state
      else if e.attributes = ATTR_LONG_FILE_NAME then
        scanSlots callback rest (pending.push (.ofEntry e) location) state
      else if e.isVolumeLabel then scanSlots callback rest [] state
      else
        match callback state (entryRef location e pending) with
        | (state, true) => .stop state
        | (state, false) => scanSlots callback rest [] state := rfl

/-- The slots of a directory are scanned part by part. -/
theorem scanSlots_append (xs ys : List (EntryLocation × FatEntry)) (pending : PendingLfn)
    (state : β) :
    scanSlots callback (xs ++ ys) pending state =
      match scanSlots callback xs pending state with
      | .stop state => .stop state
      | .more pending state => scanSlots callback ys pending state := by
  induction xs generalizing pending state with
  | nil => rfl
  | cons x xs ih =>
    obtain ⟨location, e⟩ := x
    rw [List.cons_append, scanSlots_cons, scanSlots_cons]
    split
    · rfl
    split
    · exact ih [] state
    split
    · exact ih _ state
    split
    · exact ih [] state
    · split
      · rfl
      · exact ih [] _

theorem push_length_le {pending : PendingLfn} {lfn : LfnEntry} {location : EntryLocation} :
    (pending.push lfn location).length ≤ 20 := by
  unfold PendingLfn.push MAX_LFN_ENTRIES
  split
  · exact Nat.zero_le _
  · rw [List.length_append, List.length_singleton]
    omega

/-- The pending long name has at most 20 slots. -/
theorem scanSlots_pending_le {slots : List (EntryLocation × FatEntry)} {pending p : PendingLfn}
    {state s : β} (h : scanSlots callback slots pending state = .more p s)
    (hp : pending.length ≤ 20) : p.length ≤ 20 := by
  induction slots generalizing pending state with
  | nil =>
    cases h
    exact hp
  | cons x xs ih =>
    obtain ⟨location, e⟩ := x
    rw [scanSlots_cons] at h
    split at h
    · cases h
    split at h
    · exact ih h (Nat.zero_le _)
    split at h
    · exact ih h push_length_le
    split at h
    · exact ih h (Nat.zero_le _)
    · split at h
      · cases h
      · exact ih h (Nat.zero_le _)

/-- A slot that `scan_directory` takes for a part of a long name. -/
def IsLfnSlot (e : FatEntry) : Prop :=
  e.firstByte ≠ DIR_ENTRY_END ∧ e.firstByte ≠ DIR_ENTRY_UNUSED ∧
    e.attributes = ATTR_LONG_FILE_NAME

/-- Long-name slots are all collected. -/
theorem scanSlots_lfn {slots : List (EntryLocation × FatEntry)} (pending : PendingLfn) (state : β)
    (h : ∀ x ∈ slots, IsLfnSlot x.2) :
    scanSlots callback slots pending state =
      .more (slots.foldl (fun p x => p.push (.ofEntry x.2) x.1) pending) state := by
  induction slots generalizing pending with
  | nil => rfl
  | cons x xs ih =>
    obtain ⟨hend, hunused, hattr⟩ := h x List.mem_cons_self
    obtain ⟨location, e⟩ := x
    rw [scanSlots_cons, if_neg hend, if_neg hunused, if_pos hattr, List.foldl_cons]
    exact ih _ fun y hy => h y (List.mem_cons_of_mem _ hy)

end Scans

/-- Collecting at most 20 slots: they are appended, or the one that finds 20 before it is
dropped with them. -/
theorem foldl_push (slots : List (LfnEntry × EntryLocation)) (pending : PendingLfn)
    (hp : pending.length ≤ 20) (hs : slots.length ≤ 20) :
    slots.foldl (fun p x => PendingLfn.push p x.1 x.2) pending =
      if pending.length + slots.length ≤ 20 then pending ++ slots
      else slots.drop (21 - pending.length) := by
  induction slots generalizing pending with
  | nil => simp [hp]
  | cons x xs ih =>
    rw [List.length_cons] at hs
    have hpush : PendingLfn.push pending x.1 x.2 =
        if pending.length ≥ 20 then [] else pending ++ [x] := rfl
    rw [List.foldl_cons, List.length_cons, hpush]
    by_cases hfull : pending.length ≥ 20
    · rw [if_pos hfull, ih [] (Nat.zero_le _) (by omega),
        if_pos (by rw [List.length_nil]; omega),
        if_neg (by omega), show 21 - pending.length = 1 by omega]
      rfl
    · rw [if_neg hfull, ih _ (by rw [List.length_append, List.length_singleton]; omega) (by omega),
        List.length_append, List.length_singleton]
      by_cases hroom : pending.length + (xs.length + 1) ≤ 20
      · rw [if_pos (by omega), if_pos hroom, List.append_assoc, List.singleton_append]
      · rw [if_neg (by omega), if_neg hroom,
          show 21 - pending.length = 21 - (pending.length + 1) + 1 by omega, List.drop_succ_cons]

/-- A lookup finds an entry of the slots that it looks through. -/
theorem find_location {name : List UInt8} {slots : List (EntryLocation × FatEntry)}
    {pending : PendingLfn} {ref : DirectoryEntryRef}
    (h : stateOf (scanSlots (findCallback name) slots pending none) = some ref) :
    ∃ x ∈ slots, x.1 = ref.location := by
  induction slots generalizing pending with
  | nil => cases h
  | cons x xs ih =>
    have hrest : ∀ {p : PendingLfn},
        stateOf (scanSlots (findCallback name) xs p none) = some ref →
        ∃ y ∈ x :: xs, y.1 = ref.location := by
      intro p hp
      obtain ⟨y, hy, heq⟩ := ih hp
      exact ⟨y, List.mem_cons_of_mem _ hy, heq⟩
    obtain ⟨location, e⟩ := x
    rw [scanSlots_cons] at h
    split at h
    · cases h
    split at h
    · exact hrest h
    split at h
    · exact hrest h
    split at h
    · exact hrest h
    · unfold findCallback at h
      by_cases hname : name = (entryRef location e pending).name
      · rw [if_pos hname] at h
        cases h
        exact ⟨(location, e), List.mem_cons_self, rfl⟩
      · rw [if_neg hname] at h
        exact hrest h

/-! ### New slots -/

/-- The slots of a new name: `locations` are those of the long-name slots, `location` is that
of the entry. -/
def newSlots (locations : List EntryLocation) (location : EntryLocation) (e : FatEntry)
    (lfns : List LfnEntry) : List (EntryLocation × FatEntry) :=
  locations.zip (lfns.reverse.map fun lfn => FatEntry.ofBytes lfn.byte) ++ [(location, e)]

/-- `find_in_directory` on the slots of a directory. -/
def findSlots (name : List UInt8) (slots : List (EntryLocation × FatEntry)) :
    Option DirectoryEntryRef := stateOf (scanSlots (findCallback name) slots [] none)

/-- The long-name slots of a new entry count as such. -/
theorem createLfnEntries_isLfnSlot {name : List UInt8} {checksum : UInt8} {lfns : List LfnEntry}
    (h : createLfnEntries name checksum = some lfns) {lfn : LfnEntry} (hmem : lfn ∈ lfns) :
    IsLfnSlot (.ofBytes lfn.byte) ∧ lfn.checksum = checksum := by
  obtain ⟨rfl, -, hcount⟩ := createLfnEntries_eq h
  obtain ⟨i, hi, rfl⟩ := List.mem_map.mp hmem
  rw [List.mem_range] at hi
  have horder : ∀ i < 20, ∀ last : Bool,
      (if last then UInt8.ofNat (i + 1) ||| LFN_LAST_ENTRY_MASK else UInt8.ofNat (i + 1)) ≠
        DIR_ENTRY_END ∧
      (if last then UInt8.ofNat (i + 1) ||| LFN_LAST_ENTRY_MASK else UInt8.ofNat (i + 1)) ≠
        DIR_ENTRY_UNUSED := by decide
  have hthis := horder i (by omega) (decide (i + 1 = (name.length + 12) / 13))
  simp only [decide_eq_true_eq] at hthis
  unfold IsLfnSlot
  rw [ofBytes_lfn_firstByte]
  exact ⟨⟨hthis.1, hthis.2, rfl⟩, rfl⟩

/-- The pending long name in front of the new entry. -/
theorem newSlots_pending (locations : List EntryLocation) (lfns : List LfnEntry) :
    ((locations.zip (lfns.reverse.map fun lfn => FatEntry.ofBytes lfn.byte)).map
        fun x => (LfnEntry.ofEntry x.2, x.1)) = lfns.reverse.zip locations := by
  rw [List.zip_map_right, List.map_map]
  have hfun : ((fun x : EntryLocation × FatEntry => (LfnEntry.ofEntry x.2, x.1)) ∘
      Prod.map id fun lfn : LfnEntry => FatEntry.ofBytes lfn.byte) = Prod.swap := by
    funext x
    obtain ⟨location, lfn⟩ := x
    show (LfnEntry.ofEntry (.ofBytes lfn.byte), location) = (lfn, location)
    rw [ofEntry_ofBytes_byte]
  rw [hfun, List.zip_swap]

/-- The decoder adds at most one character for each value. -/
theorem collectLfnCharacters_length_le (cap : Nat) (out : List UInt8) (values : List UInt16) :
    (collectLfnCharacters cap out values).length ≤ out.length + values.length := by
  induction values generalizing out with
  | nil => exact Nat.le_refl _
  | cons value rest ih =>
    rw [List.length_cons]
    unfold collectLfnCharacters appendLfnCharacter
    by_cases h0 : value = 0x0000
    · rw [if_pos h0]
      show out.length ≤ _
      omega
    rw [if_neg h0]
    by_cases hpad : value = 0xFFFF
    · rw [if_pos hpad]
      have := ih out
      show (collectLfnCharacters cap out rest).length ≤ _
      omega
    rw [if_neg hpad]
    by_cases hcap : out.length + 1 ≥ cap
    · rw [if_pos hcap]
      show out.length ≤ _
      omega
    · rw [if_neg hcap]
      have := ih (out ++ [if value < 0x80 then value.toUInt8 else '?'.toUInt8])
      rw [List.length_append, List.length_singleton] at this
      exact Nat.le_trans this (by omega)

/-- Every slot of a pending long name carries the checksum of the entry. -/
def Belongs (e : FatEntry) (pending : PendingLfn) : Prop :=
  ∀ p ∈ pending, p.1.checksum = lfnChecksum e

instance (e : FatEntry) (pending : PendingLfn) : Decidable (Belongs e pending) :=
  inferInstanceAs (Decidable (∀ p ∈ pending, p.1.checksum = lfnChecksum e))

/-- The characters of a pending long name, the last slot first. -/
def strayCharacters (pending : PendingLfn) : List UInt16 :=
  pending.reverse.flatMap fun p => p.1.characters.toList

/-- When a new entry is read back under its name behind a pending long name. A short name is
replaced by the long name of strays that belong to its entry. The slots of a long name join the
strays, which have to leave room for them and to belong to the entry as well, and the
characters of the strays come last. -/
def ReadBack (name : List UInt8) (e : FatEntry) (pending : PendingLfn) : Prop :=
  if isValidSfnName name then
    if pending ≠ [] ∧ Belongs e pending then
      collectLfnCharacters 256 [] (strayCharacters pending) = name
    else ShortRepresentable name
  else
    LongRepresentable name ∧ pending.length + (name.length + 12) / 13 ≤ MAX_LFN_ENTRIES ∧
      Belongs e pending ∧ (name.length % 13 = 0 → AddsNothing (strayCharacters pending))

instance (name : List UInt8) (e : FatEntry) (pending : PendingLfn) :
    Decidable (ReadBack name e pending) :=
  inferInstanceAs (Decidable (if isValidSfnName name then
    if pending ≠ [] ∧ Belongs e pending then
      collectLfnCharacters 256 [] (strayCharacters pending) = name
    else ShortRepresentable name
  else LongRepresentable name ∧ _ ∧ Belongs e pending ∧ (name.length % 13 = 0 → _)))

/-- Strays that do not belong to the entry decode to nothing. -/
theorem decodeLfnName_of_not_belongs {e : FatEntry} {pending : PendingLfn}
    (h : ¬ (pending ≠ [] ∧ Belongs e pending)) :
    decodeLfnName e (pending.map Prod.fst) = none := by
  unfold decodeLfnName
  by_cases hnil : pending = []
  · rw [if_pos (by rw [hnil, List.map_nil])]
  · have hmis : ¬ Belongs e pending := fun hall => h ⟨hnil, hall⟩
    obtain ⟨p, hp, hne⟩ := not_forall₂.mp hmis
    rw [if_neg fun hmap => hnil (List.map_eq_nil_iff.mp hmap), if_pos]
    exact List.any_eq_true.mpr ⟨p.1, List.mem_map_of_mem hp, bne_iff_ne.mpr hne⟩

/-- What decodes when every pending slot belongs to the entry. -/
theorem decodeLfnName_of_match {e : FatEntry} {pending : List LfnEntry} (hne : pending ≠ [])
    (h : ∀ lfn ∈ pending, lfn.checksum = lfnChecksum e) :
    decodeLfnName e pending =
      some (collectLfnCharacters 256 []
        (pending.reverse.flatMap fun lfn => lfn.characters.toList)) := by
  unfold decodeLfnName
  rw [if_neg hne, if_neg]
  rw [Bool.not_eq_true, List.any_eq_false]
  intro lfn hlfn
  simp [h lfn hlfn]

section NewEntry

variable {name : List UInt8} {e : FatEntry} {lfns : List LfnEntry}

/-- The name that `scan_directory` reads for a new entry, for the pending long name `pending`
in front of its slots. -/
theorem entryName_new_iff (hbuilt : BuiltEntry name e lfns) {locations : List EntryLocation}
    (hlen : locations.length = lfns.length) {pending : PendingLfn} (hp : pending.length ≤ 20) :
    entryName e ((lfns.reverse.zip locations).foldl
        (fun p x => PendingLfn.push p x.1 x.2) pending) = name ↔ ReadBack name e pending := by
  unfold entryName ReadBack
  cases hbuilt with
  | short hvalid hname hext hcase =>
    rw [List.reverse_nil, List.zip_nil_left, List.foldl_nil, if_pos hvalid]
    by_cases hstray : pending ≠ [] ∧ Belongs e pending
    · have hchecks : ∀ lfn ∈ pending.map Prod.fst, lfn.checksum = lfnChecksum e := by
        intro lfn hlfn
        obtain ⟨p, hpmem, rfl⟩ := List.mem_map.mp hlfn
        exact hstray.2 p hpmem
      rw [if_pos hstray, decodeLfnName_of_match (mt List.map_eq_nil_iff.mp hstray.1) hchecks,
        Option.getD_some, ← List.map_reverse, List.flatMap_map]
      rfl
    · rw [if_neg hstray, decodeLfnName_of_not_belongs hstray]
      exact decodeShortName_encode_iff hvalid hname hext hcase
  | long hvalid hunique hname hext hcase hlfns =>
    obtain ⟨heq, hcount, hmax⟩ := createLfnEntries_eq hlfns
    have hlfnsLen : lfns.length = (name.length + 12) / 13 := by
      rw [heq, List.length_map, List.length_range]
    have hzip : (lfns.reverse.zip locations).length = lfns.length := by
      rw [List.length_zip, List.length_reverse, hlen, Nat.min_self]
    have hfst : (lfns.reverse.zip locations).map Prod.fst = lfns.reverse :=
      List.map_fst_zip (by rw [List.length_reverse, hlen])
    have hchecks : ∀ lfn ∈ lfns.reverse, lfn.checksum = lfnChecksum e := by
      intro lfn hlfn
      exact (createLfnEntries_isLfnSlot hlfns (List.mem_reverse.mp hlfn)).2
    have halias := decodeShortName_alias_ne hvalid hunique hname hext hcase
    have hinvalid : ¬ isValidSfnName name = true := by
      rw [hvalid]
      exact Bool.false_ne_true
    rw [foldl_push _ _ hp (by omega), if_neg hinvalid, hzip, hlfnsLen]
    by_cases hroom : pending.length + (name.length + 12) / 13 ≤ 20
    · rw [if_pos hroom]
      by_cases hbelongs : Belongs e pending
      · -- strays and new slots are decoded as one name, the new slots first
        have hall : ∀ lfn ∈ (pending ++ lfns.reverse.zip locations).map Prod.fst,
            lfn.checksum = lfnChecksum e := by
          intro lfn hlfn
          rw [List.map_append, hfst, List.mem_append] at hlfn
          rcases hlfn with hlfn | hlfn
          · obtain ⟨p, hpmem, rfl⟩ := List.mem_map.mp hlfn
            exact hbelongs p hpmem
          · exact hchecks lfn hlfn
        have hnonempty : (pending ++ lfns.reverse.zip locations).map Prod.fst ≠ [] := by
          rw [List.map_append, hfst]
          apply List.ne_nil_of_length_pos
          rw [List.length_append, List.length_reverse]
          omega
        have hcharacters : (((pending ++ lfns.reverse.zip locations).map Prod.fst).reverse.flatMap
              fun lfn => lfn.characters.toList) =
            (lfns.flatMap fun lfn => lfn.characters.toList) ++ strayCharacters pending := by
          rw [List.map_append, hfst, List.reverse_append, List.reverse_reverse,
            List.flatMap_append, ← List.map_reverse, List.flatMap_map]
          rfl
        rw [decodeLfnName_of_match hnonempty hall, Option.getD_some, hcharacters,
          collectLfnCharacters_encode_iff hlfns]
        constructor
        · rintro ⟨hlong, hadds⟩
          exact ⟨hlong, hroom, hbelongs, hadds⟩
        · rintro ⟨hlong, -, -, hadds⟩
          exact ⟨hlong, hadds⟩
      · -- the stray slots stay in front, and their checksum rejects the long name
        rw [decodeLfnName_of_not_belongs fun h => hbelongs fun p hpmem =>
          h.2 p (List.mem_append_left _ hpmem)]
        exact iff_of_false halias fun h => hbelongs h.2.2.1
    · rw [if_neg hroom, List.map_drop, hfst]
      refine iff_of_false ?_ fun h => hroom h.2.1
      by_cases hnil : lfns.reverse.drop (21 - pending.length) = []
      · rw [hnil]
        exact halias
      · -- the first of the new slots were dropped, and with them the end of the name
        rw [decodeLfnName_of_match hnil fun lfn hlfn => hchecks lfn (List.mem_of_mem_drop hlfn),
          Option.getD_some]
        intro h
        have hle := collectLfnCharacters_length_le 256 []
          ((lfns.reverse.drop (21 - pending.length)).reverse.flatMap
            fun lfn => lfn.characters.toList)
        rw [h, characters_length, List.length_reverse, List.length_drop, List.length_reverse,
          List.length_nil] at hle
        omega

variable {locations : List EntryLocation} {location : EntryLocation}
  {pre post : List (EntryLocation × FatEntry)} {pending : PendingLfn}

/-- The lookup of a new name finds its entry exactly when the name that is read for the entry
is that name. -/
theorem find_new_iff_entryName (hbuilt : BuiltEntry name e lfns)
    (hattr : e.attributes = ATTR_ARCHIVE) (hlen : locations.length = lfns.length)
    (hpre : scanSlots (findCallback name) pre [] none = .more pending none)
    (hpost : ∀ x ∈ post, x.1 ≠ location) :
    (∃ ref, findSlots name (pre ++ newSlots locations location e lfns ++ post) = some ref ∧
        ref.location = location) ↔
      entryName e ((lfns.reverse.zip locations).foldl
        (fun p x => PendingLfn.push p x.1 x.2) pending) = name := by
  have hfirst := hbuilt.firstByte.ne
  have hlfn : ∀ x ∈ locations.zip (lfns.reverse.map fun lfn => FatEntry.ofBytes lfn.byte),
      IsLfnSlot x.2 := by
    intro x hx
    obtain ⟨lfn, hmem, heq⟩ := List.mem_map.mp (List.of_mem_zip hx).2
    rw [← heq]
    cases hbuilt with
    | short _ _ _ _ => cases hmem
    | long _ _ _ _ _ hlfns =>
      exact (createLfnEntries_isLfnSlot hlfns (List.mem_reverse.mp hmem)).1
  have hfold : (locations.zip (lfns.reverse.map fun lfn => FatEntry.ofBytes lfn.byte)).foldl
      (fun p x => PendingLfn.push p (.ofEntry x.2) x.1) pending =
      (lfns.reverse.zip locations).foldl (fun p x => PendingLfn.push p x.1 x.2) pending := by
    rw [← newSlots_pending, List.foldl_map]
  have hnotLfn : ¬ e.attributes = ATTR_LONG_FILE_NAME := by
    rw [hattr]
    decide
  have hnotVolume : ¬ e.isVolumeLabel = true := by
    unfold FatEntry.isVolumeLabel
    rw [hattr]
    decide
  unfold findSlots newSlots
  rw [List.append_assoc, scanSlots_append, hpre]
  simp only
  rw [List.append_assoc, scanSlots_append, scanSlots_lfn pending none hlfn, hfold]
  simp only
  rw [List.singleton_append, scanSlots_cons, if_neg hfirst.1, if_neg hfirst.2.1, if_neg hnotLfn,
    if_neg hnotVolume]
  generalize (lfns.reverse.zip locations).foldl (fun p x => PendingLfn.push p x.1 x.2) pending = p
  unfold findCallback
  by_cases hname : name = entryName e p
  · rw [if_pos (show name = (entryRef location e p).name from hname)]
    exact iff_of_true ⟨_, rfl, rfl⟩ hname.symm
  · rw [if_neg (show ¬ name = (entryRef location e p).name from hname)]
    refine iff_of_false ?_ (Ne.symm hname)
    -- what the lookup finds behind the new slots lies elsewhere
    rintro ⟨ref, hfound, hloc⟩
    obtain ⟨x, hx, hxloc⟩ := find_location hfound
    exact hpost x hx (hxloc.trans hloc)

/-- The entry that `write_file` completes is still the entry of its name. -/
theorem BuiltEntry.finished (h : BuiltEntry name e lfns) (newCluster size : Nat) :
    BuiltEntry name
      (e.finished newCluster size (if lfns = [] then encodeCaseInfo name else 0)) lfns := by
  cases h with
  | short hvalid hname hext hcase => exact .short hvalid hname hext rfl
  | long hvalid hunique hname hext hcase hlfns =>
    obtain ⟨heq, hcount, -⟩ := createLfnEntries_eq hlfns
    have hne : lfns ≠ [] := by
      rw [heq]
      simp
      omega
    exact .long hvalid hunique hname hext (if_neg hne) hlfns

end NewEntry

/-! ### The round trip -/

/-- A freshly formatted volume: one sector for each cluster, two FATs, and an empty root
directory in cluster 2. -/
def blankMount : MountState where
  mounted := true
  writable := true
  fsInfoValid := false
  partitionStartLba := 0
  bytesPerSector := 512
  sectorsPerCluster := 1
  fatCount := 2
  reservedSectorCount := 32
  sectorsPerFat := 520
  firstDataSector := 1072
  logicalRootCluster := 2
  fsInfoSector := 0
  totalClusters := 65525

/-- The device with that volume: the root's entry in both FATs, and zeros. -/
def blankWorld : World where
  blockCount := 100000
  disk := leStore (leStore (fun _ => 0) (32 * 512 + 8) 4 0x0FFFFFFF) (552 * 512 + 8) 4 0x0FFFFFFF
  cache := ⟨false, 0, 0, fun _ => 0⟩
  free := ⟨FAT32_FSINFO_UNKNOWN, FAT32_FSINFO_UNKNOWN⟩

/-- `readme.txt`. -/
def readmeName : List UInt8 :=
  ['r', 'e', 'a', 'd', 'm', 'e', '.', 't', 'x', 't'].map Char.toUInt8

/-- The entry of `readme.txt`. -/
def readmeEntry : FatEntry :=
  { encodeSfn { FatEntry.zero with attributes := ATTR_ARCHIVE } readmeName with
    caseInfo := encodeCaseInfo readmeName }

/-- A stray slot with the checksum of `readme.txt` hides it, one with another checksum does
not. -/
example :
    ¬ ReadBack readmeName readmeEntry
      [(lfnEntry ['o'.toUInt8] (lfnChecksum readmeEntry) 1 0, ⟨1072, 0⟩)] ∧
    ReadBack readmeName readmeEntry
      [(lfnEntry ['o'.toUInt8] (lfnChecksum readmeEntry + 1) 1 0, ⟨1072, 0⟩)] := by
  decide

/-- A stray slot of the name `o`, whose entry is gone. -/
def straySlot : LfnEntry := lfnEntry ['o'.toUInt8] 7 1 0

/-- `Aa`, an 8.3 name with letters of both cases. -/
def mixedName : List UInt8 := ['A', 'a'].map Char.toUInt8

end VKernel.Proofs.Fs

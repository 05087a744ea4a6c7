import VKernel.Proofs.Fs.Fat32.Listings
import VKernel.Proofs.Fs.Fat32.RangeReads

/-!
# `VKernel.Proofs.Fs.Fat32.NewFiles`: the directory of a new file

Writing the slots of a new entry replaces the slots at their locations, and no others
(`wp_writeLfnEntries`). `createFile_slots` puts the steps of `write_file` together: the directory
has grown by cleared clusters, and has the slots of the new entry in the place that the search has
found. `create_adds_file_iff` says what `list_directory` shows then.
-/

set_option autoImplicit false

namespace VKernel.Proofs.Fs

open VKernel.Lib VKernel.Fs VKernel.Fs.Fat32

variable {g : MountState} {w : World}

/-! ### Reading -/

/-- A program that only reads keeps the volume. -/
theorem good_of_reads {α : Type} {p : Fat α} (hp : p.Asks IsRead) (hw : Good g w) {a : α}
    {w' : World} (hrun : p.run (deviceHandler g) w = some (a, w')) :
    Good g w' ∧ viewOf g w' = viewOf g w := by
  induction p generalizing w with
  | done b =>
    cases hrun
    exact ⟨hw, rfl⟩
  | diverge => cases hrun
  | ask r k ih =>
    have hstep : Good g (deviceHandler g r w).2 ∧ (deviceHandler g r w).2.disk = w.disk := by
      cases r with
      | readBlocks lba count => exact ⟨hw, rfl⟩
      | cachedFatSector s =>
        show Good g (w.cachedFatSector g s).2 ∧ (w.cachedFatSector g s).2.disk = w.disk
        by_cases hs : s < g.sectorsPerFat
        · obtain ⟨sector, w₁, hcached, hgood, hdisk, -⟩ := cachedFatSector_spec hw hs
          rw [hcached]
          exact ⟨hgood, hdisk⟩
        · unfold World.cachedFatSector
          rw [if_pos (Nat.le_of_not_lt hs)]
          exact ⟨hw, rfl⟩
      | writeBlocks _ _ _ _ => cases hp.1
      | refreshFatCache _ _ => cases hp.1
      | freeInfo => cases hp.1
      | setFreeInfo _ => cases hp.1
    obtain ⟨hgood, hview⟩ := ih _ (hp.2 _) hstep.1 hrun
    exact ⟨hgood, hview.trans (viewOf_congr hstep.2)⟩

/-- The cache of a sound geometry that is fresh is coherent. -/
theorem good_of_fresh (hmount : ValidMount g w.blockCount) (hfresh : Fresh g w) : Good g w := by
  refine ⟨hmount, fun hvalid => ?_⟩
  obtain ⟨-, hcount, hread⟩ := hfresh hvalid
  have hfat := hmount.fat_le
  have hfits := hmount.fits
  have hwide := hmount.wide
  unfold readCacheLine at hread
  rw [← hcount] at hread
  unfold FAT_CACHE_SECTOR_COUNT at hcount
  have hrange : w.inRange
    ((g.partitionStartLba + g.reservedSectorCount + w.cache.firstSector) % U64)
      w.cache.sectorCount := by
    by_contra hrange
    unfold World.readBlocks at hread
    rw [if_neg hrange] at hread
    cases hread
  have hpos := hrange.1
  rw [Nat.mod_eq_of_lt (by omega), readBlocks_eq hpos (by omega)] at hread
  refine ⟨by omega, fun i hi => ?_⟩
  have hdata := congrFun (Option.some.inj hread) i
  rw [if_pos hi] at hdata
  exact hdata.symm

theorem asks_sfnExists (n d : Nat) (shortName : List UInt8) :
    (sfnExists g n d shortName).Asks IsRead :=
  .bind (asks_scanDirectory n d _ false) fun _ => trivial

theorem asks_searchAlias (n d : Nat) (base extension : List UInt8) (tries unique : Nat) :
    (searchAlias g n d base extension tries unique).Asks IsRead := by
  induction tries generalizing unique with
  | zero => exact trivial
  | succ tries ih =>
    unfold searchAlias
    refine .bind (asks_sfnExists n d _) fun taken => ?_
    cases taken with
    | false => exact trivial
    | true => exact ih _

theorem asks_buildFileEntry (n d : Nat) (name : List UInt8) :
    (buildFileEntry g n d name).Asks IsRead := by
  unfold buildFileEntry generateUniqueSfn
  dsimp only
  split
  · exact trivial
  · refine .bind (asks_searchAlias n d _ _ _ _) fun found => ?_
    cases found with
    | none => exact trivial
    | some shortName => exact trivial

theorem asks_resolveParentDirectory (n : Nat) (path : List UInt8) :
    (resolveParentDirectory g n path).Asks IsRead := by
  unfold resolveParentDirectory
  dsimp only
  generalize (cleanPath path).take (leafStart (cleanPath path) - 1) = front
  split
  · exact trivial
  split
  · exact trivial
  split
  · exact trivial
  · refine .bind (asks_resolvePath n front) fun found => ?_
    cases found with
    | none => exact trivial
    | some parent =>
      dsimp only
      split
      · exact trivial
      · exact trivial

theorem asks_resolveDirectoryCluster (n : Nat) (path : List UInt8) :
    (resolveDirectoryCluster g n path).Asks IsRead := by
  unfold resolveDirectoryCluster
  dsimp only
  split
  · exact trivial
  · refine .bind (asks_resolvePath n _) fun found => ?_
    cases found with
    | none => exact trivial
    | some entry =>
      dsimp only
      split
      · exact trivial
      · exact trivial

/-! ### Writing slots -/

section Writing

variable {cs : List Nat}

/-- No two slots of a directory have the same location. -/
theorem nodup_locations (hw : Good g w) (v : View) (hnodup : cs.Nodup)
    (hin : ∀ c ∈ cs, InVolume g c) : ((dirSlots g v cs).map Prod.fst).Nodup := by
  have hlocations : (dirSlots g v cs).map Prod.fst = cs.flatMap fun c =>
      (List.range g.sectorsPerCluster).flatMap fun i =>
        (List.range 16).map fun j => slotLocation g c i j := by
    unfold dirSlots
    rw [List.map_flatMap]
    apply List.flatMap_congr
    intro c _
    rw [clusterSlots_eq hw, List.map_flatMap]
    apply List.flatMap_congr
    intro i _
    rw [List.map_map]
    rfl
  rw [hlocations, List.nodup_flatMap]
  refine ⟨fun c hc => ?_, hnodup.imp_of_mem fun {c c'} hc hc' hne => ?_⟩
  · rw [List.nodup_flatMap]
    refine ⟨fun i hi => ?_, List.nodup_range.imp_of_mem fun {i i'} hi hi' hne => ?_⟩
    · rw [List.nodup_map_iff_inj_on List.nodup_range]
      intro j _ j' _ heq
      exact (slotLocation_inj hw (hin c hc) (hin c hc) (List.mem_range.mp hi)
        (List.mem_range.mp hi) heq).2.2
    · intro l hl hl'
      obtain ⟨j, -, rfl⟩ := List.mem_map.mp hl
      obtain ⟨j', -, heq⟩ := List.mem_map.mp hl'
      exact hne (slotLocation_inj hw (hin c hc) (hin c hc) (List.mem_range.mp hi')
        (List.mem_range.mp hi) heq).2.1.symm
  · intro l hl hl'
    obtain ⟨i, hi, hl⟩ := List.mem_flatMap.mp hl
    obtain ⟨i', hi', hl'⟩ := List.mem_flatMap.mp hl'
    obtain ⟨j, -, rfl⟩ := List.mem_map.mp hl
    obtain ⟨j', -, heq⟩ := List.mem_map.mp hl'
    exact hne (slotLocation_inj hw (hin c' hc') (hin c hc) (List.mem_range.mp hi')
      (List.mem_range.mp hi) heq).1.symm

/-- A slot that is overwritten as a whole. -/
theorem fatEntryOverwritten_all (data : Buffer) (e : FatEntry) :
    FatEntryOverwritten 32 data e = .ofBytes data :=
  ofBytes_congr fun _ hi => if_pos hi

/-- Changing the slot at a location leaves the others. -/
theorem modifySlot_split {pre post : List (EntryLocation × FatEntry)} {s : EntryLocation × FatEntry}
    (hnodup : ((pre ++ s :: post).map Prod.fst).Nodup) (f : FatEntry → FatEntry) :
    modifySlot s.1 f (pre ++ s :: post) = pre ++ (s.1, f s.2) :: post := by
  rw [List.map_append, List.map_cons, List.nodup_append] at hnodup
  obtain ⟨-, hpost, hdisjoint⟩ := hnodup
  have hkeep : ∀ xs : List (EntryLocation × FatEntry), (∀ x ∈ xs, x.1 ≠ s.1) →
      modifySlot s.1 f xs = xs := by
    intro xs hxs
    unfold modifySlot
    conv_rhs => rw [← List.map_id xs]
    exact List.map_congr_left fun x hx => if_neg (hxs x hx)
  have happend : modifySlot s.1 f (pre ++ s :: post) =
      modifySlot s.1 f pre ++ (s.1, f s.2) :: modifySlot s.1 f post := by
    unfold modifySlot
    rw [List.map_append, List.map_cons, if_pos rfl]
  rw [happend, hkeep pre, hkeep post]
  · intro x hx heq
    exact (List.nodup_cons.mp hpost).1 (heq ▸ List.mem_map_of_mem hx)
  · intro x hx
    exact hdisjoint x.1 (List.mem_map_of_mem hx) s.1 List.mem_cons_self

/-- `write_entry_bytes` at the location of a slot of a directory. -/
theorem wp_writeSlot (hw : Good g w) (hnodup : cs.Nodup) (hin : ∀ c ∈ cs, InVolume g c)
    {pre post : List (EntryLocation × FatEntry)} {s : EntryLocation × FatEntry}
    (hslots : dirSlots g (viewOf g w) cs = pre ++ s :: post) {data : Buffer}
    {Q : Bool → World → Prop}
    (hQ : ∀ w', Good g w' → (viewOf g w').fat = (viewOf g w).fat →
      dirSlots g (viewOf g w') cs = pre ++ (s.1, .ofBytes data) :: post → Q true w') :
    (writeEntryBytes g s.1 data).wp (deviceHandler g) Q w := by
  have hmem : s ∈ dirSlots g (viewOf g w) cs := by
    rw [hslots]
    exact List.mem_append_right _ List.mem_cons_self
  obtain ⟨c, hc, hs⟩ := List.mem_flatMap.mp hmem
  obtain ⟨i, hi, j, hj, heq⟩ := (mem_clusterSlots hw).mp hs
  have hlocation : s.1 = slotLocation g c i j := by rw [heq]
  have hlocations := nodup_locations hw (viewOf g w) hnodup hin
  rw [hslots] at hlocations
  rw [hlocation]
  apply wp_writeEntryBytes hw (hin c hc) hi hj
  intro w' hw' hview
  refine hQ w' hw' (by rw [hview]; rfl) ?_
  rw [hview, dirSlots_setBytes hw (hin c hc) hin hi hj (Nat.le_refl _), hslots, ← hlocation,
    modifySlot_split hlocations, fatEntryOverwritten_all]

/-- The last loop of `write_file`. -/
theorem wp_writeLfnEntries (entries : List (EntryLocation × LfnEntry)) (hw : Good g w)
    (hnodup : cs.Nodup) (hin : ∀ c ∈ cs, InVolume g c)
    {pre olds post : List (EntryLocation × FatEntry)}
    (holds : olds.map Prod.fst = entries.map Prod.fst)
    (hslots : dirSlots g (viewOf g w) cs = pre ++ olds ++ post) {Q : Bool → World → Prop}
    (hQ : ∀ w', Good g w' → (viewOf g w').fat = (viewOf g w).fat →
      dirSlots g (viewOf g w') cs =
        pre ++ entries.map (fun x => (x.1, FatEntry.ofBytes x.2.byte)) ++ post → Q true w') :
    (writeLfnEntries g entries).wp (deviceHandler g) Q w := by
  induction entries generalizing w pre olds with
  | nil =>
    cases List.map_eq_nil_iff.mp holds
    exact hQ w hw rfl hslots
  | cons entry entries ih =>
    obtain ⟨location, lfn⟩ := entry
    obtain ⟨s, olds, rfl, hlocation, holds⟩ := List.map_eq_cons_iff.mp holds
    rw [List.append_assoc, List.cons_append] at hslots
    unfold writeLfnEntries
    rw [Program.wp_bind, ← show s.1 = location from hlocation]
    apply wp_writeSlot hw hnodup hin hslots
    intro w₁ hw₁ hfat₁ hslots₁
    have hslots₁' : dirSlots g (viewOf g w₁) cs =
        pre ++ [(s.1, .ofBytes lfn.byte)] ++ olds ++ post := by
      rw [hslots₁]
      simp
    apply ih hw₁ holds hslots₁'
    intro w₂ hw₂ hfat₂ hslots₂
    refine hQ w₂ hw₂ (hfat₂.trans hfat₁) ?_
    rw [hslots₂]
    simp [show s.1 = location from hlocation]

end Writing

/-! ### Creating a file -/

section Creating

variable {cs : List Nat} {n d : Nat} {leaf data : List UInt8} {w' : World}

/-- The result of a run satisfies the postcondition. -/
theorem wp_of_run {α : Type} {p : Fat α} {Q : α → World → Prop} {a : α}
    (hp : p.wp (deviceHandler g) Q w) (hrun : p.run (deviceHandler g) w = some (a, w')) :
    Q a w' := by
  obtain ⟨b, w₁, hrun₁, hQ⟩ := Program.wp_iff_run.mp hp
  cases hrun.symm.trans hrun₁
  exact hQ

/-- Clusters in use are not those that were free. -/
theorem notMem_of_chain {v : View} {ds : List Nat} (hchain : Chain v.link d cs)
    (hfree : ∀ x ∈ ds, v.fat x = 0) {c : Nat} (hc : c ∈ cs) : c ∉ ds := fun hmem =>
  hchain.ne_free hc (linkOf_free.mpr (hfree c hmem))

/-- `write_file_data` leaves a directory alone. -/
theorem wp_writeFileData_directory (hw : Good g w) (hrounds : g.totalClusters ≤ n)
    (hchain : Chain (viewOf g w).link d cs) {Q : Option Nat → World → Prop}
    (hnone : ∀ w₁, Q none w₁)
    (hsome : ∀ head w₁, Good g w₁ → Chain (viewOf g w₁).link d cs →
      dirSlots g (viewOf g w₁) cs = dirSlots g (viewOf g w) cs → Q (some head) w₁) :
    (writeFileData g n data).wp (deviceHandler g) Q w := by
  apply wp_writeFileData hrounds hw
  · exact fun _ => hsome 0 w hw hchain rfl
  · exact fun _ w₁ _ _ => hnone w₁
  · intro head ds w₁ hw₁ hstored
    have hnot : ∀ c ∈ cs, c ∉ ds := fun c hc =>
      notMem_of_chain hchain (fun x hx => (hstored.only.free x hx).2) hc
    apply hsome head w₁ hw₁
    · exact hchain.congr fun c hc => congrArg linkOf (hstored.only.fat c (hnot c hc))
    · exact dirSlots_congr fun c hc => hstored.only.byte c (hnot c hc)

/-- The slots of a directory that has grown: those that it had, and end marks. -/
theorem dirSlots_grown {v : View} {ds : List Nat} (hw : Good g w) (hchain : Chain v.link d cs)
    (h : Grown g v (viewOf g w) cs ds) :
    ∃ marks, (∀ s ∈ marks, s.2.firstByte = DIR_ENTRY_END) ∧
      dirSlots g (viewOf g w) (cs ++ ds) = dirSlots g v cs ++ marks := by
  refine ⟨dirSlots g (viewOf g w) ds, fun s hs => ?_, ?_⟩
  · obtain ⟨c, hc, hs⟩ := List.mem_flatMap.mp hs
    exact clusterSlots_zero hw (h.zero c hc) s hs
  · rw [dirSlots_append]
    congr 1
    refine dirSlots_congr fun c hc => h.byte c ?_
    exact notMem_of_chain hchain (fun x hx => (h.free x hx).2) hc

/-- The slots of a new entry in their place. -/
structure HasNewEntry (g : MountState) (w : World) (d : Nat) (leaf : List UInt8) (size : Nat)
    (pre post : List (EntryLocation × FatEntry)) (cs : List Nat) (e : FatEntry)
    (lfns : List LfnEntry) (locations : List EntryLocation) (location : EntryLocation) : Prop where
  good : Good g w
  chain : Chain (viewOf g w).link d cs
  inside : ∀ c ∈ cs, InVolume g c
  built : BuiltEntry leaf e lfns
  attributes : e.attributes = ATTR_ARCHIVE
  size : e.fileSize.toNat = size % 2 ^ 32
  length : locations.length = lfns.length
  slots : dirSlots g (viewOf g w) cs = pre ++ newSlots locations location e lfns ++ post

/-- The writes at the end of `write_file`: the entry into the last of the slots `mid`, and the
parts of the long name into the others. -/
theorem wp_writeNewSlots (hw : Good g w) (hnodup : cs.Nodup) (hin : ∀ c ∈ cs, InVolume g c)
    {e : FatEntry} {lfns : List LfnEntry} {pre mid post : List (EntryLocation × FatEntry)}
    (hslots : dirSlots g (viewOf g w) cs = pre ++ mid ++ post) (hlen : mid.length = lfns.length + 1)
    {Q : Bool → World → Prop}
    (hQ : ∀ w₁ locations location, Good g w₁ → (viewOf g w₁).fat = (viewOf g w).fat →
      locations.length = lfns.length →
      dirSlots g (viewOf g w₁) cs = pre ++ newSlots locations location e lfns ++ post →
      Q true w₁) :
    ((writeEntryBytes g ((mid.map Prod.fst).getD lfns.length ⟨0, 0⟩) e.byte).bind fun written =>
      if !written then Pure.pure false
      else writeLfnEntries g ((mid.map Prod.fst).zip lfns.reverse)).wp (deviceHandler g) Q w := by
  obtain ⟨olds, s, rfl⟩ : ∃ olds s, mid = olds ++ [s] := by
    rcases List.eq_nil_or_concat mid with rfl | ⟨olds, s, rfl⟩
    · simp at hlen
    · exact ⟨olds, s, List.concat_eq_append ..⟩
  have holds : olds.length = lfns.length := by simpa using hlen
  have hlast : ((olds ++ [s]).map Prod.fst).getD lfns.length ⟨0, 0⟩ = s.1 := by
    rw [List.map_append, List.getD_append_right _ _ _ _ (by rw [List.length_map]; omega),
      List.length_map, holds, Nat.sub_self]
    rfl
  have hzip : ((olds ++ [s]).map Prod.fst).zip lfns.reverse =
      (olds.map Prod.fst).zip lfns.reverse := by
    rw [List.map_append, ← List.append_nil lfns.reverse, List.zip_append (by simpa using holds)]
    simp
  have hsplit : dirSlots g (viewOf g w) cs = (pre ++ olds) ++ s :: post := by
    rw [hslots]
    simp
  rw [hlast, hzip]
  show Program.wp _ (writeEntryBytes g s.1 e.byte >>= _) _ w
  rw [Program.wp_bind]
  apply wp_writeSlot hw hnodup hin hsplit
  intro w₁ hw₁ hfat₁ hslots₁
  show (writeLfnEntries g ((olds.map Prod.fst).zip lfns.reverse)).wp _ Q w₁
  rw [ofBytes_byte] at hslots₁
  apply wp_writeLfnEntries _ hw₁ hnodup hin ?_ hslots₁
  · intro w₂ hw₂ hfat₂ hslots₂
    refine hQ w₂ (olds.map Prod.fst) s.1 hw₂ (hfat₂.trans hfat₁) (by simpa using holds) ?_
    rw [hslots₂]
    unfold newSlots
    rw [List.zip_map_right]
    simp [Prod.map]
  · exact (List.map_fst_zip (by simp [holds])).symm

/-- What `write_file` has done when it has created a file. -/
theorem createFile_slots (hw : Good g w) (hrounds : g.totalClusters ≤ n)
    (hchain : Chain (viewOf g w).link d cs) (hin : ∀ c ∈ cs, InVolume g c)
    (hrun : (createFile g n d leaf data).run (deviceHandler g) w = some (true, w')) :
    ∃ marks pre mid post ds e lfns locations location,
      (∀ s ∈ marks, s.2.firstByte = DIR_ENTRY_END) ∧
      dirSlots g (viewOf g w) cs ++ marks = pre ++ mid ++ post ∧ mid ≠ [] ∧
      Placed (slotsNeeded leaf) (dirSlots g (viewOf g w) cs ++ marks) pre mid post ∧
      HasNewEntry g w' d leaf data.length pre post (cs ++ ds) e lfns locations location := by
  unfold createFile at hrun
  obtain ⟨entry, w₁, hbuild, hrun⟩ := Program.run_bind_eq_some hrun
  obtain ⟨hw₁, hview₁⟩ := good_of_reads (asks_buildFileEntry n d leaf) hw hbuild
  match entry with
  | none => cases hrun
  | some (e, lfns) =>
    obtain ⟨hbuilt, hattr, -⟩ := buildFileEntry_cases hbuild
    obtain ⟨found, w₂, halloc, hrun⟩ := Program.run_bind_eq_some hrun
    rw [← hview₁] at hchain
    have hslots := wp_of_run (Q := fun found w₂ => ∀ locations, found = some locations →
        Good g w₂ ∧ ∃ ds, Grown g (viewOf g w₁) (viewOf g w₂) cs ds ∧
          searchSlots (lfns.length + 1) (dirSlots g (viewOf g w₂) (cs ++ ds)) [] false =
            .found locations)
      (wp_allocateDirectorySlots hrounds hw₁ hchain hin (fun _ _ _ _ _ h => by cases h)
        fun ds locations w₂ hw₂ hgrown hfound _ h => by
          cases h
          exact ⟨hw₂, ds, hgrown, hfound⟩) halloc
    match found with
    | none => cases hrun
    | some locations =>
      obtain ⟨hw₂, ds, hgrown, hfound⟩ := hslots locations rfl
      have hchain₂ := hgrown.chain hchain
      have hin₂ : ∀ c ∈ cs ++ ds, InVolume g c := by
        intro c hc
        rcases List.mem_append.mp hc with hc | hc
        · exact hin c hc
        · exact (hgrown.free c hc).1
      obtain ⟨marks, hmarks, hdir⟩ := dirSlots_grown hw₂ hchain hgrown
      rw [hbuilt.slots, hdir, hview₁] at hfound
      obtain ⟨pre, mid, post, hsplit, hlen, rfl, hplaced⟩ :=
        searchSlots_placed (by rw [← hbuilt.slots]; omega) hfound
      obtain ⟨stored, w₃, hstore, hrun⟩ := Program.run_bind_eq_some hrun
      have hkept := wp_of_run (Q := fun stored w₃ => ∀ head, stored = some head →
          Good g w₃ ∧ Chain (viewOf g w₃).link d (cs ++ ds) ∧
            dirSlots g (viewOf g w₃) (cs ++ ds) = dirSlots g (viewOf g w₂) (cs ++ ds))
        (wp_writeFileData_directory hw₂ hrounds hchain₂ (fun _ _ h => by cases h)
          fun _ w₃ hw₃ hchain₃ hdir₃ _ _ => ⟨hw₃, hchain₃, hdir₃⟩) hstore
      match stored with
      | none => cases hrun
      | some newCluster =>
        obtain ⟨hw₃, hchain₃, hdir₃⟩ := hkept newCluster rfl
        have hwrite := wp_of_run (Q := fun _ w' => ∃ locations location, Good g w' ∧
            (viewOf g w').fat = (viewOf g w₃).fat ∧ locations.length = lfns.length ∧
            dirSlots g (viewOf g w') (cs ++ ds) = pre ++ newSlots locations location
              (e.finished newCluster data.length
                (if lfns = [] then encodeCaseInfo leaf else 0)) lfns ++ post)
          (wp_writeNewSlots hw₃ hchain₃.nodup hin₂
            (hdir₃.trans (hdir.trans (by rw [hview₁]; exact hsplit)))
            (hlen.trans hbuilt.slots.symm)
            fun w₄ locations location hw₄ hfat hlength hslots =>
              ⟨locations, location, hw₄, hfat, hlength, hslots⟩) hrun
        obtain ⟨locations, location, hw', hfat, hlength, hslots⟩ := hwrite
        have hmid : mid ≠ [] := by
          apply List.ne_nil_of_length_pos
          rw [hlen, ← hbuilt.slots]
          exact Nat.succ_pos _
        refine ⟨marks, pre, mid, post, ds, _, lfns, locations, location, hmarks, hsplit, hmid,
          hplaced, hw', ?_, hin₂, hbuilt.finished newCluster data.length, ?_, ?_, hlength,
          hslots⟩
        · have hlink : (viewOf g w').link = (viewOf g w₃).link := by
            unfold View.link
            rw [hfat]
          rw [hlink]
          exact hchain₃
        · show (e.attributes &&& ~~~(ATTR_DIRECTORY ||| ATTR_VOLUME_ID)) ||| ATTR_ARCHIVE =
            ATTR_ARCHIVE
          rw [hattr]
          decide
        · show (UInt32.ofNat data.length).toNat = _
          exact UInt32.toNat_ofNat'

/-- `list_directory` shows what the slots of a directory show. -/
theorem shows_directory (hmounted : g.mounted = true) (hw : Good g w)
    (hrounds : g.totalClusters ≤ n) (hchain : Chain (viewOf g w).link d cs)
    (hin : ∀ c ∈ cs, InVolume g c) : Shows g w n d (shown (dirSlots g (viewOf g w) cs)) := by
  have hlen := length_le_of_nodup hchain.nodup hin
  have hscan : ∀ w₁, Good g w₁ → viewOf g w₁ = viewOf g w →
      ∃ w₂, (scanDirectory g n d (listCallback keepEntry) []).run (deviceHandler g) w₁ =
        some (some (shown (dirSlots g (viewOf g w) cs)), w₂) := by
    intro w₁ hw₁ hview₁
    have hwp : (scanDirectory g n d (listCallback keepEntry) []).wp (deviceHandler g)
        (fun r _ => r = some (shown (dirSlots g (viewOf g w) cs))) w₁ := by
      apply wp_scanDirectory hw₁ (by rw [hview₁]; exact hchain) hin (by omega)
      intro w₂ _ _
      rw [hview₁, shown_eq]
    obtain ⟨r, w₂, hrun, rfl⟩ := Program.wp_iff_run.mp hwp
    exact ⟨w₂, hrun⟩
  constructor
  · obtain ⟨w₁, hrun⟩ := hscan w hw rfl
    unfold outcome
    rw [hrun]
    rfl
  · intro path hpath
    obtain ⟨⟨r, w₁⟩, hresolve, rfl⟩ := Option.map_eq_some_iff.mp hpath
    obtain ⟨hw₁, hview₁⟩ := good_of_reads (asks_resolveDirectoryCluster n path) hw hresolve
    obtain ⟨w₂, hrun⟩ := hscan w₁ hw₁ hview₁
    unfold outcome listDirectory
    rw [if_neg (by simp [hmounted]), Program.run_bind hresolve]
    show Option.map _ (Program.run _ (scanDirectory g n d (listCallback keepEntry) []) w₁) = _
    rw [hrun]
    rfl

/-- A successful `write_file` of a new path creates the file in the directory of the path. -/
theorem writeFile_creates (hfresh : Fresh g w) (hw : Good g w) {path : List UInt8}
    (hnew : outcome g w (resolvePath g n (cleanPath path)) = some none)
    (hparent : outcome g w (resolveParentDirectory g n (cleanPath path)) = some (some (d, leaf)))
    (hrun : (writeFile g n path data).run (deviceHandler g) w = some (true, w')) :
    g.mounted = true ∧ ∃ w₁, Good g w₁ ∧ viewOf g w₁ = viewOf g w ∧
      (createFile g n d leaf data).run (deviceHandler g) w₁ = some (true, w') := by
  unfold writeFile at hrun
  dsimp only at hrun
  split at hrun
  · cases hrun
  next hopen =>
    split at hrun
    · cases hrun
    obtain ⟨existing, w₁, hresolve, hrun⟩ := Program.run_bind_eq_some hrun
    obtain ⟨hsame₁, hfresh₁⟩ :=
      (run_same (asks_resolvePath n _) hfresh hfresh (SameDisk.refl w)).2 _ _ hresolve
    obtain ⟨hw₁, hview₁⟩ := good_of_reads (asks_resolvePath n _) hw hresolve
    unfold outcome at hnew
    rw [hresolve] at hnew
    cases hnew
    obtain ⟨parent, w₂, hsplit, hrun⟩ := Program.run_bind_eq_some hrun
    obtain ⟨hw₂, hview₂⟩ := good_of_reads (asks_resolveParentDirectory n _) hw₁ hsplit
    have hagree := wp_of_run (reads_of_outcome (asks_resolveParentDirectory n _) hfresh hparent w₁
      hsame₁ hfresh₁) hsplit
    rw [hagree.1] at hrun
    exact ⟨by simpa using (show g.mounted = true ∧ g.writable = true by simpa using hopen).1,
      w₂, hw₂, hview₂.trans hview₁, hrun⟩

/-- A successful `write_file` that creates a file in a directory that is valid by the FAT rules,
under any name and at any place that the free slots of the directory give: `list_directory` shows
the old list with the file added, and nothing else, exactly when the name is none that it leaves
out, and the new slots uncover no entry behind the end mark. -/
theorem create_adds_file_iff (hmount : ValidMount g w.blockCount) (hfresh : Fresh g w)
    (hrounds : g.totalClusters ≤ n) (hdir : ValidDirectory g (viewOf g w) d cs)
    {path : List UInt8} (hnew : outcome g w (resolvePath g n (cleanPath path)) = some none)
    (hparent : outcome g w (resolveParentDirectory g n (cleanPath path)) = some (some (d, leaf)))
    (hrun : (writeFile g n path data).run (deviceHandler g) w = some (true, w')) :
    ∃ before after, Shows g w n d before ∧ Shows g w' n d after ∧
      (AddsFile (shownName leaf) (data.length % 2 ^ 32) before after ↔
        ¬ IsDotName (shownName leaf) ∧ uncovered leaf (dirSlots g (viewOf g w) cs) = []) := by
  have hw := good_of_fresh hmount hfresh
  -- The call comes down to `create_file` in the directory that it found.
  obtain ⟨hmounted, w₁, hw₁, hview₁, hcreate⟩ := writeFile_creates hfresh hw hnew hparent hrun
  have hchain := hdir.chain
  rw [← hview₁] at hchain
  -- The new slots stand where free ones stood, and the other slots are as before.
  obtain ⟨marks, pre, mid, post, ds, e, lfns, locations, location, hmarks, hsplit, hmid, hplaced,
    hentry⟩ := createFile_slots hw₁ hrounds hchain hdir.inside hcreate
  rw [hview₁] at hsplit hplaced
  have hnames : LongNamesOwned (dirSlots g (viewOf g w) cs ++ marks) := by
    unfold LongNamesOwned
    rw [inFront_append _ hmarks]
    exact hdir.longNames
  have hiff := addsFile_newSlots_iff hentry.built hentry.attributes hnames hsplit hmid hplaced
    hentry.length location
  rw [shown_append_ends hmarks, uncovered_append hmarks, hentry.size, ← hentry.slots] at hiff
  exact ⟨_, _, shows_directory hmounted hw hrounds hdir.chain hdir.inside,
    shows_directory hmounted hentry.good hrounds hentry.chain hentry.inside, hiff⟩

end Creating

/-! ### An entry behind the end mark -/

section Stale

/-- A directory that starts with the end mark has no long names. -/
theorem longNamesOwned_of_empty {slots : List (EntryLocation × FatEntry)}
    (h : inFront slots = []) : LongNamesOwned slots := by
  intro pre s post hsplit
  rw [h] at hsplit
  exact absurd hsplit.symm (by simp)

/-- The path `/X`. -/
def rootX : List UInt8 := ['/'.toUInt8, 'X'.toUInt8]

theorem validMount_blankMount : ValidMount blankMount 100000 where
  sector := rfl
  cluster := by decide
  fats := by decide
  fatArea := by decide
  covers := by decide
  data := by decide
  clusters := by decide
  fits := by decide
  wide := by with_unfolding_all decide
  fsInfo h := by cases h

theorem validDirectory_blankWorld :
    ValidDirectory blankMount (viewOf blankMount blankWorld) 2 [2] where
  chain := .last (by decide)
  inside := by decide
  longNames := longNamesOwned_of_empty (by decide)

/-- A file in the empty root of the blank volume. -/
theorem create_adds_file_blank :
    ∃ w' before after,
      (writeFile blankMount 65525 rootX []).run (deviceHandler blankMount) blankWorld =
        some (true, w') ∧
      Shows blankMount blankWorld 65525 2 before ∧ Shows blankMount w' 65525 2 after ∧
      AddsFile ['X'.toUInt8] 0 before after := by
  have hfresh : Fresh blankMount blankWorld := fun hvalid => by cases hvalid
  have hnew : outcome blankMount blankWorld (resolvePath blankMount 65525 (cleanPath rootX)) =
      some none := by with_unfolding_all decide
  have hparent : outcome blankMount blankWorld
      (resolveParentDirectory blankMount 65525 (cleanPath rootX)) =
        some (some (2, ['X'.toUInt8])) := by decide
  have hwrite : outcome blankMount blankWorld (writeFile blankMount 65525 rootX []) =
      some true := by with_unfolding_all decide
  obtain ⟨⟨_, w'⟩, hrun, rfl⟩ := Option.map_eq_some_iff.mp hwrite
  obtain ⟨before, after, hbefore, hafter, hiff⟩ := create_adds_file_iff validMount_blankMount hfresh
    (Nat.le_refl 65525) validDirectory_blankWorld hnew hparent hrun
  exact ⟨w', before, after, hrun, hbefore, hafter, hiff.mpr (by decide)⟩

/-- The blank volume with an old entry `O` in the second slot of the root. The first slot has the
end mark. -/
def staleDisk : Buffer := fun i =>
  if i = 1072 * 512 + 32 then 'O'.toUInt8
  else if 1072 * 512 + 32 < i ∧ i < 1072 * 512 + 43 then ' '.toUInt8
  else if i = 1072 * 512 + 43 then ATTR_ARCHIVE
  else blankWorld.disk i

def staleWorld : World := { blankWorld with disk := staleDisk }

/-- The root is valid and shows nothing. `write_file` of `/X` takes the first slot, and no end mark
is left in front of the old entry: the root shows `X` and `O` then. -/
theorem create_uncovers_entry :
    ValidDirectory blankMount (viewOf blankMount staleWorld) 2 [2] ∧
    ∃ w', (writeFile blankMount 65525 rootX []).run (deviceHandler blankMount) staleWorld =
        some (true, w') ∧
      outcome blankMount staleWorld (listDirectory blankMount 65525 [] keepEntry []) =
        some (some []) ∧
      outcome blankMount w' (listDirectory blankMount 65525 [] keepEntry []) =
        some (some [⟨['X'.toUInt8], false, 0, 0⟩, ⟨['O'.toUInt8], false, 0, 0⟩]) ∧
      ∀ name size, ¬ AddsFile name size []
        [⟨['X'.toUInt8], false, 0, 0⟩, ⟨['O'.toUInt8], false, 0, 0⟩] := by
  have hboth : outcome blankMount staleWorld (do
      let written ← writeFile blankMount 65525 rootX []
      let after ← listDirectory blankMount 65525 [] keepEntry []
      return (written, after)) = some (true,
        some [⟨['X'.toUInt8], false, 0, 0⟩, ⟨['O'.toUInt8], false, 0, 0⟩]) := by decide +kernel
  obtain ⟨⟨_, w₂⟩, hrun, heq⟩ := Option.map_eq_some_iff.mp hboth
  obtain ⟨written, w', hwrite, hrun⟩ := Program.run_bind_eq_some hrun
  obtain ⟨after, w₁, hlist, hrun⟩ := Program.run_bind_eq_some hrun
  cases hrun
  cases heq
  have hroot : ValidDirectory blankMount (viewOf blankMount staleWorld) 2 [2] :=
    ⟨.last (by decide), by decide, longNamesOwned_of_empty (by decide)⟩
  refine ⟨hroot, w', hwrite, by with_unfolding_all decide, ?_, ?_⟩
  · unfold outcome
    rw [hlist]
    rfl
  · rintro name size ⟨front, back, cluster, hbefore, hafter⟩
    obtain ⟨rfl, rfl⟩ := List.append_eq_nil_iff.mp hbefore.symm
    cases hafter

end Stale

end VKernel.Proofs.Fs

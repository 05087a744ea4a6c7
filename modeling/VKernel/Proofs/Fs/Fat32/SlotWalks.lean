import VKernel.Proofs.Fs.Fat32.DirectoryWalks
import VKernel.Proofs.Fs.Fat32.FreeChain

/-!
# `VKernel.Proofs.Fs.Fat32.SlotWalks`: the search for free slots on directories that end

The search of `allocate_directory_slots` follows the directory as a scan does, until it has
passed the end mark. From there on every slot counts as free, so a few more clusters are
enough, whatever their chain is (`searchSlotClusters_endZone`).
-/

set_option autoImplicit false

namespace VKernel.Proofs.Fs

open VKernel.Lib VKernel.Fs VKernel.Fs.Fat32

variable {g : MountState} {w w₁ : World} {needed : Nat}

/-! ### The slots of a cluster -/

/-- What the search of a list of slots can come to. -/
structure SlotsPassed (needed : Nat) (slots : List (EntryLocation × FatEntry))
    (run : List EntryLocation) (endZone : Bool) (run' : List EntryLocation) (endZone' : Bool) :
    Prop where
  short : run'.length < needed
  free : endZone = true → endZone' = true ∧ run'.length = run.length + slots.length
  marks : endZone' = false → ∀ slot ∈ slots, slot.2.firstByte ≠ DIR_ENTRY_END

theorem searchSlots_more {slots : List (EntryLocation × FatEntry)} {run run' : List EntryLocation}
    {endZone endZone' : Bool} (hrun : run.length < needed)
    (h : searchSlots needed slots run endZone = .more run' endZone') :
    SlotsPassed needed slots run endZone run' endZone' := by
  induction slots generalizing run endZone with
  | nil =>
    cases h
    exact ⟨hrun, fun hz => ⟨hz, rfl⟩, fun _ _ h => by cases h⟩
  | cons slot rest ih =>
    obtain ⟨location, e⟩ := slot
    rw [searchSlots] at h
    -- The rest of the slots, once this one is passed.
    have hmarks : ∀ run₁, SlotsPassed needed rest run₁ (endZone || e.firstByte == DIR_ENTRY_END)
        run' endZone' → endZone' = false →
        ∀ slot ∈ (location, e) :: rest, slot.2.firstByte ≠ DIR_ENTRY_END := by
      intro run₁ hrest hfalse slot hslot
      rcases List.mem_cons.mp hslot with rfl | hslot
      · intro hend
        have htrue := (hrest.free (by rw [show e.firstByte = DIR_ENTRY_END from hend]; simp)).1
        rw [hfalse] at htrue
        cases htrue
      · exact hrest.marks hfalse slot hslot
    split at h
    · split at h
      · cases h
      · rename_i hne
        have hrest := ih (by rw [List.length_append, List.length_singleton]; omega) h
        refine ⟨hrest.short, fun hz => ?_, hmarks _ hrest⟩
        obtain ⟨hzone, hlength⟩ := hrest.free (by rw [hz, Bool.true_or])
        refine ⟨hzone, ?_⟩
        rw [hlength, List.length_append, List.length_singleton, List.length_cons]
        omega
    · rename_i hused
      have hrest := ih (show ([] : List EntryLocation).length < needed by
        rw [List.length_nil]; omega) h
      refine ⟨hrest.short, fun hz => ?_, hmarks _ hrest⟩
      rw [hz, Bool.true_or, Bool.true_or] at hused
      exact absurd rfl hused

theorem length_sectorSlots (hbytes : g.bytesPerSector = 512) (lba : Nat) (sector : Buffer) :
    (sectorSlots g lba sector).length = 16 := by
  unfold sectorSlots entriesPerSector
  rw [List.length_map, List.length_range, hbytes]

/-- What the search of the sectors of a cluster from `spc - sectors` on can come to. -/
structure SectorsPassed (g : MountState) (w : World) (needed c sectors : Nat)
    (run : List EntryLocation) (endZone : Bool) (run' : List EntryLocation) (endZone' : Bool) :
    Prop where
  short : run'.length < needed
  free : endZone = true → endZone' = true ∧ run'.length = run.length + 16 * sectors
  passed : endZone' = false → ∀ i, g.sectorsPerCluster - sectors ≤ i → i < g.sectorsPerCluster →
    SectorPassed g w (add64 (clusterFirstLba g c) i)

theorem wp_searchSlotSectors_any (hbytes : g.bytesPerSector = 512) (w : World) (c sectors : Nat)
    (hsectors : sectors ≤ g.sectorsPerCluster) {run : List EntryLocation}
    (hrun : run.length < needed) (endZone : Bool) :
    (searchSlotSectors g needed c sectors run endZone).wp (deviceHandler g) (fun result w' =>
      w' = w ∧ ∀ run' endZone', result = some (.more run' endZone') →
        SectorsPassed g w needed c sectors run endZone run' endZone') w := by
  induction sectors generalizing run endZone with
  | zero =>
    refine ⟨rfl, fun run' endZone' h => ?_⟩
    cases h
    exact ⟨hrun, fun hz => ⟨hz, rfl⟩, fun _ i hi hi' => by omega⟩
  | succ sectors ih =>
    rw [searchSlotSectors, Program.wp_bind, wp_readSectors_iff]
    cases hread : w.readBlocks
      (add64 (clusterFirstLba g c) (g.sectorsPerCluster - (sectors + 1))) 1 with
    | none => exact ⟨rfl, fun _ _ h => by cases h⟩
    | some sector =>
      dsimp only
      split
      · exact ⟨rfl, fun _ _ h => by cases h⟩
      · rename_i run₁ endZone₁ hslots
        have hslots' := searchSlots_more hrun hslots
        refine Program.wp_mono (ih (by omega) hslots'.short endZone₁) ?_
        rintro result w' ⟨rfl, hmore⟩
        refine ⟨rfl, fun run' endZone' h => ?_⟩
        have hrest := hmore run' endZone' h
        refine ⟨hrest.short, fun hz => ?_, fun hfalse i hi hi' => ?_⟩
        · obtain ⟨hzone, hlength⟩ := hslots'.free hz
          rw [length_sectorSlots hbytes] at hlength
          have hrest' := hrest.free hzone
          exact ⟨hrest'.1, by omega⟩
        · by_cases hfirst : i = g.sectorsPerCluster - (sectors + 1)
          · subst hfirst
            refine ⟨sector, hread, hslots'.marks ?_⟩
            -- The end zone is not left again.
            cases hzone : endZone₁ with
            | false => rfl
            | true => exact absurd ((hrest.free hzone).1.symm.trans hfalse) (by decide)
          · exact hrest.passed hfalse i (by omega) hi'

/-! ### The clusters of a directory -/

section Search

variable (hbytes : g.bytesPerSector = 512) (hspc : 0 < g.sectorsPerCluster)
  (hcopies : 0 < g.fatCount) (hcounter : CounterPasses g)

include hbytes hcopies hcounter

/-- The end of a round that appends a cluster. -/
theorem appendRound_settles {w : World} (hwide : w.blockCount < U64) (c : Nat)
    (run : List EntryLocation)
    (hrest : ∀ newCluster w', w'.blockCount < U64 →
      Terminates g w' fun n => searchSlotClusters g needed n newCluster run true) :
    Terminates g w fun n => (do
      let some newCluster ← appendDirectoryCluster g (n + 1) c | return none
      if newCluster ≥ FAT32_END_OF_CHAIN then return none
      searchSlotClusters g needed n newCluster run true) := by
  have happend := Program.Settles.succ
    (appendDirectoryCluster_settles hbytes hcopies hwide hcounter c)
  obtain ⟨newCluster, w', ⟨n₀, hrun⟩, -⟩ := happend
  refine Program.Settles.bind ⟨newCluster, w', ⟨n₀, hrun⟩, ?_⟩
  have hwide' : w'.blockCount < U64 := run_blockCount (hrun n₀ (Nat.le_refl _)) ▸ hwide
  cases newCluster with
  | none => exact Program.settles_of_wp trivial
  | some newCluster =>
    dsimp only
    split
    · exact Program.settles_of_wp trivial
    · exact hrest newCluster w' hwide'

include hspc

/-- Behind the end mark, every cluster makes the run longer. By induction on the number of
slots that are still needed. -/
theorem searchSlotClusters_endZone (m : Nat) {w : World} (hwide : w.blockCount < U64) (c : Nat)
    {run : List EntryLocation} (hrun : run.length < needed) (hm : needed ≤ run.length + m) :
    Terminates g w fun n => searchSlotClusters g needed n c run true := by
  induction m generalizing w c run with
  | zero => omega
  | succ m ih =>
    apply Program.settles_succ
    simp only [searchSlotClusters]
    refine Program.Settles.bind (Program.settles_of_wp (Program.wp_mono
      (wp_searchSlotSectors_any hbytes w c g.sectorsPerCluster (Nat.le_refl _) hrun true) ?_))
    rintro result w₁ ⟨rfl, hmore⟩
    match result with
    | none => exact Program.settles_of_wp trivial
    | some (.found _) => exact Program.settles_of_wp trivial
    | some (.more run' endZone') =>
      have hpassed := hmore run' endZone' rfl
      obtain ⟨rfl, hlength⟩ := hpassed.free rfl
      refine Program.Settles.bind (Program.settles_of_wp (Program.wp_mono
        (wp_blockCount ((always_readFatValue c).wp w₁)) ?_))
      rintro next w₂ ⟨-, hcount⟩
      have hwide₂ : w₂.blockCount < U64 := hcount ▸ hwide
      cases next with
      | none => exact Program.settles_of_wp trivial
      | some next =>
        dsimp only
        by_cases hdata : isDataCluster next
        · simp only [hdata, not_true_eq_false, if_false]
          exact ih hwide₂ next hpassed.short (by omega)
        · simp only [hdata, not_false_eq_true, if_true]
          exact appendRound_settles hbytes hcopies hcounter hwide₂ c run'
            fun newCluster w' hwide' => ih hwide' newCluster hpassed.short (by omega)

/-- In front of it, the search goes on as a scan does. By induction on the walk. -/
theorem searchSlotClusters_settles {c : Nat} (hends : Ends g w c) (hwide : w.blockCount < U64)
    {w₁ : World} (hsame : SameDisk w w₁) (hfresh : Fresh g w₁) {run : List EntryLocation}
    (hrun : run.length < needed) :
    Terminates g w₁ fun n => searchSlotClusters g needed n c run false := by
  induction hends generalizing w₁ run with
  | intro c _ ih =>
    have hwide₁ : w₁.blockCount < U64 := hsame.blockCount ▸ hwide
    apply Program.settles_succ
    simp only [searchSlotClusters]
    refine Program.Settles.bind (Program.settles_of_wp (Program.wp_mono
      (wp_searchSlotSectors_any hbytes w₁ c g.sectorsPerCluster (Nat.le_refl _) hrun false) ?_))
    rintro result w₂ ⟨rfl, hmore⟩
    match result with
    | none => exact Program.settles_of_wp trivial
    | some (.found _) => exact Program.settles_of_wp trivial
    | some (.more run' endZone') =>
      have hpassed := hmore run' endZone' rfl
      refine Program.Settles.bind (Program.settles_of_wp (wp_readFatValue_fresh hfresh ?_))
      intro w₃ hsame₃ hfresh₃
      have hwide₃ : w₃.blockCount < U64 := hsame₃.blockCount ▸ hwide₁
      cases hnext : fatValueOf g w₂ c with
      | none => exact Program.settles_of_wp trivial
      | some next =>
        dsimp only
        by_cases hdata : isDataCluster next
        · simp only [hdata, not_true_eq_false, if_false]
          cases hzone : endZone' with
          | true =>
            exact searchSlotClusters_endZone hbytes hspc hcopies hcounter needed hwide₃ next
              hpassed.short (by omega)
          | false =>
            have hgoes : Goes g w₂ c next :=
              ⟨fun i hi => hpassed.passed hzone i (by omega) hi, hnext, hdata⟩
            exact ih next (hsame.symm.goes hgoes) (hsame.trans hsame₃) hfresh₃ hpassed.short
        · simp only [hdata, not_false_eq_true, if_true]
          exact appendRound_settles hbytes hcopies hcounter hwide₃ c run'
            fun newCluster w' hwide' =>
              searchSlotClusters_endZone hbytes hspc hcopies hcounter needed hwide' newCluster
                hpassed.short (by omega)

theorem allocateDirectorySlots_settles {c : Nat} (hends : ScanEnds g w c)
    (hwide : w.blockCount < U64) {w₁ : World} (hsame : SameDisk w w₁) (hfresh : Fresh g w₁)
    (needed : Nat) : Terminates g w₁ fun n => allocateDirectorySlots g n c needed := by
  unfold allocateDirectorySlots
  by_cases hbad : c < 2 ∨ needed = 0 ∨ needed > MAX_DIRECTORY_SLOTS
  · simp only [if_pos hbad]
    exact Program.settles_of_wp trivial
  simp only [if_neg hbad]
  by_cases hend : c ≥ FAT32_END_OF_CHAIN
  · simp only [if_pos hend]
    exact Program.settles_of_wp trivial
  simp only [if_neg hend]
  exact searchSlotClusters_settles hbytes hspc hcopies hcounter
    (hends ⟨by omega, by omega⟩) hwide hsame
    hfresh (show ([] : List EntryLocation).length < needed by rw [List.length_nil]; omega)

end Search

end VKernel.Proofs.Fs

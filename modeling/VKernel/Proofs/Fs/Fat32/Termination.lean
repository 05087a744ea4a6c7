import VKernel.Proofs.Fs.Fat32.SlotWalks
import VKernel.Proofs.Fs.Fat32.EndlessWalks
import VKernel.Proofs.Fs.Fat32.DataWalks

/-!
# `VKernel.Proofs.Fs.Fat32.Termination`: which calls on a volume end

The loops over a file's data and the loop of `free_cluster_chain` end on every disk. What
decides are the walks along directories: `operationsEnd_iff` says that every call ends exactly
when every directory of the volume does, provided that `max_cluster` is not the largest `u32`.
-/

set_option autoImplicit false

namespace VKernel.Proofs.Fs

open VKernel.Lib VKernel.Fs VKernel.Fs.Fat32

variable {g : MountState} {w w₁ : World}

/-! ### Mounts -/

/-- A mount comes from a boot sector that was accepted. -/
theorem always_probeVolume (writable : Bool) (startLba : Nat) :
    (probeVolume writable startLba).Always fun result => ∀ g free, result = some (g, free) →
      ∃ b valid, BootSector.Accepted b ∧ g = b.mount writable startLba valid := by
  refine .bind (Program.always_any _) fun sector _ => ?_
  cases sector with
  | none => exact fun _ _ h => by cases h
  | some sector =>
    dsimp only
    split
    · exact fun _ _ h => by cases h
    rename_i haccepted
    have hb := Decidable.not_not.mp haccepted
    split
    · intro g free h
      cases h
      exact ⟨_, false, hb, rfl⟩
    refine .bind (Program.always_any _) fun fsInfo _ => ?_
    cases fsInfo with
    | none =>
      intro g free h
      cases h
      exact ⟨_, false, hb, rfl⟩
    | some fsInfo =>
      dsimp only
      split
      · intro g free h
        cases h
        exact ⟨_, true, hb, rfl⟩
      · intro g free h
        cases h
        exact ⟨_, false, hb, rfl⟩

/-- A partition whose boot sector is accepted and names no FSInfo sector is mounted. -/
theorem run_probeVolume {sector : Buffer} {writable : Bool} {startLba : Nat}
    (hread : w.readBlocks startLba 1 = some sector)
    (haccepted : (BootSector.ofBytes sector).Accepted)
    (hinfo : (BootSector.ofBytes sector).fsInfoSector = 0) :
    (probeVolume writable startLba).run (deviceHandler g) w =
      some (some ((BootSector.ofBytes sector).mount writable startLba false,
        ⟨FAT32_FSINFO_UNKNOWN, FAT32_FSINFO_UNKNOWN⟩), w) := by
  have hstep : (readSectors startLba 1).run (deviceHandler g) w = some (some sector, w) :=
    congrArg (fun sector => some (sector, w)) hread
  unfold probeVolume
  rw [Program.run_bind hstep]
  dsimp only
  rw [if_neg (not_not_intro haccepted), if_pos hinfo]
  rfl

/-- `probe_volume` on an accepted boot sector with an FSInfo sector. -/
theorem run_probeVolume_fsInfo
    (writable : Bool) {sector fsInfo : Buffer} {startLba : Nat} {w : World}
    (hread : w.readBlocks startLba 1 = some sector)
    (haccepted : (BootSector.ofBytes sector).Accepted)
    (hsector : (BootSector.ofBytes sector).fsInfoSector ≠ 0)
    (hinfo : w.readBlocks (add64 startLba (BootSector.ofBytes sector).fsInfoSector) 1 = some fsInfo)
    (hvalid : isFsInfo fsInfo = true) :
    (probeVolume writable startLba).run (deviceHandler g) w =
      some (some ((BootSector.ofBytes sector).mount writable startLba true,
        ⟨leValue fsInfo 488 4, leValue fsInfo 492 4⟩), w) := by
  have hstep : (readSectors startLba 1).run (deviceHandler g) w = some (some sector, w) :=
    congrArg (fun sector => some (sector, w)) hread
  have hstep' : (readSectors (add64 startLba (BootSector.ofBytes sector).fsInfoSector) 1).run
      (deviceHandler g) w = some (some fsInfo, w) := congrArg (fun sector => some (sector, w)) hinfo
  unfold probeVolume
  rw [Program.run_bind hstep]
  dsimp only
  rw [if_neg (not_not_intro haccepted), if_neg hsector, Program.run_bind hstep']
  dsimp only
  rw [if_pos hvalid]
  rfl

/-- What the checks of `probe_volume` give for the loops. -/
structure Geometry (g : MountState) : Prop where
  bytes : g.bytesPerSector = 512
  sectors : 0 < g.sectorsPerCluster
  copies : 0 < g.fatCount
  mounted : g.mounted = true
  root : 2 ≤ g.logicalRootCluster

/-- A mounted volume has the bounds that `probe_volume` checks. -/
theorem geometry_of_mounted (h : Mounted g w) : Geometry g := by
  obtain ⟨blockCount, disk, writable, startLba, w₀, free, hrun, -⟩ := h.probed
  obtain ⟨b, valid, hb, rfl⟩ := (always_probeVolume writable startLba).of_run hrun g free rfl
  obtain ⟨-, hbytes, hsectors, -, -, hcopies, -, -, -, -, -, hroot⟩ := hb
  exact ⟨hbytes, Nat.pos_of_ne_zero hsectors, Nat.pos_of_ne_zero hcopies, rfl, hroot⟩

/-! ### Slots and names -/

theorem always_writeEntryBytes (location : EntryLocation) (data : Buffer) :
    (writeEntryBytes g location data).Always fun _ => True := by
  unfold writeEntryBytes
  split
  · exact trivial
  refine .bind (Program.always_any _) fun sector _ => ?_
  cases sector with
  | none => exact trivial
  | some sector => exact fun _ => trivial

theorem always_writeLfnEntries (entries : List (EntryLocation × LfnEntry)) :
    (writeLfnEntries g entries).Always fun _ => True := by
  induction entries with
  | nil => exact trivial
  | cons entry rest ih =>
    refine .bind (always_writeEntryBytes _ _) fun written _ => ?_
    cases written with
    | false => exact trivial
    | true => exact ih

theorem always_markEntryUnused (location : EntryLocation) :
    (markEntryUnused location).Always fun _ => True := by
  refine .bind (Program.always_any _) fun sector _ => ?_
  cases sector with
  | none => exact trivial
  | some sector => exact fun _ => trivial

theorem always_markEntriesUnused (locations : List EntryLocation) :
    (markEntriesUnused locations).Always fun _ => True := by
  induction locations with
  | nil => exact trivial
  | cons location rest ih =>
    refine .bind (always_markEntryUnused location) fun marked _ => ?_
    cases marked with
    | false => exact trivial
    | true => exact ih

section Names

variable {c : Nat} (hends : ScanEnds g w c)

include hends

/-- The search for an alias ends on a directory that a scan ends on. -/
theorem searchAlias_settles (base extension : List UInt8) (tries unique : Nat) {w₁ : World}
    (hsame : SameDisk w w₁) (hfresh : Fresh g w₁) :
    Program.Settles (deviceHandler g) (fun n => searchAlias g n c base extension tries unique) w₁
      fun _ w' => SameDisk w w' ∧ Fresh g w' := by
  induction tries generalizing unique w₁ with
  | zero => exact Program.settles_of_wp ⟨hsame, hfresh⟩
  | succ tries ih =>
    simp only [searchAlias]
    refine Program.Settles.bind (Program.Settles.mono
      (sfnExists_settles hends hsame hfresh (sfnAlias base extension unique)) ?_)
    rintro taken w' ⟨hsame', hfresh'⟩
    cases taken with
    | false => exact Program.settles_of_wp ⟨hsame', hfresh'⟩
    | true => exact ih (unique + 1) hsame' hfresh'

/-- `build_file_entry` ends there. -/
theorem buildFileEntry_settles (hsame : SameDisk w w₁) (hfresh : Fresh g w₁) (name : List UInt8) :
    Program.Settles (deviceHandler g) (fun n => buildFileEntry g n c name) w₁
      fun _ w' => SameDisk w w' ∧ Fresh g w' := by
  unfold buildFileEntry generateUniqueSfn
  dsimp only
  split
  · exact Program.settles_of_wp ⟨hsame, hfresh⟩
  refine Program.Settles.bind (Program.Settles.mono
    (searchAlias_settles hends _ _ 999 1 hsame hfresh) ?_)
  rintro shortName w' hkeeps
  cases shortName with
  | none => exact Program.settles_of_wp hkeeps
  | some shortName => exact Program.settles_of_wp hkeeps

end Names

/-! ### Whole files -/

section Calls

variable (hbytes : g.bytesPerSector = 512) (hspc : 0 < g.sectorsPerCluster)
  (hcopies : 0 < g.fatCount) (hcounter : CounterPasses g)

include hbytes hspc hcopies hcounter

/-- `create_file` ends there. -/
theorem createFile_settles (hwide : w.blockCount < U64) {c : Nat} (hends : ScanEnds g w c)
    (hsame : SameDisk w w₁) (hfresh : Fresh g w₁) (leaf data : List UInt8) :
    Terminates g w₁ fun n => createFile g n c leaf data := by
  unfold createFile
  refine Program.Settles.bind (Program.Settles.mono
    (buildFileEntry_settles hends hsame hfresh leaf) ?_)
  rintro entry w₂ ⟨hsame₂, hfresh₂⟩
  match entry with
  | none => exact Program.settles_of_wp trivial
  | some (e, lfns) =>
    obtain ⟨locations, w₃, ⟨n₃, hrun₃⟩, -⟩ := allocateDirectorySlots_settles hbytes hspc hcopies
      hcounter hends hwide hsame₂ hfresh₂ (lfns.length + 1)
    have hwide₃ : w₃.blockCount < U64 := by
      rw [run_blockCount (hrun₃ n₃ (Nat.le_refl _)), hsame₂.blockCount]
      exact hwide
    refine Program.Settles.bind ⟨locations, w₃, ⟨n₃, hrun₃⟩, ?_⟩
    cases locations with
    | none => exact Program.settles_of_wp trivial
    | some locations =>
      refine Program.Settles.bind (Program.Settles.mono
        (writeFileData_settles hbytes hspc hcopies hcounter hwide₃ data) ?_)
      intro newCluster w₄ _
      cases newCluster with
      | none => exact Program.settles_of_wp trivial
      | some newCluster =>
        apply Program.Always.settles
        refine .bind (always_writeEntryBytes _ _) fun written _ => ?_
        cases written with
        | false => exact trivial
        | true => exact always_writeLfnEntries _

/-- `replace_file` ends. -/
theorem replaceFile_settles (hwide : w.blockCount < U64) (existing : DirectoryEntryRef)
    (leaf data : List UInt8) : Terminates g w fun n => replaceFile g n existing leaf data := by
  unfold replaceFile
  obtain ⟨freed, w₁, ⟨n₁, hrun₁⟩, -⟩ :=
    freeClusterChain_settles hbytes hcopies hwide existing.entry.firstCluster
  have hwide₁ : w₁.blockCount < U64 := run_blockCount (hrun₁ n₁ (Nat.le_refl _)) ▸ hwide
  refine Program.Settles.bind ⟨freed, w₁, ⟨n₁, hrun₁⟩, ?_⟩
  cases freed with
  | false => exact Program.settles_of_wp trivial
  | true =>
    refine Program.Settles.bind (Program.Settles.mono
      (writeFileData_settles hbytes hspc hcopies hcounter hwide₁ data) ?_)
    intro newCluster w₂ _
    cases newCluster with
    | none =>
      apply Program.Always.settles
      exact .bind (always_writeEntryBytes _ _) fun _ _ => trivial
    | some newCluster =>
      apply Program.Always.settles
      exact always_writeEntryBytes _ _

variable (hwide : w.blockCount < U64) (hfresh : Fresh g w) (hends : DirectoriesEnd g w)

include hwide hfresh hends

/-- `write_file` ends if the chains of the directories end. -/
theorem writeFile_settles (path data : List UInt8) :
    Terminates g w fun n => writeFile g n path data := by
  unfold writeFile
  dsimp only
  split
  · exact Program.settles_of_wp trivial
  split
  · exact Program.settles_of_wp trivial
  refine Program.Settles.bind (Program.Settles.mono
    (resolvePath_settles hends (SameDisk.refl w) hfresh _) ?_)
  intro existing w₁ hfound
  split
  · exact Program.settles_of_wp trivial
  refine Program.Settles.bind (Program.Settles.mono
    (resolveParentDirectory_settles hends hfound.same hfound.fresh _) ?_)
  rintro parent w₂ ⟨hparent, hsame₂, hfresh₂⟩
  match parent with
  | none => exact Program.settles_of_wp trivial
  | some (c, leaf) =>
    cases existing with
    | some existing =>
      exact replaceFile_settles hbytes hspc hcopies hcounter (hsame₂.blockCount ▸ hwide)
        existing leaf data
    | none =>
      exact createFile_settles hbytes hspc hcopies hcounter hwide (hparent c leaf rfl) hsame₂
        hfresh₂ leaf data

omit hspc hcounter in
/-- `remove_file` ends if they do. -/
theorem removeFile_settles (path : List UInt8) :
    Terminates g w fun n => removeFile g n path := by
  unfold removeFile
  split
  · exact Program.settles_of_wp trivial
  refine Program.Settles.bind (Program.Settles.mono
    (resolvePath_settles hends (SameDisk.refl w) hfresh path) ?_)
  intro found w₁ hfound
  have hwide₁ : w₁.blockCount < U64 := hfound.same.blockCount ▸ hwide
  cases found with
  | none => exact Program.settles_of_wp trivial
  | some e =>
    dsimp only
    split
    · exact Program.settles_of_wp trivial
    refine Program.Settles.bind (Program.settles_of_wp (Program.wp_mono
      (wp_blockCount ((always_markEntryUnused e.location).wp w₁)) ?_))
    rintro marked w₂ ⟨-, hcount₂⟩
    cases marked with
    | false => exact Program.settles_of_wp trivial
    | true =>
      refine Program.Settles.bind (Program.settles_of_wp (Program.wp_mono
        (wp_blockCount ((always_markEntriesUnused e.lfnLocations).wp w₂)) ?_))
      rintro marked w₃ ⟨-, hcount₃⟩
      cases marked with
      | false => exact Program.settles_of_wp trivial
      | true =>
        exact freeClusterChain_settles hbytes hcopies (hcount₃ ▸ hcount₂ ▸ hwide₁) _

omit hspc hcopies hwide hbytes hcounter in
/-- A call that looks a path up and then does something that always ends. -/
theorem lookup_settles {α : Type} (path : List UInt8) {p : DirectoryEntryRef → Fat α}
    (hp : ∀ e, (p e).Always fun _ => True) (fallback : α) (unmounted : α) :
    Terminates g w fun n => (do
      if !g.mounted then return unmounted
      let some entry ← resolvePath g n path | return fallback
      p entry) := by
  split
  · exact Program.settles_of_wp trivial
  refine Program.Settles.bind (Program.Settles.mono
    (resolvePath_settles hends (SameDisk.refl w) hfresh path) ?_)
  intro found w₁ _
  cases found with
  | none => exact Program.settles_of_wp trivial
  | some e => exact (hp e).settles w₁

omit hspc hcopies hwide hbytes hcounter in
/-- `list_directory` ends if they do. -/
theorem listDirectory_settles {β : Type} (path : List UInt8)
    (callback : β → DirectoryEntryInfo → β × Bool) (state : β) :
    Terminates g w fun n => listDirectory g n path callback state := by
  unfold listDirectory
  split
  · exact Program.settles_of_wp trivial
  refine Program.Settles.bind (Program.Settles.mono
    (resolveDirectoryCluster_settles hends (SameDisk.refl w) hfresh path) ?_)
  rintro found w₁ ⟨hfound, hsame₁, hfresh₁⟩
  cases found with
  | none => exact Program.settles_of_wp trivial
  | some c =>
    exact (scanDirectory_settles (hfound c rfl) hsame₁ hfresh₁ _ state).mono
      fun _ _ _ => trivial

end Calls

/-- On directories that end, every call does. -/
theorem operationsEnd_of_directoriesEnd (h : Mounted g w) (hcounter : CounterPasses g)
    (hends : DirectoriesEnd g w) : OperationsEnd g w := by
  obtain ⟨hbytes, hspc, hcopies, -, -⟩ := geometry_of_mounted h
  have hsize : 0 < clusterSizeBytes g := by
    unfold clusterSizeBytes
    rw [hbytes]
    omega
  constructor
  case fileExists =>
    intro path
    refine lookup_settles h.fresh hends path (fun e => ?_) false false
    exact trivial
  case listDirectory =>
    exact fun _ path callback state => listDirectory_settles h.fresh hends path callback state
  case openFile =>
    intro path
    refine lookup_settles h.fresh hends path (fun e => ?_) none none
    exact trivial
  case readFile =>
    intro heap path
    refine lookup_settles h.fresh hends path (fun e => ?_) none none
    split
    · exact trivial
    · exact always_readFileData hbytes hsize heap e.entry
  case readFileRange =>
    exact fun file offset size => (always_readFileRange hbytes hsize file offset size).settles w
  case writeFile => exact writeFile_settles hbytes hspc hcopies hcounter h.wide h.fresh hends
  case removeFile => exact removeFile_settles hbytes hcopies h.wide h.fresh hends

/-- A boot sector: one sector per cluster, one reserved sector, one FAT of one sector, the root
in cluster 2. -/
def bootSector : Buffer := fun i =>
  if i = 12 ∨ i = 44 then 2
  else if i = 13 ∨ i = 14 ∨ i = 16 ∨ i = 36 then 1
  else if i = 32 then 0xF7
  else if i = 33 then 0xFF
  else if i = 66 then 0x29
  else if i = 510 then 0x55
  else if i = 511 then 0xAA
  else 0

/-- Its volume. -/
def bootVolume : MountState := (BootSector.ofBytes bootSector).mount true 0 false

/-- The state after the mount of a disk with as many blocks as the boot sector says. -/
def bootWorld (disk : Buffer) : World :=
  { World.unmounted 65527 disk with free := ⟨FAT32_FSINFO_UNKNOWN, FAT32_FSINFO_UNKNOWN⟩ }

theorem mounts_bootVolume (disk : Buffer) (hdisk : ∀ i < 512, disk i = bootSector i) :
    Mounts 65527 disk true 0 bootVolume (bootWorld disk) := by
  have hread : (World.unmounted 65527 disk).readBlocks 0 1 = some bootSector := by
    have hrange : (World.unmounted 65527 disk).inRange 0 1 :=
      ⟨Nat.one_ne_zero, show 0 < 65527 by decide, show 1 ≤ 65527 - 0 by decide⟩
    unfold World.readBlocks
    rw [if_pos hrange]
    congr 1
    funext i
    show (if i < 512 then disk (0 * 512 + i) else 0) = bootSector i
    by_cases hi : i < 512
    · rw [if_pos hi, Nat.zero_mul, Nat.zero_add, hdisk i hi]
    · rw [if_neg hi]
      unfold bootSector
      simp only [show i ≠ 12 ∧ i ≠ 44 ∧ i ≠ 13 ∧ i ≠ 14 ∧ i ≠ 16 ∧ i ≠ 36 ∧ i ≠ 32 ∧ i ≠ 33 ∧
        i ≠ 66 ∧ i ≠ 510 ∧ i ≠ 511 by omega, or_self, if_false]
  exact ⟨_, run_probeVolume hread (by decide) (by decide), rfl⟩

/-- The volume of the example is mounted. -/
theorem mounted_bootWorld {disk : Buffer} (hdisk : ∀ i < 512, disk i = bootSector i) :
    Mounted bootVolume (bootWorld disk) where
  probed := ⟨65527, disk, true, 0, _, mounts_bootVolume disk hdisk⟩
  wide := show 65527 < U64 by with_unfolding_all decide
  fresh := fun hvalid => by cases hvalid

/-- The root directory is in block 2. -/
theorem readBlocks_bootWorld (disk : Buffer) : (bootWorld disk).readBlocks 2 1 =
    some fun i => if i < 512 then disk (1024 + i) else 0 := by
  have hrange : (bootWorld disk).inRange 2 1 :=
    ⟨Nat.one_ne_zero, show 2 < 65527 by decide, show 1 ≤ 65527 - 2 by decide⟩
  unfold World.readBlocks
  rw [if_pos hrange]
  rfl

/-- A disk with an empty root. -/
def emptyDisk : Buffer := bootSector

/-- The root of the empty disk starts with the end mark. -/
theorem sectorSlots_emptyDisk : ∃ location e rest, e.firstByte = DIR_ENTRY_END ∧
    sectorSlots bootVolume 2 (fun i => if i < 512 then emptyDisk (1024 + i) else 0) =
      (location, e) :: rest := by
  refine ⟨_, _, _, ?_, rfl⟩
  decide

/-- Nothing is found in an empty directory. -/
theorem findInDirectory_emptyDisk {w : World} (hsame : SameDisk (bootWorld emptyDisk) w) (n : Nat)
    (name : List UInt8) :
    (findInDirectory bootVolume (n + 1) 2 name).run (deviceHandler bootVolume) w =
      some (none, w) := by
  obtain ⟨location, e, rest, hend, hslots⟩ := sectorSlots_emptyDisk
  have hlba : add64 (clusterFirstLba bootVolume 2) (bootVolume.sectorsPerCluster - (0 + 1)) =
      2 := by
    with_unfolding_all decide
  have hread := (hsame.readBlocks 2 1).trans (readBlocks_bootWorld emptyDisk)
  have hsectors : (scanSectors bootVolume (findCallback name) 2 (0 + 1) [] none).run
      (deviceHandler bootVolume) w = some (some (.stop none), w) := by
    rw [scanSectors, hlba,
      Program.run_bind (show (readSectors 2 1).run (deviceHandler bootVolume) w =
      some (some _, w) from congrArg (fun sector => some (sector, w)) hread)]
    dsimp only
    rw [hslots, scanSlots, if_pos hend]
    rfl
  have hclusters : (scanClusters bootVolume (findCallback name) (n + 1) 2 [] none).run
      (deviceHandler bootVolume) w = some (some none, w) := by
    rw [scanClusters, Program.run_bind (show (scanSectors bootVolume (findCallback name) 2
      bootVolume.sectorsPerCluster [] none).run _ w = _ from hsectors)]
    rfl
  unfold findInDirectory scanDirectory
  rw [if_neg (by decide), if_neg (by decide), Program.run_bind hclusters]
  rfl

/-- The only directory of the empty disk is its root. -/
theorem reachesDirectory_emptyDisk {c : Nat}
    (hc : ReachesDirectory bootVolume (bootWorld emptyDisk) c) : c = 2 := by
  induction hc with
  | root => rfl
  | entry _ _ hfind _ _ ih =>
    obtain ⟨w, hsame, -, found, w₁, ⟨n₀, hrun⟩, rfl⟩ := hfind
    have hnone := hrun (n₀ + 1) (by omega)
    rw [ih] at hnone
    rw [findInDirectory_emptyDisk hsame] at hnone
    cases hnone

/-- It ends in its first sector. -/
theorem directoriesEnd_emptyDisk : DirectoriesEnd bootVolume (bootWorld emptyDisk) := by
  intro c hc _
  obtain rfl := reachesDirectory_emptyDisk hc
  refine .intro 2 fun next hgoes => ?_
  obtain ⟨sector, hread, hpassed⟩ := hgoes.passed 0 (by decide)
  rw [show add64 (clusterFirstLba bootVolume 2) 0 = 2 by with_unfolding_all decide,
    readBlocks_bootWorld] at hread
  cases hread
  obtain ⟨location, e, rest, hend, hslots⟩ := sectorSlots_emptyDisk
  rw [show add64 (clusterFirstLba bootVolume 2) 0 = 2 by with_unfolding_all decide,
    hslots] at hpassed
  exact absurd hend (hpassed _ (.head _))

/-- A disk whose root is full of removed entries, and whose only cluster is its own next
one. -/
def loopDisk : Buffer := fun i =>
  if 1024 ≤ i then DIR_ENTRY_UNUSED else if i = 520 then 2 else bootSector i

theorem goes_loopDisk : Goes bootVolume (bootWorld loopDisk) 2 2 := by
  refine ⟨fun i hi => ?_, ?_, by decide⟩
  · have hzero : i = 0 := Nat.lt_one_iff.mp hi
    have hlba : add64 (clusterFirstLba bootVolume 2) 0 = 2 := by with_unfolding_all decide
    subst hzero
    rw [hlba]
    refine ⟨_, readBlocks_bootWorld loopDisk, fun slot hslot => ?_⟩
    obtain ⟨j, hj, rfl⟩ := List.mem_map.mp hslot
    have hj : j < 16 := List.mem_range.mp hj
    show (if j * 32 + 0 < 512 then loopDisk (1024 + (j * 32 + 0)) else 0) ≠ DIR_ENTRY_END
    rw [if_pos (by omega), loopDisk, if_pos (by omega)]
    decide
  · with_unfolding_all decide

end VKernel.Proofs.Fs

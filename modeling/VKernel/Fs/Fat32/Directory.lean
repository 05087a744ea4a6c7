import VKernel.Fs.Fat32.Volume

/-!
# `VKernel.Fs.Fat32.Directory`: directories, lookup and directory slots

`scanDirectory` follows the chain of a directory, reads it sector by sector and hands every
visible entry with its name to a callback, which may stop it. The callback of the source is a
closure; here it is a function on a state `β`. `scanSlots` is the part of it that works on
the slots of one sector.

A path is a list of bytes. `pathComponents` are the components that `next_path_component`
yields one after the other.
-/

set_option autoImplicit false

namespace VKernel.Fs.Fat32

open VKernel.Lib

/-- `MAX_DIRECTORY_SLOTS`. -/
def MAX_DIRECTORY_SLOTS : Nat := MAX_LFN_ENTRIES + 1

/-- The slots of a sector: `entries_per_sector`. -/
def entriesPerSector (g : MountState) : Nat := g.bytesPerSector / 32

/-- `entry_location`. -/
structure EntryLocation where
  lba : Nat
  offset : Nat
  deriving DecidableEq

/-- `directory_entry_ref`. `lfn_count` is the length of `lfnLocations`. -/
structure DirectoryEntryRef where
  entry : FatEntry
  location : EntryLocation
  lfnLocations : List EntryLocation
  name : List UInt8
  deriving DecidableEq

/-- `pending_lfn_state`. -/
abbrev PendingLfn := List (LfnEntry × EntryLocation)

/-- `pending_lfn_state::push`. -/
def PendingLfn.push (pending : PendingLfn) (lfn : LfnEntry) (location : EntryLocation) :
    PendingLfn :=
  if pending.length ≥ MAX_LFN_ENTRIES then [] else pending ++ [(lfn, location)]

/-! ### Scanning -/

/-- The slots of a sector that was read from `lba`, with their locations. -/
def sectorSlots (g : MountState) (lba : Nat) (sector : Buffer) : List (EntryLocation × FatEntry) :=
  (List.range (entriesPerSector g)).map fun i =>
    (⟨lba, i * 32⟩, .ofBytes fun j => sector (i * 32 + j))

/-- The name that `scan_directory` gives to an entry. -/
def entryName (e : FatEntry) (pending : PendingLfn) : List UInt8 :=
  (decodeLfnName e (pending.map Prod.fst)).getD (decodeShortName e)

/-- The `directory_entry_ref` that `scan_directory` builds. -/
def entryRef (location : EntryLocation) (e : FatEntry) (pending : PendingLfn) :
    DirectoryEntryRef :=
  ⟨e, location, pending.map Prod.snd, entryName e pending⟩

/-- Whether a slot is an entry that `scan_directory` skips: a volume label. -/
def FatEntry.isVolumeLabel (e : FatEntry) : Bool :=
  e.attributes &&& ATTR_VOLUME_ID != 0 && e.attributes &&& ATTR_DIRECTORY == 0

section Scan

variable {β : Type}

/-- How a part of a scan ends: the scan returns, or goes on with the pending long name. -/
inductive ScanState (β : Type) where
  | stop (state : β)
  | more (pending : PendingLfn) (state : β)

/-- The body of `scan_directory` for a list of slots. -/
def scanSlots (callback : β → DirectoryEntryRef → β × Bool) :
    List (EntryLocation × FatEntry) → PendingLfn → β → ScanState β
  | [], pending, state => .more pending state
  | (location, e) :: rest, pending, state =>
    if e.firstByte = DIR_ENTRY_END then .stop state
    else if e.firstByte = DIR_ENTRY_UNUSED then scanSlots callback rest [] state
    else if e.attributes = ATTR_LONG_FILE_NAME then
      scanSlots callback rest (pending.push (.ofEntry e) location) state
    else if e.isVolumeLabel then scanSlots callback rest [] state
    else
      match callback state (entryRef location e pending) with
      | (state, true) => .stop state
      | (state, false) => scanSlots callback rest [] state

/-- The loop of `scan_directory` over the last `sectors` sectors of a cluster; `none` is a
read that fails. -/
def scanSectors (g : MountState) (callback : β → DirectoryEntryRef → β × Bool) (cluster : Nat) :
    Nat → PendingLfn → β → Fat (Option (ScanState β))
  | 0, pending, state => return some (.more pending state)
  | sectors + 1, pending, state => do
      let sectorIndex := g.sectorsPerCluster - (sectors + 1)
      let lba := add64 (clusterFirstLba g cluster) sectorIndex
      let some sector ← readSectors lba 1 | return none
      match scanSlots callback (sectorSlots g lba sector) pending state with
      | .stop state => return some (.stop state)
      | .more pending state => scanSectors g callback cluster sectors pending state

/-- The loop of `scan_directory` over the clusters of a directory. -/
def scanClusters (g : MountState) (callback : β → DirectoryEntryRef → β × Bool) :
    Nat → Nat → PendingLfn → β → Fat (Option β)
  | 0, _, _, _ => Program.diverge
  | rounds + 1, cluster, pending, state => do
      match ← scanSectors g callback cluster g.sectorsPerCluster pending state with
      | none => return none
      | some (.stop state) => return some state
      | some (.more pending state) =>
        let some next ← readFatValue g cluster | return none
        if ¬ isDataCluster next then return some state
        scanClusters g callback rounds next pending state

/-- `scan_directory`, with the state of the callback; `none` is `false`. A first cluster that
is not below `FAT32_END_OF_CHAIN` ends the loop before its first round. -/
def scanDirectory (g : MountState) (rounds directoryCluster : Nat)
    (callback : β → DirectoryEntryRef → β × Bool) (state : β) : Fat (Option β) :=
  if directoryCluster < 2 then return none
  else if directoryCluster ≥ FAT32_END_OF_CHAIN then return some state
  else scanClusters g callback rounds directoryCluster [] state

end Scan

/-- The callback of `find_in_directory`. -/
def findCallback (name : List UInt8) (found : Option DirectoryEntryRef)
    (entry : DirectoryEntryRef) : Option DirectoryEntryRef × Bool :=
  if name = entry.name then (some entry, true) else (found, false)

/-- `find_in_directory`. -/
def findInDirectory (g : MountState) (rounds directoryCluster : Nat) (name : List UInt8) :
    Fat (Option DirectoryEntryRef) := do
  let found ← scanDirectory g rounds directoryCluster (findCallback name) none
  return found.join

/-- `sfn_exists`. A scan that fails leaves what was found until then. -/
def sfnExists (g : MountState) (rounds directoryCluster : Nat) (shortName : List UInt8) :
    Fat Bool := do
  let found ← scanDirectory g rounds directoryCluster
    (fun found entry =>
      if entry.entry.shortName = shortName then (true, true) else (found, false)) false
  return found.getD false

/-! ### Paths -/

/-- `normalize_path`. -/
def normalizePath (path : List UInt8) : List UInt8 := dropDotPrefix path

/-- `trim_trailing_separators`. -/
def trimTrailingSeparators (path : List UInt8) : List UInt8 :=
  let kept := (path.reverse.dropWhile isSeparator).reverse
  if kept = [] then path.take 1 else kept

/-- The normalization at the start of the path functions. -/
def cleanPath (path : List UInt8) : List UInt8 := trimTrailingSeparators (normalizePath path)

/-- The components that `next_path_component` yields, with the one that is being read. -/
def componentsFrom : List UInt8 → List UInt8 → List (List UInt8)
  | current, [] => if current = [] then [] else [current]
  | current, ch :: rest =>
    if isSeparator ch then
      if current = [] then componentsFrom [] rest else current :: componentsFrom [] rest
    else componentsFrom (current ++ [ch]) rest

/-- The components of a path. -/
def pathComponents (path : List UInt8) : List (List UInt8) := componentsFrom [] path

/-- The loop of `resolve_path_from_cluster`. A path whose last component is `.` is never
found. -/
def resolveComponents (g : MountState) (rounds : Nat) :
    Nat → List (List UInt8) → Fat (Option DirectoryEntryRef)
  | _, [] => return none
  | cluster, component :: rest =>
    if component = ['.'.toUInt8] then resolveComponents g rounds cluster rest
    else do
      let some entry ← findInDirectory g rounds cluster component | return none
      if rest = [] then return some entry
      if !entry.entry.isDirectory then return none
      if entry.entry.firstCluster < 2 then return none
      resolveComponents g rounds entry.entry.firstCluster rest

/-- `resolve_path_from_cluster`. -/
def resolvePathFromCluster (g : MountState) (rounds startCluster : Nat) (rawPath : List UInt8) :
    Fat (Option DirectoryEntryRef) :=
  resolveComponents g rounds startCluster (pathComponents (cleanPath rawPath))

/-- `resolve_path`. -/
def resolvePath (g : MountState) (rounds : Nat) (rawPath : List UInt8) :
    Fat (Option DirectoryEntryRef) :=
  let path := (cleanPath rawPath).dropWhile isSeparator
  if path = [] then return none
  else resolvePathFromCluster g rounds g.logicalRootCluster path

/-- `resolve_directory_cluster`. -/
def resolveDirectoryCluster (g : MountState) (rounds : Nat) (rawPath : List UInt8) :
    Fat (Option Nat) := do
  let path := cleanPath rawPath
  if path = [] ∨ path = ['.'.toUInt8] ∨ path.dropWhile isSeparator = [] then
    return if g.logicalRootCluster ≥ 2 then some g.logicalRootCluster else none
  let some entry ← resolvePath g rounds rawPath | return none
  if !entry.entry.isDirectory then return none
  return if entry.entry.firstCluster ≥ 2 then some entry.entry.firstCluster else none

/-- The index after the last separator of a path, 0 when there is none. -/
def leafStart (path : List UInt8) : Nat :=
  path.length - (path.reverse.takeWhile fun ch => !isSeparator ch).length

/-- `resolve_parent_directory`: the cluster of the directory, and the last component, which
has to fit into 255 characters. -/
def resolveParentDirectory (g : MountState) (rounds : Nat) (rawPath : List UInt8) :
    Fat (Option (Nat × List UInt8)) := do
  let path := cleanPath rawPath
  if path = [] then return none
  let start := leafStart path
  let leaf := path.drop start
  if leaf = [] then return none
  if start ≤ 1 then
    -- no separator, or only one at the very start
    return if leaf.length ≥ 256 then none else some (g.logicalRootCluster, leaf)
  let some parent ← resolvePath g rounds (path.take (start - 1)) | return none
  if !parent.entry.isDirectory then return none
  return if leaf.length ≥ 256 then none else some (parent.entry.firstCluster, leaf)

/-! ### New entries -/

/-- The loop of `generate_unique_sfn`, over the numbers from `unique` on. -/
def searchAlias (g : MountState) (rounds directoryCluster : Nat) (base extension : List UInt8) :
    Nat → Nat → Fat (Option (List UInt8))
  | 0, _ => return none
  | tries + 1, unique => do
      let exists_ ← sfnExists g rounds directoryCluster (sfnAlias base extension unique)
      if exists_ then searchAlias g rounds directoryCluster base extension tries (unique + 1)
      else return some (sfnAlias base extension unique)

/-- `generate_unique_sfn`, without the copy into the entry. -/
def generateUniqueSfn (g : MountState) (rounds directoryCluster : Nat) (name : List UInt8) :
    Fat (Option (List UInt8)) :=
  let (base, extension) := aliasParts name
  searchAlias g rounds directoryCluster base extension 999 1

/-- `build_file_entry`: the entry and its long-name entries, in the order of the name. -/
def buildFileEntry (g : MountState) (rounds directoryCluster : Nat) (name : List UInt8) :
    Fat (Option (FatEntry × List LfnEntry)) := do
  let e := { FatEntry.zero with attributes := ATTR_ARCHIVE }
  if isValidSfnName name then
    return some ({ encodeSfn e name with caseInfo := encodeCaseInfo name }, [])
  let some shortName ← generateUniqueSfn g rounds directoryCluster name | return none
  let e := e.setShortName shortName
  return (createLfnEntries name (lfnChecksum e)).map fun lfns => (e, lfns)

/-! ### Free slots -/

/-- How a part of `allocate_directory_slots` ends: it has found the slots, or goes on with a
run of free ones and with the knowledge whether the end of the directory was passed. -/
inductive SlotSearch where
  | found (locations : List EntryLocation)
  | more (run : List EntryLocation) (endZone : Bool)

/-- The body of `allocate_directory_slots` for a list of slots. -/
def searchSlots (needed : Nat) :
    List (EntryLocation × FatEntry) → List EntryLocation → Bool → SlotSearch
  | [], run, endZone => .more run endZone
  | (location, e) :: rest, run, endZone =>
    let endZone' := endZone || e.firstByte == DIR_ENTRY_END
    if endZone' || e.firstByte == DIR_ENTRY_UNUSED then
      if run.length + 1 = needed then .found (run ++ [location])
      else searchSlots needed rest (run ++ [location]) endZone'
    else searchSlots needed rest [] endZone'

/-- The loop of `allocate_directory_slots` over the last `sectors` sectors of a cluster. -/
def searchSlotSectors (g : MountState) (needed cluster : Nat) :
    Nat → List EntryLocation → Bool → Fat (Option SlotSearch)
  | 0, run, endZone => return some (.more run endZone)
  | sectors + 1, run, endZone => do
      let sectorIndex := g.sectorsPerCluster - (sectors + 1)
      let lba := add64 (clusterFirstLba g cluster) sectorIndex
      let some sector ← readSectors lba 1 | return none
      match searchSlots needed (sectorSlots g lba sector) run endZone with
      | .found locations => return some (.found locations)
      | .more run endZone => searchSlotSectors g needed cluster sectors run endZone

/-- The loop of `allocate_directory_slots` over the clusters of a directory. -/
def searchSlotClusters (g : MountState) (needed : Nat) :
    Nat → Nat → List EntryLocation → Bool → Fat (Option (List EntryLocation))
  | 0, _, _, _ => Program.diverge
  | rounds + 1, cluster, run, endZone => do
      match ← searchSlotSectors g needed cluster g.sectorsPerCluster run endZone with
      | none => return none
      | some (.found locations) => return some locations
      | some (.more run endZone) =>
        let some next ← readFatValue g cluster | return none
        if ¬ isDataCluster next then
          let some newCluster ← appendDirectoryCluster g (rounds + 1) cluster | return none
          if newCluster ≥ FAT32_END_OF_CHAIN then return none
          searchSlotClusters g needed rounds newCluster run true
        else searchSlotClusters g needed rounds next run endZone

/-- `allocate_directory_slots`. -/
def allocateDirectorySlots (g : MountState) (rounds directoryCluster needed : Nat) :
    Fat (Option (List EntryLocation)) :=
  if directoryCluster < 2 ∨ needed = 0 ∨ needed > MAX_DIRECTORY_SLOTS then return none
  else if directoryCluster ≥ FAT32_END_OF_CHAIN then return none
  else searchSlotClusters g needed rounds directoryCluster [] false

/-! ### Writing slots -/

/-- `write_entry_bytes` of a whole slot. -/
def writeEntryBytes (g : MountState) (location : EntryLocation) (data : Buffer) : Fat Bool := do
  if location.offset + 32 > g.bytesPerSector then return false
  let some sector ← readSectors location.lba 1 | return false
  writeSectors .directory location.lba 1 fun i =>
    if location.offset ≤ i ∧ i < location.offset + 32 then data (i - location.offset) else sector i

/-- `mark_entry_unused`. -/
def markEntryUnused (location : EntryLocation) : Fat Bool := do
  let some sector ← readSectors location.lba 1 | return false
  writeSectors .directory location.lba 1 fun i =>
    if i = location.offset then DIR_ENTRY_UNUSED else sector i

end VKernel.Fs.Fat32

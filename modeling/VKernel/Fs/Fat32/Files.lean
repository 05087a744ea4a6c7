import VKernel.Fs.Fat32.Directory

/-!
# `VKernel.Fs.Fat32.Files`: reading, writing and removing files

The whole-file calls `writeFile`, `removeFile` and `readFile`, and the calls on a descriptor,
`openFile` and `readFileRange`. A file's content is a list of bytes. The caller's pointers
are not null, so the checks for that are left out; the answer of `g_kernel_heap.allocate` is
an argument where the source asks for a buffer.

`rounds` bounds the loops that follow a FAT chain. The loops over a file's data get as many
rounds as there are bytes, and each of their rounds moves at least one.
-/

set_option autoImplicit false

namespace VKernel.Fs.Fat32

open VKernel.Lib

/-! ### Writing -/

/-- The inner loop of `write_file_data`, over the last `sectors` sectors of a cluster; the
result is `written` afterwards. -/
def writeDataSectors (g : MountState) (data : List UInt8) (cluster : Nat) :
    Nat → Nat → Fat (Option Nat)
  | 0, written => return some written
  | sectors + 1, written => do
      let sectorIndex := g.sectorsPerCluster - (sectors + 1)
      let chunk := min (data.length - written) g.bytesPerSector
      let lba := add64 (clusterFirstLba g cluster) sectorIndex
      let stored ← writeSectors .data lba 1 fun i =>
        if i < chunk then data.getD (written + i) 0 else 0
      if !stored then return none
      writeDataSectors g data cluster sectors (written + chunk)

/-- The outer loop of `write_file_data`. A `firstCluster` or `previousCluster` of 0 is none. -/
def writeDataClusters (g : MountState) (rounds : Nat) (data : List UInt8) :
    Nat → Nat → Nat → Nat → Fat (Option Nat)
  | 0, _, _, _ => Program.diverge
  | turns + 1, firstCluster, previousCluster, written => do
      if written ≥ data.length then return some firstCluster
      let some cluster ← allocateCluster g
        | if firstCluster ≠ 0 then
            let _ ← freeClusterChain g rounds firstCluster
          return none
      let firstCluster := if firstCluster = 0 then cluster else firstCluster
      let linked ← if previousCluster ≠ 0 then writeFatValue g previousCluster cluster
        else pure true
      if !linked then
        let _ ← freeClusterChain g rounds firstCluster
        return none
      let some written ← writeDataSectors g data cluster g.sectorsPerCluster written
        | let _ ← freeClusterChain g rounds firstCluster
          return none
      writeDataClusters g rounds data turns firstCluster cluster written

/-- `write_file_data`, with the first cluster of the new chain. -/
def writeFileData (g : MountState) (rounds : Nat) (data : List UInt8) : Fat (Option Nat) :=
  if data = [] then return some 0
  else writeDataClusters g rounds data (data.length + 1) 0 0 0

/-- The entry of a file without its content, as `write_file` leaves it when it cannot store
the new content. -/
def FatEntry.emptied (e : FatEntry) : FatEntry :=
  { e with firstClusterLow := 0, firstClusterHigh := 0, fileSize := 0 }

/-- The updates that `write_file` makes to the entry. -/
def FatEntry.finished (e : FatEntry) (newCluster size : Nat) (caseInfo : UInt8) : FatEntry :=
  { e with
    firstClusterLow := UInt16.ofNat newCluster
    firstClusterHigh := UInt16.ofNat (newCluster / 2 ^ 16)
    fileSize := UInt32.ofNat size
    attributes := (e.attributes &&& ~~~(ATTR_DIRECTORY ||| ATTR_VOLUME_ID)) ||| ATTR_ARCHIVE
    caseInfo := caseInfo
    creationTimeTenths := 0 }

/-- The last loop of `write_file`: the long-name entries into the slots before the entry. -/
def writeLfnEntries (g : MountState) : List (EntryLocation × LfnEntry) → Fat Bool
  | [] => return true
  | (location, lfn) :: rest => do
      let written ← writeEntryBytes g location lfn.byte
      if !written then return false
      writeLfnEntries g rest

/-- The part of `write_file` for a path that has no file yet. -/
def createFile (g : MountState) (rounds directoryCluster : Nat) (leaf data : List UInt8) :
    Fat Bool := do
  let some (e, lfns) ← buildFileEntry g rounds directoryCluster leaf | return false
  let some locations ← allocateDirectorySlots g rounds directoryCluster (lfns.length + 1)
    | return false
  let some newCluster ← writeFileData g rounds data | return false
  let caseInfo := if lfns = [] then encodeCaseInfo leaf else 0
  let e := e.finished newCluster data.length caseInfo
  let written ← writeEntryBytes g (locations.getD lfns.length ⟨0, 0⟩) e.byte
  if !written then return false
  writeLfnEntries g (locations.zip lfns.reverse)

/-- The part of `write_file` for a path that has a file. -/
def replaceFile (g : MountState) (rounds : Nat) (existing : DirectoryEntryRef)
    (leaf data : List UInt8) : Fat Bool := do
  let freed ← freeClusterChain g rounds existing.entry.firstCluster
  if !freed then return false
  let some newCluster ← writeFileData g rounds data
    | let _ ← writeEntryBytes g existing.location existing.entry.emptied.byte
      return false
  let e := existing.entry.finished newCluster data.length (encodeCaseInfo leaf)
  writeEntryBytes g existing.location e.byte

/-- `write_file`. -/
def writeFile (g : MountState) (rounds : Nat) (path data : List UInt8) : Fat Bool := do
  if !g.mounted || !g.writable then return false
  let normalized := cleanPath path
  if normalized = [] then return false
  let existing ← resolvePath g rounds normalized
  if existing.any fun entry => entry.entry.isDirectory then return false
  let some (directoryCluster, leaf) ← resolveParentDirectory g rounds normalized | return false
  match existing with
  | some existing => replaceFile g rounds existing leaf data
  | none => createFile g rounds directoryCluster leaf data

/-- The loop of `remove_file` over the long-name slots. -/
def markEntriesUnused : List EntryLocation → Fat Bool
  | [] => return true
  | location :: rest => do
      let marked ← markEntryUnused location
      if !marked then return false
      markEntriesUnused rest

/-- `remove_file`. -/
def removeFile (g : MountState) (rounds : Nat) (path : List UInt8) : Fat Bool := do
  if !g.mounted || !g.writable then return false
  let some entry ← resolvePath g rounds path | return false
  if entry.entry.isDirectory then return false
  let marked ← markEntryUnused entry.location
  if !marked then return false
  let marked ← markEntriesUnused entry.lfnLocations
  if !marked then return false
  freeClusterChain g rounds entry.entry.firstCluster

/-! ### Reading -/

/-- `file_exists`. -/
def fileExists (g : MountState) (rounds : Nat) (path : List UInt8) : Fat Bool := do
  if !g.mounted then return false
  let some entry ← resolvePath g rounds path | return false
  return !entry.entry.isDirectory

/-- `directory_entry_info`. -/
structure DirectoryEntryInfo where
  name : List UInt8
  isDirectory : Bool
  size : Nat
  firstCluster : Nat
  deriving DecidableEq

section List

variable {β : Type}

/-- The callback of `list_directory` for the scan: the caller's, but not for `.` and `..`. -/
def listCallback (callback : β → DirectoryEntryInfo → β × Bool) (state : β)
    (entry : DirectoryEntryRef) : β × Bool :=
  if entry.name = ['.'.toUInt8] ∨ entry.name = ['.'.toUInt8, '.'.toUInt8] then (state, false)
  else callback state
    ⟨entry.name, entry.entry.isDirectory, entry.entry.fileSize.toNat, entry.entry.firstCluster⟩

/-- `list_directory`, with the state of the caller's callback; `none` is `false`. -/
def listDirectory (g : MountState) (rounds : Nat) (path : List UInt8)
    (callback : β → DirectoryEntryInfo → β × Bool) (state : β) : Fat (Option β) := do
  if !g.mounted then return none
  let some directoryCluster ← resolveDirectoryCluster g rounds path | return none
  scanDirectory g rounds directoryCluster (listCallback callback) state

end List

/-- `cluster_run`. -/
structure ClusterRun where
  firstCluster : Nat
  lastCluster : Nat
  clusterCount : Nat
  nextCluster : Nat
  deriving DecidableEq

/-- The loop of `collect_cluster_run`, over at most `left` further clusters. -/
def collectRunLoop (g : MountState) : Nat → ClusterRun → Fat (Option ClusterRun)
  | 0, run => return some run
  | left + 1, run => do
      let some candidate ← readFatValue g run.lastCluster | return none
      if candidate ≠ (run.lastCluster + 1) % 2 ^ 32 then
        return some { run with nextCluster := candidate }
      collectRunLoop g left
        { run with lastCluster := candidate, clusterCount := run.clusterCount + 1 }

/-- `collect_cluster_run`. -/
def collectClusterRun (g : MountState) (firstCluster maxClusterCount : Nat) :
    Fat (Option ClusterRun) :=
  if ¬ isDataCluster firstCluster ∨ maxClusterCount = 0 then return none
  else collectRunLoop g (maxClusterCount - 1) ⟨firstCluster, firstCluster, 1, FAT32_END_OF_CHAIN⟩

/-- `read_cluster_bytes`. -/
def readClusterBytes (g : MountState) (cluster clusterOffset size : Nat) :
    Fat (Option (List UInt8)) := do
  if size = 0 then return some []
  if ¬ isDataCluster cluster then return none
  if clusterOffset ≥ clusterSizeBytes g ∨ size > clusterSizeBytes g - clusterOffset then return none
  let lba := add64 (clusterFirstLba g cluster) (clusterOffset / g.bytesPerSector)
  let sectorOffset := clusterOffset % g.bytesPerSector
  let head : Option (List UInt8 × Nat) ←
    if sectorOffset ≠ 0 then do
      let sector ← readSectors lba 1
      pure (sector.map fun sector =>
        (sector.bytes sectorOffset (min (g.bytesPerSector - sectorOffset) size), add64 lba 1))
    else pure (some ([], lba))
  let some (head, lba) := head | return none
  let wholeSectors := (size - head.length) / g.bytesPerSector
  let whole : Option (List UInt8) ←
    if wholeSectors > 0 then do
      let sectors ← readSectors lba (wholeSectors % 2 ^ 32)
      pure (sectors.map fun sectors => sectors.bytes 0 (wholeSectors * g.bytesPerSector))
    else pure (some [])
  let some whole := whole | return none
  let tailBytes := size - head.length - whole.length
  if tailBytes > 0 then
    let some sector ← readSectors (add64 lba wholeSectors) 1 | return none
    return some (head ++ whole ++ sector.bytes 0 tailBytes)
  return some (head ++ whole)

/-- The loop of `read_file_data`, with the bytes that were copied so far. -/
def readDataLoop (g : MountState) (size : Nat) : Nat → Nat → List UInt8 → Fat (Option (List UInt8))
  | 0, _, _ => Program.diverge
  | turns + 1, cluster, out => do
      if ¬ isDataCluster cluster ∨ out.length ≥ size then
        return if out.length ≠ size then none else some out
      let remaining := size - out.length
      if remaining ≥ clusterSizeBytes g then
        let some run ← collectClusterRun g cluster (remaining / clusterSizeBytes g) | return none
        let some sectors ← readSectors (clusterFirstLba g run.firstCluster)
            (run.clusterCount * g.sectorsPerCluster % 2 ^ 32) | return none
        let out := out ++ sectors.bytes 0 (run.clusterCount * clusterSizeBytes g)
        if out.length ≥ size then return if out.length ≠ size then none else some out
        let next ← if isDataCluster run.nextCluster then pure (some run.nextCluster)
          else readFatValue g run.lastCluster
        let some next := next | return none
        if ¬ isDataCluster next then return none
        readDataLoop g size turns next out
      else
        let some tail ← readClusterBytes g cluster 0 remaining | return none
        let out := out ++ tail
        return if out.length ≠ size then none else some out

/-- `read_file_data`. `heap` is whether there is memory for the content. -/
def readFileData (g : MountState) (heap : Bool) (e : FatEntry) : Fat (Option (List UInt8)) :=
  if e.fileSize = 0 then return some []
  else if ¬ isDataCluster e.firstCluster then return none
  else if !heap then return none
  else readDataLoop g e.fileSize.toNat (e.fileSize.toNat + 1) e.firstCluster []

/-- `read_file` of a path. -/
def readFile (g : MountState) (rounds : Nat) (heap : Bool) (path : List UInt8) :
    Fat (Option (List UInt8)) := do
  if !g.mounted then return none
  let some entry ← resolvePath g rounds path | return none
  if entry.entry.isDirectory then return none
  readFileData g heap entry.entry

/-- `file_descriptor`. -/
structure FileDescriptor where
  valid : Bool := false
  firstCluster : Nat := 0
  size : Nat := 0
  clusterCacheValid : Bool := false
  clusterCacheIndex : Nat := 0
  clusterCacheValue : Nat := 0
  deriving DecidableEq

/-- `build_file_descriptor`. -/
def buildFileDescriptor (e : FatEntry) : Option FileDescriptor :=
  if e.isDirectory then none
  else if e.fileSize ≠ 0 ∧ ¬ isDataCluster e.firstCluster then none
  else some { valid := true, firstCluster := e.firstCluster, size := e.fileSize.toNat }

/-- `open_file`. -/
def openFile (g : MountState) (rounds : Nat) (path : List UInt8) : Fat (Option FileDescriptor) := do
  if !g.mounted then return none
  let some entry ← resolvePath g rounds path | return none
  return buildFileDescriptor entry.entry

/-- The loop of `cluster_for_file_offset`: `steps` links from a cluster on. -/
def followChain (g : MountState) : Nat → Nat → Fat (Option Nat)
  | 0, cluster => return some cluster
  | steps + 1, cluster => do
      let some next ← readFatValue g cluster | return none
      if ¬ isDataCluster next then return none
      followChain g steps next

/-- `cluster_for_file_offset`. -/
def clusterForFileOffset (g : MountState) (file : FileDescriptor) (clusterIndex : Nat) :
    Fat (Option (Nat × FileDescriptor)) := do
  if !file.valid || file.size = 0 then return none
  let (cluster, index) :=
    if file.clusterCacheValid ∧ file.clusterCacheIndex ≤ clusterIndex
    then (file.clusterCacheValue, file.clusterCacheIndex) else (file.firstCluster, 0)
  let some cluster ← followChain g (clusterIndex - index) cluster | return none
  return some (cluster, { file with
    clusterCacheValid := true, clusterCacheIndex := clusterIndex, clusterCacheValue := cluster })

/-- The loop of `read_file_range`, with the bytes that were copied so far. A call that fails
leaves the caller with nothing it may use. -/
def readRangeLoop (g : MountState) (offset remaining : Nat) :
    Nat → FileDescriptor → List UInt8 → Fat (Option (List UInt8) × FileDescriptor)
  | 0, _, _ => Program.diverge
  | turns + 1, file, out => do
      if out.length ≥ remaining then return (some out, file)
      let absoluteOffset := offset + out.length
      let clusterIndex := absoluteOffset / clusterSizeBytes g
      let clusterOffset := absoluteOffset % clusterSizeBytes g
      let some (cluster, file) ← clusterForFileOffset g file clusterIndex | return (none, file)
      let bytesLeft := remaining - out.length
      if clusterOffset = 0 ∧ bytesLeft ≥ clusterSizeBytes g then
        let some run ← collectClusterRun g cluster (bytesLeft / clusterSizeBytes g)
          | return (none, file)
        let some sectors ← readSectors (clusterFirstLba g run.firstCluster)
            (run.clusterCount * g.sectorsPerCluster % 2 ^ 32) | return (none, file)
        let out := out ++ sectors.bytes 0 (run.clusterCount * clusterSizeBytes g)
        let file :=
          if isDataCluster run.nextCluster ∧ out.length < remaining then
            { file with clusterCacheValid := true,
                        clusterCacheIndex := clusterIndex + run.clusterCount,
                        clusterCacheValue := run.nextCluster }
          else
            { file with clusterCacheValid := true,
                        clusterCacheIndex := clusterIndex + run.clusterCount - 1,
                        clusterCacheValue := run.lastCluster }
        readRangeLoop g offset remaining turns file out
      else
        let chunk := min (clusterSizeBytes g - clusterOffset) bytesLeft
        let some bytes ← readClusterBytes g cluster clusterOffset chunk | return (none, file)
        readRangeLoop g offset remaining turns file (out ++ bytes)

/-- `read_file_range`. -/
def readFileRange (g : MountState) (file : FileDescriptor) (offset size : Nat) :
    Fat (Option (List UInt8) × FileDescriptor) :=
  if !file.valid then return (none, file)
  else if size = 0 ∨ offset ≥ file.size then return (some [], file)
  else
    let remaining := min (file.size - offset) size
    readRangeLoop g offset remaining (remaining + 1) file []

end VKernel.Fs.Fat32

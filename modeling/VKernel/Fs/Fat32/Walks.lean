import VKernel.Fs.Fat32.Files
import VKernel.Fs.Fat32.Probe

/-!
# `VKernel.Fs.Fat32.Walks`: following the links of a directory

The functions that scan a directory follow its chain in the FAT, which may have any content.
`Goes` is one step of that: the directory has been read to the end of a cluster, and the FAT
names another data cluster. A directory `Ends` when this cannot go on for ever. The
directories of a volume are the root and those that `find_in_directory` finds an entry of.

All of this is read off the disk: `Fresh` says that the FAT cache holds nothing else.
-/

set_option autoImplicit false

namespace VKernel.Fs.Fat32

open VKernel.Lib

section Disk

variable (g : MountState) (w : World)

/-- The first FAT sector of the cached group that a sector is in. -/
def cacheLine (sectorIndex : Nat) : Nat :=
  sectorIndex / FAT_CACHE_SECTOR_COUNT * FAT_CACHE_SECTOR_COUNT

/-- The read that fills the cache from a FAT sector on. -/
def readCacheLine (firstSector : Nat) : Option Buffer :=
  w.readBlocks ((g.partitionStartLba + g.reservedSectorCount + firstSector) % U64)
    (min (g.sectorsPerFat - firstSector) FAT_CACHE_SECTOR_COUNT)

/-- The FAT sector on the disk, as `read_cached_fat_sector` finds it there. -/
def fatSectorOf (sectorIndex : Nat) : Option Buffer :=
  if sectorIndex ≥ g.sectorsPerFat then none
  else (readCacheLine g w (cacheLine sectorIndex)).map fun data i =>
    data ((sectorIndex - cacheLine sectorIndex) * g.bytesPerSector + i)

/-- The FAT value of a cluster on the disk. -/
def fatValueOf (cluster : Nat) : Option Nat :=
  (fatSectorOf g w (cluster * 4 % 2 ^ 32 / g.bytesPerSector)).map fun sector =>
    leValue sector (cluster * 4 % 2 ^ 32 % g.bytesPerSector) 4 % 2 ^ 28

/-- The cache is empty, or holds what filling it again would give. -/
def Fresh : Prop :=
  w.cache.valid = true → w.cache.firstSector % FAT_CACHE_SECTOR_COUNT = 0 ∧
    w.cache.sectorCount = min (g.sectorsPerFat - w.cache.firstSector) FAT_CACHE_SECTOR_COUNT ∧
    readCacheLine g w w.cache.firstSector = some w.cache.data

/-- A sector of a directory that a scan reads to its end: it can be read, and no slot has the
end mark. -/
def SectorPassed (lba : Nat) : Prop :=
  ∃ sector, w.readBlocks lba 1 = some sector ∧
    ∀ slot ∈ sectorSlots g lba sector, slot.2.firstByte ≠ DIR_ENTRY_END

/-- One step of a scan that nothing stops: every sector of the cluster is passed, and the FAT
has a data cluster next. -/
structure Goes (cluster next : Nat) : Prop where
  passed : ∀ i < g.sectorsPerCluster, SectorPassed g w (add64 (clusterFirstLba g cluster) i)
  link : fatValueOf g w cluster = some next
  data : isDataCluster next

/-- No scan of the directory goes on for ever. -/
def Ends (cluster : Nat) : Prop := Acc (fun next cluster => Goes g w cluster next) cluster

/-- The two states have the same disk. -/
structure SameDisk (w w' : World) : Prop where
  disk : w'.disk = w.disk
  blockCount : w'.blockCount = w.blockCount

/-- `find_in_directory` finds the entry, on this disk and with any fresh cache. -/
def Finds (cluster : Nat) (name : List UInt8) (e : DirectoryEntryRef) : Prop :=
  ∃ w', SameDisk w w' ∧ Fresh g w' ∧
    Program.Settles (deviceHandler g) (fun n => findInDirectory g n cluster name) w'
      fun found _ => found = some e

/-- A name that can be a component of a path. -/
def IsComponent (name : List UInt8) : Prop :=
  name ≠ [] ∧ name ≠ ['.'.toUInt8] ∧ ∀ ch ∈ name, isSeparator ch = false

/-- The directories of the volume. -/
inductive ReachesDirectory : Nat → Prop
  | root : ReachesDirectory g.logicalRootCluster
  | entry {cluster : Nat} {name : List UInt8} {e : DirectoryEntryRef}
      (hcluster : ReachesDirectory cluster) (hname : IsComponent name)
      (hfind : Finds g w cluster name e) (hdir : e.entry.isDirectory = true)
      (hfirst : 2 ≤ e.entry.firstCluster) :
      ReachesDirectory e.entry.firstCluster

/-- Every directory of the volume ends. -/
def DirectoriesEnd : Prop :=
  ∀ cluster, ReachesDirectory g w cluster → isDataCluster cluster → Ends g w cluster

/-- The counter of `allocate_cluster` can get behind `max_cluster`, which is not the largest
`u32`. -/
def CounterPasses (g : MountState) : Prop := (g.totalClusters + 1) % 2 ^ 32 ≠ 2 ^ 32 - 1

instance (g : MountState) : Decidable (CounterPasses g) :=
  inferInstanceAs (Decidable ((g.totalClusters + 1) % 2 ^ 32 ≠ 2 ^ 32 - 1))

/-- A call on the volume ends after finitely many requests: from some number of rounds on, its
loops have all the rounds they need. -/
def Terminates {α : Type} (p : Nat → Fat α) : Prop :=
  Program.Settles (deviceHandler g) p w fun _ _ => True

/-- Every call on the volume ends, for every path and every content. -/
structure OperationsEnd : Prop where
  fileExists : ∀ path, Terminates g w fun n => fileExists g n path
  listDirectory : ∀ (β : Type) path callback (state : β),
    Terminates g w fun n => listDirectory g n path callback state
  openFile : ∀ path, Terminates g w fun n => openFile g n path
  readFile : ∀ heap path, Terminates g w fun n => readFile g n heap path
  readFileRange : ∀ file offset size, Terminates g w fun _ => readFileRange g file offset size
  writeFile : ∀ path data, Terminates g w fun n => writeFile g n path data
  removeFile : ∀ path, Terminates g w fun n => removeFile g n path

end Disk

/-- A mounted volume: `probe_volume` has made `g` of some disk, and the cache holds what is on
the present one. -/
structure Mounted (g : MountState) (w : World) : Prop where
  probed : ∃ blockCount disk writable startLba w₀, Mounts blockCount disk writable startLba g w₀
  wide : w.blockCount < U64
  fresh : Fresh g w

end VKernel.Fs.Fat32

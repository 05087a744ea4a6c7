import VKernel.Fs.Fat32.Names
import VKernel.Lib.Program

/-!
# `VKernel.Fs.Fat32.Volume`: block requests, the FAT and its clusters

The functions of `fat32.cpp` are programs over the `Request`s that they make: a block read, a
block write, the two sections that hold `s_fat_cache_lock`, and the accesses to the free
cluster count and the hint in `mount_state`. The part of `mount_state` that is fixed by the
mount is an argument, `MountState`; the part that changes is in the `World`, with the
content of the device as one sequence of bytes. `deviceHandler` answers the requests on a
device whose transfers succeed; `block::read_blocks` and `block::write_blocks` still refuse
what leaves the device.

A loop that follows a FAT chain takes a number of rounds, and diverges when they do not
suffice.
-/

set_option autoImplicit false

namespace VKernel.Fs.Fat32

open VKernel.Lib

/-! ### Constants -/

/-- `FAT32_END_OF_CHAIN`. -/
def FAT32_END_OF_CHAIN : Nat := 0x0FFFFFF8

/-- `FAT32_FSINFO_SIGNATURE_1`. -/
def FAT32_FSINFO_SIGNATURE_1 : Nat := 0x41615252

/-- `FAT32_FSINFO_SIGNATURE_2`. -/
def FAT32_FSINFO_SIGNATURE_2 : Nat := 0x61417272

/-- `FAT32_FSINFO_SIGNATURE_3`. -/
def FAT32_FSINFO_SIGNATURE_3 : Nat := 0xAA550000

/-- `FAT32_FSINFO_UNKNOWN`. -/
def FAT32_FSINFO_UNKNOWN : Nat := 0xFFFFFFFF

/-- `FAT_CACHE_SECTOR_COUNT`. -/
def FAT_CACHE_SECTOR_COUNT : Nat := 8

/-- The size of the sector buffers, and the only `bytes_per_sector` that a mount accepts. -/
def SECTOR_SIZE : Nat := 512

/-! ### State and requests -/

/-- The fields of `mount_state` and its `mount_info` that do not change after a mount. -/
structure MountState where
  mounted : Bool
  writable : Bool
  fsInfoValid : Bool
  partitionStartLba : Nat
  bytesPerSector : Nat
  sectorsPerCluster : Nat
  fatCount : Nat
  reservedSectorCount : Nat
  sectorsPerFat : Nat
  firstDataSector : Nat
  logicalRootCluster : Nat
  fsInfoSector : Nat
  totalClusters : Nat

/-- `free_cluster_count` and `next_free_cluster_hint`. -/
structure FreeInfo where
  freeClusterCount : Nat
  nextFreeClusterHint : Nat
  deriving DecidableEq

/-- The `fat_cache` fields. -/
structure FatCache where
  valid : Bool
  firstSector : Nat
  sectorCount : Nat
  data : Buffer

/-- The device and what `mount_state` has that changes. -/
structure World where
  blockCount : Nat
  disk : Buffer
  cache : FatCache
  free : FreeInfo

/-- What a sector is written for. -/
inductive WriteKind where
  | fat
  | fsInfo
  | directory
  | data
  deriving DecidableEq

/-- What the driver asks for. The device does not see the kind of a write. `cachedFatSector` and
`refreshFatCache` are the sections under `s_fat_cache_lock` of `read_fat_value` and
`write_fat_value`. -/
inductive Request where
  | readBlocks (lba count : Nat)
  | writeBlocks (kind : WriteKind) (lba count : Nat) (data : Buffer)
  | cachedFatSector (sectorIndex : Nat)
  | refreshFatCache (fatSector : Nat) (sector : Buffer)
  | freeInfo
  | setFreeInfo (info : FreeInfo)

/-- What the driver gets. -/
abbrev Response : Request → Type
  | .readBlocks _ _ => Option Buffer
  | .writeBlocks _ _ _ _ => Bool
  | .cachedFatSector _ => Option Buffer
  | .refreshFatCache _ _ => Unit
  | .freeInfo => FreeInfo
  | .setFreeInfo _ => Unit

/-- A function of the driver. -/
abbrev Fat (α : Type) := Program Request Response α

/-- The range check of `block::read_blocks` and `block::write_blocks`. -/
def World.inRange (w : World) (lba count : Nat) : Prop :=
  count ≠ 0 ∧ lba < w.blockCount ∧ count ≤ w.blockCount - lba

instance (w : World) (lba count : Nat) : Decidable (w.inRange lba count) :=
  inferInstanceAs (Decidable (count ≠ 0 ∧ lba < w.blockCount ∧ count ≤ w.blockCount - lba))

/-- `block::read_blocks`. -/
def World.readBlocks (w : World) (lba count : Nat) : Option Buffer :=
  if w.inRange lba count then
    some fun i => if i < count * SECTOR_SIZE then w.disk (lba * SECTOR_SIZE + i) else 0
  else none

/-- `block::write_blocks`. -/
def World.writeBlocks (w : World) (lba count : Nat) (data : Buffer) : Bool × World :=
  if w.inRange lba count then
    (true, { w with
      disk := fun i =>
        if lba * SECTOR_SIZE ≤ i ∧ i < (lba + count) * SECTOR_SIZE
        then data (i - lba * SECTOR_SIZE) else w.disk i })
  else (false, w)

/-- Whether the cache holds a FAT sector. -/
def FatCache.hit (cache : FatCache) (sectorIndex : Nat) : Prop :=
  cache.valid = true ∧ cache.firstSector ≤ sectorIndex ∧
    sectorIndex < cache.firstSector + cache.sectorCount

instance (cache : FatCache) (sectorIndex : Nat) : Decidable (cache.hit sectorIndex) :=
  inferInstanceAs (Decidable (_ ∧ _ ∧ _))

/-- The sector of the cache that `read_cached_fat_sector` points to. -/
def FatCache.sector (cache : FatCache) (g : MountState) (sectorIndex : Nat) : Buffer :=
  fun i => cache.data ((sectorIndex - cache.firstSector) * g.bytesPerSector + i)

/-- What `read_cached_fat_sector` does. -/
def World.cachedFatSector (g : MountState) (w : World) (sectorIndex : Nat) :
    Option Buffer × World :=
  if sectorIndex ≥ g.sectorsPerFat then (none, w)
  else if w.cache.hit sectorIndex then (some (w.cache.sector g sectorIndex), w)
  else
    let firstSector := sectorIndex / FAT_CACHE_SECTOR_COUNT * FAT_CACHE_SECTOR_COUNT
    let sectorCount := min (g.sectorsPerFat - firstSector) FAT_CACHE_SECTOR_COUNT
    let lba := (g.partitionStartLba + g.reservedSectorCount + firstSector) % U64
    match w.readBlocks lba sectorCount with
    | none => (none, w)
    | some data =>
      let cache := { valid := true, firstSector, sectorCount, data }
      (some (cache.sector g sectorIndex), { w with cache })

/-- The locked section of `write_fat_value`. -/
def World.refreshFatCache (g : MountState) (w : World) (fatSector : Nat) (sector : Buffer) :
    World :=
  if w.cache.hit fatSector then
    let start := (fatSector - w.cache.firstSector) * g.bytesPerSector
    { w with cache := { w.cache with
        data := fun i =>
          if start ≤ i ∧ i < start + SECTOR_SIZE then sector (i - start) else w.cache.data i } }
  else w

/-- The environment of the driver: a device whose transfers succeed. -/
def deviceHandler (g : MountState) : Program.Handler Response World
  | .readBlocks lba count, w => (w.readBlocks lba count, w)
  | .writeBlocks _ lba count data, w => w.writeBlocks lba count data
  | .cachedFatSector sectorIndex, w => w.cachedFatSector g sectorIndex
  | .refreshFatCache fatSector sector, w => ((), w.refreshFatCache g fatSector sector)
  | .freeInfo, w => (w.free, w)
  | .setFreeInfo info, w => ((), { w with free := info })

/-- `read_sectors`. -/
def readSectors (lba count : Nat) : Fat (Option Buffer) :=
  Program.request (Request.readBlocks lba count)

/-- `write_sectors`. -/
def writeSectors (kind : WriteKind) (lba count : Nat) (data : Buffer) : Fat Bool :=
  Program.request (Request.writeBlocks kind lba count data)

/-- `read_cached_fat_sector`, under the lock of `read_fat_value`. -/
def readCachedFatSector (sectorIndex : Nat) : Fat (Option Buffer) :=
  Program.request (Request.cachedFatSector sectorIndex)

/-- The update of the cache in `write_fat_value`, under its lock. -/
def refreshFatCache (fatSector : Nat) (sector : Buffer) : Fat Unit :=
  Program.request (Request.refreshFatCache fatSector sector)

/-- The loads of `free_cluster_count` and `next_free_cluster_hint`. -/
def getFreeInfo : Fat FreeInfo := Program.request Request.freeInfo

/-- The stores of `free_cluster_count` and `next_free_cluster_hint`. -/
def setFreeInfo (info : FreeInfo) : Fat Unit := Program.request (Request.setFreeInfo info)

/-! ### Geometry -/

/-- `u32` subtraction. -/
def sub32 (a b : Nat) : Nat := (a + 2 ^ 32 - b) % 2 ^ 32

/-- `cluster_first_lba`. -/
def clusterFirstLba (g : MountState) (cluster : Nat) : Nat :=
  (g.partitionStartLba + g.firstDataSector + sub32 cluster 2 * g.sectorsPerCluster) % U64

/-- `cluster_size_bytes`. -/
def clusterSizeBytes (g : MountState) : Nat := g.bytesPerSector * g.sectorsPerCluster

/-- `is_data_cluster`. -/
def isDataCluster (cluster : Nat) : Prop := 2 ≤ cluster ∧ cluster < FAT32_END_OF_CHAIN

instance (cluster : Nat) : Decidable (isDataCluster cluster) :=
  inferInstanceAs (Decidable (_ ∧ _))

/-! ### The FAT -/

/-- `read_fat_value`. -/
def readFatValue (g : MountState) (cluster : Nat) : Fat (Option Nat) := do
  let fatOffset := cluster * 4 % 2 ^ 32
  let fatSector := fatOffset / g.bytesPerSector
  let entryOffset := fatOffset % g.bytesPerSector
  let some sector ← readCachedFatSector fatSector | return none
  return some (leValue sector entryOffset 4 % 2 ^ 28)

/-- The word that `write_fat_value` stores over `current`: its upper four bits stay. -/
def mergeFatValue (current value : Nat) : Nat := current / 2 ^ 28 * 2 ^ 28 + value % 2 ^ 28

/-- The loop of `write_fat_value`: the copies from `copyIndex` on. -/
def writeFatCopies (g : MountState) (fatSector entryOffset value : Nat) : Nat → Nat → Fat Bool
  | 0, _ => return true
  | copies + 1, copyIndex => do
      let lba := (g.partitionStartLba + g.reservedSectorCount +
        copyIndex * g.sectorsPerFat % 2 ^ 32 + fatSector) % U64
      let some sector ← readSectors lba 1 | return false
      let sector :=
        leStore sector entryOffset 4 (mergeFatValue (leValue sector entryOffset 4) value)
      let written ← writeSectors .fat lba 1 sector
      if !written then return false
      if copyIndex = 0 then refreshFatCache fatSector sector
      writeFatCopies g fatSector entryOffset value copies (copyIndex + 1)

/-- `write_fat_value`. -/
def writeFatValue (g : MountState) (cluster value : Nat) : Fat Bool :=
  let fatOffset := cluster * 4 % 2 ^ 32
  writeFatCopies g (fatOffset / g.bytesPerSector) (fatOffset % g.bytesPerSector) value
    g.fatCount 0

/-- The sector that `update_fsinfo` writes, a `FAT32FSInfo`. -/
def fsInfoBytes (info : FreeInfo) : Buffer :=
  let b := leStore (fun _ => 0) 0 4 FAT32_FSINFO_SIGNATURE_1
  let b := leStore b 484 4 FAT32_FSINFO_SIGNATURE_2
  let b := leStore b 488 4 info.freeClusterCount
  let b := leStore b 492 4 info.nextFreeClusterHint
  leStore b 508 4 FAT32_FSINFO_SIGNATURE_3

/-- `update_fsinfo`. -/
def updateFsinfo (g : MountState) (info : FreeInfo) : Fat Bool := do
  if !g.fsInfoValid || g.fsInfoSector = 0 then
    setFreeInfo info
    return true
  let lba := (g.partitionStartLba + g.fsInfoSector) % U64
  let written ← writeSectors .fsInfo lba 1 (fsInfoBytes info)
  if !written then return false
  setFreeInfo info
  return true

/-- How a pass of `allocate_cluster` ends: it returns `false`, or comes to its end, or has
marked a cluster. -/
inductive ClusterSearch where
  | failed
  | exhausted
  | found (cluster : Nat)
  deriving DecidableEq

/-- The hint after a cluster was taken. -/
def nextHint (maxCluster cluster : Nat) : Nat :=
  let next := (cluster + 1) % 2 ^ 32
  if next < 2 ∨ next > maxCluster then 2 else next

/-- The inner loop of `allocate_cluster`. Its counter is a `u32`: behind the largest of them it
is 0 again, and a `maxCluster` that is the largest never stops the loop. -/
def searchCluster (g : MountState) (maxCluster : Nat) : Nat → Nat → Fat ClusterSearch
  | 0, _ => Program.diverge
  | rounds + 1, cluster => do
      if cluster > maxCluster then return .exhausted
      let some value ← readFatValue g cluster | return .failed
      if value ≠ 0 then searchCluster g maxCluster rounds ((cluster + 1) % 2 ^ 32)
      else
        let marked ← writeFatValue g cluster FAT32_END_OF_CHAIN
        if !marked then return .failed
        let info ← getFreeInfo
        let count := if info.freeClusterCount = FAT32_FSINFO_UNKNOWN then FAT32_FSINFO_UNKNOWN
          else sub32 info.freeClusterCount 1
        let updated ← updateFsinfo g ⟨count, nextHint maxCluster cluster⟩
        if !updated then return .failed
        return .found cluster

/-- A pass behind the last cluster. -/
theorem searchCluster_exhausted (g : MountState) {maxCluster cluster : Nat} (rounds : Nat)
    (h : maxCluster < cluster) :
    searchCluster g maxCluster (rounds + 1) cluster = return .exhausted := by
  rw [searchCluster, if_pos h]

/-- A round of a pass whose counter does not wrap. -/
theorem searchCluster_round (g : MountState) {maxCluster cluster : Nat} (rounds : Nat)
    (hmax : maxCluster + 1 < 2 ^ 32) (h : cluster ≤ maxCluster) :
    searchCluster g maxCluster (rounds + 1) cluster = (do
      let some value ← readFatValue g cluster | return .failed
      if value ≠ 0 then searchCluster g maxCluster rounds (cluster + 1)
      else
        let marked ← writeFatValue g cluster FAT32_END_OF_CHAIN
        if !marked then return .failed
        let info ← getFreeInfo
        let count := if info.freeClusterCount = FAT32_FSINFO_UNKNOWN then FAT32_FSINFO_UNKNOWN
          else sub32 info.freeClusterCount 1
        let updated ← updateFsinfo g ⟨count, nextHint maxCluster cluster⟩
        if !updated then return .failed
        return .found cluster) := by
  rw [searchCluster, if_neg (Nat.not_lt.mpr h), Nat.mod_eq_of_lt (by omega)]

/-- The rounds of a pass: two turns of its counter. A pass that has not ended then does not end,
since a third turn reads what the second one has read. -/
def SEARCH_ROUNDS : Nat := 2 * 2 ^ 32

/-- Where `allocate_cluster` starts. -/
def startCluster (maxCluster hint : Nat) : Nat := if hint < 2 ∨ hint > maxCluster then 2 else hint

/-- `allocate_cluster`. -/
def allocateCluster (g : MountState) : Fat (Option Nat) := do
  let maxCluster := (g.totalClusters + 1) % 2 ^ 32
  let info ← getFreeInfo
  let start := startCluster maxCluster info.nextFreeClusterHint
  match ← searchCluster g maxCluster SEARCH_ROUNDS start with
  | .failed => return none
  | .found cluster => return some cluster
  | .exhausted =>
    match ← searchCluster g maxCluster SEARCH_ROUNDS 2 with
    | .found cluster => return some cluster
    | _ => return none

/-- The loop of `free_cluster_chain`, with the number of freed clusters. -/
def freeChainLoop (g : MountState) : Nat → Nat → Nat → Fat (Option Nat)
  | 0, _, _ => Program.diverge
  | rounds + 1, current, freed => do
      let some next ← readFatValue g current | return none
      let written ← writeFatValue g current 0
      if !written then return none
      let freed := (freed + 1) % 2 ^ 32
      if ¬ isDataCluster next then return some freed
      freeChainLoop g rounds next freed

/-- `free_cluster_chain`. -/
def freeClusterChain (g : MountState) (rounds firstCluster : Nat) : Fat Bool := do
  if ¬ isDataCluster firstCluster then return true
  let some freed ← freeChainLoop g rounds firstCluster 0 | return false
  let info ← getFreeInfo
  let count := if info.freeClusterCount = FAT32_FSINFO_UNKNOWN then FAT32_FSINFO_UNKNOWN
    else (info.freeClusterCount + freed) % 2 ^ 32
  let hint := if info.nextFreeClusterHint = FAT32_FSINFO_UNKNOWN then firstCluster
    else min firstCluster info.nextFreeClusterHint
  updateFsinfo g ⟨count, hint⟩

/-- The loop of `zero_cluster`, over the last `sectors` sectors. -/
def zeroSectors (g : MountState) (cluster : Nat) : Nat → Fat Bool
  | 0 => return true
  | sectors + 1 => do
      let sectorIndex := g.sectorsPerCluster - (sectors + 1)
      let lba := add64 (clusterFirstLba g cluster) sectorIndex
      let written ← writeSectors .directory lba 1 fun _ => 0
      if !written then return false
      zeroSectors g cluster sectors

/-- `zero_cluster`. -/
def zeroCluster (g : MountState) (cluster : Nat) : Fat Bool :=
  zeroSectors g cluster g.sectorsPerCluster

/-- `append_directory_cluster`. -/
def appendDirectoryCluster (g : MountState) (rounds lastCluster : Nat) : Fat (Option Nat) := do
  let some newCluster ← allocateCluster g | return none
  let zeroed ← zeroCluster g newCluster
  if !zeroed then
    let _ ← freeClusterChain g rounds newCluster
    return none
  let linked ← writeFatValue g lastCluster newCluster
  if !linked then
    let _ ← freeClusterChain g rounds newCluster
    return none
  return some newCluster

end VKernel.Fs.Fat32

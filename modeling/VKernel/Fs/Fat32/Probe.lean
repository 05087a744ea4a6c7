import VKernel.Fs.Fat32.Volume

/-!
# `VKernel.Fs.Fat32.Probe`: mounting a volume

`probeVolume` is `probe_volume`: the boot sector of a partition is checked and turned into a
`MountState`, with the count and the hint of the FSInfo sector when that has its signatures.
All sizes are computed in `u32`. The number of sectors of the partition plays no part in it.

A mount starts with an empty FAT cache.
-/

set_option autoImplicit false

namespace VKernel.Fs.Fat32

open VKernel.Lib

/-- `FAT32_MIN_CLUSTER_COUNT`. -/
def FAT32_MIN_CLUSTER_COUNT : Nat := 65525

/-- The fields of `DOS3BIOSParameterBlock` and `DOS7BIOSParameterBlock` that `probe_volume`
reads. -/
structure BootSector where
  bytesPerSector : Nat
  sectorsPerCluster : Nat
  reservedSectorCount : Nat
  fatCount : Nat
  rootDirectoryEntryCount : Nat
  sectorCount16 : Nat
  sectorsPerFat16 : Nat
  sectorCount32 : Nat
  sectorsPerFat32 : Nat
  rootDirectoryCluster : Nat
  fsInfoSector : Nat
  signature : Nat
  bootSignature : Nat
  deriving DecidableEq

/-- The fields at their offsets. The second block starts at `0x24`. -/
def BootSector.ofBytes (sector : Buffer) : BootSector where
  bytesPerSector := leValue sector 11 2
  sectorsPerCluster := leValue sector 13 1
  reservedSectorCount := leValue sector 14 2
  fatCount := leValue sector 16 1
  rootDirectoryEntryCount := leValue sector 17 2
  sectorCount16 := leValue sector 19 2
  sectorsPerFat16 := leValue sector 22 2
  sectorCount32 := leValue sector 32 4
  sectorsPerFat32 := leValue sector 36 4
  rootDirectoryCluster := leValue sector 44 4
  fsInfoSector := leValue sector 48 2
  signature := leValue sector 66 1
  bootSignature := leValue sector 510 2

namespace BootSector

variable (b : BootSector)

/-- `sectors_per_fat`. -/
def sectorsPerFat : Nat := if b.sectorsPerFat16 ≠ 0 then b.sectorsPerFat16 else b.sectorsPerFat32

/-- `total_sectors`. -/
def totalSectors : Nat := if b.sectorCount16 ≠ 0 then b.sectorCount16 else b.sectorCount32

/-- `root_directory_sectors`. -/
def rootDirectorySectors : Nat :=
  (b.rootDirectoryEntryCount * 32 + (b.bytesPerSector - 1)) / b.bytesPerSector

/-- `non_data_sectors`. -/
def nonDataSectors : Nat :=
  (b.reservedSectorCount + b.fatCount * b.sectorsPerFat % 2 ^ 32 + b.rootDirectorySectors) % 2 ^ 32

/-- `total_clusters`. -/
def totalClusters : Nat := (b.totalSectors - b.nonDataSectors) / b.sectorsPerCluster

/-- The checks of `probe_volume`, on a device with blocks of 512 bytes. -/
def Accepted : Prop :=
  b.bootSignature = 0xAA55 ∧ b.bytesPerSector = 512 ∧ b.sectorsPerCluster ≠ 0 ∧
    b.sectorsPerCluster &&& (b.sectorsPerCluster - 1) = 0 ∧ b.reservedSectorCount ≠ 0 ∧
    b.fatCount ≠ 0 ∧ b.sectorsPerFat ≠ 0 ∧ b.totalSectors ≠ 0 ∧
    b.nonDataSectors < b.totalSectors ∧ FAT32_MIN_CLUSTER_COUNT ≤ b.totalClusters ∧
    (b.signature = 0x28 ∨ b.signature = 0x29) ∧ 2 ≤ b.rootDirectoryCluster

instance : Decidable b.Accepted := inferInstanceAs (Decidable (_ ∧ _))

end BootSector

/-- The FSInfo sector has its three signatures. -/
def isFsInfo (sector : Buffer) : Bool :=
  leValue sector 0 4 == FAT32_FSINFO_SIGNATURE_1 &&
    leValue sector 484 4 == FAT32_FSINFO_SIGNATURE_2 &&
    leValue sector 508 4 == FAT32_FSINFO_SIGNATURE_3

/-- The mount of an accepted boot sector. -/
def BootSector.mount (b : BootSector) (writable : Bool) (startLba : Nat) (fsInfoValid : Bool) :
    MountState where
  mounted := true
  writable := writable
  fsInfoValid := fsInfoValid
  partitionStartLba := startLba
  bytesPerSector := b.bytesPerSector
  sectorsPerCluster := b.sectorsPerCluster
  fatCount := b.fatCount
  reservedSectorCount := b.reservedSectorCount
  sectorsPerFat := b.sectorsPerFat
  firstDataSector := b.nonDataSectors
  logicalRootCluster := b.rootDirectoryCluster
  fsInfoSector := b.fsInfoSector
  totalClusters := b.totalClusters

/-- `probe_volume`, for a device whose driver can write or not. -/
def probeVolume (writable : Bool) (startLba : Nat) : Fat (Option (MountState × FreeInfo)) := do
  let some sector ← readSectors startLba 1 | return none
  let b := BootSector.ofBytes sector
  if ¬ b.Accepted then return none
  let unknown : FreeInfo := ⟨FAT32_FSINFO_UNKNOWN, FAT32_FSINFO_UNKNOWN⟩
  if b.fsInfoSector = 0 then return some (b.mount writable startLba false, unknown)
  let fsInfo ← readSectors (add64 startLba b.fsInfoSector) 1
  match fsInfo with
  | some fsInfo =>
    if isFsInfo fsInfo then
      return some (b.mount writable startLba true,
        ⟨leValue fsInfo 488 4, leValue fsInfo 492 4⟩)
    else return some (b.mount writable startLba false, unknown)
  | none => return some (b.mount writable startLba false, unknown)

/-- A device before a mount: the cache is empty. -/
def World.unmounted (blockCount : Nat) (disk : Buffer) : World where
  blockCount := blockCount
  disk := disk
  cache := ⟨false, 0, 0, fun _ => 0⟩
  free := ⟨0, 0⟩

/-- `g` is what a mount of the partition at `startLba` makes of a disk, and `w` is the state
after it. -/
def Mounts (blockCount : Nat) (disk : Buffer) (writable : Bool) (startLba : Nat) (g : MountState)
    (w : World) : Prop :=
  ∃ free, (probeVolume writable startLba).run (deviceHandler g) (.unmounted blockCount disk) =
      some (some (g, free), .unmounted blockCount disk) ∧
    w = { World.unmounted blockCount disk with free := free }

end VKernel.Fs.Fat32

import VKernel.Fs.Fat32.Directory
import VKernel.Lib.Chains

/-!
# `VKernel.Fs.Fat32.Soundness`: the volume as the driver sees it

The driver works on the values of the first FAT and on the bytes of the clusters: `View` is
that pair, and `viewOf` reads it off the device, for a volume with a valid geometry
(`ValidMount`). The FAT is an allocation table whose values are `Link`s, and a directory is
the list of the slots of its clusters.

`Good` is what a mount establishes and every request keeps: a valid geometry, and a cache that
holds what the first FAT has on the disk.
-/

set_option autoImplicit false

namespace VKernel.Fs.Fat32

open VKernel.Lib

/-! ### Geometry and view -/

/-- A volume whose areas lie one after the other inside the device: the reserved sectors with
the FSInfo sector, the FATs, each of which has an entry for every cluster, and the clusters. -/
structure ValidMount (g : MountState) (blockCount : Nat) : Prop where
  sector : g.bytesPerSector = 512
  cluster : 0 < g.sectorsPerCluster
  fats : 0 < g.fatCount
  fatArea : g.fatCount * g.sectorsPerFat < 2 ^ 32
  covers : g.totalClusters + 2 ≤ g.sectorsPerFat * 128
  data : g.reservedSectorCount + g.fatCount * g.sectorsPerFat ≤ g.firstDataSector
  clusters : g.totalClusters + 1 < 0x0FFFFFF7
  fits : g.partitionStartLba + g.firstDataSector + g.totalClusters * g.sectorsPerCluster ≤
    blockCount
  wide : blockCount < U64
  fsInfo : g.fsInfoValid = true → g.fsInfoSector ≠ 0 → g.fsInfoSector < g.reservedSectorCount

/-- The clusters of the volume. -/
def InVolume (g : MountState) (c : Nat) : Prop := 2 ≤ c ∧ c ≤ g.totalClusters + 1

instance (g : MountState) (c : Nat) : Decidable (InVolume g c) :=
  inferInstanceAs (Decidable (_ ∧ _))

/-- Where the FAT entry of a cluster lies, in the first FAT. -/
def fatAddress (g : MountState) (c : Nat) : Nat :=
  (g.partitionStartLba + g.reservedSectorCount) * 512 + 4 * c

/-- Where a byte of a cluster lies. -/
def dataAddress (g : MountState) (c offset : Nat) : Nat :=
  (g.partitionStartLba + g.firstDataSector + (c - 2) * g.sectorsPerCluster) * 512 + offset

/-- The values of the FAT and the bytes of the clusters. -/
structure View where
  fat : Nat → Nat
  byte : Nat → Nat → UInt8

/-- What a device holds. -/
def viewOf (g : MountState) (w : World) : View where
  fat c := if c ≤ g.totalClusters + 1 then leValue w.disk (fatAddress g c) 4 % 2 ^ 28 else 0
  byte c offset :=
    if InVolume g c ∧ offset < 512 * g.sectorsPerCluster then w.disk (dataAddress g c offset) else 0

/-- The cache holds what the first FAT has on the disk. -/
def Coherent (g : MountState) (w : World) : Prop :=
  w.cache.valid = true →
    w.cache.firstSector + w.cache.sectorCount ≤ g.sectorsPerFat ∧
    ∀ i < w.cache.sectorCount * 512, w.cache.data i =
      w.disk ((g.partitionStartLba + g.reservedSectorCount + w.cache.firstSector) * 512 + i)

/-- A mounted volume: its geometry is valid, and the cache holds what is on the disk. -/
structure Good (g : MountState) (w : World) : Prop where
  mount : ValidMount g w.blockCount
  coherent : Coherent g w

/-- The view with another FAT value. -/
def View.setFat (v : View) (c value : Nat) : View := { v with fat := Function.update v.fat c value }

/-- The view with other bytes from an offset of a cluster on. -/
def View.setBytes (v : View) (c start n : Nat) (data : Buffer) : View :=
  { v with byte := fun c' o =>
      if c' = c ∧ start ≤ o ∧ o < start + n then data (o - start) else v.byte c' o }

/-- The view with the FAT values of some clusters cleared. -/
def View.clear (v : View) (cs : List Nat) : View :=
  { v with fat := fun c => if c ∈ cs then 0 else v.fat c }

/-! ### The FAT -/

/-- The mark of a bad cluster. -/
def BAD_CLUSTER : Nat := 0x0FFFFFF7

/-- What a FAT value says. -/
def linkOf (value : Nat) : Link Nat :=
  if value = 0 then .free
  else if value ≥ FAT32_END_OF_CHAIN then .last
  else if value = BAD_CLUSTER then .bad
  else .next value

/-- The FAT as an allocation table. -/
def View.link (v : View) (c : Nat) : Link Nat := linkOf (v.fat c)

/-! ### Directories -/

/-- The slots of a sector of a cluster. -/
def sectorOf (g : MountState) (v : View) (c i : Nat) : List (EntryLocation × FatEntry) :=
  sectorSlots g (add64 (clusterFirstLba g c) i) fun j => v.byte c (512 * i + j)

/-- The slots of a cluster. -/
def clusterSlots (g : MountState) (v : View) (c : Nat) : List (EntryLocation × FatEntry) :=
  (List.range g.sectorsPerCluster).flatMap (sectorOf g v c)

/-- The slots of the directory with the clusters `cs`. -/
def dirSlots (g : MountState) (v : View) (cs : List Nat) : List (EntryLocation × FatEntry) :=
  cs.flatMap (clusterSlots g v)

/-- A slot with an entry that `scan_directory` shows. -/
def FatEntry.IsLive (e : FatEntry) : Prop :=
  e.firstByte ≠ DIR_ENTRY_END ∧ e.firstByte ≠ DIR_ENTRY_UNUSED ∧
    e.attributes ≠ ATTR_LONG_FILE_NAME ∧ ¬ e.isVolumeLabel = true

instance (e : FatEntry) : Decidable e.IsLive := inferInstanceAs (Decidable (_ ∧ _ ∧ _ ∧ _))

end VKernel.Fs.Fat32

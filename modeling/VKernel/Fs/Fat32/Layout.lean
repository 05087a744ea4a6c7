import VKernel.Fs.Fat32.Probe
import VKernel.Fs.Fat32.Soundness

/-!
# `VKernel.Fs.Fat32.Layout`: where the areas of a volume lie

`probe_volume` takes the sizes of the areas from the boot sector: the reserved sectors, the
copies of the FAT, the root directory of older formats, and the clusters. `SoundGeometry` says
what the rest of the driver expects of them, and `BootSector.Fits` is the arithmetic of the
fields that it comes down to.
-/

set_option autoImplicit false

namespace VKernel.Fs.Fat32

open VKernel.Lib

/-- The FAT sector and the offset in it at which `read_fat_value` and `write_fat_value` look for
the entry of a cluster. -/
def fatEntry (g : MountState) (cluster : Nat) : Nat × Nat :=
  (cluster * 4 % 2 ^ 32 / g.bytesPerSector, cluster * 4 % 2 ^ 32 % g.bytesPerSector)

namespace BootSector

variable (b : BootSector)

/-- The sectors in front of the clusters. -/
def overhead : Nat := b.reservedSectorCount + b.fatCount * b.sectorsPerFat + b.rootDirectorySectors

/-- The clusters behind these sectors. -/
def clusters : Nat := (b.totalSectors - b.overhead) / b.sectorsPerCluster

/-- The sum of the areas is a `u32`, and each FAT has an entry of its own for every cluster.
Since an entry is addressed by a `u32` byte offset, entry `2 ^ 30` is entry 0 again. -/
def Fits : Prop :=
  b.overhead < 2 ^ 32 ∧ b.clusters ≤ 2 ^ 30 ∧ min (b.clusters + 2) (2 ^ 30) ≤ b.sectorsPerFat * 128

instance : Decidable b.Fits := inferInstanceAs (Decidable (_ ∧ _))

end BootSector

/-- The geometry of a mount agrees with its boot sector: the data area begins behind the
others and lies in the volume, and the FAT has an entry of its own for every cluster. -/
structure SoundGeometry (b : BootSector) (g : MountState) : Prop where
  firstData : g.firstDataSector =
    b.reservedSectorCount + b.fatCount * b.sectorsPerFat + b.rootDirectorySectors
  data : g.firstDataSector + g.totalClusters * g.sectorsPerCluster ≤ b.totalSectors
  inRange : ∀ c, InVolume g c →
    (fatEntry g c).1 < g.sectorsPerFat ∧ (fatEntry g c).2 + 4 ≤ g.bytesPerSector
  distinct : ∀ c c', InVolume g c → InVolume g c' → fatEntry g c = fatEntry g c' → c = c'

end VKernel.Fs.Fat32

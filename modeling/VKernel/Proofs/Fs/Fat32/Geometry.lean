import VKernel.Fs.Fat32.Layout
import VKernel.Proofs.Fs.Fat32.Termination
import VKernel.Proofs.Fs.Fat32.VolumeView

/-!
# `VKernel.Proofs.Fs.Fat32.Geometry`: which volumes have a sound geometry

`probe_volume` computes the sizes of a volume in `u32` and compares the FAT neither with the
clusters nor with what its entries can address. `volume_geometry_iff` says for which of the
boot sectors that it accepts the result is a sound geometry.
-/

set_option autoImplicit false

namespace VKernel.Proofs.Fs

open VKernel.Lib VKernel.Fs VKernel.Fs.Fat32

variable {b : BootSector} {writable : Bool} {startLba : Nat} {valid : Bool}

/-- The sectors in front of the data area as `probe_volume` adds them up. -/
theorem nonDataSectors_eq (b : BootSector) : b.nonDataSectors = b.overhead % 2 ^ 32 := by
  unfold BootSector.nonDataSectors BootSector.overhead
  rw [Nat.add_right_comm, Nat.add_mod_mod, Nat.add_right_comm]

/-- Without a wrap, `total_clusters` is the number of clusters that fit. -/
theorem totalClusters_eq (hfits : b.overhead < 2 ^ 32) : b.totalClusters = b.clusters := by
  unfold BootSector.totalClusters BootSector.clusters
  rw [nonDataSectors_eq, Nat.mod_eq_of_lt hfits]

/-- The entry of a cluster, in sectors of 512 bytes. -/
theorem fatEntry_eq {g : MountState} (hbytes : g.bytesPerSector = 512) (c : Nat) :
    fatEntry g c = (c % 2 ^ 30 / 128, 4 * (c % 128)) := by
  unfold fatEntry
  rw [hbytes]
  ext
  · show c * 4 % 2 ^ 32 / 512 = c % 2 ^ 30 / 128
    omega
  · show c * 4 % 2 ^ 32 % 512 = 4 * (c % 128)
    omega

section Mount

variable (haccepted : b.Accepted)

include haccepted

/-- The geometry is sound when the areas fit. -/
theorem soundGeometry_of_fits (hfits : b.Fits) :
    SoundGeometry b (b.mount writable startLba valid) := by
  obtain ⟨hsum, hclusters, hcovers⟩ := hfits
  obtain ⟨-, hbytes, -, -, -, -, -, -, hbehind, -⟩ := haccepted
  have htotal : (b.mount writable startLba valid).totalClusters = b.clusters :=
    totalClusters_eq hsum
  have hfirst : (b.mount writable startLba valid).firstDataSector = b.overhead := by
    show b.nonDataSectors = b.overhead
    rw [nonDataSectors_eq, Nat.mod_eq_of_lt hsum]
  have hentry := fatEntry_eq (g := b.mount writable startLba valid) hbytes
  refine ⟨hfirst, ?_, ?_, ?_⟩
  · rw [hfirst, htotal]
    have hdiv : b.clusters * b.sectorsPerCluster ≤ b.totalSectors - b.overhead :=
      Nat.div_mul_le_self _ _
    rw [nonDataSectors_eq, Nat.mod_eq_of_lt hsum] at hbehind
    show b.overhead + b.clusters * b.sectorsPerCluster ≤ b.totalSectors
    omega
  · intro c hc
    have hmax := hc.2
    rw [htotal] at hmax
    rw [hentry c, show (b.mount writable startLba valid).bytesPerSector = 512 from hbytes]
    refine ⟨?_, by omega⟩
    show c % 2 ^ 30 / 128 < b.sectorsPerFat
    omega
  · intro c c' hc hc' heq
    have hmax := hc.2
    have hmax' := hc'.2
    rw [htotal] at hmax hmax'
    rw [hentry c, hentry c', Prod.mk.injEq] at heq
    have hlow := hc.1
    have hlow' := hc'.1
    omega

/-- A sound geometry comes from areas that fit. -/
theorem fits_of_soundGeometry (h : SoundGeometry b (b.mount writable startLba valid)) :
    b.Fits := by
  obtain ⟨-, hbytes, -, -, -, -, -, -, -, hmin, -⟩ := haccepted
  have hsum : b.overhead < 2 ^ 32 := by
    have hfirst : b.nonDataSectors = b.overhead := h.firstData
    rw [nonDataSectors_eq] at hfirst
    omega
  have htotal : (b.mount writable startLba valid).totalClusters = b.clusters :=
    totalClusters_eq hsum
  rw [totalClusters_eq hsum] at hmin
  unfold FAT32_MIN_CLUSTER_COUNT at hmin
  have hentry := fatEntry_eq (g := b.mount writable startLba valid) hbytes
  refine ⟨hsum, ?_, ?_⟩
  · -- clusters 2 and 2 ^ 30 + 2 would share an entry
    by_contra hgt
    have hshared := h.distinct 2 (2 ^ 30 + 2) ⟨Nat.le_refl 2, by rw [htotal]; omega⟩
      ⟨by omega, by rw [htotal]; omega⟩
    rw [hentry 2, hentry (2 ^ 30 + 2)] at hshared
    exact absurd (hshared (by decide)) (by decide)
  · have hlast := (h.inRange (min (b.clusters + 1) (2 ^ 30 - 1))
      ⟨by omega, by rw [htotal]; omega⟩).1
    rw [hentry] at hlast
    have hsector : min (b.clusters + 1) (2 ^ 30 - 1) % 2 ^ 30 / 128 < b.sectorsPerFat := hlast
    omega

end Mount

/-- A successful `probe_volume` has accepted the boot sector of the partition and mounts it. -/
theorem probed_boot {sector : Buffer} {w w' : World} {g g₀ : MountState} {free : FreeInfo}
    (hread : w.readBlocks startLba 1 = some sector)
    (hprobe : (probeVolume writable startLba).run (deviceHandler g₀) w =
      some (some (g, free), w')) :
    (BootSector.ofBytes sector).Accepted ∧
      ∃ valid, g = (BootSector.ofBytes sector).mount writable startLba valid := by
  have hstep : (readSectors startLba 1).run (deviceHandler g₀) w = some (some sector, w) :=
    congrArg (fun sector => some (sector, w)) hread
  unfold probeVolume at hprobe
  rw [Program.run_bind hstep] at hprobe
  dsimp only at hprobe
  split at hprobe
  · cases hprobe
  rename_i haccepted
  refine ⟨Decidable.not_not.mp haccepted, ?_⟩
  split at hprobe
  · cases hprobe
    exact ⟨false, rfl⟩
  obtain ⟨fsInfo, w₁, -, hrest⟩ := Program.run_bind_eq_some hprobe
  cases fsInfo with
  | none =>
    cases hrest
    exact ⟨false, rfl⟩
  | some fsInfo =>
    dsimp only at hrest
    split at hrest
    · cases hrest
      exact ⟨true, rfl⟩
    · cases hrest
      exact ⟨false, rfl⟩

/-- A volume that `probe_volume` accepts has a sound geometry exactly when the fields of its
boot sector fit together. -/
theorem volume_geometry_iff {sector : Buffer} {w w' : World} {g g₀ : MountState} {free : FreeInfo}
    (hread : w.readBlocks startLba 1 = some sector)
    (hprobe : (probeVolume writable startLba).run (deviceHandler g₀) w =
      some (some (g, free), w')) :
    SoundGeometry (.ofBytes sector) g ↔ (BootSector.ofBytes sector).Fits := by
  obtain ⟨haccepted, valid, rfl⟩ := probed_boot hread hprobe
  exact ⟨fits_of_soundGeometry haccepted, soundGeometry_of_fits haccepted⟩

/-- A boot sector: one sector per cluster, one reserved sector, one FAT of 512 sectors and 65525
clusters. -/
def fittingSector : Buffer := fun i =>
  if i = 12 ∨ i = 37 ∨ i = 44 then 2
  else if i = 13 ∨ i = 14 ∨ i = 16 ∨ i = 33 ∨ i = 34 then 1
  else if i = 32 then 0xF6
  else if i = 66 then 0x29
  else if i = 510 then 0x55
  else if i = 511 then 0xAA
  else 0

/-- A boot sector with two FATs of `2 ^ 31` sectors: their sizes add up to 0. -/
def wrappingSector : Buffer := fun i =>
  if i = 12 ∨ i = 16 ∨ i = 44 then 2
  else if i = 13 ∨ i = 14 then 1
  else if i = 39 then 0x80
  else if i = 32 then 0xF6
  else if i = 33 then 0xFF
  else if i = 66 then 0x29
  else if i = 510 then 0x55
  else if i = 511 then 0xAA
  else 0

/-- The first sector of a disk. -/
theorem readBlocks_first {sector : Buffer} (hsector : ∀ i, 512 ≤ i → sector i = 0) :
    (World.unmounted 100000 sector).readBlocks 0 1 = some sector := by
  rw [readBlocks_eq (by decide) (show 0 + 1 ≤ 100000 by decide)]
  congr 1
  funext i
  by_cases hi : i < 1 * 512
  · rw [if_pos hi, Nat.zero_mul, Nat.zero_add]
    rfl
  · rw [if_neg hi, hsector i (by omega)]

theorem readBlocks_fitting :
    (World.unmounted 100000 fittingSector).readBlocks 0 1 = some fittingSector := by
  apply readBlocks_first
  intro i hi
  unfold fittingSector
  simp only [show i ≠ 12 ∧ i ≠ 37 ∧ i ≠ 44 ∧ i ≠ 13 ∧ i ≠ 14 ∧ i ≠ 16 ∧ i ≠ 33 ∧ i ≠ 34 ∧ i ≠ 32 ∧
    i ≠ 66 ∧ i ≠ 510 ∧ i ≠ 511 by omega, or_self, if_false]

theorem readBlocks_wrapping :
    (World.unmounted 100000 wrappingSector).readBlocks 0 1 = some wrappingSector := by
  apply readBlocks_first
  intro i hi
  unfold wrappingSector
  simp only [show i ≠ 12 ∧ i ≠ 16 ∧ i ≠ 44 ∧ i ≠ 13 ∧ i ≠ 14 ∧ i ≠ 39 ∧ i ≠ 32 ∧ i ≠ 33 ∧ i ≠ 66 ∧
    i ≠ 510 ∧ i ≠ 511 by omega, or_self, if_false]

/-- The volume with a FAT of 512 sectors. -/
theorem volume_geometry_fitting :
    SoundGeometry (.ofBytes fittingSector)
      ((BootSector.ofBytes fittingSector).mount true 0 false) :=
  have hprobe : (probeVolume true 0).run (deviceHandler bootVolume) _ = _ :=
    run_probeVolume readBlocks_fitting (by decide) (by decide)
  (volume_geometry_iff readBlocks_fitting hprobe).mpr (by decide)

/-- `probe_volume` accepts a volume of 65525 clusters whose FAT has 128 entries, so that cluster
128 has none. It accepts two FATs of `2 ^ 31` sectors, with the data area in sector 1. -/
theorem probe_accepts_unsound_geometry :
    (∃ w w' sector g free, w.readBlocks 0 1 = some sector ∧
      (probeVolume true 0).run (deviceHandler g) w = some (some (g, free), w') ∧
      InVolume g 128 ∧ ¬ (fatEntry g 128).1 < g.sectorsPerFat ∧
      ¬ SoundGeometry (.ofBytes sector) g) ∧
    ∃ w w' sector g free, w.readBlocks 0 1 = some sector ∧
      (probeVolume true 0).run (deviceHandler g) w = some (some (g, free), w') ∧
      g.firstDataSector = 1 ∧ (BootSector.ofBytes sector).fatCount = 2 ∧
      (BootSector.ofBytes sector).sectorsPerFat = 2 ^ 31 ∧
      ¬ SoundGeometry (.ofBytes sector) g := by
  constructor
  · obtain ⟨free, hrun, -⟩ := mounts_bootVolume bootSector fun _ _ => rfl
    obtain ⟨sector, hread⟩ : ∃ sector,
        (World.unmounted 65527 bootSector).readBlocks 0 1 = some sector :=
      ⟨_, readBlocks_eq (by decide) (show 0 + 1 ≤ 65527 by decide)⟩
    have hin : InVolume bootVolume 128 := by decide
    have hshort : ¬ (fatEntry bootVolume 128).1 < bootVolume.sectorsPerFat := by decide
    exact ⟨_, _, sector, bootVolume, free, hread, hrun, hin, hshort,
      fun hsound => hshort (hsound.inRange 128 hin).1⟩
  · have hfirst : ((BootSector.ofBytes wrappingSector).mount true 0 false).firstDataSector = 1 := by
      decide
    refine ⟨_, _, wrappingSector, _, _, readBlocks_wrapping,
      run_probeVolume readBlocks_wrapping (by decide) (by decide), hfirst, by decide, by decide, ?_⟩
    intro hsound
    exact absurd hsound.firstData (by decide)

end VKernel.Proofs.Fs

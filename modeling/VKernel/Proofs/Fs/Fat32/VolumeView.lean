import VKernel.Fs.Fat32.Soundness

/-!
# `VKernel.Proofs.Fs.Fat32.VolumeView`: the FAT and the clusters behind the block requests

Above the requests, the driver works on a `View` of the device: the values of the FAT and the
bytes of the clusters. This module has one rule for each of the driver's primitives that says
what it does to the view: reading a FAT value or a sector of a cluster keeps it, writing one
changes one value or one sector, and the rest of the disk, the further copies of the FAT and
the cache do not show.

`Good` is what the rules need and every primitive keeps: the geometry of the volume is valid,
and the cache holds what is on the disk.
-/

set_option autoImplicit false

namespace VKernel.Fs.Fat32.ValidMount

variable {g : MountState} {blockCount : Nat}

/-- The first FAT lies in front of the data area. -/
theorem fat_le (h : ValidMount g blockCount) :
    g.reservedSectorCount + g.sectorsPerFat ≤ g.firstDataSector := by
  have hone : 1 * g.sectorsPerFat ≤ g.fatCount * g.sectorsPerFat := Nat.mul_le_mul_right _ h.fats
  have hdata := h.data
  omega

theorem covers_sector (h : ValidMount g blockCount) {c : Nat} (hc : c ≤ g.totalClusters + 1) :
    c * 4 / 512 < g.sectorsPerFat := by
  have hcovers := h.covers
  omega

/-- The sectors of a cluster lie on the device. -/
theorem cluster_le (h : ValidMount g blockCount) {c : Nat} (hc : InVolume g c) :
    g.partitionStartLba + g.firstDataSector + (c - 2) * g.sectorsPerCluster + g.sectorsPerCluster ≤
      blockCount := by
  have hmul : (c - 2 + 1) * g.sectorsPerCluster ≤ g.totalClusters * g.sectorsPerCluster := by
    apply Nat.mul_le_mul_right
    have := hc.1
    have := hc.2
    omega
  rw [Nat.add_mul, Nat.one_mul] at hmul
  have hfits := h.fits
  omega

theorem lt_two_pow (h : ValidMount g blockCount) {c : Nat} (hc : c ≤ g.totalClusters + 1) :
    c < 2 ^ 28 := by
  have hclusters := h.clusters
  omega

/-- `cluster_first_lba` does not wrap. -/
theorem clusterFirstLba_eq (h : ValidMount g blockCount) {c : Nat} (hc : InVolume g c) :
    clusterFirstLba g c =
      g.partitionStartLba + g.firstDataSector + (c - 2) * g.sectorsPerCluster := by
  have hle := h.cluster_le hc
  have hlt := h.lt_two_pow hc.2
  have hwide := h.wide
  have hpos := h.cluster
  have hsub : sub32 c 2 = c - 2 := by
    have h2 := hc.1
    unfold sub32
    rw [show c + 2 ^ 32 - 2 = (c - 2) + 2 ^ 32 by omega, Nat.add_mod_right,
      Nat.mod_eq_of_lt (by omega)]
  unfold clusterFirstLba
  rw [hsub, Nat.mod_eq_of_lt (by omega)]

/-- The sectors of a cluster, as the loops address them. -/
theorem sectorLba_eq (h : ValidMount g blockCount) {c i : Nat} (hc : InVolume g c)
    (hi : i < g.sectorsPerCluster) :
    add64 (clusterFirstLba g c) i =
      g.partitionStartLba + g.firstDataSector + (c - 2) * g.sectorsPerCluster + i := by
  have hle := h.cluster_le hc
  have hwide := h.wide
  rw [h.clusterFirstLba_eq hc, add64_eq (by omega)]

end VKernel.Fs.Fat32.ValidMount

namespace VKernel.Proofs.Fs

open VKernel.Lib VKernel.Fs VKernel.Fs.Fat32

/-! ### Reading -/

section Rules

variable {g : MountState} {w : World}

theorem viewOf_congr {w' : World} (h : w'.disk = w.disk) : viewOf g w' = viewOf g w := by
  unfold viewOf
  rw [h]

/-- A block read inside the device. -/
theorem readBlocks_eq {lba count : Nat} (hcount : count ≠ 0) (hfits : lba + count ≤ w.blockCount) :
    w.readBlocks lba count =
      some fun i => if i < count * 512 then w.disk (lba * 512 + i) else 0 := by
  unfold World.readBlocks SECTOR_SIZE
  rw [if_pos ⟨hcount, by omega, by omega⟩]

/-- A block write inside the device. -/
theorem writeBlocks_eq {lba : Nat} (data : Buffer) (hfits : lba + 1 ≤ w.blockCount) :
    w.writeBlocks lba 1 data =
      (true, { w with disk := fun i =>
        if lba * 512 ≤ i ∧ i < (lba + 1) * 512 then data (i - lba * 512) else w.disk i }) := by
  unfold World.writeBlocks SECTOR_SIZE
  rw [if_pos ⟨by omega, by omega, by omega⟩]

/-- The FAT sector that the cache hands out is the one on the disk. -/
theorem cachedFatSector_spec (hw : Good g w) {s : Nat} (hs : s < g.sectorsPerFat) :
    ∃ sector w', w.cachedFatSector g s = (some sector, w') ∧ Good g w' ∧ w'.disk = w.disk ∧
      w'.free = w.free ∧ ∀ i < 512,
        sector i = w.disk ((g.partitionStartLba + g.reservedSectorCount + s) * 512 + i) := by
  have hfat := hw.mount.fat_le
  have hfits := hw.mount.fits
  have hwide := hw.mount.wide
  unfold World.cachedFatSector
  rw [if_neg (by omega)]
  by_cases hhit : w.cache.hit s
  · refine ⟨_, w, if_pos hhit, hw, rfl, rfl, ?_⟩
    intro i hi
    obtain ⟨hvalid, hfirst, hlast⟩ := hhit
    have hcoh := (hw.coherent hvalid).2 ((s - w.cache.firstSector) * 512 + i) (by omega)
    unfold FatCache.sector
    rw [hw.mount.sector, hcoh]
    exact congrArg w.disk (by omega)
  · -- the cache is filled with the group of sectors around this one
    have hfill : w.readBlocks
        ((g.partitionStartLba + g.reservedSectorCount +
          s / FAT_CACHE_SECTOR_COUNT * FAT_CACHE_SECTOR_COUNT) % U64)
        (min (g.sectorsPerFat - s / FAT_CACHE_SECTOR_COUNT * FAT_CACHE_SECTOR_COUNT)
          FAT_CACHE_SECTOR_COUNT) =
        some fun i =>
          if i < min (g.sectorsPerFat - s / FAT_CACHE_SECTOR_COUNT * FAT_CACHE_SECTOR_COUNT)
            FAT_CACHE_SECTOR_COUNT * 512
          then w.disk ((g.partitionStartLba + g.reservedSectorCount +
            s / FAT_CACHE_SECTOR_COUNT * FAT_CACHE_SECTOR_COUNT) * 512 + i) else 0 := by
      unfold FAT_CACHE_SECTOR_COUNT
      rw [Nat.mod_eq_of_lt (by omega)]
      exact readBlocks_eq (by omega) (by omega)
    rw [if_neg hhit]
    simp only [hfill]
    refine ⟨_, _, rfl, ⟨hw.mount, ?_⟩, rfl, rfl, ?_⟩
    · intro _
      refine ⟨?_, fun i hi => if_pos hi⟩
      show s / FAT_CACHE_SECTOR_COUNT * FAT_CACHE_SECTOR_COUNT + min _ FAT_CACHE_SECTOR_COUNT ≤ _
      unfold FAT_CACHE_SECTOR_COUNT
      omega
    · intro i hi
      unfold FatCache.sector FAT_CACHE_SECTOR_COUNT
      simp only [hw.mount.sector]
      rw [if_pos (by omega)]
      exact congrArg w.disk (by omega)

/-- `read_fat_value` reads the FAT. -/
theorem wp_readFatValue (hw : Good g w) {c : Nat} (hc : c ≤ g.totalClusters + 1)
    {Q : Option Nat → World → Prop}
    (hQ : ∀ w', Good g w' → viewOf g w' = viewOf g w → w'.free = w.free →
      Q (some ((viewOf g w).fat c)) w') :
    (readFatValue g c).wp (deviceHandler g) Q w := by
  have hlt := hw.mount.lt_two_pow hc
  obtain ⟨sector, w', hread, hgood, hdisk, hfree, hbytes⟩ :=
    cachedFatSector_spec hw (hw.mount.covers_sector hc)
  have hvalue : leValue sector (c * 4 % 512) 4 = leValue w.disk (fatAddress g c) 4 := by
    apply leValue_congr
    intro i hi
    have haddr : fatAddress g c = (g.partitionStartLba + g.reservedSectorCount) * 512 + 4 * c := rfl
    rw [hbytes _ (by omega)]
    exact congrArg w.disk (by omega)
  unfold readFatValue
  simp only [hw.mount.sector, Nat.mod_eq_of_lt (show c * 4 < 2 ^ 32 by omega)]
  rw [Program.wp_bind]
  unfold readCachedFatSector
  rw [Program.wp_request,
    show deviceHandler g (.cachedFatSector (c * 4 / 512)) w = (some sector, w') from hread]
  have hview : (viewOf g w).fat c = leValue w.disk (fatAddress g c) 4 % 2 ^ 28 := if_pos hc
  show Q (some (leValue sector (c * 4 % 512) 4 % 2 ^ 28)) w'
  rw [hvalue, ← hview]
  exact hQ w' hgood (viewOf_congr hdisk) hfree

/-- Reading a sector of a cluster. -/
theorem wp_readSector (hw : Good g w) {c i : Nat} (hc : InVolume g c)
    (hi : i < g.sectorsPerCluster) {Q : Option Buffer → World → Prop}
    (hQ : ∀ sector : Buffer, (∀ j < 512, sector j = (viewOf g w).byte c (512 * i + j)) →
      Q (some sector) w) :
    (readSectors (add64 (clusterFirstLba g c) i) 1).wp (deviceHandler g) Q w := by
  have hle := hw.mount.cluster_le hc
  rw [hw.mount.sectorLba_eq hc hi]
  show Q (w.readBlocks _ 1) w
  rw [readBlocks_eq (by decide) (by omega)]
  apply hQ
  intro j hj
  have hbound : 512 * i + j < 512 * g.sectorsPerCluster := by omega
  rw [if_pos (by omega)]
  refine Eq.trans ?_ (if_pos ⟨hc, hbound⟩).symm
  unfold dataAddress
  exact congrArg w.disk (by omega)

/-! ### Writing -/

/-- The view depends on the first FAT and the clusters only. -/
theorem viewOf_eq_of_disk (hw : Good g w) {w' : World}
    (hfat : ∀ i, (g.partitionStartLba + g.reservedSectorCount) * 512 ≤ i →
      i < (g.partitionStartLba + g.reservedSectorCount + g.sectorsPerFat) * 512 →
      w'.disk i = w.disk i)
    (hdata : ∀ i, (g.partitionStartLba + g.firstDataSector) * 512 ≤ i → w'.disk i = w.disk i) :
    viewOf g w' = viewOf g w := by
  have hcovers := hw.mount.covers
  unfold viewOf
  congr 1
  · funext c
    by_cases hc : c ≤ g.totalClusters + 1
    · have haddr : fatAddress g c =
          (g.partitionStartLba + g.reservedSectorCount) * 512 + 4 * c := rfl
      rw [if_pos hc, if_pos hc, @leValue_congr _ w.disk _ (fatAddress g c)]
      intro i hi
      exact hfat _ (by omega) (by omega)
    · rw [if_neg hc, if_neg hc]
  · funext c offset
    by_cases hc : InVolume g c ∧ offset < 512 * g.sectorsPerCluster
    · have haddr : dataAddress g c offset = (g.partitionStartLba + g.firstDataSector +
          (c - 2) * g.sectorsPerCluster) * 512 + offset := rfl
      rw [if_pos hc, if_pos hc]
      exact hdata _ (by omega)
    · rw [if_neg hc, if_neg hc]

/-- The cache stays coherent when the first FAT stays as it is. -/
theorem good_of_disk (hw : Good g w) {w' : World} (hblocks : w'.blockCount = w.blockCount)
    (hcache : w'.cache = w.cache)
    (hfat : ∀ i, (g.partitionStartLba + g.reservedSectorCount) * 512 ≤ i →
      i < (g.partitionStartLba + g.reservedSectorCount + g.sectorsPerFat) * 512 →
      w'.disk i = w.disk i) : Good g w' := by
  refine ⟨hblocks ▸ hw.mount, ?_⟩
  intro hvalid
  rw [hcache] at hvalid ⊢
  obtain ⟨hbound, hbytes⟩ := hw.coherent hvalid
  refine ⟨hbound, ?_⟩
  intro i hi
  rw [hbytes i hi]
  exact (hfat _ (by omega) (by omega)).symm

/-- Rewriting a word of a sector changes that word on the disk. -/
theorem rewriteWord_disk {disk sector : Buffer} {lba offset value : Nat} (hroom : offset + 4 ≤ 512)
    (hsector : ∀ i < 512, sector i = disk (lba * 512 + i)) :
    (fun i => if lba * 512 ≤ i ∧ i < (lba + 1) * 512 then
        leStore sector offset 4 value (i - lba * 512) else disk i) =
      leStore disk (lba * 512 + offset) 4 value := by
  funext i
  by_cases hin : lba * 512 ≤ i ∧ i < (lba + 1) * 512
  · rw [if_pos hin]
    unfold leStore
    by_cases hword : lba * 512 + offset ≤ i ∧ i < lba * 512 + offset + 4
    · rw [if_pos hword, if_pos (by omega),
        show i - lba * 512 - offset = i - (lba * 512 + offset) by omega]
    · rw [if_neg hword, if_neg (by omega), hsector _ (by omega)]
      exact congrArg disk (by omega)
  · rw [if_neg hin, leStore_outside (by omega)]

/-- The sector of FAT copy `k` that holds an entry. -/
def fatLba (g : MountState) (k fatSector : Nat) : Nat :=
  g.partitionStartLba + g.reservedSectorCount + k * g.sectorsPerFat + fatSector

/-- The sectors of a FAT copy lie in the FAT area. -/
theorem fatLba_bounds (h : ValidMount g w.blockCount) {k s : Nat} (hk : k < g.fatCount)
    (hs : s < g.sectorsPerFat) :
    k * g.sectorsPerFat % 2 ^ 32 = k * g.sectorsPerFat ∧
      fatLba g k s + 1 ≤ g.partitionStartLba + g.firstDataSector ∧
      fatLba g k s + 1 ≤ w.blockCount ∧ fatLba g k s < U64 := by
  have hmul : (k + 1) * g.sectorsPerFat ≤ g.fatCount * g.sectorsPerFat :=
    Nat.mul_le_mul_right _ hk
  rw [Nat.add_mul, Nat.one_mul] at hmul
  have harea := h.fatArea
  have hdata := h.data
  have hfits := h.fits
  have hwide := h.wide
  unfold fatLba
  exact ⟨Nat.mod_eq_of_lt (by omega), by omega, by omega, by omega⟩

/-- The sector of FAT copy `k` with the entry rewritten. -/
def copySector (g : MountState) (w : World) (k s offset value : Nat) : Buffer :=
  let sector : Buffer := fun i => if i < 1 * 512 then w.disk (fatLba g k s * 512 + i) else 0
  leStore sector offset 4 (mergeFatValue (leValue sector offset 4) value)

/-- The world after one round of the loop of `write_fat_value`. -/
def afterCopy (g : MountState) (w : World) (k s offset value : Nat) : World :=
  let w₁ := (w.writeBlocks (fatLba g k s) 1 (copySector g w k s offset value)).2
  if k = 0 then w₁.refreshFatCache g s (copySector g w k s offset value) else w₁

/-- One round of the loop of `write_fat_value`. -/
theorem wp_writeFatCopies_succ (hw : Good g w) {s offset value copies k : Nat}
    (hk : k < g.fatCount) (hs : s < g.sectorsPerFat) {Q : Bool → World → Prop}
    (hQ : (writeFatCopies g s offset value copies (k + 1)).wp (deviceHandler g) Q
      (afterCopy g w k s offset value)) :
    (writeFatCopies g s offset value (copies + 1) k).wp (deviceHandler g) Q w := by
  obtain ⟨hmod, -, hblocks, hwide⟩ := fatLba_bounds hw.mount hk hs
  have hlba : (g.partitionStartLba + g.reservedSectorCount + k * g.sectorsPerFat % 2 ^ 32 + s) %
      U64 = fatLba g k s := by
    rw [hmod]
    exact Nat.mod_eq_of_lt hwide
  have hwrite : (w.writeBlocks (fatLba g k s) 1 (copySector g w k s offset value)).1 = true := by
    rw [writeBlocks_eq _ hblocks]
  unfold writeFatCopies
  simp only [hlba]
  have hread : deviceHandler g (.readBlocks (fatLba g k s) 1) w =
      (w.readBlocks (fatLba g k s) 1, w) :=
    rfl
  rw [Program.wp_bind]
  unfold readSectors
  rw [Program.wp_request, hread, readBlocks_eq (by decide) hblocks]
  show Program.wp _ (if (!(w.writeBlocks (fatLba g k s) 1 (copySector g w k s offset value)).1) =
    true then _ else _) _ (w.writeBlocks (fatLba g k s) 1 (copySector g w k s offset value)).2
  rw [hwrite]
  unfold afterCopy at hQ
  by_cases hzero : k = 0
  · rw [if_pos hzero] at hQ
    simp only [if_pos hzero]
    exact hQ
  · rw [if_neg hzero] at hQ
    simp only [if_neg hzero]
    exact hQ

/-- A round changes one word of the disk. -/
theorem afterCopy_disk (hw : Good g w) {s offset k : Nat} (value : Nat) (hk : k < g.fatCount)
    (hs : s < g.sectorsPerFat) (hroom : offset + 4 ≤ 512) :
    (afterCopy g w k s offset value).disk =
        leStore w.disk (fatLba g k s * 512 + offset) 4
          (mergeFatValue (leValue w.disk (fatLba g k s * 512 + offset) 4) value) ∧
      (afterCopy g w k s offset value).blockCount = w.blockCount ∧
      (afterCopy g w k s offset value).free = w.free := by
  obtain ⟨-, -, hblocks, -⟩ := fatLba_bounds hw.mount hk hs
  have hbytes : ∀ i < 512, (if i < 1 * 512 then w.disk (fatLba g k s * 512 + i) else 0) =
      w.disk (fatLba g k s * 512 + i) := fun i hi => if_pos (by omega)
  have hvalue : leValue (fun i => if i < 1 * 512 then w.disk (fatLba g k s * 512 + i) else 0)
      offset 4 = leValue w.disk (fatLba g k s * 512 + offset) 4 := by
    apply leValue_congr
    intro i hi
    rw [if_pos (by omega), Nat.add_assoc]
  have hdisk : (w.writeBlocks (fatLba g k s) 1 (copySector g w k s offset value)).2.disk =
      leStore w.disk (fatLba g k s * 512 + offset) 4
        (mergeFatValue (leValue w.disk (fatLba g k s * 512 + offset) 4) value) := by
    rw [writeBlocks_eq _ hblocks]
    unfold copySector
    simp only [hvalue]
    exact rewriteWord_disk hroom hbytes
  have hrest : (w.writeBlocks (fatLba g k s) 1 (copySector g w k s offset value)).2.blockCount =
      w.blockCount ∧
      (w.writeBlocks (fatLba g k s) 1 (copySector g w k s offset value)).2.free = w.free := by
    rw [writeBlocks_eq _ hblocks]
    exact ⟨rfl, rfl⟩
  unfold afterCopy World.refreshFatCache
  by_cases hzero : k = 0
  · simp only [if_pos hzero]
    split
    · exact ⟨hdisk, hrest⟩
    · exact ⟨hdisk, hrest⟩
  · simp only [if_neg hzero]
    exact ⟨hdisk, hrest⟩

/-- The rounds after the first one do not show. -/
theorem wp_writeFatCopies_rest {s offset value : Nat} (hs : s < g.sectorsPerFat)
    (hroom : offset + 4 ≤ 512) (copies : Nat) {k : Nat} (hw : Good g w) (hpos : 1 ≤ k)
    (hk : k + copies ≤ g.fatCount) {Q : Bool → World → Prop}
    (hQ : ∀ w', Good g w' → viewOf g w' = viewOf g w → w'.free = w.free → Q true w') :
    (writeFatCopies g s offset value copies k).wp (deviceHandler g) Q w := by
  induction copies generalizing k w with
  | zero => exact hQ w hw rfl rfl
  | succ copies ih =>
    have hkc : k < g.fatCount := by omega
    obtain ⟨hdisk, hblockCount, hfree⟩ := afterCopy_disk hw value hkc hs hroom
    obtain ⟨-, hend, hblocks, -⟩ := fatLba_bounds hw.mount hkc hs
    have hcache : (afterCopy g w k s offset value).cache = w.cache := by
      unfold afterCopy
      rw [if_neg (by omega), writeBlocks_eq _ hblocks]
    have hstart : g.partitionStartLba + g.reservedSectorCount + g.sectorsPerFat ≤
        fatLba g k s := by
      have hmul : 1 * g.sectorsPerFat ≤ k * g.sectorsPerFat := Nat.mul_le_mul_right _ hpos
      unfold fatLba
      omega
    -- the word lies behind the first FAT and in front of the clusters
    have hfat : ∀ i, (g.partitionStartLba + g.reservedSectorCount) * 512 ≤ i →
        i < (g.partitionStartLba + g.reservedSectorCount + g.sectorsPerFat) * 512 →
        (afterCopy g w k s offset value).disk i = w.disk i := by
      intro i _ hi
      rw [hdisk]
      exact leStore_outside (by omega)
    have hdata : ∀ i, (g.partitionStartLba + g.firstDataSector) * 512 ≤ i →
        (afterCopy g w k s offset value).disk i = w.disk i := by
      intro i hi
      rw [hdisk]
      exact leStore_outside (by omega)
    have hgood := good_of_disk hw hblockCount hcache hfat
    apply wp_writeFatCopies_succ hw hkc hs
    apply ih hgood (by omega) (by omega)
    intro w' hgood' hview' hfree'
    exact hQ w' hgood' (hview'.trans (viewOf_eq_of_disk hw hfat hdata)) (hfree'.trans hfree)

/-- A copy of some sectors in which one of them was refreshed. -/
theorem refreshed_eq {disk disk' sector data : Buffer} {base first count s : Nat}
    (hcopy : ∀ i < count * 512, data i = disk ((base + first) * 512 + i))
    (hsector : ∀ i < 512, sector i = disk' ((base + s) * 512 + i))
    (houtside : ∀ i, (i < (base + s) * 512 ∨ (base + s + 1) * 512 ≤ i) → disk' i = disk i)
    (hfirst : first ≤ s) {i : Nat} (hi : i < count * 512) :
    (if (s - first) * 512 ≤ i ∧ i < (s - first) * 512 + 512 then sector (i - (s - first) * 512)
      else data i) = disk' ((base + first) * 512 + i) := by
  by_cases hin : (s - first) * 512 ≤ i ∧ i < (s - first) * 512 + 512
  · rw [if_pos hin, hsector _ (by omega)]
    exact congrArg disk' (by omega)
  · rw [if_neg hin, hcopy i hi]
    exact (houtside _ (by omega)).symm

/-- A copy of some sectors when another one changes. -/
theorem untouched_eq {disk disk' data : Buffer} {base first count s : Nat}
    (hcopy : ∀ i < count * 512, data i = disk ((base + first) * 512 + i))
    (houtside : ∀ i, (i < (base + s) * 512 ∨ (base + s + 1) * 512 ≤ i) → disk' i = disk i)
    (hmiss : ¬ (first ≤ s ∧ s < first + count)) {i : Nat} (hi : i < count * 512) :
    data i = disk' ((base + first) * 512 + i) := by
  rw [hcopy i hi]
  exact (houtside _ (by omega)).symm

/-- The first round keeps the cache coherent. -/
theorem afterCopy_zero_good (hw : Good g w) {s offset value : Nat} (hs : s < g.sectorsPerFat)
    (hroom : offset + 4 ≤ 512) : Good g (afterCopy g w 0 s offset value) := by
  have hfats := hw.mount.fats
  obtain ⟨hdisk, hblockCount, -⟩ := afterCopy_disk hw value hfats hs hroom
  obtain ⟨-, -, hblocks, -⟩ := fatLba_bounds hw.mount hfats hs
  have hlba : fatLba g 0 s = g.partitionStartLba + g.reservedSectorCount + s := by
    unfold fatLba
    rw [Nat.zero_mul, Nat.add_zero]
  refine ⟨hblockCount ▸ hw.mount, ?_⟩
  -- what the refreshed sector holds is what is on the disk now
  have hsector : ∀ i < 512, copySector g w 0 s offset value i =
      (afterCopy g w 0 s offset value).disk (fatLba g 0 s * 512 + i) := by
    intro i hi
    have hafter : (afterCopy g w 0 s offset value).disk =
        (w.writeBlocks (fatLba g 0 s) 1 (copySector g w 0 s offset value)).2.disk := by
      unfold afterCopy World.refreshFatCache
      rw [if_pos rfl]
      split <;> rfl
    rw [hafter, writeBlocks_eq _ hblocks]
    show _ = if _ then _ else _
    rw [if_pos (by omega), Nat.add_sub_cancel_left]
  have houtside : ∀ i, (i < fatLba g 0 s * 512 ∨ (fatLba g 0 s + 1) * 512 ≤ i) →
      (afterCopy g w 0 s offset value).disk i = w.disk i := by
    intro i hi
    rw [hdisk]
    rcases hi with hi | hi
    · exact leStore_outside (.inl (Nat.lt_of_lt_of_le hi (Nat.le_add_right _ _)))
    · rw [Nat.add_mul] at hi
      exact leStore_outside (.inr (by omega))
  have hcache : (afterCopy g w 0 s offset value).cache =
      ((w.writeBlocks (fatLba g 0 s) 1 (copySector g w 0 s offset value)).2.refreshFatCache g s
        (copySector g w 0 s offset value)).cache := by
    unfold afterCopy
    rw [if_pos rfl]
  rw [writeBlocks_eq _ hblocks] at hcache
  unfold World.refreshFatCache at hcache
  unfold Coherent
  generalize (afterCopy g w 0 s offset value).disk = disk at hsector houtside ⊢
  generalize (afterCopy g w 0 s offset value).cache = cache at hcache ⊢
  rw [hlba] at hsector houtside
  by_cases hhit : w.cache.hit s
  · rw [if_pos hhit] at hcache
    simp only [hw.mount.sector, SECTOR_SIZE] at hcache
    subst hcache
    intro hvalid
    obtain ⟨hbound, hbytes⟩ := hw.coherent hvalid
    exact ⟨hbound, fun i hi => refreshed_eq hbytes hsector houtside hhit.2.1 hi⟩
  · rw [if_neg hhit] at hcache
    subst hcache
    intro hvalid
    obtain ⟨hbound, hbytes⟩ := hw.coherent hvalid
    exact ⟨hbound, fun i hi => untouched_eq hbytes houtside (fun h => hhit ⟨hvalid, h⟩) hi⟩

/-- The first round sets the entry in the view. -/
theorem afterCopy_zero_view (hw : Good g w) {c value : Nat} (hc : c ≤ g.totalClusters + 1) :
    viewOf g (afterCopy g w 0 (c * 4 / 512) (c * 4 % 512) value) =
      (viewOf g w).setFat c (value % 2 ^ 28) := by
  have hfats := hw.mount.fats
  have hs := hw.mount.covers_sector hc
  obtain ⟨hdisk, -, -⟩ := afterCopy_disk hw value hfats hs
    (show c * 4 % 512 + 4 ≤ 512 by omega)
  have haddr : fatLba g 0 (c * 4 / 512) * 512 + c * 4 % 512 = fatAddress g c := by
    have h1 : fatLba g 0 (c * 4 / 512) =
        g.partitionStartLba + g.reservedSectorCount + 0 * g.sectorsPerFat + c * 4 / 512 := rfl
    have h2 : fatAddress g c =
        (g.partitionStartLba + g.reservedSectorCount) * 512 + 4 * c := rfl
    rw [Nat.zero_mul] at h1
    omega
  rw [haddr] at hdisk
  have hword : ∀ x, mergeFatValue x value % 2 ^ 28 = value % 2 ^ 28 := by
    intro x
    unfold mergeFatValue
    omega
  have hfit : ∀ x < 256 ^ 4, mergeFatValue x value < 256 ^ 4 := by
    intro x hx
    unfold mergeFatValue
    omega
  have hdata := hw.mount.fat_le
  have hcovers := hw.mount.covers
  have haddrOf : ∀ x, fatAddress g x =
      (g.partitionStartLba + g.reservedSectorCount) * 512 + 4 * x := fun _ => rfl
  unfold viewOf View.setFat
  rw [hdisk]
  dsimp only
  congr 1
  · funext x
    by_cases hx : x = c
    · subst hx
      rw [if_pos hc, Function.update_self, leValue_leStore,
        Nat.mod_eq_of_lt (hfit _ (leValue_lt ..)), hword]
    · rw [Function.update_of_ne hx]
      by_cases hxr : x ≤ g.totalClusters + 1
      · rw [if_pos hxr, if_pos hxr, @leValue_congr _ w.disk _ (fatAddress g x)]
        intro i hi
        have h1 := haddrOf x
        have h2 := haddrOf c
        exact leStore_outside (by omega)
      · rw [if_neg hxr, if_neg hxr]
  · funext x offset
    by_cases hx : InVolume g x ∧ offset < 512 * g.sectorsPerCluster
    · have h1 : dataAddress g x offset = (g.partitionStartLba + g.firstDataSector +
          (x - 2) * g.sectorsPerCluster) * 512 + offset := rfl
      have h2 := haddrOf c
      rw [if_pos hx, if_pos hx]
      exact leStore_outside (by omega)
    · rw [if_neg hx, if_neg hx]

/-- `write_fat_value` sets the FAT value, of which it keeps 28 bits. -/
theorem wp_writeFatValue (hw : Good g w) {c value : Nat} (hc : c ≤ g.totalClusters + 1)
    {Q : Bool → World → Prop}
    (hQ : ∀ w', Good g w' → viewOf g w' = (viewOf g w).setFat c (value % 2 ^ 28) →
      w'.free = w.free → Q true w') :
    (writeFatValue g c value).wp (deviceHandler g) Q w := by
  have hlt := hw.mount.lt_two_pow hc
  have hfats := hw.mount.fats
  have hs := hw.mount.covers_sector hc
  have hroom : c * 4 % 512 + 4 ≤ 512 := by omega
  obtain ⟨-, -, hfree⟩ := afterCopy_disk hw value hfats hs hroom
  unfold writeFatValue
  simp only [hw.mount.sector, Nat.mod_eq_of_lt (show c * 4 < 2 ^ 32 by omega)]
  rw [show g.fatCount = g.fatCount - 1 + 1 by omega]
  apply wp_writeFatCopies_succ hw hfats hs
  apply wp_writeFatCopies_rest hs hroom _ (afterCopy_zero_good hw hs hroom) (Nat.le_refl 1)
    (by omega)
  intro w' hgood hview hfree'
  exact hQ w' hgood (hview.trans (afterCopy_zero_view hw hc)) (hfree'.trans hfree)

/-- A byte of a cluster that a sector write covers. -/
theorem dataAddress_mem_iff {c i c' o : Nat} (hc : InVolume g c) (hi : i < g.sectorsPerCluster)
    (hc' : InVolume g c') (ho : o < 512 * g.sectorsPerCluster) :
    ((g.partitionStartLba + g.firstDataSector + (c - 2) * g.sectorsPerCluster + i) * 512 ≤
        dataAddress g c' o ∧
      dataAddress g c' o <
        (g.partitionStartLba + g.firstDataSector + (c - 2) * g.sectorsPerCluster + i + 1) * 512) ↔
      c' = c ∧ 512 * i ≤ o ∧ o < 512 * i + 512 := by
  have haddr : dataAddress g c' o = (g.partitionStartLba + g.firstDataSector +
      (c' - 2) * g.sectorsPerCluster) * 512 + o := rfl
  rw [haddr]
  by_cases heq : c' = c
  · subst heq
    omega
  · -- two clusters lie at least one cluster apart
    have h2 := hc.1
    have h2' := hc'.1
    refine iff_of_false ?_ fun h => heq h.1
    rcases Nat.lt_or_gt_of_ne heq with hlt | hgt
    · have hmul : (c' - 2 + 1) * g.sectorsPerCluster ≤ (c - 2) * g.sectorsPerCluster :=
        Nat.mul_le_mul_right _ (by omega)
      rw [Nat.add_mul, Nat.one_mul] at hmul
      omega
    · have hmul : (c - 2 + 1) * g.sectorsPerCluster ≤ (c' - 2) * g.sectorsPerCluster :=
        Nat.mul_le_mul_right _ (by omega)
      rw [Nat.add_mul, Nat.one_mul] at hmul
      omega

/-- Writing a sector of a cluster. -/
theorem wp_writeSector (hw : Good g w) {kind : WriteKind} {c i : Nat} (hc : InVolume g c)
    (hi : i < g.sectorsPerCluster) {data : Buffer} {Q : Bool → World → Prop}
    (hQ : ∀ w', Good g w' → viewOf g w' = (viewOf g w).setBytes c (512 * i) 512 data →
      w'.free = w.free → Q true w') :
    (writeSectors kind (add64 (clusterFirstLba g c) i) 1 data).wp (deviceHandler g) Q w := by
  have hle := hw.mount.cluster_le hc
  have hfat := hw.mount.fat_le
  have hcovers := hw.mount.covers
  rw [hw.mount.sectorLba_eq hc hi]
  unfold writeSectors
  rw [Program.wp_request]
  show Q (w.writeBlocks _ 1 data).1 (w.writeBlocks _ 1 data).2
  rw [writeBlocks_eq _ (by omega)]
  refine hQ _ (good_of_disk hw rfl rfl ?_) ?_ rfl
  · intro j _ hj
    exact if_neg (by omega)
  · unfold viewOf View.setBytes
    dsimp only
    congr 1
    · funext x
      by_cases hx : x ≤ g.totalClusters + 1
      · have haddr : fatAddress g x =
            (g.partitionStartLba + g.reservedSectorCount) * 512 + 4 * x := rfl
        rw [if_pos hx, if_pos hx, @leValue_congr _ w.disk _ (fatAddress g x)]
        intro j hj
        exact if_neg (by omega)
      · rw [if_neg hx, if_neg hx]
    · funext c' o
      by_cases hin : InVolume g c' ∧ o < 512 * g.sectorsPerCluster
      · have hiff := dataAddress_mem_iff hc hi hin.1 hin.2
        rw [if_pos hin, if_pos hin]
        by_cases hmem : c' = c ∧ 512 * i ≤ o ∧ o < 512 * i + 512
        · rw [if_pos (hiff.mpr hmem), if_pos hmem]
          have haddr : dataAddress g c' o = (g.partitionStartLba + g.firstDataSector +
              (c' - 2) * g.sectorsPerCluster) * 512 + o := rfl
          obtain ⟨rfl, hlow, hhigh⟩ := hmem
          exact congrArg data (by omega)
        · rw [if_neg fun h => hmem (hiff.mp h), if_neg hmem]
      · rw [if_neg hin, if_neg hin]
        by_cases hmem : c' = c ∧ 512 * i ≤ o ∧ o < 512 * i + 512
        · refine absurd ⟨hmem.1 ▸ hc, ?_⟩ hin
          omega
        · rw [if_neg hmem]

/-- `update_fsinfo` does not show in the view. -/
theorem wp_updateFsinfo (hw : Good g w) (info : FreeInfo) {Q : Bool → World → Prop}
    (hQ : ∀ w', Good g w' → viewOf g w' = viewOf g w → w'.free = info → Q true w') :
    (updateFsinfo g info).wp (deviceHandler g) Q w := by
  unfold updateFsinfo
  by_cases hnone : (!g.fsInfoValid || decide (g.fsInfoSector = 0)) = true
  · rw [if_pos hnone, Program.wp_bind]
    exact hQ _ ⟨hw.mount, hw.coherent⟩ rfl rfl
  · rw [if_neg hnone]
    have hvalid : g.fsInfoValid = true ∧ g.fsInfoSector ≠ 0 := by
      simpa using hnone
    have hsector := hw.mount.fsInfo hvalid.1 hvalid.2
    have hfat := hw.mount.fat_le
    have hfits := hw.mount.fits
    have hwide := hw.mount.wide
    rw [Nat.mod_eq_of_lt (by omega), Program.wp_bind]
    show Program.wp _ (if (!(w.writeBlocks _ 1 _).1) = true then _ else _) _
      (w.writeBlocks _ 1 _).2
    rw [writeBlocks_eq _ (by omega)]
    have houtside : ∀ i, (g.partitionStartLba + g.reservedSectorCount) * 512 ≤ i →
        (if (g.partitionStartLba + g.fsInfoSector) * 512 ≤ i ∧
            i < (g.partitionStartLba + g.fsInfoSector + 1) * 512
          then fsInfoBytes info (i - (g.partitionStartLba + g.fsInfoSector) * 512)
          else w.disk i) = w.disk i := fun i hi => if_neg (by omega)
    refine hQ _ ?_ ?_ rfl
    · exact good_of_disk hw rfl rfl fun i hi _ => houtside i hi
    · refine viewOf_eq_of_disk hw (fun i hi _ => houtside i hi) fun i hi => houtside i ?_
      exact Nat.le_trans (Nat.mul_le_mul_right 512 (by omega)) hi

end Rules

end VKernel.Proofs.Fs

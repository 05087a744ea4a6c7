import VKernel.Fs.Fat32.FileContent
import VKernel.Proofs.Fs.Fat32.Paths

/-!
# `VKernel.Proofs.Fs.Fat32.RangeReads`: reading a file in parts

On an unchanged disk a program that only reads has one answer, whatever is in the FAT cache:
`Reads g w p a`. The two readers are followed through the chain of a file with this. A run of
consecutive clusters is one transfer (`reads_collectClusterRun`, `run_bytes`), and
`read_cluster_bytes` puts a part of a cluster together from sectors. `Describes` is what a
descriptor remembers: its cache entry is a position of the chain.
-/

set_option autoImplicit false

namespace VKernel.Proofs.Fs

open VKernel VKernel.Lib VKernel.Fs VKernel.Fs.Fat32

/-! ### Answers of a disk -/

/-- The program answers `a` on the disk of `w`, with any cache of it. -/
def Reads {α : Type} (g : MountState) (w : World) (p : Fat α) (a : α) : Prop :=
  ∀ w₁, SameDisk w w₁ → Fresh g w₁ →
    p.wp (deviceHandler g) (fun b w₂ => b = a ∧ SameDisk w w₂ ∧ Fresh g w₂) w₁

section Rules

variable {α β : Type} {g : MountState} {w : World}

theorem Reads.pure (a : α) : Reads g w (Pure.pure a) a := fun _ hsame hfresh =>
  ⟨rfl, hsame, hfresh⟩

/-- Two reads in a row. -/
theorem Reads.bind {p : Fat α} {f : α → Fat β} {a : α} {b : β} (hp : Reads g w p a)
    (hf : Reads g w (f a) b) : Reads g w (p >>= f) b := by
  intro w₁ hsame hfresh
  rw [Program.wp_bind]
  refine Program.wp_mono (hp w₁ hsame hfresh) fun a' w₂ h => ?_
  obtain ⟨rfl, hsame₂, hfresh₂⟩ := h
  exact hf w₂ hsame₂ hfresh₂

theorem reads_readSectors (lba count : Nat) :
    Reads g w (readSectors lba count) (w.readBlocks lba count) := fun _ hsame hfresh =>
  wp_readSectors_iff.mpr ⟨hsame.readBlocks lba count, hsame, hfresh⟩

theorem reads_readFatValue (c : Nat) : Reads g w (readFatValue g c) (fatValueOf g w c) := by
  intro w₁ hsame hfresh
  refine wp_readFatValue_fresh hfresh fun w₂ hsame₂ hfresh₂ => ?_
  exact ⟨hsame.fatValueOf c, hsame.trans hsame₂, hfresh₂⟩

/-- The answer as the outcome of a run. -/
theorem Reads.outcome {p : Fat α} {a : α} (h : Reads g w p a) {w₁ : World}
    (hsame : SameDisk w w₁) (hfresh : Fresh g w₁) : outcome g w₁ p = some a := by
  obtain ⟨b, w₂, hrun, rfl, -⟩ := Program.wp_iff_run.mp (h w₁ hsame hfresh)
  unfold Fat32.outcome
  rw [hrun]
  rfl

/-- A program that only reads has the outcome of its run. -/
theorem reads_of_outcome {p : Fat α} {a : α} (hp : p.Asks IsRead) (hw : Fresh g w)
    (h : outcome g w p = some a) : Reads g w p a := by
  intro w₁ hsame hfresh
  obtain ⟨hfst, hkept⟩ := run_same hp hfresh hfresh (SameDisk.refl w₁)
  have hsames := (run_same hp hw hfresh hsame).1
  unfold Fat32.outcome at h
  rw [h] at hsames
  obtain ⟨⟨b, w₂⟩, hrun, rfl⟩ := Option.map_eq_some_iff.mp hsames
  obtain ⟨hsame₂, hfresh₂⟩ := hkept b w₂ hrun
  exact Program.wp_iff_run.mpr ⟨b, w₂, hrun, rfl, hsame.trans hsame₂, hfresh₂⟩

end Rules

/-! ### Bytes -/

/-- The bytes of two ranges in a row. -/
theorem bytes_append (b : Buffer) (offset m n : Nat) :
    b.bytes offset (m + n) = b.bytes offset m ++ b.bytes (offset + m) n := by
  unfold Buffer.bytes
  rw [List.range_add, List.map_append, List.map_map]
  congr 1
  refine List.map_congr_left fun i _ => ?_
  rw [Function.comp_apply, Nat.add_assoc]

/-- Equal bytes, equal ranges. -/
theorem bytes_congr {b b' : Buffer} {o o' n : Nat} (h : ∀ i < n, b (o + i) = b' (o' + i)) :
    b.bytes o n = b'.bytes o' n :=
  List.map_congr_left fun i hi => h i (List.mem_range.mp hi)

/-- A part of the bytes is a slice of them. -/
theorem bytes_slice (b : Buffer) {offset n size : Nat} :
    ((b.bytes 0 size).drop offset).take n = b.bytes offset (min (size - offset) n) := by
  apply List.ext_getElem
  · simp
    omega
  · intro i h₁ h₂
    simp [Buffer.bytes]

/-- A transfer gives the bytes of its sectors. -/
theorem readBlocks_bytes {w : World} (lba : Nat) {count : Nat} (hcount : 0 < count)
    (hrange : lba + count ≤ w.blockCount) :
    ∃ sectors, w.readBlocks lba count = some sectors ∧ ∀ offset n, offset + n ≤ count * 512 →
      sectors.bytes offset n = w.disk.bytes (lba * 512 + offset) n := by
  have hin : w.inRange lba count := ⟨by omega, by omega, by omega⟩
  unfold World.readBlocks
  rw [if_pos hin]
  refine ⟨_, rfl, fun offset n hn => bytes_congr fun i hi => ?_⟩
  have hlt : offset + i < count * SECTOR_SIZE := by
    show offset + i < count * 512
    omega
  rw [if_pos hlt, Nat.add_assoc]
  rfl

/-! ### A part of a cluster -/

section Cluster

variable {g : MountState} {w : World}

/-- The end of `read_cluster_bytes`, behind the whole sectors. -/
theorem reads_readTail {lba start size : Nat} {head whole : List UInt8}
    (hread : head ++ whole = w.disk.bytes start (head.length + whole.length))
    (hlength : head.length + whole.length ≤ size)
    (hsmall : size - head.length - whole.length ≤ 512)
    (htail : head.length + whole.length < size →
      lba * 512 = start + (head.length + whole.length) ∧ lba + 1 ≤ w.blockCount) :
    Reads g w (show Fat (Option (List UInt8)) from do
      if size - head.length - whole.length > 0 then
        let some sector ← readSectors lba 1 | return none
        return some (head ++ whole ++ sector.bytes 0 (size - head.length - whole.length))
      return some (head ++ whole)) (some (w.disk.bytes start size)) := by
  split
  next hmore =>
    obtain ⟨hlba, hrange⟩ := htail (by omega)
    obtain ⟨sector, hsector, hbytes⟩ := readBlocks_bytes lba Nat.one_pos hrange
    have hstep := reads_readSectors (g := g) (w := w) lba 1
    rw [hsector] at hstep
    refine hstep.bind ?_
    dsimp only
    rw [hread, hbytes 0 _ (by omega), Nat.add_zero, hlba, ← bytes_append,
      show head.length + whole.length + (size - head.length - whole.length) = size by omega]
    exact .pure _
  next hdone =>
    rw [hread, show head.length + whole.length = size by omega]
    exact .pure _

/-- The end of `read_cluster_bytes`, behind the first part of a sector. -/
theorem reads_readWhole (hbytes : g.bytesPerSector = 512) {lba size : Nat} {head : List UInt8}
    (hsize : size < 2 ^ 32)
    (hrange : 0 < (size - head.length) / 512 →
      lba + (size - head.length) / 512 ≤ w.blockCount)
    {k : Option (List UInt8) → Fat (Option (List UInt8))} {a : Option (List UInt8)}
    (hk : Reads g w (k (some (w.disk.bytes (lba * 512) ((size - head.length) / 512 * 512)))) a) :
    Reads g w (show Fat (Option (List UInt8)) from
      if (size - head.length) / g.bytesPerSector > 0 then do
        let sectors ← readSectors lba ((size - head.length) / g.bytesPerSector % 2 ^ 32)
        let whole ← pure (sectors.map fun sectors =>
          sectors.bytes 0 ((size - head.length) / g.bytesPerSector * g.bytesPerSector))
        k whole
      else do
        let whole ← pure (some [])
        k whole) a := by
  rw [hbytes]
  split
  next hmore =>
    have hcount : (size - head.length) / 512 % 2 ^ 32 = (size - head.length) / 512 :=
      Nat.mod_eq_of_lt (by omega)
    obtain ⟨sectors, hsectors, hread⟩ := readBlocks_bytes lba hmore (hrange hmore)
    have hstep := reads_readSectors (g := g) (w := w) lba ((size - head.length) / 512)
    rw [hsectors] at hstep
    rw [hcount]
    refine hstep.bind (Reads.bind (.pure _) ?_)
    rw [Option.map_some, hread 0 _ (by omega), Nat.add_zero]
    exact hk
  next hnone =>
    rw [show (size - head.length) / 512 = 0 by omega, Nat.zero_mul] at hk
    exact Reads.bind (.pure _) hk

/-- The same, down to the end. -/
theorem reads_readRest (hbytes : g.bytesPerSector = 512) (hwide : w.blockCount < U64)
    {lba start size : Nat} {head : List UInt8} (hsize : size < 2 ^ 32)
    (hhead : head = w.disk.bytes start head.length) (hlength : head.length ≤ size)
    (hnext : head.length < size → lba * 512 = start + head.length ∧
      lba + (size - head.length - 1) / 512 < w.blockCount) :
    Reads g w (show Fat (Option (List UInt8)) from do
      let wholeSectors := (size - head.length) / g.bytesPerSector
      let whole : Option (List UInt8) ←
        if wholeSectors > 0 then do
          let sectors ← readSectors lba (wholeSectors % 2 ^ 32)
          pure (sectors.map fun sectors => sectors.bytes 0 (wholeSectors * g.bytesPerSector))
        else pure (some [])
      let some whole := whole | return none
      if size - head.length - whole.length > 0 then
        let some sector ← readSectors (add64 lba wholeSectors) 1 | return none
        return some (head ++ whole ++ sector.bytes 0 (size - head.length - whole.length))
      return some (head ++ whole)) (some (w.disk.bytes start size)) := by
  refine reads_readWhole hbytes hsize (fun hmore => ?_) ?_
  · obtain ⟨-, hrange⟩ := hnext (by omega)
    omega
  refine reads_readTail ?_ ?_ ?_ fun hmore => ?_
  · rw [length_bytes]
    by_cases hdone : head.length = size
    · rw [show (size - head.length) / 512 * 512 = 0 by omega, Nat.add_zero, ← hhead]
      exact List.append_nil head
    · rw [bytes_append, ← hhead, (hnext (by omega)).1]
  · rw [length_bytes]
    omega
  · rw [length_bytes]
    omega
  · rw [length_bytes] at hmore ⊢
    obtain ⟨hlba, hrange⟩ := hnext (by omega)
    have hsum : add64 lba ((size - head.length) / g.bytesPerSector) =
        lba + (size - head.length) / 512 := by
      rw [hbytes]
      exact add64_eq (by omega)
    rw [hsum]
    omega

/-- `read_cluster_bytes` gives the bytes of the part, where the sectors that it needs are on the
device. -/
theorem reads_readClusterBytes (hbytes : g.bytesPerSector = 512) (hwide : w.blockCount < U64)
    {c : Nat} (offset size : Nat) (hc : isDataCluster c) (hpos : 0 < size) (hsize : size < 2 ^ 32)
    (hfits : offset + size ≤ clusterSizeBytes g)
    (hstored : ∀ i < size, clusterFirstLba g c + (offset + i) / 512 < w.blockCount) :
    Reads g w (readClusterBytes g c offset size)
      (some (w.disk.bytes (clusterFirstLba g c * 512 + offset) size)) := by
  have hfirst := hstored 0 hpos
  have hlast := hstored (size - 1) (by omega)
  have hlba : add64 (clusterFirstLba g c) (offset / g.bytesPerSector) =
      clusterFirstLba g c + offset / 512 := by
    rw [hbytes]
    exact add64_eq (by omega)
  have hoffset : offset % g.bytesPerSector = offset % 512 := by rw [hbytes]
  unfold readClusterBytes
  rw [if_neg (by omega), if_neg (not_not_intro hc), if_neg (by omega)]
  dsimp only
  rw [hlba, hoffset]
  split
  next hpart =>
    -- the part starts inside a sector
    have hrange : clusterFirstLba g c + offset / 512 + 1 ≤ w.blockCount := by omega
    obtain ⟨sector, hsector, hread⟩ := readBlocks_bytes _ Nat.one_pos hrange
    have hstep := reads_readSectors (g := g) (w := w) (clusterFirstLba g c + offset / 512) 1
    rw [hsector] at hstep
    refine hstep.bind (Reads.bind (.pure _) ?_)
    have hhead : sector.bytes (offset % 512) (min (g.bytesPerSector - offset % 512) size) =
        w.disk.bytes (clusterFirstLba g c * 512 + offset) (min (512 - offset % 512) size) := by
      have hstart : (clusterFirstLba g c + offset / 512) * 512 + offset % 512 =
          clusterFirstLba g c * 512 + offset := by omega
      rw [hbytes, hread _ _ (by omega), hstart]
    rw [Option.map_some, hhead]
    refine reads_readRest hbytes hwide hsize (by rw [length_bytes]) ?_ fun hmore => ?_
    · rw [length_bytes]
      omega
    · rw [length_bytes] at hmore ⊢
      have hsucc : add64 (clusterFirstLba g c + offset / 512) 1 =
          clusterFirstLba g c + offset / 512 + 1 := add64_eq (by omega)
      rw [hsucc]
      omega
  next hwhole =>
    refine Reads.bind (.pure _) (reads_readRest hbytes hwide hsize rfl (Nat.zero_le _) fun _ => ?_)
    rw [List.length_nil]
    omega

end Cluster

/-! ### Runs of clusters -/

/-- A run of consecutive clusters that starts at position `j` of a chain. -/
structure RunAt (cs : List Nat) (j : Nat) (run : ClusterRun) : Prop where
  pos : 0 < run.clusterCount
  first : run.firstCluster = cs.getD j 0
  consecutive : ∀ i < run.clusterCount, cs.getD (j + i) 0 = cs.getD j 0 + i
  last : run.lastCluster = cs.getD (j + (run.clusterCount - 1)) 0

/-- A run that was collected with room for `max` clusters: it stops in front of a cluster that
does not follow, or has them all. -/
structure CollectedAt (cs : List Nat) (j max : Nat) (run : ClusterRun) : Prop extends
    RunAt cs j run where
  le : run.clusterCount ≤ max
  next : run.clusterCount < max ∧ run.nextCluster = cs.getD (j + run.clusterCount) 0 ∨
    run.clusterCount = max ∧ run.nextCluster = FAT32_END_OF_CHAIN

section Chain

variable {g : MountState} {w : World} {first size : Nat} {cs : List Nat}

/-- The clusters of a file are data clusters. -/
theorem isDataCluster_of_covered (h : CoveredBy g w first size cs) {i : Nat} (hi : i < cs.length) :
    isDataCluster (cs.getD i 0) := by
  rw [List.getD_eq_getElem _ _ hi]
  exact h.data _ (List.getElem_mem hi)

/-- The chain starts at the first cluster. -/
theorem first_of_covered (h : CoveredBy g w first size cs) : cs.getD 0 0 = first := by
  have hhead := h.head
  cases cs with
  | nil => cases hhead
  | cons c rest =>
    cases hhead
    rfl

/-- The position of an offset of the file is one of the chain. -/
theorem position_lt_of_covered (h : CoveredBy g w first size cs) {j : Nat}
    (hj : j * clusterSizeBytes g < size) : j < cs.length :=
  Nat.lt_of_mul_lt_mul_right (Nat.lt_of_lt_of_le hj h.enough)

/-- A position in the file is on the chain. -/
theorem position_le_of_covered (h : CoveredBy g w first size cs) (hpos : 0 < clusterSizeBytes g)
    {j : Nat} (hj : j * clusterSizeBytes g ≤ size) : j ≤ cs.length :=
  Nat.le_of_mul_le_mul_right (Nat.le_trans hj h.enough) hpos

/-- The loop of `collect_cluster_run` lengthens the run. -/
theorem reads_collectRunLoop (h : CoveredBy g w first size cs) {j : Nat} (left : Nat)
    {run : ClusterRun} (hrun : RunAt cs j run) (hnext : run.nextCluster = FAT32_END_OF_CHAIN)
    (hroom : j + (run.clusterCount + left) ≤ cs.length) :
    ∃ run', Reads g w (collectRunLoop g left run) (some run') ∧
      CollectedAt cs j (run.clusterCount + left) run' := by
  have hpos := hrun.pos
  induction left generalizing run with
  | zero => exact ⟨run, .pure _, hrun, Nat.le_refl _, .inr ⟨rfl, hnext⟩⟩
  | succ left ih =>
    -- the link of the last cluster leads to the next position
    have hlast : run.lastCluster = cs.getD (j + run.clusterCount - 1) 0 := by
      rw [hrun.last]
      congr 1
      omega
    have hlink := h.link (j + run.clusterCount - 1) (by omega)
    rw [show j + run.clusterCount - 1 + 1 = j + run.clusterCount by omega, ← hlast] at hlink
    have hstep := reads_readFatValue (g := g) (w := w) run.lastCluster
    rw [hlink] at hstep
    have hwrap : (run.lastCluster + 1) % 2 ^ 32 = run.lastCluster + 1 := by
      have hlt : run.lastCluster < 0x0FFFFFF8 := by
        rw [hlast]
        exact (isDataCluster_of_covered h (by omega)).2
      exact Nat.mod_eq_of_lt (by omega)
    unfold collectRunLoop
    by_cases hcandidate : cs.getD (j + run.clusterCount) 0 = run.lastCluster + 1
    · have hgrown : RunAt cs j { run with
          lastCluster := cs.getD (j + run.clusterCount) 0
          clusterCount := run.clusterCount + 1 } := by
        refine ⟨Nat.succ_pos _, hrun.first, fun i hi => ?_, rfl⟩
        rcases Nat.lt_succ_iff_lt_or_eq.mp hi with hlt | rfl
        · exact hrun.consecutive i hlt
        · have hbefore := hrun.consecutive (run.clusterCount - 1) (by omega)
          rw [hcandidate, hrun.last, hbefore]
          omega
      obtain ⟨run', hreads, hcollected⟩ := ih hgrown hnext (by dsimp only; omega) hgrown.pos
      refine ⟨run', hstep.bind ?_, ?_⟩
      · dsimp only
        rw [hwrap, if_neg (not_not_intro hcandidate)]
        exact hreads
      · rw [show run.clusterCount + (left + 1) = run.clusterCount + 1 + left by omega]
        exact hcollected
    · refine ⟨{ run with nextCluster := cs.getD (j + run.clusterCount) 0 }, hstep.bind ?_, ?_⟩
      · dsimp only
        rw [hwrap, if_pos hcandidate]
        exact .pure _
      · exact ⟨⟨hrun.pos, hrun.first, hrun.consecutive, hrun.last⟩,
          Nat.le_add_right _ _, .inl ⟨Nat.lt_add_of_pos_right (Nat.succ_pos _), rfl⟩⟩

/-- A run of clusters is collected along the chain. -/
theorem reads_collectClusterRun (h : CoveredBy g w first size cs) {j max : Nat} (hmax : 0 < max)
    (hroom : j + max ≤ cs.length) :
    ∃ run, Reads g w (collectClusterRun g (cs.getD j 0) max) (some run) ∧
      CollectedAt cs j max run := by
  have hstart : RunAt cs j ⟨cs.getD j 0, cs.getD j 0, 1, FAT32_END_OF_CHAIN⟩ := by
    refine ⟨Nat.one_pos, rfl, fun i hi => ?_, rfl⟩
    rw [Nat.lt_one_iff.mp hi]
    rfl
  obtain ⟨run, hreads, hcollected⟩ :=
    reads_collectRunLoop h (max - 1) hstart rfl (by dsimp only; omega)
  refine ⟨run, ?_, ?_⟩
  · unfold collectClusterRun
    have hdata := isDataCluster_of_covered (i := j) h (by omega)
    rw [if_neg fun hnot => hnot.elim (fun hnot => hnot hdata) (by omega)]
    exact hreads
  · rw [show max = 1 + (max - 1) by omega]
    exact hcollected

/-! ### The bytes of a chain -/

/-- The fixed facts about the volume: sectors of 512 bytes, clusters that are not empty, and a
device with less than `2 ^ 64` blocks. -/
structure Readable (g : MountState) (w : World) : Prop where
  bytes : g.bytesPerSector = 512
  sectors : 0 < g.sectorsPerCluster
  wide : w.blockCount < U64

/-- The size of a cluster in bytes. -/
theorem clusterSizeBytes_eq (h : Readable g w) :
    clusterSizeBytes g = 512 * g.sectorsPerCluster := by
  unfold clusterSizeBytes
  rw [h.bytes]

/-- A cluster has bytes. -/
theorem clusterSizeBytes_pos (h : Readable g w) : 0 < clusterSizeBytes g := by
  rw [clusterSizeBytes_eq h]
  exact Nat.mul_pos (by decide) h.sectors

/-- A part of one cluster. -/
theorem chainData_cluster {j offset n : Nat} (hpos : 0 < clusterSizeBytes g)
    (hfits : offset + n ≤ clusterSizeBytes g) :
    (chainData g w cs).bytes (j * clusterSizeBytes g + offset) n =
      w.disk.bytes (clusterFirstLba g (cs.getD j 0) * 512 + offset) n := by
  refine bytes_congr fun i hi => ?_
  have hdiv : (j * clusterSizeBytes g + offset + i) / clusterSizeBytes g = j := by
    rw [Nat.add_assoc, Nat.mul_comm, Nat.mul_add_div hpos, Nat.div_eq_of_lt (by omega),
      Nat.add_zero]
  have hmod : (j * clusterSizeBytes g + offset + i) % clusterSizeBytes g = offset + i := by
    rw [Nat.add_assoc, Nat.mul_comm, Nat.mul_add_mod, Nat.mod_eq_of_lt (by omega)]
  unfold chainData
  rw [hdiv, hmod, Nat.add_assoc]
  rfl

/-- The next cluster has the next sectors. -/
theorem clusterFirstLba_succ {c : Nat} (hc : isDataCluster c)
    (hfits : clusterFirstLba g c + g.sectorsPerCluster < U64) :
    clusterFirstLba g (c + 1) = clusterFirstLba g c + g.sectorsPerCluster := by
  obtain ⟨h2, hlt⟩ := hc
  have hlt : c < 0x0FFFFFF8 := hlt
  have hsub : sub32 (c + 1) 2 = sub32 c 2 + 1 := by
    unfold sub32
    omega
  unfold clusterFirstLba at hfits ⊢
  rw [hsub, Nat.succ_mul, ← Nat.add_assoc, Nat.add_mod,
    Nat.mod_eq_of_lt (by omega : g.sectorsPerCluster < U64), Nat.mod_eq_of_lt hfits]

/-- The last sector of a cluster that lies inside the file is on the device. -/
theorem clusterFirstLba_le (hr : Readable g w) (h : CoveredBy g w first size cs) {j : Nat}
    (hj : (j + 1) * clusterSizeBytes g ≤ size) :
    clusterFirstLba g (cs.getD j 0) + g.sectorsPerCluster ≤ w.blockCount := by
  have hpos := clusterSizeBytes_pos hr
  rw [Nat.succ_mul] at hj
  have hstored := h.stored (j * clusterSizeBytes g + (clusterSizeBytes g - 1)) (by omega)
  rw [show (j * clusterSizeBytes g + (clusterSizeBytes g - 1)) / clusterSizeBytes g = j by
      rw [Nat.mul_comm, Nat.mul_add_div hpos, Nat.div_eq_of_lt (by omega), Nat.add_zero],
    show (j * clusterSizeBytes g + (clusterSizeBytes g - 1)) % clusterSizeBytes g =
        clusterSizeBytes g - 1 by
      rw [Nat.mul_comm, Nat.mul_add_mod, Nat.mod_eq_of_lt (by omega)],
    clusterSizeBytes_eq hr] at hstored
  have hsector : (512 * g.sectorsPerCluster - 1) / SECTOR_SIZE = g.sectorsPerCluster - 1 := by
    have hsectors := hr.sectors
    show (512 * g.sectorsPerCluster - 1) / 512 = _
    omega
  rw [hsector] at hstored
  omega

/-- A run that lies inside the file has consecutive sectors. -/
theorem clusterFirstLba_run (hr : Readable g w) (h : CoveredBy g w first size cs) {j : Nat}
    {run : ClusterRun} (hrun : RunAt cs j run)
    (hinside : (j + run.clusterCount) * clusterSizeBytes g ≤ size) {i : Nat}
    (hi : i < run.clusterCount) :
    clusterFirstLba g (cs.getD (j + i) 0) =
      clusterFirstLba g run.firstCluster + i * g.sectorsPerCluster := by
  have hwide := hr.wide
  induction i with
  | zero => rw [Nat.zero_mul, Nat.add_zero, Nat.add_zero, hrun.first]
  | succ i ih =>
    have hpart : (j + i + 1) * clusterSizeBytes g ≤ size :=
      Nat.le_trans (Nat.mul_le_mul_right _ (by omega)) hinside
    have hle := clusterFirstLba_le hr h hpart
    have hin : j + i < cs.length := position_lt_of_covered h
      (Nat.lt_of_lt_of_le (Nat.mul_lt_mul_of_pos_right (Nat.lt_succ_self _)
        (clusterSizeBytes_pos hr)) hpart)
    have hnext : cs.getD (j + (i + 1)) 0 = cs.getD (j + i) 0 + 1 := by
      rw [hrun.consecutive (i + 1) hi, hrun.consecutive i (by omega)]
      rfl
    rw [hnext, clusterFirstLba_succ (isDataCluster_of_covered h hin) (by omega),
      ih (by omega), Nat.succ_mul, Nat.add_assoc]

/-- The byte at an offset of a run, by its cluster. -/
theorem offset_in_run (lba k : Nat) {sectors bytes : Nat} (hbytes : bytes = 512 * sectors) :
    lba * 512 + 0 + k = (lba + k / bytes * sectors) * 512 + k % bytes := by
  have hstart : k / bytes * sectors * 512 = bytes * (k / bytes) := by
    rw [Nat.mul_assoc, Nat.mul_comm sectors, ← hbytes, Nat.mul_comm]
  calc lba * 512 + 0 + k
      = lba * 512 + (bytes * (k / bytes) + k % bytes) := by rw [Nat.div_add_mod, Nat.add_zero]
    _ = lba * 512 + bytes * (k / bytes) + k % bytes := (Nat.add_assoc _ _ _).symm
    _ = (lba + k / bytes * sectors) * 512 + k % bytes := by rw [Nat.add_mul, hstart]

/-- The transfer of a run gives its bytes of the file. -/
theorem run_bytes (hr : Readable g w) (h : CoveredBy g w first size cs) (hsize : size < 2 ^ 32)
    {j : Nat} {run : ClusterRun} (hrun : RunAt cs j run)
    (hinside : (j + run.clusterCount) * clusterSizeBytes g ≤ size) :
    ∃ sectors, Reads g w (readSectors (clusterFirstLba g run.firstCluster)
        (run.clusterCount * g.sectorsPerCluster % 2 ^ 32)) (some sectors) ∧
      sectors.bytes 0 (run.clusterCount * clusterSizeBytes g) =
        (chainData g w cs).bytes (j * clusterSizeBytes g)
        (run.clusterCount * clusterSizeBytes g) := by
  have hpos := clusterSizeBytes_pos hr
  have hcount := hrun.pos
  have hbytes : run.clusterCount * clusterSizeBytes g =
      run.clusterCount * g.sectorsPerCluster * 512 := by
    rw [clusterSizeBytes_eq hr, Nat.mul_comm 512, Nat.mul_assoc]
  have hlt : run.clusterCount * clusterSizeBytes g ≤ size :=
    Nat.le_trans (Nat.mul_le_mul_right _ (Nat.le_add_left _ _)) hinside
  have hlast := clusterFirstLba_run hr h hrun hinside (i := run.clusterCount - 1) (by omega)
  have hend := clusterFirstLba_le hr h (j := j + (run.clusterCount - 1))
    (Nat.le_trans (Nat.mul_le_mul_right _ (by omega)) hinside)
  have hsum : (run.clusterCount - 1) * g.sectorsPerCluster + g.sectorsPerCluster =
      run.clusterCount * g.sectorsPerCluster := by
    rw [← Nat.succ_mul, Nat.succ_eq_add_one, Nat.sub_add_cancel hcount]
  have hsectors : 0 < run.clusterCount * g.sectorsPerCluster := Nat.mul_pos hcount hr.sectors
  have hrange : clusterFirstLba g run.firstCluster + run.clusterCount * g.sectorsPerCluster ≤
      w.blockCount := by omega
  obtain ⟨sectors, hread, hdata⟩ := readBlocks_bytes (clusterFirstLba g run.firstCluster)
    hsectors hrange
  refine ⟨sectors, ?_, ?_⟩
  · rw [Nat.mod_eq_of_lt (by omega), ← hread]
    exact reads_readSectors _ _
  · rw [hdata 0 _ (by omega)]
    refine bytes_congr fun k hk => ?_
    -- the cluster of an offset of the run, and its sectors
    have hk' : k / clusterSizeBytes g < run.clusterCount := (Nat.div_lt_iff_lt_mul hpos).mpr hk
    have hdiv : (j * clusterSizeBytes g + k) / clusterSizeBytes g =
        j + k / clusterSizeBytes g := by
      rw [Nat.mul_comm, Nat.mul_add_div hpos]
    have hmod : (j * clusterSizeBytes g + k) % clusterSizeBytes g = k % clusterSizeBytes g := by
      rw [Nat.mul_comm, Nat.mul_add_mod]
    unfold chainData
    rw [hdiv, hmod, clusterFirstLba_run hr h hrun hinside hk']
    exact congrArg w.disk (offset_in_run _ k (clusterSizeBytes_eq hr))

/-! ### Reading the whole file -/

/-- How many clusters of a run fit into what is left to read from position `j` on. -/
theorem full_clusters {bytes j left : Nat} (hpos : 0 < bytes) (hleft : bytes ≤ left) :
    0 < left / bytes ∧ (j + left / bytes) * bytes ≤ j * bytes + left := by
  refine ⟨Nat.div_pos hleft hpos, ?_⟩
  rw [Nat.add_mul]
  exact Nat.add_le_add_left (Nat.div_mul_le_self _ _) _

/-- A run that was collected for `left` bytes ends in front of their end. -/
theorem run_inside {j left : Nat} {run : ClusterRun} (hpos : 0 < clusterSizeBytes g)
    (hleft : clusterSizeBytes g ≤ left)
    (hrun : CollectedAt cs j (left / clusterSizeBytes g) run) :
    (j + run.clusterCount) * clusterSizeBytes g ≤ j * clusterSizeBytes g + left :=
  Nat.le_trans (Nat.mul_le_mul_right _ (Nat.add_le_add_left hrun.le j))
    (full_clusters hpos hleft).2

/-- The loop of `read_file_data`, from a position of the chain on. -/
theorem reads_readDataLoop (hr : Readable g w) (h : CoveredBy g w first size cs)
    (hsize : size < 2 ^ 32) (turns : Nat) {j : Nat} (hj : j * clusterSizeBytes g < size)
    (hturns : size - j * clusterSizeBytes g < turns) :
    Reads g w (readDataLoop g size turns (cs.getD j 0)
        ((chainData g w cs).bytes 0 (j * clusterSizeBytes g)))
      (some ((chainData g w cs).bytes 0 size)) := by
  have hpos := clusterSizeBytes_pos hr
  induction turns generalizing j with
  | zero => omega
  | succ turns ih =>
    have hin := position_lt_of_covered h hj
    have hdata := isDataCluster_of_covered h hin
    rw [readDataLoop, length_bytes, if_neg fun hdone => hdone.elim (fun hn => hn hdata) (by omega)]
    dsimp only
    by_cases hfull : size - j * clusterSizeBytes g ≥ clusterSizeBytes g
    · rw [if_pos hfull]
      obtain ⟨hmax, hroom⟩ := full_clusters (j := j) hpos hfull
      obtain ⟨run, hcollect, hrun⟩ := reads_collectClusterRun h (j := j) hmax
        (position_le_of_covered h hpos (by omega))
      have hinside := run_inside hpos hfull hrun
      obtain ⟨sectors, hread, hbytes⟩ := run_bytes hr h hsize hrun.toRunAt (by omega)
      have hsum : j * clusterSizeBytes g + run.clusterCount * clusterSizeBytes g =
          (j + run.clusterCount) * clusterSizeBytes g := (Nat.add_mul _ _ _).symm
      have hgrown : 0 < run.clusterCount * clusterSizeBytes g := Nat.mul_pos hrun.pos hpos
      have hout : (chainData g w cs).bytes 0 (j * clusterSizeBytes g) ++
          sectors.bytes 0 (run.clusterCount * clusterSizeBytes g) =
            (chainData g w cs).bytes 0 ((j + run.clusterCount) * clusterSizeBytes g) := by
        rw [hbytes, ← hsum, bytes_append, Nat.zero_add]
      refine hcollect.bind (hread.bind ?_)
      dsimp only
      rw [hout, length_bytes]
      by_cases hdone : (j + run.clusterCount) * clusterSizeBytes g ≥ size
      · have hall : (j + run.clusterCount) * clusterSizeBytes g = size := by omega
        rw [if_pos hdone, if_neg (not_not_intro hall), hall]
        exact .pure _
      rw [if_neg hdone]
      have hnext := isDataCluster_of_covered h (position_lt_of_covered h (Nat.lt_of_not_le hdone))
      have hloop := ih (j := j + run.clusterCount) (Nat.lt_of_not_le hdone) (by omega)
      rcases hrun.next with ⟨-, hfound⟩ | ⟨-, hend⟩
      · -- the run has stopped at the next cluster
        rw [hfound, if_pos hnext]
        refine Reads.bind (.pure _) ?_
        dsimp only
        rw [if_neg (not_not_intro hnext)]
        exact hloop
      · -- the run was full, and the link of its last cluster is read again
        rw [hend, if_neg (by decide)]
        have hpos' := hrun.pos
        have hlink := h.link (j + (run.clusterCount - 1)) (by
          have := position_lt_of_covered h (Nat.lt_of_not_le hdone)
          omega)
        rw [show j + (run.clusterCount - 1) + 1 = j + run.clusterCount by omega,
          ← hrun.last] at hlink
        have hstep := reads_readFatValue (g := g) (w := w) run.lastCluster
        rw [hlink] at hstep
        refine hstep.bind ?_
        dsimp only
        rw [if_neg (not_not_intro hnext)]
        exact hloop
    · rw [if_neg hfull]
      have htail := reads_readClusterBytes hr.bytes hr.wide 0 (size - j * clusterSizeBytes g)
        hdata (by omega) (by omega) (by omega) fun i hi => by
          have hstored := h.stored (j * clusterSizeBytes g + i) (by omega)
          rw [Nat.mul_comm, Nat.mul_add_div hpos, Nat.div_eq_of_lt (by omega), Nat.add_zero,
            Nat.mul_add_mod, Nat.mod_eq_of_lt (by omega)] at hstored
          rw [Nat.zero_add]
          exact hstored
      rw [← chainData_cluster hpos (by omega), Nat.add_zero] at htail
      refine htail.bind ?_
      dsimp only
      have hall : (chainData g w cs).bytes 0 (j * clusterSizeBytes g) ++
          (chainData g w cs).bytes (j * clusterSizeBytes g) (size - j * clusterSizeBytes g) =
            (chainData g w cs).bytes 0 size := by
        have hsum : j * clusterSizeBytes g + (size - j * clusterSizeBytes g) = size := by omega
        have happend := bytes_append (chainData g w cs) 0 (j * clusterSizeBytes g)
          (size - j * clusterSizeBytes g)
        rw [Nat.zero_add, hsum] at happend
        exact happend.symm
      rw [hall, length_bytes, if_neg (not_not_intro rfl)]
      exact .pure _

/-- `read_file_data` gives the content, when there is memory for it. -/
theorem reads_readFileData (hr : Readable g w) {e : FatEntry} (hsize : e.fileSize ≠ 0)
    (h : CoveredBy g w e.firstCluster e.fileSize.toNat cs) :
    Reads g w (readFileData g true e)
      (some ((chainData g w cs).bytes 0 e.fileSize.toNat)) := by
  have hpositive : 0 * clusterSizeBytes g < e.fileSize.toNat := by
    have hne : e.fileSize.toNat ≠ 0 := fun h => hsize (UInt32.toNat_inj.mp h)
    omega
  have hfirst := isDataCluster_of_covered h (position_lt_of_covered h hpositive)
  have hloop := reads_readDataLoop hr h e.fileSize.toNat_lt (e.fileSize.toNat + 1) hpositive
    (by omega)
  rw [Nat.zero_mul] at hloop
  rw [first_of_covered h] at hloop hfirst
  unfold readFileData
  rw [if_neg hsize, if_neg (not_not_intro hfirst), if_neg (by decide)]
  exact hloop

/-! ### Reading a part -/

/-- What a descriptor remembers: the start of the chain, and at most a position of it. -/
structure Describes (cs : List Nat) (size : Nat) (file : FileDescriptor) : Prop where
  valid : file.valid = true
  size : file.size = size
  first : file.firstCluster = cs.getD 0 0
  cached : file.clusterCacheValid = true → file.clusterCacheIndex < cs.length ∧
    file.clusterCacheValue = cs.getD file.clusterCacheIndex 0

/-- The descriptor after a position was found. -/
theorem Describes.moved {file : FileDescriptor} (hd : Describes cs size file) {index value : Nat}
    (hindex : index < cs.length) (hvalue : value = cs.getD index 0) :
    Describes cs size { file with
      clusterCacheValid := true, clusterCacheIndex := index, clusterCacheValue := value } :=
  ⟨hd.valid, hd.size, hd.first, fun _ => ⟨hindex, hvalue⟩⟩

/-- Following the chain for a number of steps. -/
theorem reads_followChain (h : CoveredBy g w first size cs) (steps j : Nat)
    (hin : j + steps < cs.length) :
    Reads g w (followChain g steps (cs.getD j 0)) (some (cs.getD (j + steps) 0)) := by
  induction steps generalizing j with
  | zero => exact .pure _
  | succ steps ih =>
    have hstep := reads_readFatValue (g := g) (w := w) (cs.getD j 0)
    rw [h.link j (by omega)] at hstep
    unfold followChain
    refine hstep.bind ?_
    dsimp only
    rw [if_neg (not_not_intro (isDataCluster_of_covered h (by omega))),
      show j + (steps + 1) = j + 1 + steps by omega]
    exact ih (j + 1) (by omega)

/-- `cluster_for_file_offset` finds the cluster at a position, from the cached one or from the
first. -/
theorem reads_clusterForFileOffset (h : CoveredBy g w first size cs) {file : FileDescriptor}
    (hd : Describes cs size file) (hsize : size ≠ 0) {index : Nat} (hindex : index < cs.length) :
    Reads g w (clusterForFileOffset g file index) (some (cs.getD index 0, { file with
      clusterCacheValid := true, clusterCacheIndex := index,
      clusterCacheValue := cs.getD index 0 })) := by
  have hopen : ¬ (!file.valid || file.size = 0) = true := by simp [hd.valid, hd.size, hsize]
  unfold clusterForFileOffset
  rw [if_neg hopen]
  by_cases hcached : file.clusterCacheValid ∧ file.clusterCacheIndex ≤ index
  · obtain ⟨-, hvalue⟩ := hd.cached hcached.1
    rw [if_pos hcached]
    dsimp only
    have hfollow := reads_followChain h (index - file.clusterCacheIndex) file.clusterCacheIndex
      (by omega)
    rw [show file.clusterCacheIndex + (index - file.clusterCacheIndex) = index by omega,
      ← hvalue] at hfollow
    exact hfollow.bind (.pure _)
  · rw [if_neg hcached]
    dsimp only
    have hfollow := reads_followChain h index 0 (by omega)
    rw [Nat.zero_add, ← hd.first] at hfollow
    exact hfollow.bind (.pure _)

/-- The loop of `read_file_range`, with `n` bytes copied. -/
theorem reads_readRangeLoop (hr : Readable g w) (h : CoveredBy g w first size cs)
    (hsize : size < 2 ^ 32) {offset remaining turns n : Nat} (hend : offset + remaining ≤ size)
    (hn : n ≤ remaining) (hturns : remaining - n < turns) {file : FileDescriptor}
    (hd : Describes cs size file) :
    ∃ file', Describes cs size file' ∧
      Reads g w (readRangeLoop g offset remaining turns file ((chainData g w cs).bytes offset n))
        (some ((chainData g w cs).bytes offset remaining), file') := by
  have hpos := clusterSizeBytes_pos hr
  induction turns generalizing n file with
  | zero => omega
  | succ turns ih =>
    rw [readRangeLoop, length_bytes]
    by_cases hdone : n ≥ remaining
    · rw [if_pos hdone, show n = remaining by omega]
      exact ⟨file, hd, .pure _⟩
    rw [if_neg hdone]
    dsimp only
    -- the position of the next byte
    generalize hindex : (offset + n) / clusterSizeBytes g = index
    generalize hwithin : (offset + n) % clusterSizeBytes g = within
    have hsplit : index * clusterSizeBytes g + within = offset + n := by
      rw [← hindex, ← hwithin, Nat.mul_comm]
      exact Nat.div_add_mod _ _
    have hlt : within < clusterSizeBytes g := by
      rw [← hwithin]
      exact Nat.mod_lt _ hpos
    have hin := position_lt_of_covered h (show index * clusterSizeBytes g < size by omega)
    have hdata := isDataCluster_of_covered h hin
    have hfound := reads_clusterForFileOffset h hd (by omega) hin
    have hmoved := hd.moved hin rfl
    by_cases hfull : within = 0 ∧ remaining - n ≥ clusterSizeBytes g
    · obtain ⟨rfl, hfull'⟩ := hfull
      obtain ⟨hmax, hroom⟩ := full_clusters (j := index) hpos hfull'
      obtain ⟨run, hcollect, hrun⟩ := reads_collectClusterRun h (j := index) hmax
        (position_le_of_covered h hpos (by omega))
      have hinside := run_inside hpos hfull' hrun
      obtain ⟨sectors, hread, hbytes⟩ := run_bytes hr h hsize hrun.toRunAt (by omega)
      have hsum : (index + run.clusterCount) * clusterSizeBytes g =
          index * clusterSizeBytes g + run.clusterCount * clusterSizeBytes g := Nat.add_mul _ _ _
      have hgrown : 0 < run.clusterCount * clusterSizeBytes g := Nat.mul_pos hrun.pos hpos
      have hout : (chainData g w cs).bytes offset n ++
          sectors.bytes 0 (run.clusterCount * clusterSizeBytes g) =
            (chainData g w cs).bytes offset (n + run.clusterCount * clusterSizeBytes g) := by
        rw [hbytes, bytes_append, ← hsplit, Nat.add_zero]
      have hafter := position_le_of_covered h hpos
        (show (index + run.clusterCount) * clusterSizeBytes g ≤ size by omega)
      have hcount := hrun.pos
      have hcache : Describes cs size
          (if isDataCluster run.nextCluster ∧
              n + run.clusterCount * clusterSizeBytes g < remaining then
            { file with
              clusterCacheValid := true
              clusterCacheIndex := index + run.clusterCount
              clusterCacheValue := run.nextCluster }
          else
            { file with
              clusterCacheValid := true
              clusterCacheIndex := index + run.clusterCount - 1
              clusterCacheValue := run.lastCluster }) := by
        split
        next hnext =>
          -- the run has stopped in front of a cluster of the file
          rcases hrun.next with ⟨-, hvalue⟩ | ⟨-, hnone⟩
          · exact hd.moved (position_lt_of_covered h
              (show (index + run.clusterCount) * clusterSizeBytes g < size by omega)) hvalue
          · rw [hnone] at hnext
            exact absurd hnext.1 (by decide)
        · refine hd.moved (by omega) ?_
          rw [hrun.last]
          congr 1
          omega
      obtain ⟨file', hdescribes, hloop⟩ :=
        ih (n := n + run.clusterCount * clusterSizeBytes g) (by omega) (by omega) hcache
      refine ⟨file', hdescribes, hfound.bind ?_⟩
      dsimp only
      rw [if_pos ⟨rfl, hfull'⟩]
      refine hcollect.bind (hread.bind ?_)
      dsimp only
      rw [hout, length_bytes]
      exact hloop
    · have hread := reads_readClusterBytes hr.bytes hr.wide within
        (min (clusterSizeBytes g - within) (remaining - n)) hdata
        (by omega) (by omega) (by omega) fun i hi => by
          have hstored := h.stored (offset + n + i) (by omega)
          rw [← hsplit, Nat.add_assoc, Nat.mul_comm, Nat.mul_add_div hpos,
            Nat.div_eq_of_lt (by omega), Nat.add_zero, Nat.mul_add_mod,
            Nat.mod_eq_of_lt (by omega)] at hstored
          exact hstored
      rw [← chainData_cluster hpos (by omega), hsplit] at hread
      obtain ⟨file', hdescribes, hloop⟩ :=
        ih (n := n + min (clusterSizeBytes g - within) (remaining - n)) (by omega) (by omega)
          hmoved
      refine ⟨file', hdescribes, hfound.bind ?_⟩
      dsimp only
      rw [if_neg hfull]
      refine hread.bind ?_
      dsimp only
      rw [← bytes_append]
      exact hloop

/-- `read_file_range` gives the slice of the content. -/
theorem reads_readFileRange (hr : Readable g w) (h : CoveredBy g w first size cs)
    (hsize : size < 2 ^ 32) {file : FileDescriptor} (hd : Describes cs size file)
    (offset count : Nat) :
    ∃ file', Describes cs size file' ∧ Reads g w (readFileRange g file offset count)
      (some ((((chainData g w cs).bytes 0 size).drop offset).take count), file') := by
  unfold readFileRange
  rw [if_neg (by simp [hd.valid]), bytes_slice, hd.size]
  by_cases hnone : count = 0 ∨ offset ≥ size
  · rw [if_pos hnone, show min (size - offset) count = 0 by omega]
    exact ⟨file, hd, .pure _⟩
  · rw [if_neg hnone]
    exact reads_readRangeLoop hr h hsize (by omega) (Nat.zero_le _) (by omega) hd

/-- A sequence of reads, by induction on them. -/
theorem reads_readRanges (hr : Readable g w) (h : CoveredBy g w first size cs)
    (hsize : size < 2 ^ 32) (calls : List (Nat × Nat)) {file : FileDescriptor}
    (hd : Describes cs size file) :
    Reads g w (readRanges g file calls)
      (calls.map fun call => some
        ((((chainData g w cs).bytes 0 size).drop call.1).take call.2)) := by
  induction calls generalizing file with
  | nil => exact .pure _
  | cons call calls ih =>
    obtain ⟨file', hdescribes, hread⟩ := reads_readFileRange hr h hsize hd call.1 call.2
    exact hread.bind ((ih hdescribes).bind (.pure _))

/-- Reads of an empty file. -/
theorem reads_readRanges_empty (calls : List (Nat × Nat)) {file : FileDescriptor}
    (hvalid : file.valid = true) (hempty : file.size = 0) :
    Reads g w (readRanges g file calls)
      (calls.map fun call => some ((([] : List UInt8).drop call.1).take call.2)) := by
  induction calls with
  | nil => exact .pure _
  | cons call calls ih =>
    have hread : Reads g w (readFileRange g file call.1 call.2)
        (some ((([] : List UInt8).drop call.1).take call.2), file) := by
      unfold readFileRange
      rw [if_neg (by simp [hvalid]), if_pos (.inr (by omega)), List.drop_nil, List.take_nil]
      exact .pure _
    exact hread.bind (ih.bind (.pure _))

end Chain

/-! ### Descriptors of a mounted volume -/

section Volume

variable {g : MountState} {w : World}

/-- A mounted volume can be read. -/
theorem readable_of_mounted (h : Mounted g w) : Readable g w :=
  ⟨(geometry_of_mounted h).bytes, (geometry_of_mounted h).sectors, h.wide⟩

theorem asks_resolvePath (n : Nat) (path : List UInt8) : (resolvePath g n path).Asks IsRead := by
  rw [resolvePath_eq]
  exact asks_resolveComponents _ _

/-- An open file was found under its path. -/
theorem openFile_found (hmounted : Mounted g w) {rounds : Nat} {path : List UInt8}
    {file : FileDescriptor} (hopen : outcome g w (openFile g rounds path) = some (some file)) :
    ∃ entry, Reads g w (resolvePath g rounds path) (some entry) ∧
      buildFileDescriptor entry.entry = some file := by
  unfold openFile at hopen
  rw [if_neg (by simp [(geometry_of_mounted hmounted).mounted]),
    outcome_bind hmounted.fresh (asks_resolvePath rounds path)] at hopen
  · cases hresolve : outcome g w (resolvePath g rounds path) with
    | none => rw [hresolve] at hopen; cases hopen
    | some found =>
      rw [hresolve, Option.bind_some] at hopen
      cases found with
      | none => cases hopen
      | some entry =>
        exact ⟨entry, reads_of_outcome (asks_resolvePath rounds path) hmounted.fresh hresolve,
          Option.some.inj hopen⟩
  · intro found
    cases found with
    | none => exact trivial
    | some entry => exact trivial

/-- What a descriptor takes from its entry. -/
theorem buildFileDescriptor_eq {e : FatEntry} {file : FileDescriptor}
    (h : buildFileDescriptor e = some file) :
    e.isDirectory = false ∧ file = ⟨true, e.firstCluster, e.fileSize.toNat, false, 0, 0⟩ := by
  unfold buildFileDescriptor at h
  split at h
  · cases h
  next hdir =>
    split at h
    · cases h
    · exact ⟨by simpa using hdir, (Option.some.inj h).symm⟩

/-- `read_file` of a path reads the data of the entry that is found there. -/
theorem reads_readFile (hmounted : Mounted g w) {rounds : Nat} {path : List UInt8}
    {entry : DirectoryEntryRef} (hresolve : Reads g w (resolvePath g rounds path) (some entry))
    (hdir : entry.entry.isDirectory = false) {heap : Bool} {content : Option (List UInt8)}
    (hread : Reads g w (readFileData g heap entry.entry) content) :
    Reads g w (readFile g rounds heap path) content := by
  unfold readFile
  rw [if_neg (by simp [(geometry_of_mounted hmounted).mounted])]
  refine hresolve.bind ?_
  dsimp only
  rw [if_neg (by simp [hdir])]
  exact hread

/-- Every descriptor of a file whose chain covers its size: `read_file` returns the content of the
file, and a sequence of reads through the descriptor, in any order of the offsets, returns the
slices of that content, with any cache of the disk at the start of each. -/
theorem range_reads_agree (hmounted : Mounted g w) {rounds : Nat} {path : List UInt8}
    {file : FileDescriptor} (hopen : outcome g w (openFile g rounds path) = some (some file))
    (hcovers : ChainCovers g w file.firstCluster file.size) :
    ∃ content, content.length = file.size ∧
      (∀ w', SameDisk w w' → Fresh g w' →
        outcome g w' (readFile g rounds true path) = some (some content)) ∧
      ∀ w', SameDisk w w' → Fresh g w' → ∀ calls : List (Nat × Nat),
        outcome g w' (readRanges g file calls) =
          some (calls.map fun call => some ((content.drop call.1).take call.2)) := by
  obtain ⟨entry, hresolve, hbuild⟩ := openFile_found hmounted hopen
  obtain ⟨hdir, rfl⟩ := buildFileDescriptor_eq hbuild
  have hr := readable_of_mounted hmounted
  -- A file without bytes has no chain; the others are read along theirs, by both calls.
  by_cases hempty : entry.entry.fileSize = 0
  · have hzero : entry.entry.fileSize.toNat = 0 := by rw [hempty]; rfl
    have hread : Reads g w (readFileData g true entry.entry) (some []) := by
      unfold readFileData
      rw [if_pos hempty]
      exact .pure _
    refine ⟨[], hzero.symm, fun w' hsame hfresh => ?_, fun w' hsame hfresh calls => ?_⟩
    · exact (reads_readFile hmounted hresolve hdir hread).outcome hsame hfresh
    · exact (reads_readRanges_empty calls rfl hzero).outcome hsame hfresh
  · have hne : entry.entry.fileSize.toNat ≠ 0 := fun h => hempty (UInt32.toNat_inj.mp h)
    obtain ⟨cs, h⟩ := hcovers.resolve_left hne
    have hdescribes : Describes cs entry.entry.fileSize.toNat
        ⟨true, entry.entry.firstCluster, entry.entry.fileSize.toNat, false, 0, 0⟩ :=
      ⟨rfl, rfl, (first_of_covered h).symm, fun hcached => by cases hcached⟩
    refine ⟨(chainData g w cs).bytes 0 entry.entry.fileSize.toNat, length_bytes ..,
      fun w' hsame hfresh => ?_, fun w' hsame hfresh calls => ?_⟩
    · exact (reads_readFile hmounted hresolve hdir (reads_readFileData hr hempty h)).outcome
        hsame hfresh
    · exact (reads_readRanges hr h entry.entry.fileSize.toNat_lt calls hdescribes).outcome
        hsame hfresh

end Volume

/-! ### A file of three clusters -/

/-- A disk with the file `A` in the root: 1200 bytes in the clusters 3, 5 and 4. -/
def fileDisk : Buffer := fun i =>
  if i = 524 then 5
  else if i = 532 then 4
  else if i = 1024 then 'A'.toUInt8
  else if 1024 < i ∧ i < 1035 then ' '.toUInt8
  else if i = 1035 then ATTR_ARCHIVE
  else if i = 1050 then 3
  else if i = 1052 then 0xB0
  else if i = 1053 then 4
  else if 1536 ≤ i then UInt8.ofNat i
  else bootSector i

theorem mounted_fileDisk : Mounted bootVolume (bootWorld fileDisk) := by
  refine mounted_bootWorld fun i hi => ?_
  unfold fileDisk
  simp only [show i ≠ 524 ∧ i ≠ 532 ∧ i ≠ 1024 ∧ ¬ (1024 < i ∧ i < 1035) ∧ i ≠ 1035 ∧ i ≠ 1050 ∧
    i ≠ 1052 ∧ i ≠ 1053 ∧ ¬ 1536 ≤ i by omega, if_false]

theorem coveredBy_fileDisk : CoveredBy bootVolume (bootWorld fileDisk) 3 1200 [3, 5, 4] where
  head := rfl
  link i hi := by
    have hcases : i = 0 ∨ i = 1 := by
      simp only [List.length_cons, List.length_nil] at hi
      omega
    rcases hcases with rfl | rfl <;> with_unfolding_all decide
  data := by decide
  enough := by decide
  stored k hk := by
    have hsize : clusterSizeBytes bootVolume = 512 := by decide
    have hlba : ∀ j < 3, clusterFirstLba bootVolume ([3, 5, 4].getD j 0) < 6 := by
      with_unfolding_all decide
    have hblocks : (bootWorld fileDisk).blockCount = 65527 := rfl
    have hsector : SECTOR_SIZE = 512 := rfl
    have hfirst := hlba (k / 512) (by omega)
    rw [hsize, hblocks, hsector]
    omega

/-- Its end, bytes of two clusters, and then its start. -/
theorem range_reads_agree_file :
    ∃ content, content.length = 1200 ∧
      outcome bootVolume (bootWorld fileDisk)
        (readFile bootVolume 1 true ['/'.toUInt8, 'A'.toUInt8]) = some (some content) ∧
      outcome bootVolume (bootWorld fileDisk)
        (readRanges bootVolume ⟨true, 3, 1200, false, 0, 0⟩ [(1100, 200), (500, 600), (0, 2)]) =
          some [some ((content.drop 1100).take 200), some ((content.drop 500).take 600),
            some ((content.drop 0).take 2)] := by
  have hopen : outcome bootVolume (bootWorld fileDisk)
      (openFile bootVolume 1 ['/'.toUInt8, 'A'.toUInt8]) =
        some (some ⟨true, 3, 1200, false, 0, 0⟩) := by
    with_unfolding_all decide
  obtain ⟨content, hlength, hread, hranges⟩ :=
    range_reads_agree mounted_fileDisk hopen (.inr ⟨[3, 5, 4], coveredBy_fileDisk⟩)
  have hsame := SameDisk.refl (bootWorld fileDisk)
  exact ⟨content, hlength, hread _ hsame mounted_fileDisk.fresh,
    hranges _ hsame mounted_fileDisk.fresh [(1100, 200), (500, 600), (0, 2)]⟩

end VKernel.Proofs.Fs

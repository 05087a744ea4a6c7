import VKernel.Fs.Fat32.FatWords
import VKernel.Proofs.Fs.Fat32.FreshReads
import Mathlib.Data.Finset.Card

/-!
# `VKernel.Proofs.Fs.Fat32.FreeChain`: freeing a chain comes to its end

`free_cluster_chain` follows links of the FAT like a scan does, but it clears the entry of a
cluster before it goes on. `Zeroed` says that an entry is cleared so that it stays cleared for
the driver: on the disk, and in the cache if its sector is there. A chain that comes back to a
cluster finds it `Zeroed` and ends, whatever the FAT and the cache hold otherwise.
-/

set_option autoImplicit false

namespace VKernel.Proofs.Fs

open VKernel.Lib VKernel.Fs VKernel.Fs.Fat32

variable {g : MountState} {w : World}

/-- The block of a sector of the first FAT. -/
def fatBlock (g : MountState) (s : Nat) : Nat :=
  (g.partitionStartLba + g.reservedSectorCount + s) % U64

/-- The FAT entry of a cluster is 0, on the disk and in the cache. -/
structure Zeroed (g : MountState) (w : World) (c : Nat) : Prop where
  disk : leValue w.disk (fatBlock g (c * 4 / 512) * 512 + c * 4 % 512) 4 % 2 ^ 28 = 0
  cache : w.cache.hit (c * 4 / 512) →
    leValue (w.cache.sector g (c * 4 / 512)) (c * 4 % 512) 4 % 2 ^ 28 = 0

/-- A block that is a few blocks behind another one. -/
theorem fatBlock_add {s d : Nat} (h : fatBlock g s + d < U64) :
    fatBlock g (s + d) = fatBlock g s + d := by
  unfold fatBlock at *
  rw [← Nat.add_assoc, Nat.add_mod, Nat.mod_eq_of_lt (show d < U64 by omega), Nat.mod_eq_of_lt h]

theorem inRange_of_readBlocks {lba count : Nat} {data : Buffer}
    (h : w.readBlocks lba count = some data) : w.inRange lba count := by
  by_contra hrange
  unfold World.readBlocks at h
  rw [if_neg hrange] at h
  cases h

/-- What a read that succeeds returns. -/
theorem readBlocks_eq_some {lba count : Nat} {data : Buffer}
    (h : w.readBlocks lba count = some data) :
    lba + count ≤ w.blockCount ∧ ∀ i < count * 512, data i = w.disk (lba * 512 + i) := by
  have hrange := inRange_of_readBlocks h
  unfold World.readBlocks SECTOR_SIZE at h
  rw [if_pos hrange] at h
  cases h
  obtain ⟨-, hfirst, hlast⟩ := hrange
  exact ⟨by omega, fun i hi => if_pos hi⟩

/-! ### Reading -/

/-- A group of FAT sectors that is read from the disk has its cleared entries cleared. -/
theorem leValue_readCacheLine (hwide : w.blockCount < U64) {line : Nat} {data : Buffer}
    (hline : readCacheLine g w line = some data) {c : Nat} (hzero : Zeroed g w c)
    (hfirst : line ≤ c * 4 / 512)
    (hlast : c * 4 / 512 < line + min (g.sectorsPerFat - line) FAT_CACHE_SECTOR_COUNT) :
    leValue data ((c * 4 / 512 - line) * 512 + c * 4 % 512) 4 % 2 ^ 28 = 0 := by
  have hread : w.readBlocks (fatBlock g line)
    (min (g.sectorsPerFat - line) FAT_CACHE_SECTOR_COUNT) = some data := hline
  obtain ⟨hroom, hdata⟩ := readBlocks_eq_some hread
  have hblock : fatBlock g (c * 4 / 512) = fatBlock g line + (c * 4 / 512 - line) := by
    rw [← fatBlock_add (by omega), Nat.add_sub_cancel' hfirst]
  have hdisk := hzero.disk
  rw [hblock] at hdisk
  rw [← hdisk]
  congr 1
  apply leValue_congr
  intro i hi
  rw [hdata _ (by omega)]
  exact congrArg w.disk (by omega)

/-- Filling the cache keeps cleared entries cleared, and the sector that is read is then in
the cache. -/
theorem cachedFatSector_zeroed (hbytes : g.bytesPerSector = 512) (hwide : w.blockCount < U64)
    (s : Nat) :
    ((w.cachedFatSector g s).1 = none ∨ (w.cachedFatSector g s).2.cache.hit s ∧
        (w.cachedFatSector g s).1 = some ((w.cachedFatSector g s).2.cache.sector g s)) ∧
      (w.cachedFatSector g s).2.blockCount = w.blockCount ∧
      ∀ c, Zeroed g w c → Zeroed g (w.cachedFatSector g s).2 c := by
  unfold World.cachedFatSector
  by_cases hs : s ≥ g.sectorsPerFat
  · rw [if_pos hs]
    exact ⟨.inl rfl, rfl, fun _ h => h⟩
  rw [if_neg hs]
  by_cases hhit : w.cache.hit s
  · rw [if_pos hhit]
    exact ⟨.inr ⟨hhit, rfl⟩, rfl, fun _ h => h⟩
  rw [if_neg hhit]
  have hfill : w.readBlocks ((g.partitionStartLba + g.reservedSectorCount +
      s / FAT_CACHE_SECTOR_COUNT * FAT_CACHE_SECTOR_COUNT) % U64)
      (min (g.sectorsPerFat - s / FAT_CACHE_SECTOR_COUNT * FAT_CACHE_SECTOR_COUNT)
        FAT_CACHE_SECTOR_COUNT) = readCacheLine g w (cacheLine s) := rfl
  simp only [hfill]
  cases hline : readCacheLine g w (cacheLine s) with
  | none => exact ⟨.inl rfl, rfl, fun _ h => h⟩
  | some data =>
    refine ⟨.inr ⟨⟨rfl, ?_, ?_⟩, rfl⟩, rfl, fun c h => ⟨h.disk, fun hin => ?_⟩⟩
    · show cacheLine s ≤ s
      exact Nat.div_mul_le_self _ _
    · show s < cacheLine s + min (g.sectorsPerFat - cacheLine s) FAT_CACHE_SECTOR_COUNT
      unfold cacheLine FAT_CACHE_SECTOR_COUNT
      omega
    · show leValue (fun i => data ((c * 4 / 512 - cacheLine s) * g.bytesPerSector + i))
        (c * 4 % 512) 4 % 2 ^ 28 = 0
      rw [hbytes, @leValue_congr _ data _ ((c * 4 / 512 - cacheLine s) * 512 + c * 4 % 512) 4]
      · exact leValue_readCacheLine hwide hline h hin.2.1 hin.2.2
      · intro i hi
        rw [Nat.add_assoc]

/-- Reading a FAT value. A cleared entry reads as 0. -/
theorem wp_readFatValue_zeroed (hbytes : g.bytesPerSector = 512) (hwide : w.blockCount < U64)
    {c : Nat} (hc : c < 2 ^ 28) {Q : Option Nat → World → Prop}
    (hQ : ∀ value w', w'.blockCount = w.blockCount → (∀ c, Zeroed g w c → Zeroed g w' c) →
      (∀ v, value = some v → v < 2 ^ 28 ∧ (Zeroed g w c → v = 0)) → Q value w') :
    (readFatValue g c).wp (deviceHandler g) Q w := by
  have hsector : c * 4 % 2 ^ 32 / g.bytesPerSector = c * 4 / 512 := by
    rw [hbytes, Nat.mod_eq_of_lt (by omega)]
  have hoffset : c * 4 % 2 ^ 32 % g.bytesPerSector = c * 4 % 512 := by
    rw [hbytes, Nat.mod_eq_of_lt (show c * 4 < 2 ^ 32 by omega)]
  obtain ⟨hanswer, hcount, hkeeps⟩ := @cachedFatSector_zeroed g w hbytes hwide (c * 4 / 512)
  unfold readFatValue readCachedFatSector
  dsimp only
  rw [hsector, hoffset, Program.wp_bind, Program.wp_request]
  rcases hanswer with hnone | ⟨hhit, hsome⟩
  · rw [show (deviceHandler g (.cachedFatSector (c * 4 / 512)) w).1 = none from hnone]
    exact hQ _ _ hcount hkeeps fun v h => by cases h
  · rw [show (deviceHandler g (.cachedFatSector (c * 4 / 512)) w).1 = some _ from hsome]
    refine hQ _ _ hcount hkeeps fun v hv => ?_
    cases hv
    exact ⟨Nat.mod_lt _ (by omega), fun hzero => (hkeeps c hzero).cache hhit⟩

/-! ### Writing -/

/-- The sector with an entry cleared. -/
def clearedSector (sector : Buffer) (offset : Nat) : Buffer :=
  leStore sector offset 4 (mergeFatValue (leValue sector offset 4) 0)

/-- Only the one entry changes. -/
theorem leValue_clearedSector (sector : Buffer) {offset o : Nat} (ho : o % 4 = 0)
    (hoffset : offset % 4 = 0) :
    leValue (clearedSector sector offset) o 4 % 2 ^ 28 =
      if o = offset then 0 else leValue sector o 4 % 2 ^ 28 := by
  unfold clearedSector
  by_cases heq : o = offset
  · subst heq
    have hlt := leValue_lt sector o 4
    rw [if_pos rfl, leValue_leStore]
    unfold mergeFatValue
    omega
  · rw [if_neg heq, @leValue_congr _ sector _ o]
    intro i hi
    exact leStore_outside (by omega)

/-- The words of the disk after a sector was written. -/
theorem leValue_writeBlocks {lba : Nat} (hrange : w.inRange lba 1) (data : Buffer) (block : Nat)
    {o : Nat} (ho : o + 4 ≤ 512) :
    leValue (w.writeBlocks lba 1 data).2.disk (block * 512 + o) 4 =
      if block = lba then leValue data o 4 else leValue w.disk (block * 512 + o) 4 := by
  unfold World.writeBlocks SECTOR_SIZE
  rw [if_pos hrange]
  by_cases heq : block = lba
  · subst heq
    rw [if_pos rfl]
    apply leValue_congr
    intro i hi
    dsimp only
    rw [if_pos (by omega)]
    exact congrArg data (by omega)
  · rw [if_neg heq]
    apply leValue_congr
    intro i hi
    dsimp only
    rw [if_neg (by omega)]

/-- The state after a sector of the FAT was written with an entry cleared, for the first copy
also in the cache. -/
def afterClear (g : MountState) (w : World) (k s o lba : Nat) (sector : Buffer) : World :=
  if k = 0 then
    (w.writeBlocks lba 1 (clearedSector sector o)).2.refreshFatCache g s (clearedSector sector o)
  else (w.writeBlocks lba 1 (clearedSector sector o)).2

/-- Refreshing the cache is about the cache. -/
theorem refreshFatCache_disk (s : Nat) (sector : Buffer) :
    (w.refreshFatCache g s sector).disk = w.disk ∧
      (w.refreshFatCache g s sector).blockCount = w.blockCount := by
  unfold World.refreshFatCache
  split
  · exact ⟨rfl, rfl⟩
  · exact ⟨rfl, rfl⟩

/-- The words of the cache after a refresh. -/
theorem leValue_refreshFatCache (hbytes : g.bytesPerSector = 512) (s : Nat) (sector : Buffer)
    {t o : Nat} (ho : o + 4 ≤ 512) (hhit : (w.refreshFatCache g s sector).cache.hit t) :
    w.cache.hit t ∧ leValue ((w.refreshFatCache g s sector).cache.sector g t) o 4 =
      if t = s then leValue sector o 4 else leValue (w.cache.sector g t) o 4 := by
  unfold World.refreshFatCache at *
  by_cases hs : w.cache.hit s
  · rw [if_pos hs] at hhit ⊢
    refine ⟨hhit, ?_⟩
    obtain ⟨-, hfirst, -⟩ := hs
    obtain ⟨-, hfirst', -⟩ := hhit
    change w.cache.firstSector ≤ t at hfirst'
    unfold FatCache.sector SECTOR_SIZE
    dsimp only
    rw [hbytes]
    by_cases heq : t = s
    · subst heq
      rw [if_pos rfl]
      apply leValue_congr
      intro i hi
      rw [if_pos (by omega)]
      exact congrArg sector (by omega)
    · rw [if_neg heq]
      apply leValue_congr
      intro i hi
      rw [if_neg (by omega)]
  · rw [if_neg hs] at hhit ⊢
    refine ⟨hhit, ?_⟩
    rw [if_neg]
    rintro rfl
    exact hs hhit

/-- Clearing an entry keeps the cleared ones cleared, and the first copy makes it one. -/
theorem zeroed_afterClear (hbytes : g.bytesPerSector = 512) {k s o lba : Nat} {sector : Buffer}
    (hread : w.readBlocks lba 1 = some sector) (hrange : w.inRange lba 1) (ho : o % 4 = 0)
    (hlba : k = 0 → lba = fatBlock g s) {c : Nat}
    (hc : Zeroed g w c ∨ k = 0 ∧ c * 4 / 512 = s ∧ c * 4 % 512 = o) :
    Zeroed g (afterClear g w k s o lba sector) c := by
  have hoffset : c * 4 % 512 % 4 = 0 := by omega
  have hroom : c * 4 % 512 + 4 ≤ 512 := by omega
  obtain ⟨-, hdata⟩ := readBlocks_eq_some hread
  -- The cleared sector has the entry cleared, whichever sector of the FAT it is.
  have hsector : fatBlock g (c * 4 / 512) = lba →
      leValue (clearedSector sector o) (c * 4 % 512) 4 % 2 ^ 28 = 0 := by
    intro hblock
    rw [leValue_clearedSector sector hoffset ho]
    by_cases heq : c * 4 % 512 = o
    · rw [if_pos heq]
    · rw [if_neg heq]
      rcases hc with hzero | ⟨-, -, heq'⟩
      · rw [← hzero.disk, hblock]
        congr 1
        apply leValue_congr
        intro i hi
        rw [hdata _ (by omega), Nat.add_assoc]
      · exact absurd heq' heq
  have hdisk : leValue (w.writeBlocks lba 1 (clearedSector sector o)).2.disk
      (fatBlock g (c * 4 / 512) * 512 + c * 4 % 512) 4 % 2 ^ 28 = 0 := by
    rw [leValue_writeBlocks hrange _ _ hroom]
    by_cases hblock : fatBlock g (c * 4 / 512) = lba
    · rw [if_pos hblock]
      exact hsector hblock
    · rw [if_neg hblock]
      rcases hc with hzero | ⟨rfl, hs, -⟩
      · exact hzero.disk
      · exact absurd (hs ▸ (hlba rfl).symm) hblock
  have hcache : (w.writeBlocks lba 1 (clearedSector sector o)).2.cache = w.cache := by
    unfold World.writeBlocks
    rw [if_pos hrange]
  unfold afterClear
  by_cases hk : k = 0
  · rw [if_pos hk]
    refine ⟨(refreshFatCache_disk s _).1.symm ▸ hdisk, fun hhit => ?_⟩
    obtain ⟨hhit', hvalue⟩ := leValue_refreshFatCache hbytes s _ hroom hhit
    rw [hvalue]
    by_cases hs : c * 4 / 512 = s
    · rw [if_pos hs]
      exact hsector (hs ▸ (hlba hk).symm)
    · rw [if_neg hs]
      rcases hc with hzero | ⟨-, hs', -⟩
      · rw [hcache] at hhit' ⊢
        exact hzero.cache hhit'
      · exact absurd hs' hs
  · rw [if_neg hk]
    refine ⟨hdisk, fun hhit => ?_⟩
    rcases hc with hzero | ⟨hk', -⟩
    · rw [hcache] at hhit ⊢
      exact hzero.cache hhit
    · exact absurd hk' hk

theorem wp_writeFatCopies_zeroed (hbytes : g.bytesPerSector = 512) {s o : Nat} (ho : o % 4 = 0)
    (copies k : Nat) (w : World) :
    (writeFatCopies g s o 0 copies k).wp (deviceHandler g) (fun written w' =>
      (∀ c, Zeroed g w c → Zeroed g w' c) ∧ (written = true → k = 0 → 0 < copies →
        ∀ c, c * 4 / 512 = s → c * 4 % 512 = o → Zeroed g w' c)) w := by
  induction copies generalizing k w with
  | zero => exact ⟨fun _ h => h, fun _ _ hpos => absurd hpos (Nat.lt_irrefl 0)⟩
  | succ copies ih =>
    have hblock : (g.partitionStartLba + g.reservedSectorCount +
      k * g.sectorsPerFat % 2 ^ 32 + s) % U64 = copyBlock g k s := rfl
    rw [writeFatCopies, Program.wp_bind, wp_readSectors_iff, hblock]
    cases hread : w.readBlocks (copyBlock g k s) 1 with
    | none => exact ⟨fun _ h => h, fun hfalse => by cases hfalse⟩
    | some sector =>
      have hrange := inRange_of_readBlocks hread
      have hwrite : (w.writeBlocks (copyBlock g k s) 1 (clearedSector sector o)).1 = true := by
        unfold World.writeBlocks
        rw [if_pos hrange]
      have hstep := @zeroed_afterClear g w hbytes k s o _ sector hread hrange ho fun hk => by
        rw [copyBlock, hk, Nat.zero_mul, Nat.zero_mod, Nat.add_zero]
        rfl
      -- The other copies are written from the state after this one.
      have hrest := Program.wp_mono
        (ih (k + 1) (afterClear g w k s o (copyBlock g k s) sector)) fun written w' h => show
          (∀ c, Zeroed g w c → Zeroed g w' c) ∧ (written = true → k = 0 → 0 < copies + 1 →
            ∀ c, c * 4 / 512 = s → c * 4 % 512 = o → Zeroed g w' c) from
        ⟨fun c hc => h.1 c (hstep (.inl hc)),
          fun _ hk _ c hs ho' => h.1 c (hstep (.inr ⟨hk, hs, ho'⟩))⟩
      dsimp only
      rw [Program.wp_bind]
      show Program.wp (deviceHandler g)
        (if !(w.writeBlocks (copyBlock g k s) 1 (clearedSector sector o)).1 then _ else _) _ _
      rw [hwrite]
      unfold afterClear at hrest
      by_cases hk : k = 0
      · rw [if_pos hk] at hrest ⊢
        exact hrest
      · rw [if_neg hk] at hrest ⊢
        exact hrest

/-- Clearing the entry of a cluster. -/
theorem wp_writeFatValue_zeroed (hbytes : g.bytesPerSector = 512) (hcopies : 0 < g.fatCount)
    {c : Nat} (hc : c < 2 ^ 28) (w : World) :
    (writeFatValue g c 0).wp (deviceHandler g) (fun written w' =>
      (∀ c, Zeroed g w c → Zeroed g w' c) ∧ (written = true → Zeroed g w' c)) w := by
  unfold writeFatValue
  have hlt : c * 4 % 2 ^ 32 = c * 4 := Nat.mod_eq_of_lt (by omega)
  rw [hlt, hbytes]
  refine Program.wp_mono (wp_writeFatCopies_zeroed hbytes (by omega) _ _ w) fun written w' h => ?_
  exact ⟨h.1, fun hwritten => h.2 hwritten rfl hcopies c rfl rfl⟩

/-! ### Parts without a walk

These end in every environment. -/

theorem always_updateFsinfo (info : FreeInfo) : (updateFsinfo g info).Always fun _ => True := by
  unfold updateFsinfo
  split
  · exact fun _ => trivial
  · refine .bind (Program.always_any _) fun written _ => ?_
    cases written with
    | false => exact trivial
    | true => exact fun _ => trivial

theorem always_readFatValue (c : Nat) : (readFatValue g c).Always fun _ => True := by
  refine .bind (Program.always_any _) fun sector _ => ?_
  cases sector with
  | none => exact trivial
  | some sector => exact trivial

theorem always_writeFatCopies (s o value copies k : Nat) :
    (writeFatCopies g s o value copies k).Always fun _ => True := by
  induction copies generalizing k with
  | zero => exact trivial
  | succ copies ih =>
    refine .bind (Program.always_any _) fun sector _ => ?_
    cases sector with
    | none => exact trivial
    | some sector =>
      refine .bind (Program.always_any _) fun written _ => ?_
      cases written with
      | false => exact trivial
      | true =>
        by_cases hk : k = 0
        · simp only [hk, Bool.not_true, Bool.false_eq_true, if_false, if_true]
          exact .bind (Program.always_any _) fun _ _ => ih _
        · simp only [hk, Bool.not_true, Bool.false_eq_true, if_false]
          exact ih _

theorem always_writeFatValue (c value : Nat) : (writeFatValue g c value).Always fun _ => True :=
  always_writeFatCopies _ _ _ _ _

/-- A pass whose counter does not wrap ends. -/
theorem always_searchCluster {maxCluster rounds c : Nat} (hmax : maxCluster + 1 < 2 ^ 32)
    (hrounds : maxCluster + 1 - c < rounds) :
    (searchCluster g maxCluster rounds c).Always fun _ => True := by
  induction rounds generalizing c with
  | zero => omega
  | succ rounds ih =>
    by_cases hend : maxCluster < c
    · rw [searchCluster_exhausted g rounds hend]
      exact trivial
    rw [searchCluster_round g rounds hmax (Nat.le_of_not_lt hend)]
    refine .bind (always_readFatValue c) fun value _ => ?_
    cases value with
    | none => exact trivial
    | some value =>
      dsimp only
      split
      · exact ih (by omega)
      · refine .bind (always_writeFatValue c _) fun marked _ => ?_
        cases marked with
        | false => exact trivial
        | true =>
          refine .bind (Program.always_any _) fun info _ => ?_
          refine .bind (always_updateFsinfo _) fun updated _ => ?_
          cases updated with
          | false => exact trivial
          | true => exact trivial

/-- So does `allocate_cluster`. -/
theorem always_allocateCluster (hcounter : CounterPasses g) :
    (allocateCluster g).Always fun _ => True := by
  have hmax : (g.totalClusters + 1) % 2 ^ 32 + 1 < 2 ^ 32 := by
    unfold CounterPasses at hcounter
    omega
  have hrounds : 2 ^ 32 ≤ SEARCH_ROUNDS := by decide
  refine .bind (Program.always_any _) fun info _ => ?_
  refine .bind (always_searchCluster hmax (by omega)) fun search _ => ?_
  cases search with
  | failed => exact trivial
  | found c => exact trivial
  | exhausted =>
    refine .bind (always_searchCluster hmax (by omega)) fun search _ => ?_
    cases search with
    | failed => exact trivial
    | found c => exact trivial
    | exhausted => exact trivial

theorem always_zeroSectors (c sectors : Nat) : (zeroSectors g c sectors).Always fun _ => True := by
  induction sectors with
  | zero => exact trivial
  | succ sectors ih =>
    refine .bind (Program.always_any _) fun written _ => ?_
    cases written with
    | false => exact trivial
    | true => exact ih

/-! ### The chain -/

/-- The device does not change its size. -/
theorem handler_blockCount (r : Request) (w : World) :
    (deviceHandler g r w).2.blockCount = w.blockCount := by
  cases r with
  | readBlocks lba count => rfl
  | writeBlocks kind lba count data =>
    show (w.writeBlocks lba count data).2.blockCount = _
    unfold World.writeBlocks
    split
    · rfl
    · rfl
  | cachedFatSector s =>
    show (w.cachedFatSector g s).2.blockCount = _
    unfold World.cachedFatSector
    split
    · rfl
    split
    · rfl
    dsimp only
    split
    · rfl
    · rfl
  | refreshFatCache s sector => exact (refreshFatCache_disk s sector).2
  | freeInfo => rfl
  | setFreeInfo info => rfl

theorem run_blockCount {α : Type} {p : Fat α} {w w' : World} {a : α}
    (hrun : p.run (deviceHandler g) w = some (a, w')) : w'.blockCount = w.blockCount := by
  induction p generalizing w with
  | done b =>
    cases hrun
    rfl
  | ask r k ih => exact (ih _ hrun).trans (handler_blockCount r w)
  | diverge => cases hrun

theorem wp_blockCount {α : Type} {p : Fat α} {w : World} {Q : α → World → Prop}
    (hp : p.wp (deviceHandler g) Q w) :
    p.wp (deviceHandler g) (fun a w' => Q a w' ∧ w'.blockCount = w.blockCount) w := by
  obtain ⟨a, w', hrun, hQ⟩ := Program.wp_iff_run.mp hp
  exact Program.wp_iff_run.mpr ⟨a, w', hrun, hQ, run_blockCount hrun⟩

/-- One round of `free_cluster_chain`. It clears an entry of the FAT, and goes on only when
the entry was not cleared before. -/
theorem freeChainLoop_round (hbytes : g.bytesPerSector = 512) (hcopies : 0 < g.fatCount) {w : World}
    (hwide : w.blockCount < U64) {c : Nat} (hc : isDataCluster c) (freed : Nat)
    (hrest : ∀ next w', isDataCluster next → ¬ Zeroed g w c → w'.blockCount = w.blockCount →
      (∀ d, Zeroed g w d → Zeroed g w' d) → Zeroed g w' c →
      Terminates g w' fun n => freeChainLoop g n next ((freed + 1) % 2 ^ 32)) :
    Terminates g w fun n => freeChainLoop g n c freed := by
  have hlt : c < 2 ^ 28 := Nat.lt_of_lt_of_le hc.2 (by decide)
  apply Program.settles_succ
  simp only [freeChainLoop]
  refine Program.Settles.bind (Program.settles_of_wp (wp_readFatValue_zeroed hbytes hwide hlt ?_))
  intro value w₁ hcount₁ hkeeps₁ hvalue
  cases value with
  | none => exact Program.settles_of_wp trivial
  | some next =>
    dsimp only
    refine Program.Settles.bind (Program.settles_of_wp (Program.wp_mono
      (wp_blockCount (wp_writeFatValue_zeroed hbytes hcopies hlt w₁)) ?_))
    rintro written w₂ ⟨⟨hkeeps₂, hzero⟩, hcount₂⟩
    cases written with
    | false => exact Program.settles_of_wp trivial
    | true =>
      by_cases hnext : isDataCluster next
      · simp only [hnext, not_true_eq_false, if_false]
        refine hrest next w₂ hnext (fun hz => ?_) (hcount₂.trans hcount₁)
          (fun d hd => hkeeps₂ d (hkeeps₁ d hd)) (hzero rfl)
        -- A cleared entry has no next cluster.
        have hzero' := (hvalue next rfl).2 hz
        exact absurd (hzero' ▸ hnext.1) (by omega)
      · simp only [hnext, not_false_eq_true, if_true]
        exact Program.settles_of_wp trivial

/-- The loop of `free_cluster_chain` on any disk, by induction on the number of entries that
are not known to be cleared. -/
theorem freeChainLoop_settles (hbytes : g.bytesPerSector = 512) (hcopies : 0 < g.fatCount)
    (m : Nat) {w : World} (hwide : w.blockCount < U64) (cleared : Finset Nat)
    (hcleared : ∀ c ∈ cleared, c < 2 ^ 28 ∧ Zeroed g w c) (hm : 2 ^ 28 ≤ cleared.card + m)
    {c : Nat} (hc : isDataCluster c) (freed : Nat) :
    Terminates g w fun n => freeChainLoop g n c freed := by
  induction m generalizing w cleared c freed with
  | zero =>
    have hsubset : cleared ⊆ Finset.range (2 ^ 28) :=
      fun d hd => Finset.mem_range.mpr (hcleared d hd).1
    have hall : cleared = Finset.range (2 ^ 28) := by
      apply Finset.eq_of_subset_of_card_le hsubset
      rw [Finset.card_range]
      exact hm
    have hin : c ∈ cleared := by
      rw [hall]
      exact Finset.mem_range.mpr (Nat.lt_of_lt_of_le hc.2 (by decide))
    exact freeChainLoop_round hbytes hcopies hwide hc freed fun _ _ _ hnot _ _ _ =>
      absurd (hcleared c hin).2 hnot
  | succ m ih =>
    refine freeChainLoop_round hbytes hcopies hwide hc freed ?_
    intro next w' hnext hnot hcount hkeeps hzero
    have hnew : c ∉ cleared := fun hin => hnot (hcleared c hin).2
    refine ih (hcount ▸ hwide) (insert c cleared) (fun d hd => ?_) ?_ hnext _
    · rcases Finset.mem_insert.mp hd with rfl | hd
      · exact ⟨Nat.lt_of_lt_of_le hc.2 (by decide), hzero⟩
      · exact ⟨(hcleared d hd).1, hkeeps d (hcleared d hd).2⟩
    · rw [Finset.card_insert_of_notMem hnew]
      omega

section Frees

variable (hbytes : g.bytesPerSector = 512) (hcopies : 0 < g.fatCount) (hwide : w.blockCount < U64)

include hbytes hcopies hwide

/-- `free_cluster_chain` ends on any disk. -/
theorem freeClusterChain_settles (c : Nat) : Terminates g w fun n => freeClusterChain g n c := by
  unfold freeClusterChain
  by_cases hc : isDataCluster c
  · simp only [hc, not_true_eq_false, if_false]
    refine Program.Settles.bind (Program.Settles.mono (freeChainLoop_settles hbytes hcopies (2 ^ 28)
      hwide ∅ (fun d hd => absurd hd (Finset.notMem_empty d)) (by omega) hc 0) ?_)
    intro freed w' _
    cases freed with
    | none => exact Program.settles_of_wp trivial
    | some freed =>
      apply Program.Always.settles
      exact fun info => always_updateFsinfo _
  · simp only [hc, not_false_eq_true, if_true]
    exact Program.settles_of_wp trivial

/-- A call that fails after it has freed the chain. -/
theorem freed_settles {α : Type} (c : Nat) (result : α) :
    Terminates g w fun n => do
      let _ ← freeClusterChain g n c
      return result := by
  refine Program.Settles.bind
    (Program.Settles.mono (freeClusterChain_settles hbytes hcopies hwide c) ?_)
  exact fun _ _ _ => Program.settles_of_wp trivial

/-- `append_directory_cluster` ends on any disk when `allocate_cluster` does. -/
theorem appendDirectoryCluster_settles (hcounter : CounterPasses g) (last : Nat) :
    Terminates g w fun n => appendDirectoryCluster g n last := by
  unfold appendDirectoryCluster
  refine Program.Settles.bind (Program.settles_of_wp (Program.wp_mono
    (wp_blockCount ((always_allocateCluster hcounter).wp w)) ?_))
  rintro newCluster w₁ ⟨-, hcount₁⟩
  cases newCluster with
  | none => exact Program.settles_of_wp trivial
  | some newCluster =>
    dsimp only
    refine Program.Settles.bind (Program.settles_of_wp (Program.wp_mono
      (wp_blockCount ((always_zeroSectors newCluster _).wp w₁)) ?_))
    rintro zeroed w₂ ⟨-, hcount₂⟩
    have hwide₂ : w₂.blockCount < U64 := hcount₂ ▸ hcount₁ ▸ hwide
    cases zeroed with
    | false => exact freed_settles hbytes hcopies hwide₂ newCluster none
    | true =>
      refine Program.Settles.bind (Program.settles_of_wp (Program.wp_mono
        (wp_blockCount ((always_writeFatValue last newCluster).wp w₂)) ?_))
      rintro linked w₃ ⟨-, hcount₃⟩
      cases linked with
      | false => exact freed_settles hbytes hcopies (hcount₃ ▸ hwide₂) newCluster none
      | true => exact Program.settles_of_wp trivial

end Frees

end VKernel.Proofs.Fs

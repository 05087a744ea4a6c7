import VKernel.Fs.Fat32.FatWords
import VKernel.Proofs.Fs.Fat32.FreeChain
import VKernel.Proofs.Fs.Fat32.Geometry

/-!
# `VKernel.Proofs.Fs.Fat32.FatWords`: what reading and writing entries does to the words

`read_fat_value` returns what the first FAT has on the disk, and `write_fat_value` rewrites the
word of its entry in every copy (`wp_writeFatValue_words`). Both keep a fresh cache fresh as long
as the copies of the FAT do not overlap.
-/

set_option autoImplicit false

namespace VKernel.Proofs.Fs

open VKernel.Lib VKernel.Fs VKernel.Fs.Fat32

/-! ### Words -/

theorem word_lt (disk : Buffer) (n : Nat) : word disk n < 2 ^ 32 := leValue_lt disk (4 * n) 4

/-- A store to a word changes this word only. -/
theorem word_leStore (disk : Buffer) (m n : Nat) {x : Nat} (hx : x < 2 ^ 32) :
    word (leStore disk (4 * m) 4 x) n = if n = m then x else word disk n := by
  unfold word
  by_cases heq : n = m
  · rw [if_pos heq, heq, leValue_leStore, Nat.mod_eq_of_lt (show x < 256 ^ 4 from hx)]
  · rw [if_neg heq]
    apply leValue_congr
    intro i hi
    exact leStore_outside (by omega)

theorem mergeFatValue_mod (x value : Nat) : mergeFatValue x value % 2 ^ 28 = value % 2 ^ 28 := by
  unfold mergeFatValue
  omega

theorem mergeFatValue_div (x value : Nat) : mergeFatValue x value / 2 ^ 28 = x / 2 ^ 28 := by
  unfold mergeFatValue
  omega

theorem mergeFatValue_lt {x : Nat} (value : Nat) (hx : x < 2 ^ 32) :
    mergeFatValue x value < 2 ^ 32 := by
  unfold mergeFatValue
  omega

/-- Writing a value twice is writing it once. -/
theorem mergeFatValue_idem (x value : Nat) :
    mergeFatValue (mergeFatValue x value) value = mergeFatValue x value := by
  unfold mergeFatValue
  omega

/-! ### Blocks -/

/-- Blocks that all lie on a device are numbered without a wrap. -/
theorem mod_add_of_all {b x s : Nat} (hall : ∀ t ≤ s, (x + t) % U64 < b) (hb : b < U64) :
    (x + s) % U64 = x % U64 + s := by
  induction s with
  | zero => rfl
  | succ s ih =>
    have hs := ih fun t ht => hall t (by omega)
    have hlt := hall s (by omega)
    rw [← Nat.add_assoc, Nat.add_mod, hs, Nat.mod_eq_of_lt (show 1 < U64 by omega),
      Nat.mod_eq_of_lt (show x % U64 + s + 1 < U64 by omega), Nat.add_assoc]

/-- Two sums that agree modulo `2 ^ 64`, of one address and two small offsets. -/
theorem eq_of_add_mod {x a b : Nat} (ha : a < 2 ^ 34) (hb : b < 2 ^ 34)
    (h : (x + a) % U64 = (x + b) % U64) : a = b := by
  rw [U64_eq] at h
  omega

section Words

variable {g : MountState} {w : World} {blockCount : Nat}

theorem copyBlock_first (g : MountState) (s : Nat) : copyBlock g 0 s = fatBlock g s := by
  unfold copyBlock fatBlock
  rw [Nat.zero_mul, Nat.zero_mod, Nat.add_zero]

/-- The sectors of a copy lie one behind the other. -/
theorem copyBlock_eq (hdevice : FatOnDevice g blockCount) {k s : Nat} (hk : k < g.fatCount)
    (hs : s < g.sectorsPerFat) : copyBlock g k s = copyBlock g k 0 + s := by
  have hall : ∀ t ≤ s, (g.partitionStartLba + g.reservedSectorCount +
      k * g.sectorsPerFat % 2 ^ 32 + t) % U64 < blockCount := by
    intro t ht
    exact hdevice.fat k hk t (by omega)
  exact mod_add_of_all hall hdevice.wide

/-- Two sectors of copies of the FAT in the same block. -/
theorem copyBlock_inj {j k s t : Nat} (hs : s < 2 ^ 32) (ht : t < 2 ^ 32)
    (h : copyBlock g j s = copyBlock g k t) :
    j * g.sectorsPerFat % 2 ^ 32 + s = k * g.sectorsPerFat % 2 ^ 32 + t := by
  unfold copyBlock at h
  rw [Nat.add_assoc, Nat.add_assoc _ (k * g.sectorsPerFat % 2 ^ 32) t] at h
  exact eq_of_add_mod (by omega) (by omega) h

/-- The entries of a copy have words of their own. -/
theorem entryWord_inj (hspf : g.sectorsPerFat < 2 ^ 32) {k e e' : Nat} (he : HasEntry g e)
    (he' : HasEntry g e') (h : entryWord g k e = entryWord g k e') : e = e' := by
  unfold HasEntry at he he'
  unfold entryWord at h
  have hblock : copyBlock g k (e / 128) = copyBlock g k (e' / 128) := by omega
  have hsector := copyBlock_inj (show e / 128 < 2 ^ 32 by omega)
    (show e' / 128 < 2 ^ 32 by omega) hblock
  omega

/-- Two entries with the same word, in copies that do not overlap. -/
theorem entryWord_inj_of_apart (hspf : g.sectorsPerFat < 2 ^ 32) (hcopies : CopiesApart g)
    {j k e e' : Nat} (hj : j < g.fatCount) (hk : k < g.fatCount) (he : HasEntry g e)
    (he' : HasEntry g e') (h : entryWord g j e = entryWord g k e') : e = e' := by
  unfold HasEntry at he he'
  unfold entryWord at h
  have hblock : copyBlock g j (e / 128) = copyBlock g k (e' / 128) := by omega
  have hsector := copyBlock_inj (show e / 128 < 2 ^ 32 by omega)
    (show e' / 128 < 2 ^ 32 by omega) hblock
  have hapart := hcopies j hj k hk
  omega

/-! ### Reading -/

section Device

variable (hdevice : FatOnDevice g blockCount) (hcopies : 0 < g.fatCount)

include hdevice hcopies

/-- The group of FAT sectors that fills the cache. -/
theorem readCacheLine_eq (hblocks : w.blockCount = blockCount) (line : Nat)
    (hline : line < g.sectorsPerFat) :
    readCacheLine g w line = some fun i =>
      if i < min (g.sectorsPerFat - line) FAT_CACHE_SECTOR_COUNT * 512
      then w.disk ((copyBlock g 0 0 + line) * 512 + i) else 0 := by
  have hlast := hdevice.fat 0 hcopies
    (line + (min (g.sectorsPerFat - line) FAT_CACHE_SECTOR_COUNT - 1))
    (by unfold FAT_CACHE_SECTOR_COUNT; omega)
  rw [copyBlock_eq hdevice hcopies (by unfold FAT_CACHE_SECTOR_COUNT; omega)] at hlast
  have hread : readCacheLine g w line = w.readBlocks (fatBlock g line)
      (min (g.sectorsPerFat - line) FAT_CACHE_SECTOR_COUNT) := rfl
  rw [hread, ← copyBlock_first, copyBlock_eq hdevice hcopies hline]
  unfold FAT_CACHE_SECTOR_COUNT at *
  exact readBlocks_eq (by omega) (by omega)

/-- A sector of the first FAT on the disk. -/
theorem fatSectorOf_eq (hbytes : g.bytesPerSector = 512) (hblocks : w.blockCount = blockCount)
    {s : Nat} (hs : s < g.sectorsPerFat) : ∃ sector, fatSectorOf g w s = some sector ∧
      ∀ i < 512, sector i = w.disk (copyBlock g 0 s * 512 + i) := by
  have hline : cacheLine s ≤ s := Nat.div_mul_le_self s FAT_CACHE_SECTOR_COUNT
  have hread := readCacheLine_eq hdevice hcopies hblocks (cacheLine s) (by omega)
  have hsector : fatSectorOf g w s = (readCacheLine g w (cacheLine s)).map fun data i =>
      data ((s - cacheLine s) * g.bytesPerSector + i) := by
    unfold fatSectorOf
    rw [if_neg (by omega)]
  rw [hread, Option.map_some] at hsector
  refine ⟨_, hsector, ?_⟩
  intro i hi
  rw [hbytes, copyBlock_eq hdevice hcopies hs]
  have hgroup : s < cacheLine s + 8 := by
    unfold cacheLine FAT_CACHE_SECTOR_COUNT
    omega
  show (if (s - cacheLine s) * 512 + i < _ then _ else _) = _
  unfold FAT_CACHE_SECTOR_COUNT
  rw [if_pos (by omega)]
  exact congrArg w.disk (by omega)

/-- `read_fat_value` returns what the first FAT has. It fails for a cluster without an entry. -/
theorem fatValueOf_eq (hbytes : g.bytesPerSector = 512) (hblocks : w.blockCount = blockCount)
    (c : Nat) : fatValueOf g w c =
      if HasEntry g (entryOf c) then some (fatTable g w c) else none := by
  have hsector : c * 4 % 2 ^ 32 / 512 = entryOf c / 128 := by
    unfold entryOf
    omega
  have hoffset : c * 4 % 2 ^ 32 % 512 = 4 * (entryOf c % 128) := by
    unfold entryOf
    omega
  unfold fatValueOf
  rw [hbytes, hsector, hoffset]
  by_cases hentry : HasEntry g (entryOf c)
  · have hs : entryOf c / 128 < g.sectorsPerFat := by
      unfold HasEntry at hentry
      omega
    obtain ⟨sector, hread, hdata⟩ := fatSectorOf_eq hdevice hcopies hbytes hblocks hs
    have hvalue : leValue sector (4 * (entryOf c % 128)) 4 =
        word w.disk (entryWord g 0 (entryOf c)) := by
      apply leValue_congr
      intro i hi
      rw [hdata _ (by omega)]
      unfold entryWord
      exact congrArg w.disk (by omega)
    rw [if_pos hentry, hread, Option.map_some, hvalue]
    rfl
  · have hs : entryOf c / 128 ≥ g.sectorsPerFat := by
      unfold HasEntry at hentry
      omega
    unfold fatSectorOf
    rw [if_neg hentry, if_pos hs]
    rfl

/-- What a fresh cache is on a device of this size. -/
theorem fresh_iff (hblocks : w.blockCount = blockCount) :
    Fresh g w ↔ (w.cache.valid = true → w.cache.firstSector < g.sectorsPerFat ∧
      w.cache.firstSector % FAT_CACHE_SECTOR_COUNT = 0 ∧
      w.cache.sectorCount = min (g.sectorsPerFat - w.cache.firstSector) FAT_CACHE_SECTOR_COUNT ∧
      (∀ i < w.cache.sectorCount * 512,
        w.cache.data i = w.disk ((copyBlock g 0 0 + w.cache.firstSector) * 512 + i)) ∧
      ∀ i, w.cache.sectorCount * 512 ≤ i → w.cache.data i = 0) := by
  constructor
  · intro hfresh hvalid
    obtain ⟨haligned, hcount, hread⟩ := hfresh hvalid
    have hline : w.cache.firstSector < g.sectorsPerFat := by
      have hrange := inRange_of_readBlocks
        (show w.readBlocks _ (min (g.sectorsPerFat - w.cache.firstSector) FAT_CACHE_SECTOR_COUNT) =
          some w.cache.data from hread)
      have hpos := hrange.1
      omega
    rw [readCacheLine_eq hdevice hcopies hblocks _ hline, Option.some.injEq] at hread
    refine ⟨hline, haligned, hcount, ?_, ?_⟩
    · intro i hi
      rw [← hread]
      exact if_pos (hcount ▸ hi)
    · intro i hi
      rw [← hread]
      exact if_neg (by omega)
  · intro hcache hvalid
    obtain ⟨hline, haligned, hcount, hinside, houtside⟩ := hcache hvalid
    refine ⟨haligned, hcount, ?_⟩
    rw [readCacheLine_eq hdevice hcopies hblocks _ hline, Option.some.injEq]
    funext i
    by_cases hi : i < w.cache.sectorCount * 512
    · rw [if_pos (hcount ▸ hi), hinside i hi]
    · rw [if_neg (hcount ▸ hi), houtside i (by omega)]

/-- A write elsewhere keeps the cache fresh. -/
theorem fresh_of_disk {w' : World} (hblocks : w.blockCount = blockCount)
    (hblocks' : w'.blockCount = w.blockCount) (hcache : w'.cache = w.cache)
    (hdisk : ∀ i, copyBlock g 0 0 * 512 ≤ i → i < (copyBlock g 0 0 + g.sectorsPerFat) * 512 →
      w'.disk i = w.disk i) (hfresh : Fresh g w) : Fresh g w' := by
  rw [fresh_iff hdevice hcopies hblocks] at hfresh
  rw [fresh_iff hdevice hcopies (hblocks'.trans hblocks), hcache]
  intro hvalid
  obtain ⟨hline, haligned, hcount, hinside, houtside⟩ := hfresh hvalid
  refine ⟨hline, haligned, hcount, ?_, houtside⟩
  intro i hi
  rw [hinside i hi]
  exact (hdisk _ (by omega) (by omega)).symm

end Device

/-! ### Writing -/

/-- A sector of the disk with an entry rewritten. -/
def rewrittenSector (w : World) (block offset value : Nat) : Buffer :=
  let sector : Buffer := fun i => if i < 1 * 512 then w.disk (block * 512 + i) else 0
  leStore sector offset 4 (mergeFatValue (leValue sector offset 4) value)

/-- The state after one round of the loop of `write_fat_value`. -/
def afterRound (g : MountState) (w : World) (k s offset value : Nat) : World :=
  let sector := rewrittenSector w (copyBlock g k s) offset value
  let w₁ := (w.writeBlocks (copyBlock g k s) 1 sector).2
  if k = 0 then w₁.refreshFatCache g s sector else w₁

/-- A round rewrites one word of the disk. -/
theorem afterRound_disk {k s : Nat} (value : Nat) (hblock : copyBlock g k s < w.blockCount)
    (o : Nat) (ho : o < 128) :
    (afterRound g w k s (4 * o) value).disk =
        leStore w.disk (4 * (copyBlock g k s * 128 + o)) 4
          (mergeFatValue (word w.disk (copyBlock g k s * 128 + o)) value) ∧
      (afterRound g w k s (4 * o) value).blockCount = w.blockCount ∧
      (afterRound g w k s (4 * o) value).free = w.free := by
  have haddr : copyBlock g k s * 512 + 4 * o = 4 * (copyBlock g k s * 128 + o) := by omega
  have hvalue : leValue (fun i => if i < 1 * 512 then w.disk (copyBlock g k s * 512 + i) else 0)
      (4 * o) 4 = word w.disk (copyBlock g k s * 128 + o) := by
    apply leValue_congr
    intro i hi
    rw [if_pos (by omega)]
    exact congrArg w.disk (by omega)
  have hwritten : (w.writeBlocks (copyBlock g k s) 1
      (rewrittenSector w (copyBlock g k s) (4 * o) value)).2.disk =
      leStore w.disk (4 * (copyBlock g k s * 128 + o)) 4
        (mergeFatValue (word w.disk (copyBlock g k s * 128 + o)) value) := by
    rw [writeBlocks_eq _ hblock]
    unfold rewrittenSector
    simp only [hvalue]
    rw [rewriteWord_disk (by omega) fun i hi => if_pos (by omega), haddr]
  have hrest : (w.writeBlocks (copyBlock g k s) 1
        (rewrittenSector w (copyBlock g k s) (4 * o) value)).2.blockCount = w.blockCount ∧
      (w.writeBlocks (copyBlock g k s) 1
        (rewrittenSector w (copyBlock g k s) (4 * o) value)).2.free = w.free := by
    rw [writeBlocks_eq _ hblock]
    exact ⟨rfl, rfl⟩
  unfold afterRound World.refreshFatCache
  by_cases hzero : k = 0
  · simp only [if_pos hzero]
    split
    · exact ⟨hwritten, hrest⟩
    · exact ⟨hwritten, hrest⟩
  · simp only [if_neg hzero]
    exact ⟨hwritten, hrest⟩

/-- One round of the loop of `write_fat_value`. -/
theorem wp_writeFatCopies_round {k s offset value copies : Nat}
    (hblock : copyBlock g k s < w.blockCount) {Q : Bool → World → Prop}
    (hQ : (writeFatCopies g s offset value copies (k + 1)).wp (deviceHandler g) Q
      (afterRound g w k s offset value)) :
    (writeFatCopies g s offset value (copies + 1) k).wp (deviceHandler g) Q w := by
  have hlba : (g.partitionStartLba + g.reservedSectorCount + k * g.sectorsPerFat % 2 ^ 32 + s) %
      U64 = copyBlock g k s := rfl
  have hwrite : (w.writeBlocks (copyBlock g k s) 1
      (rewrittenSector w (copyBlock g k s) offset value)).1 = true := by
    rw [writeBlocks_eq _ hblock]
  rw [writeFatCopies, Program.wp_bind, wp_readSectors_iff, hlba,
    readBlocks_eq (by decide) hblock]
  dsimp only
  rw [Program.wp_bind]
  show Program.wp _ (if (!(w.writeBlocks (copyBlock g k s) 1
      (rewrittenSector w (copyBlock g k s) offset value)).1) = true then _ else _) _
    (w.writeBlocks (copyBlock g k s) 1 (rewrittenSector w (copyBlock g k s) offset value)).2
  rw [hwrite]
  unfold afterRound at hQ
  by_cases hzero : k = 0
  · rw [if_pos hzero] at hQ ⊢
    exact hQ
  · rw [if_neg hzero] at hQ ⊢
    exact hQ

/-- The round for the first FAT keeps the cache fresh: it rewrites the sector there, too. -/
theorem fresh_afterRound_first (hdevice : FatOnDevice g w.blockCount) (hcopies : 0 < g.fatCount)
    (hbytes : g.bytesPerSector = 512) (hfresh : Fresh g w) {s o : Nat} (value : Nat)
    (hs : s < g.sectorsPerFat) (ho : o < 128) : Fresh g (afterRound g w 0 s (4 * o) value) := by
  have hblock := hdevice.fat 0 hcopies s hs
  obtain ⟨hdisk, hblockCount, -⟩ := afterRound_disk (g := g) (w := w) value hblock o ho
  have hfirst := copyBlock_eq hdevice hcopies hs
  -- what the refreshed sector holds is what is on the disk now
  have hsector : ∀ i < 512, rewrittenSector w (copyBlock g 0 s) (4 * o) value i =
      (afterRound g w 0 s (4 * o) value).disk ((copyBlock g 0 0 + s) * 512 + i) := by
    intro i hi
    have hafter : (afterRound g w 0 s (4 * o) value).disk = (w.writeBlocks (copyBlock g 0 s) 1
        (rewrittenSector w (copyBlock g 0 s) (4 * o) value)).2.disk := by
      unfold afterRound
      rw [if_pos rfl]
      exact (refreshFatCache_disk s _).1
    rw [hafter, writeBlocks_eq _ hblock]
    show _ = if _ then _ else _
    rw [← hfirst, if_pos (by omega), Nat.add_sub_cancel_left]
  have houtside : ∀ i, (i < (copyBlock g 0 0 + s) * 512 ∨ (copyBlock g 0 0 + s + 1) * 512 ≤ i) →
      (afterRound g w 0 s (4 * o) value).disk i = w.disk i := by
    intro i hi
    rw [hdisk]
    exact leStore_outside (by omega)
  have hcache : (afterRound g w 0 s (4 * o) value).cache =
      ((w.writeBlocks (copyBlock g 0 s) 1
        (rewrittenSector w (copyBlock g 0 s) (4 * o) value)).2.refreshFatCache g s
          (rewrittenSector w (copyBlock g 0 s) (4 * o) value)).cache := by
    unfold afterRound
    rw [if_pos rfl]
  rw [writeBlocks_eq _ hblock] at hcache
  unfold World.refreshFatCache at hcache
  rw [fresh_iff hdevice hcopies rfl] at hfresh
  rw [fresh_iff hdevice hcopies hblockCount]
  generalize (afterRound g w 0 s (4 * o) value).disk = disk at hsector houtside ⊢
  generalize (afterRound g w 0 s (4 * o) value).cache = cache at hcache ⊢
  by_cases hhit : w.cache.hit s
  · rw [if_pos hhit] at hcache
    simp only [hbytes, SECTOR_SIZE] at hcache
    subst hcache
    intro hvalid
    obtain ⟨hline, haligned, hcount, hinside, hrest⟩ := hfresh hvalid
    refine ⟨hline, haligned, hcount,
      fun i hi => refreshed_eq hinside hsector houtside hhit.2.1 hi, ?_⟩
    intro i hi
    have hbehind : w.cache.sectorCount * 512 ≤ i := hi
    have houtside : ¬ ((s - w.cache.firstSector) * 512 ≤ i ∧
        i < (s - w.cache.firstSector) * 512 + 512) := by
      obtain ⟨-, hlow, hhigh⟩ := hhit
      omega
    exact (if_neg houtside).trans (hrest i hbehind)
  · rw [if_neg hhit] at hcache
    subst hcache
    intro hvalid
    obtain ⟨hline, haligned, hcount, hinside, hrest⟩ := hfresh hvalid
    exact ⟨hline, haligned, hcount,
      fun i hi => untouched_eq hinside houtside (fun h => hhit ⟨hvalid, h⟩) hi, hrest⟩

/-- The round for another copy writes behind the first FAT, or writes there what is there. -/
theorem fresh_afterRound_rest (hdevice : FatOnDevice g w.blockCount) (hapart : CopiesApart g)
    (hspf : g.sectorsPerFat < 2 ^ 32) (hfresh : Fresh g w) {k s o value : Nat} (hk : k < g.fatCount)
    (hpos : 0 < k) (hs : s < g.sectorsPerFat) (ho : o < 128)
    (hfirst : mergeFatValue (word w.disk (copyBlock g 0 s * 128 + o)) value =
      word w.disk (copyBlock g 0 s * 128 + o)) : Fresh g (afterRound g w k s (4 * o) value) := by
  have hcopies : 0 < g.fatCount := by omega
  have hblock := hdevice.fat k hk s hs
  obtain ⟨hdisk, hblockCount, -⟩ := afterRound_disk (g := g) (w := w) value hblock o ho
  have hcache : (afterRound g w k s (4 * o) value).cache = w.cache := by
    unfold afterRound
    rw [if_neg (by omega), writeBlocks_eq _ hblock]
  apply fresh_of_disk hdevice hcopies rfl hblockCount hcache ?_ hfresh
  intro i hlow hhigh
  have hoffsets := hapart 0 hcopies k hk
  rw [Nat.zero_mul, Nat.zero_mod] at hoffsets
  rw [hdisk]
  rcases hoffsets with hsame | hbehind
  · have hfirstBlock : copyBlock g k s = copyBlock g 0 s := by
      unfold copyBlock
      rw [← hsame, Nat.zero_mul, Nat.zero_mod]
    rw [hfirstBlock, hfirst]
    exact congrFun (leStore_leValue w.disk _ 4) i
  · apply leStore_outside
    by_contra hinside
    obtain ⟨t, ht, heq⟩ : ∃ t < g.sectorsPerFat, copyBlock g k s = copyBlock g 0 0 + t :=
      ⟨copyBlock g k s - copyBlock g 0 0, by omega, by omega⟩
    rw [← copyBlock_eq hdevice hcopies ht] at heq
    have hsum := copyBlock_inj (by omega) (by omega) heq
    rw [Nat.zero_mul, Nat.zero_mod] at hsum
    omega

/-- `write_fat_value` has stored a value over an entry: the word of the entry in each copy keeps
its upper four bits, and all other words stay as they are. -/
structure EntryWritten (g : MountState) (e value : Nat) (w w' : World) : Prop where
  blockCount : w'.blockCount = w.blockCount
  free : w'.free = w.free
  words : ∀ n, word w'.disk n =
    if ∃ k < g.fatCount, n = entryWord g k e then mergeFatValue (word w.disk n) value
    else word w.disk n

/-- The loop of `write_fat_value`, from copy `k` on. The first copy is written first. -/
theorem wp_writeFatCopies_words (hbytes : g.bytesPerSector = 512) (hspf : g.sectorsPerFat < 2 ^ 32)
    {s o value : Nat} (hs : s < g.sectorsPerFat) (ho : o < 128) (copies : Nat) {k : Nat} {w : World}
    (hdevice : FatOnDevice g w.blockCount) (hk : k + copies ≤ g.fatCount)
    (hfirst : 0 < k → mergeFatValue (word w.disk (copyBlock g 0 s * 128 + o)) value =
      word w.disk (copyBlock g 0 s * 128 + o)) {Q : Bool → World → Prop}
    (hQ : ∀ w', (CopiesApart g → Fresh g w → Fresh g w') → w'.blockCount = w.blockCount →
      w'.free = w.free →
      (∀ n, word w'.disk n =
        if ∃ j < k + copies, k ≤ j ∧ n = copyBlock g j s * 128 + o
        then mergeFatValue (word w.disk n) value else word w.disk n) → Q true w') :
    (writeFatCopies g s (4 * o) value copies k).wp (deviceHandler g) Q w := by
  induction copies generalizing k w with
  | zero =>
    refine hQ w (fun _ hfresh => hfresh) rfl rfl fun n => ?_
    rw [if_neg]
    rintro ⟨j, hj, hle, -⟩
    omega
  | succ copies ih =>
    have hkc : k < g.fatCount := by omega
    have hblock := hdevice.fat k hkc s hs
    obtain ⟨hdisk, hblockCount, hfree⟩ := afterRound_disk (g := g) (w := w) value hblock o ho
    have hword : ∀ n, word (afterRound g w k s (4 * o) value).disk n =
        if n = copyBlock g k s * 128 + o then mergeFatValue (word w.disk n) value
        else word w.disk n := by
      intro n
      rw [hdisk, word_leStore _ _ _ (mergeFatValue_lt _ (word_lt _ _))]
      by_cases heq : n = copyBlock g k s * 128 + o
      · rw [if_pos heq, if_pos heq, heq]
      · rw [if_neg heq, if_neg heq]
    have hfresh₁ : CopiesApart g → Fresh g w → Fresh g (afterRound g w k s (4 * o) value) := by
      intro hapart hfresh
      rcases Nat.eq_zero_or_pos k with hzero | hpos
      · subst hzero
        exact fresh_afterRound_first hdevice hkc hbytes hfresh value hs ho
      · exact fresh_afterRound_rest hdevice hapart hspf hfresh hkc hpos hs ho (hfirst hpos)
    apply wp_writeFatCopies_round hblock
    apply ih (hblockCount ▸ hdevice) (by omega)
    · intro _
      rw [hword]
      by_cases heq : copyBlock g 0 s * 128 + o = copyBlock g k s * 128 + o
      · rw [if_pos heq, mergeFatValue_idem]
      · rw [if_neg heq]
        rcases Nat.eq_zero_or_pos k with hzero | hpos
        · exact absurd (by rw [hzero]) heq
        · exact hfirst hpos
    · intro w' hfresh' hblockCount' hfree' hwords'
      refine hQ w' (fun hapart hfresh => hfresh' hapart (hfresh₁ hapart hfresh))
        (hblockCount'.trans hblockCount) (hfree'.trans hfree) fun n => ?_
      rw [hwords', hword]
      by_cases heq : n = copyBlock g k s * 128 + o
      · rw [if_pos heq, if_pos (show ∃ j < k + (copies + 1), k ≤ j ∧ n = copyBlock g j s * 128 + o
          from ⟨k, by omega, Nat.le_refl k, heq⟩), mergeFatValue_idem, ite_self]
      · rw [if_neg heq]
        have hiff : (∃ j < k + 1 + copies, k + 1 ≤ j ∧ n = copyBlock g j s * 128 + o) ↔
            ∃ j < k + (copies + 1), k ≤ j ∧ n = copyBlock g j s * 128 + o := by
          constructor
          · rintro ⟨j, hj, hle, hn⟩
            exact ⟨j, by omega, by omega, hn⟩
          · rintro ⟨j, hj, hle, hn⟩
            refine ⟨j, by omega, ?_, hn⟩
            by_contra hlt
            have hjk : j = k := by omega
            exact heq (hjk ▸ hn)
        simp only [hiff]

/-- `write_fat_value` stores a value over the entry of a cluster. -/
theorem wp_writeFatValue_words (hdevice : FatOnDevice g w.blockCount)
    (hbytes : g.bytesPerSector = 512) (hspf : g.sectorsPerFat < 2 ^ 32)
    {c : Nat} (hentry : HasEntry g (entryOf c)) (value : Nat) {Q : Bool → World → Prop}
    (hQ : ∀ w', (CopiesApart g → Fresh g w → Fresh g w') →
      EntryWritten g (entryOf c) value w w' → Q true w') :
    (writeFatValue g c value).wp (deviceHandler g) Q w := by
  have hsector : c * 4 % 2 ^ 32 / 512 = entryOf c / 128 := by
    unfold entryOf
    omega
  have hoffset : c * 4 % 2 ^ 32 % 512 = 4 * (entryOf c % 128) := by
    unfold entryOf
    omega
  have hs : entryOf c / 128 < g.sectorsPerFat := by
    unfold HasEntry at hentry
    omega
  unfold writeFatValue
  dsimp only
  rw [hbytes, hsector, hoffset]
  apply wp_writeFatCopies_words hbytes hspf hs (Nat.mod_lt _ (by decide)) _ hdevice
    (by omega) (fun hpos => absurd hpos (Nat.lt_irrefl 0))
  intro w' hfresh hblockCount hfree hwords
  refine hQ w' hfresh ⟨hblockCount, hfree, fun n => ?_⟩
  rw [hwords]
  simp only [Nat.zero_add, Nat.zero_le, true_and]
  rfl

/-- Filling the cache is about the cache. -/
theorem cachedFatSector_free (s : Nat) : (w.cachedFatSector g s).2.free = w.free := by
  unfold World.cachedFatSector
  split
  · rfl
  split
  · rfl
  dsimp only
  split
  · rfl
  · rfl

/-- `read_fat_value` returns what the first FAT has, and keeps the count and the hint. -/
theorem wp_readFatValue_words (hdevice : FatOnDevice g w.blockCount) (hcopies : 0 < g.fatCount)
    (hbytes : g.bytesPerSector = 512) (hfresh : Fresh g w) {c : Nat} {Q : Option Nat → World → Prop}
    (hQ : ∀ w', SameDisk w w' → Fresh g w' → w'.free = w.free →
      Q (if HasEntry g (entryOf c) then some (fatTable g w c) else none) w') :
    (readFatValue g c).wp (deviceHandler g) Q w := by
  obtain ⟨hsector, hsame, hfresh'⟩ :=
    cachedFatSector_fresh hfresh (c * 4 % 2 ^ 32 / g.bytesPerSector)
  have hfree := cachedFatSector_free (g := g) (w := w) (c * 4 % 2 ^ 32 / g.bytesPerSector)
  have hnext := hQ _ hsame hfresh' hfree
  rw [← fatValueOf_eq hdevice hcopies hbytes rfl] at hnext
  unfold fatValueOf at hnext
  unfold readFatValue readCachedFatSector
  rw [Program.wp_bind, Program.wp_request,
    show (deviceHandler g (.cachedFatSector (c * 4 % 2 ^ 32 / g.bytesPerSector)) w).1 =
      fatSectorOf g w (c * 4 % 2 ^ 32 / g.bytesPerSector) from hsector]
  cases hcase : fatSectorOf g w (c * 4 % 2 ^ 32 / g.bytesPerSector) with
  | none =>
    rw [hcase] at hnext
    exact hnext
  | some sector =>
    rw [hcase] at hnext
    exact hnext

/-! ### The FSInfo sector -/

/-- `update_fsinfo` has stored the count and the hint. -/
structure FsInfoWritten (g : MountState) (info : FreeInfo) (w w' : World) : Prop where
  blockCount : w'.blockCount = w.blockCount
  free : w'.free = info
  words : ∀ n, (HasFsInfo g → n / 128 ≠ fsInfoBlock g) → word w'.disk n = word w.disk n
  sector : HasFsInfo g → ∀ i < 128,
    word w'.disk (fsInfoBlock g * 128 + i) = leValue (fsInfoBytes info) (4 * i) 4

/-- The fields of the sector that `update_fsinfo` writes do not overlap. -/
theorem leValue_fsInfoBytes (info : FreeInfo) :
    leValue (fsInfoBytes info) 0 4 = FAT32_FSINFO_SIGNATURE_1 ∧
      leValue (fsInfoBytes info) 484 4 = FAT32_FSINFO_SIGNATURE_2 ∧
      leValue (fsInfoBytes info) 488 4 = info.freeClusterCount % 2 ^ 32 ∧
      leValue (fsInfoBytes info) 492 4 = info.nextFreeClusterHint % 2 ^ 32 ∧
      leValue (fsInfoBytes info) 508 4 = FAT32_FSINFO_SIGNATURE_3 := by
  -- a store to other bytes does not show
  have hskip : ∀ (mem : Buffer) {a b v : Nat}, a + 4 ≤ b ∨ b + 4 ≤ a →
      leValue (leStore mem b 4 v) a 4 = leValue mem a 4 := by
    intro mem a b v hapart
    apply leValue_congr
    intro i hi
    exact leStore_outside (by omega)
  unfold fsInfoBytes
  refine ⟨?_, ?_, ?_, ?_, ?_⟩
  · rw [hskip _ (by decide), hskip _ (by decide), hskip _ (by decide), hskip _ (by decide),
      leValue_leStore]
    rfl
  · rw [hskip _ (by decide), hskip _ (by decide), hskip _ (by decide), leValue_leStore]
    rfl
  · rw [hskip _ (by decide), hskip _ (by decide), leValue_leStore]
    rfl
  · rw [hskip _ (by decide), leValue_leStore]
    rfl
  · rw [leValue_leStore]
    rfl

/-- It has its signatures. -/
theorem isFsInfo_fsInfoBytes (info : FreeInfo) : isFsInfo (fsInfoBytes info) = true := by
  obtain ⟨h1, h2, -, -, h3⟩ := leValue_fsInfoBytes info
  unfold isFsInfo
  rw [h1, h2, h3]
  rfl

theorem fsInfoBytes_behind (info : FreeInfo) {i : Nat} (hi : 512 ≤ i) : fsInfoBytes info i = 0 := by
  unfold fsInfoBytes
  rw [leStore_outside (by omega), leStore_outside (by omega), leStore_outside (by omega),
    leStore_outside (by omega), leStore_outside (by omega)]

/-- `update_fsinfo` fails only when the device refuses the sector. -/
theorem wp_updateFsinfo_words (info : FreeInfo) {Q : Bool → World → Prop}
    (hfalse : HasFsInfo g → w.blockCount ≤ fsInfoBlock g → Q false w)
    (htrue : ∀ w', FsInfoWritten g info w w' → w'.cache = w.cache → Q true w') :
    (updateFsinfo g info).wp (deviceHandler g) Q w := by
  unfold updateFsinfo
  by_cases hnone : (!g.fsInfoValid || decide (g.fsInfoSector = 0)) = true
  · have hno : ¬ HasFsInfo g := by
      rintro ⟨hvalid, hsector⟩
      simp [hvalid, hsector] at hnone
    rw [if_pos hnone, Program.wp_bind]
    exact htrue _ ⟨rfl, rfl, fun _ _ => rfl, fun h => absurd h hno⟩ rfl
  · have hinfo : HasFsInfo g := by
      unfold HasFsInfo
      simpa using hnone
    rw [if_neg hnone, Program.wp_bind]
    show Program.wp _ (if (!(w.writeBlocks (fsInfoBlock g) 1 _).1) = true then _ else _) _
      (w.writeBlocks (fsInfoBlock g) 1 _).2
    by_cases hblock : fsInfoBlock g < w.blockCount
    · rw [writeBlocks_eq _ hblock]
      refine htrue _ ⟨rfl, rfl, ?_, ?_⟩ rfl
      · intro n hn
        have hn' := hn hinfo
        apply leValue_congr
        intro i hi
        exact if_neg (by omega)
      · intro _ i hi
        apply leValue_congr
        intro j hj
        show (if _ then _ else _) = _
        rw [if_pos (by omega)]
        exact congrArg (fsInfoBytes info) (by omega)
    · have hrange : ¬ w.inRange (fsInfoBlock g) 1 := by
        rintro ⟨-, hlt, -⟩
        exact hblock hlt
      unfold World.writeBlocks
      rw [if_neg hrange]
      exact hfalse hinfo (by omega)

end Words

end VKernel.Proofs.Fs

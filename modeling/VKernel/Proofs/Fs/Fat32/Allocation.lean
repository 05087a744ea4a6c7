import VKernel.Proofs.Fs.Fat32.FatTable

/-!
# `VKernel.Proofs.Fs.Fat32.Allocation`: finding and marking a free cluster

`allocate_cluster` searches from its hint to the last cluster and then once more from cluster 2
on. A cluster without an entry in the FAT ends the call, and the words that it writes may be
entries of other clusters when the areas of the volume overlap. `allocateCluster_sound_iff` says
that these are the only ways in which it goes wrong.
-/

set_option autoImplicit false

namespace VKernel.Proofs.Fs

open VKernel.Lib VKernel.Fs VKernel.Fs.Fat32

section Rules

variable {g : MountState} {w : World}

/-- A byte of the disk is in a word. -/
theorem byte_eq_of_word {disk disk' : Buffer} {i : Nat}
    (h : word disk (i / 4) = word disk' (i / 4)) :
    disk i = disk' i := by
  have hbyte := leByte_leValue disk (4 * (i / 4)) (show i % 4 < 4 by omega)
  have hbyte' := leByte_leValue disk' (4 * (i / 4)) (show i % 4 < 4 by omega)
  rw [Nat.div_add_mod] at hbyte hbyte'
  unfold word at h
  rw [← hbyte, ← hbyte', h]

theorem EntryWritten.of_same {e value : Nat} {w₁ w₂ : World} (hsame : SameDisk w w₁)
    (hfree : w₁.free = w.free) (h : EntryWritten g e value w₁ w₂) :
    EntryWritten g e value w w₂ := by
  obtain ⟨hblockCount, hinfo, hwords⟩ := h
  rw [hsame.disk] at hwords
  exact ⟨hblockCount.trans hsame.blockCount, hinfo.trans hfree, hwords⟩

/-- The count after a cluster was taken. -/
def takenCount (count : Nat) : Nat :=
  if count = FAT32_FSINFO_UNKNOWN then FAT32_FSINFO_UNKNOWN else sub32 count 1

/-- A call of `allocate_cluster` has taken a cluster: it has marked the entry and stored the
count and the hint. -/
def Taken (g : MountState) (c : Nat) (w w' : World) : Prop :=
  ∃ w₁, EntryWritten g (entryOf c) FAT32_END_OF_CHAIN w w₁ ∧
    FsInfoWritten g ⟨takenCount w.free.freeClusterCount, nextHint (g.totalClusters + 1) c⟩ w₁ w'

theorem Taken.blockCount {c : Nat} {w' : World} (h : Taken g c w w') :
    w'.blockCount = w.blockCount := by
  obtain ⟨w₁, hwritten, hinfoWritten⟩ := h
  exact hinfoWritten.blockCount.trans hwritten.blockCount

section Layout

variable (hbounds : FieldBounds g)

include hbounds

/-- The FSInfo sector is no sector of the FAT. -/
theorem copyBlock_ne_fsInfo (hinfo : FsInfoApart g) (hhas : HasFsInfo g) {k s : Nat}
    (hk : k < g.fatCount) (hs : s < g.sectorsPerFat) : copyBlock g k s ≠ fsInfoBlock g := by
  intro heq
  have hreserved := hbounds.reserved
  have hfsInfo := hbounds.fsInfo
  have hspf := hbounds.sectorsPerFat
  have hapart := hinfo hhas k hk
  unfold copyBlock fsInfoBlock at heq
  rw [Nat.add_assoc, Nat.add_assoc, Nat.add_comm g.reservedSectorCount] at heq
  have hsum := eq_of_add_mod (by omega) (by omega) heq
  omega

/-- Storing the count and the hint keeps the entries. -/
theorem FsInfoWritten.entry (hinfo : FsInfoApart g) {info : FreeInfo} {w' : World}
    (h : FsInfoWritten g info w w') {k e : Nat} (hk : k < g.fatCount) (he : HasEntry g e) :
    word w'.disk (entryWord g k e) = word w.disk (entryWord g k e) := by
  apply h.words
  intro hhas
  have hs : e / 128 < g.sectorsPerFat := by
    unfold HasEntry at he
    omega
  have hne := copyBlock_ne_fsInfo hbounds hinfo hhas hk hs
  unfold entryWord
  omega

/-- Storing the count and the hint keeps a fresh cache fresh. -/
theorem FsInfoWritten.fresh (hinfo : FsInfoApart g) (hdevice : FatOnDevice g w.blockCount)
    {info : FreeInfo} {w' : World} (h : FsInfoWritten g info w w') (hcache : w'.cache = w.cache)
    (hfresh : Fresh g w) : Fresh g w' := by
  apply fresh_of_disk hdevice hbounds.copies rfl h.blockCount hcache ?_ hfresh
  intro i hlow hhigh
  apply byte_eq_of_word
  apply h.words
  intro hhas heq
  obtain ⟨s, hs, hblock⟩ : ∃ s < g.sectorsPerFat, i / 4 / 128 = copyBlock g 0 0 + s :=
    ⟨i / 4 / 128 - copyBlock g 0 0, by omega, by omega⟩
  rw [hblock, ← copyBlock_eq hdevice hbounds.copies hs] at heq
  exact copyBlock_ne_fsInfo hbounds hinfo hhas hbounds.copies hs heq

/-- A pass of `allocate_cluster` over the clusters from `c` on. -/
theorem wp_searchCluster_words (hcopies : CopiesApart g) (hinfo : FsInfoApart g)
    (hclusters : g.totalClusters + 2 < 2 ^ 32) {rounds c : Nat} (hc : c ≤ g.totalClusters + 2)
    (hrounds : g.totalClusters + 2 < c + rounds) {w : World}
    (hdevice : RequestsSucceed g w.blockCount) (hfresh : Fresh g w)
    {Q : ClusterSearch → World → Prop}
    (hexhausted : ∀ w', SameDisk w w' → Fresh g w' → w'.free = w.free →
      (∀ x, c ≤ x → x ≤ g.totalClusters + 1 → HasEntry g (entryOf x) ∧ fatTable g w x ≠ 0) →
      Q .exhausted w')
    (hfailed : ∀ x w', SameDisk w w' → Fresh g w' → w'.free = w.free → c ≤ x →
      x ≤ g.totalClusters + 1 → ¬ HasEntry g (entryOf x) → Q .failed w')
    (hfound : ∀ x w', Fresh g w' → c ≤ x → x ≤ g.totalClusters + 1 → HasEntry g (entryOf x) →
      fatTable g w x = 0 → Taken g x w w' → Q (.found x) w') :
    (searchCluster g (g.totalClusters + 1) rounds c).wp (deviceHandler g) Q w := by
  induction rounds generalizing c w with
  | zero => omega
  | succ rounds ih =>
    by_cases hend : g.totalClusters + 1 < c
    · rw [searchCluster_exhausted g rounds hend]
      apply hexhausted w (SameDisk.refl w) hfresh rfl
      intro x hle hlt
      omega
    rw [searchCluster_round g rounds hclusters (Nat.le_of_not_lt hend), Program.wp_bind]
    apply wp_readFatValue_words hdevice.toFatOnDevice hbounds.copies hbounds.bytes hfresh
    intro w₁ hsame hfresh₁ hfree₁
    by_cases hentry : HasEntry g (entryOf c)
    · rw [if_pos hentry]
      show Program.wp _ (if fatTable g w c ≠ 0 then _ else _) _ w₁
      by_cases hzero : fatTable g w c = 0
      · rw [if_neg (not_not_intro hzero), Program.wp_bind]
        apply wp_writeFatValue_words (hsame.blockCount.symm ▸ hdevice.toFatOnDevice)
          hbounds.bytes hbounds.sectorsPerFat hentry
        intro w₂ hkeeps hwritten
        have hwritten' := hwritten.of_same hsame hfree₁
        show Program.wp _ (getFreeInfo >>= _) _ w₂
        rw [Program.wp_bind]
        show Program.wp _ (updateFsinfo g _ >>= _) _ w₂
        rw [Program.wp_bind]
        apply wp_updateFsinfo_words
        · intro hhas hblock
          have hlt := hdevice.fsInfo hhas
          rw [hwritten'.blockCount] at hblock
          omega
        · intro w₃ hinfoWritten hcache
          have hdevice₂ : FatOnDevice g w₂.blockCount :=
            hwritten'.blockCount.symm ▸ hdevice.toFatOnDevice
          have hfresh₃ : Fresh g w₃ :=
            hinfoWritten.fresh hbounds hinfo hdevice₂ hcache (hkeeps hcopies hfresh₁)
          apply hfound c w₃ hfresh₃ (Nat.le_refl c) (by omega) hentry hzero
          refine ⟨w₂, hwritten', ?_⟩
          unfold takenCount
          rw [← hwritten'.free]
          exact hinfoWritten
      · rw [if_pos hzero]
        have htable : ∀ x, fatTable g w₁ x = fatTable g w x := by
          intro x
          unfold fatTable
          rw [hsame.disk]
        apply ih (by omega) (by omega) (hsame.blockCount.symm ▸ hdevice) hfresh₁
        · intro w' hsame' hfresh' hfree' hall
          apply hexhausted w' (hsame.trans hsame') hfresh' (hfree'.trans hfree₁)
          intro x hle hlt
          by_cases hx : x = c
          · rw [hx]
            exact ⟨hentry, hzero⟩
          · rw [← htable]
            exact hall x (by omega) (by omega)
        · intro x w' hsame' hfresh' hfree' hle hlt hnone
          exact hfailed x w' (hsame.trans hsame') hfresh' (hfree'.trans hfree₁) (by omega)
            (by omega) hnone
        · intro x w' hfresh' hle hlt hhas hvalue htaken
          apply hfound x w' hfresh' (by omega) (by omega) hhas
          · rw [← htable]
            exact hvalue
          · obtain ⟨w₂, hwritten, hinfoWritten⟩ := htaken
            rw [hfree₁] at hinfoWritten
            exact ⟨w₂, hwritten.of_same hsame hfree₁, hinfoWritten⟩
    · rw [if_neg hentry]
      exact hfailed c w₁ hsame hfresh₁ hfree₁ (Nat.le_refl c) (by omega) hentry

/-- `allocate_cluster` takes a free cluster. It takes none when every cluster has an entry and
is in use, or when it comes to a cluster without an entry. -/
theorem wp_allocateCluster_words (hcopies : CopiesApart g) (hinfo : FsInfoApart g)
    (hclusters : g.totalClusters + 2 < 2 ^ 32) (hdevice : RequestsSucceed g w.blockCount)
    (hfresh : Fresh g w) {Q : Option Nat → World → Prop}
    (hfull : ∀ w', SameDisk w w' → Fresh g w' → w'.free = w.free →
      (∀ x, InVolume g x → HasEntry g (entryOf x) ∧ fatTable g w x ≠ 0) → Q none w')
    (hfailed : ∀ x w', SameDisk w w' → Fresh g w' → w'.free = w.free → InVolume g x →
      ¬ HasEntry g (entryOf x) → Q none w')
    (hfound : ∀ x w', Fresh g w' → InVolume g x → HasEntry g (entryOf x) → fatTable g w x = 0 →
      Taken g x w w' → Q (some x) w') :
    (allocateCluster g).wp (deviceHandler g) Q w := by
  have hmin := hbounds.clusters
  unfold FAT32_MIN_CLUSTER_COUNT at hmin
  unfold allocateCluster
  rw [Nat.mod_eq_of_lt (show g.totalClusters + 1 < 2 ^ 32 by omega)]
  dsimp only
  rw [Program.wp_bind]
  show Program.wp _ (searchCluster g (g.totalClusters + 1) SEARCH_ROUNDS
    (startCluster (g.totalClusters + 1) w.free.nextFreeClusterHint) >>= _) _ w
  generalize hstart : startCluster (g.totalClusters + 1) w.free.nextFreeClusterHint = start
  have hrange : 2 ≤ start ∧ start ≤ g.totalClusters + 1 := by
    rw [← hstart]
    unfold startCluster
    split <;> omega
  have hrounds : 2 ^ 32 ≤ SEARCH_ROUNDS := by decide
  rw [Program.wp_bind]
  apply wp_searchCluster_words hbounds hcopies hinfo hclusters (by omega) (by omega) hdevice hfresh
  · intro w₁ hsame hfresh₁ hfree₁ _
    have htable : ∀ x, fatTable g w₁ x = fatTable g w x := by
      intro x
      unfold fatTable
      rw [hsame.disk]
    show Program.wp _ (searchCluster g _ _ 2 >>= _) _ w₁
    rw [Program.wp_bind]
    apply wp_searchCluster_words hbounds hcopies hinfo hclusters (by omega) (by omega)
      (hsame.blockCount.symm ▸ hdevice) hfresh₁
    · intro w₂ hsame₂ hfresh₂ hfree₂ hall
      apply hfull w₂ (hsame.trans hsame₂) hfresh₂ (hfree₂.trans hfree₁)
      intro x hx
      rw [← htable]
      exact hall x hx.1 hx.2
    · intro x w₂ hsame₂ hfresh₂ hfree₂ hle hlt hnone
      exact hfailed x w₂ (hsame.trans hsame₂) hfresh₂ (hfree₂.trans hfree₁) ⟨hle, by omega⟩ hnone
    · intro x w₂ hfresh₂ hle hlt hhas hvalue htaken
      obtain ⟨w', hwritten, hinfoWritten⟩ := htaken
      rw [hfree₁] at hinfoWritten
      exact hfound x w₂ hfresh₂ ⟨hle, by omega⟩ hhas (htable x ▸ hvalue)
        ⟨w', hwritten.of_same hsame hfree₁, hinfoWritten⟩
  · intro x w₁ hsame hfresh₁ hfree₁ hle hlt hnone
    exact hfailed x w₁ hsame hfresh₁ hfree₁ ⟨by omega, by omega⟩ hnone
  · intro x w₁ hfresh₁ hle hlt hhas hvalue htaken
    exact hfound x w₁ hfresh₁ ⟨by omega, by omega⟩ hhas hvalue htaken

/-- The entries after a cluster was taken. -/
theorem Taken.entry (hcopies : CopiesApart g) (hinfo : FsInfoApart g) {c : Nat} {w' : World}
    (h : Taken g c w w') (hc : HasEntry g (entryOf c)) {k e : Nat} (hk : k < g.fatCount)
    (he : HasEntry g e) : word w'.disk (entryWord g k e) =
      if e = entryOf c then mergeFatValue (word w.disk (entryWord g k e)) FAT32_END_OF_CHAIN
      else word w.disk (entryWord g k e) := by
  obtain ⟨w₁, hwritten, hinfoWritten⟩ := h
  rw [hinfoWritten.entry hbounds hinfo hk he,
    hwritten.entry hbounds.sectorsPerFat hcopies hc hk he]

end Layout

/-- Every cluster has an entry. -/
theorem hasEntry_of_layout (h : FatLayout g) {c : Nat} (hc : InVolume g c) :
    HasEntry g (entryOf c) := by
  have hclusters := h.clusters
  have hcovers := h.covers
  have hmax := hc.2
  unfold HasEntry entryOf
  omega

/-- No two clusters have the same entry. -/
theorem entryOf_inj (hclusters : g.totalClusters ≤ 2 ^ 30) {c c' : Nat} (hc : InVolume g c)
    (hc' : InVolume g c') (heq : entryOf c = entryOf c') : c = c' := by
  obtain ⟨hlow, hhigh⟩ := hc
  obtain ⟨hlow', hhigh'⟩ := hc'
  unfold entryOf at heq
  omega

/-- On a volume whose areas fit, a call of `allocate_cluster` does what it should. -/
theorem soundAllocation (hbounds : FieldBounds g) (hlayout : FatLayout g)
    (hdevice : RequestsSucceed g w.blockCount) (hfresh : Fresh g w) :
    ∃ result w', (allocateCluster g).run (deviceHandler g) w = some (result, w') ∧
      SoundAllocation g w result w' ∧ Fresh g w' ∧ w'.blockCount = w.blockCount := by
  have hclusters := hlayout.clusters
  have hvalue : ∀ v : World, v.blockCount = w.blockCount → ∀ c, InVolume g c →
      fatValueOf g v c = some (fatTable g v c) := by
    intro v hv c hc
    rw [fatValueOf_eq hdevice.toFatOnDevice hbounds.copies hbounds.bytes hv,
      if_pos (hasEntry_of_layout hlayout hc)]
  apply Program.wp_iff_run.mp
  apply wp_allocateCluster_words hbounds hlayout.copies hlayout.fsInfo (by omega) hdevice hfresh
  · intro w' hsame hfresh' _ hall
    refine ⟨⟨?_, ?_, ?_, ?_, ?_⟩, hfresh', hsame.blockCount⟩
    · refine iff_of_false (by simp) ?_
      rintro ⟨c, hc, hzero⟩
      rw [hvalue w rfl c hc, Option.some.injEq] at hzero
      exact (hall c hc).2 hzero
    · intro c h
      cases h
    · intro c h
      cases h
    · intro k _ e _ _
      rw [hsame.disk]
    · intro c _ _
      exact hsame.fatValueOf c
  · intro x w' _ _ _ hx hnone
    exact absurd (hasEntry_of_layout hlayout hx) hnone
  · intro x w' hfresh' hx hentry hzero htaken
    have hfree : fatValueOf g w x = some 0 := by
      rw [hvalue w rfl x hx, hzero]
    have hword := fun {k e : Nat} (hk : k < g.fatCount) (he : HasEntry g e) =>
      htaken.entry hbounds hlayout.copies hlayout.fsInfo hentry hk he
    refine ⟨⟨?_, ?_, ?_, ?_, ?_⟩, hfresh', htaken.blockCount⟩
    · exact iff_of_true rfl ⟨x, hx, hfree⟩
    · intro c h
      cases h
      exact ⟨hx, hfree⟩
    · intro c h k hk
      cases h
      rw [hword hk hentry, if_pos rfl]
    · intro k hk e he hne
      rw [hword hk he, if_neg (hne x rfl)]
    · intro c hc hne
      have hentryc := hasEntry_of_layout hlayout hc
      rw [hvalue w' htaken.blockCount c hc, hvalue w rfl c hc]
      unfold fatTable
      rw [hword hbounds.copies hentryc, if_neg]
      intro heq
      exact hne (by rw [entryOf_inj hlayout.clusters hc hx heq])

/-- On a volume whose areas fit, two calls in a row do. -/
theorem allocatesSoundly_of_layout (hbounds : FieldBounds g) (hlayout : FatLayout g)
    (hdevice : RequestsSucceed g w.blockCount) (hfresh : Fresh g w) : AllocatesSoundly g w := by
  obtain ⟨result, w', hrun, hsound, hfresh', hblocks⟩ :=
    soundAllocation hbounds hlayout hdevice hfresh
  obtain ⟨result', w'', hrun', hsound', -, -⟩ :=
    soundAllocation hbounds hlayout (hblocks.symm ▸ hdevice) hfresh'
  exact ⟨result, w', hrun, hsound, result', w'', hrun', hsound'.isSome⟩

/-! ### Volumes whose areas do not fit -/

/-- A call whose search starts at a cluster without an entry takes none. -/
theorem allocateCluster_uncovered (hbounds : FieldBounds g)
    (hclusters : g.totalClusters + 2 < 2 ^ 32)
    (hdevice : FatOnDevice g w.blockCount) (hfresh : Fresh g w) {c : Nat}
    (hstart : startCluster (g.totalClusters + 1) w.free.nextFreeClusterHint = c)
    (hc : c ≤ g.totalClusters + 1) (hnone : ¬ HasEntry g (entryOf c)) :
    ∃ w', (allocateCluster g).run (deviceHandler g) w = some (none, w') := by
  have hwp : (allocateCluster g).wp (deviceHandler g) (fun result _ => result = none) w := by
    unfold allocateCluster
    rw [Nat.mod_eq_of_lt (show g.totalClusters + 1 < 2 ^ 32 by omega)]
    dsimp only
    rw [Program.wp_bind]
    show Program.wp _ (searchCluster g (g.totalClusters + 1) SEARCH_ROUNDS
      (startCluster (g.totalClusters + 1) w.free.nextFreeClusterHint) >>= _) _ _
    obtain ⟨rounds, hrounds⟩ : ∃ rounds, SEARCH_ROUNDS = rounds + 1 := ⟨_, rfl⟩
    rw [hstart, Program.wp_bind, hrounds, searchCluster_round g rounds hclusters hc,
      Program.wp_bind]
    apply wp_readFatValue_words hdevice hbounds.copies hbounds.bytes hfresh
    intro w₁ _ _ _
    rw [if_neg hnone]
    rfl
  obtain ⟨result, w', hrun, rfl⟩ := Program.wp_iff_run.mp hwp
  exact ⟨w', hrun⟩

/-- A device on which the entry of cluster 2 is the only one that is 0. -/
def oneFreeWorld (g : MountState) (blockCount hint : Nat) : World where
  blockCount := blockCount
  disk i := if i / 4 = entryWord g 0 2 then 0 else 1
  cache := ⟨false, 0, 0, fun _ => 0⟩
  free := ⟨FAT32_FSINFO_UNKNOWN, hint⟩

/-- The words of that device. -/
theorem word_oneFreeWorld (blockCount hint n : Nat) :
    word (oneFreeWorld g blockCount hint).disk n =
      if n = entryWord g 0 2 then 0 else 0x01010101 := by
  unfold word
  by_cases heq : n = entryWord g 0 2
  · rw [if_pos heq]
    refine (@leValue_congr _ (fun _ => 0) _ 0 4 fun i hi => ?_).trans (by decide)
    exact if_pos (by omega)
  · rw [if_neg heq]
    refine (@leValue_congr _ (fun _ => 1) _ 0 4 fun i hi => ?_).trans (by decide)
    exact if_neg (by omega)

theorem fresh_oneFreeWorld (blockCount hint : Nat) : Fresh g (oneFreeWorld g blockCount hint) :=
  fun hvalid => by cases hvalid

theorem inVolume_two (hbounds : FieldBounds g) : InVolume g 2 := by
  have hclusters := hbounds.clusters
  unfold FAT32_MIN_CLUSTER_COUNT at hclusters
  exact ⟨Nat.le_refl 2, by omega⟩

section Failures

variable {blockCount hint : Nat} (hbounds : FieldBounds g) (hdevice : RequestsSucceed g blockCount)

include hbounds hdevice

/-- Only the clusters with the entry of cluster 2 are free. -/
theorem fatValueOf_oneFreeWorld (c : Nat) :
    fatValueOf g (oneFreeWorld g blockCount hint) c = some 0 ↔ entryOf c = 2 := by
  have hsectors := hbounds.sectors
  have htwo : HasEntry g 2 := by
    unfold HasEntry
    omega
  rw [fatValueOf_eq hdevice.toFatOnDevice hbounds.copies hbounds.bytes rfl]
  unfold fatTable
  rw [word_oneFreeWorld]
  constructor
  · intro h
    split at h
    · rename_i hentry
      by_contra hne
      rw [if_neg fun heq => hne (entryWord_inj hbounds.sectorsPerFat hentry htwo heq)] at h
      exact absurd h (by decide)
    · cases h
  · intro h
    rw [h, if_pos htwo, if_pos rfl, Nat.zero_mod]

/-- A sound call takes a cluster with the entry of cluster 2, and changes its words. -/
theorem taken_oneFreeWorld {result : Option Nat} {w' : World}
    (h : SoundAllocation g (oneFreeWorld g blockCount hint) result w') :
    ∃ c, result = some c ∧ InVolume g c ∧ entryOf c = 2 ∧ ∀ k < g.fatCount,
      word w'.disk (entryWord g k 2) % 2 ^ 28 = FAT32_END_OF_CHAIN := by
  have hsome : result.isSome := h.isSome.mpr
    ⟨2, inVolume_two hbounds, (fatValueOf_oneFreeWorld hbounds hdevice 2).mpr (by decide)⟩
  obtain ⟨c, hc⟩ := Option.isSome_iff_exists.mp hsome
  obtain ⟨hin, hzero⟩ := h.free c hc
  have hentry := (fatValueOf_oneFreeWorld hbounds hdevice c).mp hzero
  refine ⟨c, hc, hin, hentry, fun k hk => ?_⟩
  have hmarked := h.marked c hc k hk
  rw [hentry] at hmarked
  rw [hmarked, mergeFatValue_mod]
  decide

/-- Two clusters with one entry are taken together. -/
theorem clusters_of_sound {result : Option Nat} {w' : World}
    (h : SoundAllocation g (oneFreeWorld g blockCount hint) result w')
    (hblocks : w'.blockCount = blockCount) : g.totalClusters ≤ 2 ^ 30 := by
  by_contra hgt
  obtain ⟨c, hc, hin, hentry, hmarked⟩ := taken_oneFreeWorld hbounds hdevice h
  obtain ⟨c', hin', hentry', hne⟩ : ∃ c', InVolume g c' ∧ entryOf c' = 2 ∧ c' ≠ c := by
    by_cases heq : c = 2
    · exact ⟨2 ^ 30 + 2, ⟨by omega, by omega⟩, by decide, by omega⟩
    · exact ⟨2, inVolume_two hbounds, by decide, Ne.symm heq⟩
  have hkept := h.values c' hin' (by rw [hc]; simpa using Ne.symm hne)
  have hsectors := hbounds.sectors
  have htwo : HasEntry g 2 := by
    unfold HasEntry
    omega
  rw [(fatValueOf_oneFreeWorld hbounds hdevice c').mpr hentry',
    fatValueOf_eq hdevice.toFatOnDevice hbounds.copies hbounds.bytes hblocks, hentry',
    if_pos htwo, Option.some.injEq] at hkept
  have hvalue := hmarked 0 hbounds.copies
  unfold fatTable at hkept
  rw [hentry', hvalue] at hkept
  exact absurd hkept (by decide)

/-- Copies that overlap are changed in another place. -/
theorem copiesApart_of_sound {result : Option Nat} {w' : World}
    (h : SoundAllocation g (oneFreeWorld g blockCount hint) result w') : CopiesApart g := by
  obtain ⟨c, hc, -, hentry, hmarked⟩ := taken_oneFreeWorld hbounds hdevice h
  -- entry 2 of a copy that starts inside another one is a later entry of that
  have hinside : ∀ j < g.fatCount, ∀ k < g.fatCount,
      k * g.sectorsPerFat % 2 ^ 32 < j * g.sectorsPerFat % 2 ^ 32 →
      k * g.sectorsPerFat % 2 ^ 32 + g.sectorsPerFat ≤ j * g.sectorsPerFat % 2 ^ 32 := by
    intro j hj k hk hlt
    by_contra hoverlap
    obtain ⟨d, hd⟩ : ∃ d, j * g.sectorsPerFat % 2 ^ 32 = k * g.sectorsPerFat % 2 ^ 32 + d :=
      ⟨_, (Nat.add_sub_cancel' (Nat.le_of_lt hlt)).symm⟩
    have hblock : copyBlock g j 0 = copyBlock g k d := by
      unfold copyBlock
      rw [hd, Nat.add_zero, ← Nat.add_assoc]
    have hword : entryWord g j 2 = entryWord g k (128 * d + 2) := by
      unfold entryWord
      rw [show (128 * d + 2) / 128 = d by omega, show (128 * d + 2) % 128 = 2 by omega, ← hblock]
    have hentryd : HasEntry g (128 * d + 2) := by
      unfold HasEntry
      omega
    have hkept := h.entries k hk (128 * d + 2) hentryd fun c' hc' => by
      rw [hc] at hc'
      cases hc'
      omega
    have hvalue := hmarked j hj
    rw [hword, hkept, word_oneFreeWorld] at hvalue
    split at hvalue
    · exact absurd hvalue (by decide)
    · exact absurd hvalue (by decide)
  intro j hj k hk
  have hjk := hinside j hj k hk
  have hkj := hinside k hk j hj
  omega

/-- A cluster without an entry keeps a search that starts there from finding one. -/
theorem covers_of_sound (hclusters : g.totalClusters ≤ 2 ^ 30)
    (h : AllocatesSoundly g (oneFreeWorld g blockCount (g.sectorsPerFat * 128))) :
    min (g.totalClusters + 2) (2 ^ 30) ≤ g.sectorsPerFat * 128 := by
  by_contra hshort
  have hsectors := hbounds.sectors
  obtain ⟨result, w', hrun, hsound, -⟩ := h
  obtain ⟨c, hc, -⟩ := taken_oneFreeWorld hbounds hdevice hsound
  have hstart : startCluster (g.totalClusters + 1) (g.sectorsPerFat * 128) =
      g.sectorsPerFat * 128 := by
    unfold startCluster
    exact if_neg (by omega)
  have hnone : ¬ HasEntry g (entryOf (g.sectorsPerFat * 128)) := by
    unfold HasEntry entryOf
    omega
  obtain ⟨w₁, hrun'⟩ := allocateCluster_uncovered hbounds (by omega)
    (w := oneFreeWorld g blockCount (g.sectorsPerFat * 128)) hdevice.toFatOnDevice
    (fresh_oneFreeWorld blockCount _) hstart (by omega) hnone
  cases hrun.symm.trans hrun'
  cases hc

/-- An FSInfo sector in a copy of the FAT is written over entries there. -/
theorem fsInfoApart_of_sound {result : Option Nat} {w' : World}
    (h : SoundAllocation g (oneFreeWorld g blockCount hint) result w')
    (hwritten : HasFsInfo g → word w'.disk (fsInfoBlock g * 128) = FAT32_FSINFO_SIGNATURE_1) :
    FsInfoApart g := by
  obtain ⟨c, hc, -, hentry, -⟩ := taken_oneFreeWorld hbounds hdevice h
  intro hhas k hk
  by_contra hinside
  obtain ⟨s, hs, heq⟩ : ∃ s < g.sectorsPerFat,
      g.fsInfoSector = g.reservedSectorCount + k * g.sectorsPerFat % 2 ^ 32 + s :=
    ⟨g.fsInfoSector - (g.reservedSectorCount + k * g.sectorsPerFat % 2 ^ 32), by omega, by omega⟩
  have hblock : fsInfoBlock g = copyBlock g k s := by
    unfold fsInfoBlock copyBlock
    rw [heq, ← Nat.add_assoc, ← Nat.add_assoc]
  have hword : fsInfoBlock g * 128 = entryWord g k (128 * s) := by
    unfold entryWord
    rw [Nat.mul_div_cancel_left s (by decide), Nat.mul_mod_right, hblock, Nat.add_zero]
  have hentrys : HasEntry g (128 * s) := by
    unfold HasEntry
    omega
  have hkept := h.entries k hk (128 * s) hentrys fun c' hc' => by
    rw [hc] at hc'
    cases hc'
    omega
  have hvalue := hwritten hhas
  rw [hword, hkept, word_oneFreeWorld] at hvalue
  split at hvalue
  · exact absurd hvalue (by decide)
  · exact absurd hvalue (by decide)

end Failures

/-! ### What every call leaves in the FSInfo sector -/

/-- A successful `update_fsinfo` has written the first signature. -/
theorem wp_updateFsinfo_signature (info : FreeInfo) (w : World) :
    (updateFsinfo g info).wp (deviceHandler g) (fun updated w' => updated = true →
      HasFsInfo g → word w'.disk (fsInfoBlock g * 128) = FAT32_FSINFO_SIGNATURE_1) w := by
  apply wp_updateFsinfo_words
  · intro _ _ hfalse
    cases hfalse
  · intro w' hwritten _ _ hhas
    have hsector := hwritten.sector hhas 0 (by decide)
    rwa [Nat.add_zero, Nat.mul_zero, (leValue_fsInfoBytes info).1] at hsector

/-- Nothing is known of a program. -/
theorem wlp_any {α : Type} (p : Fat α) (w : World) :
    p.wlp (deviceHandler g) (fun _ => True) (fun _ _ => True) w :=
  (Program.asks_of_forall (fun _ => trivial) p).wlp fun _ _ _ => trivial

/-- A pass that finds a cluster ends with `update_fsinfo`. -/
theorem wlp_searchCluster_signature (maxCluster rounds c : Nat) (w : World) :
    (searchCluster g maxCluster rounds c).wlp (deviceHandler g) (fun _ => True) (fun search w' =>
      ∀ x, search = .found x → HasFsInfo g →
        word w'.disk (fsInfoBlock g * 128) = FAT32_FSINFO_SIGNATURE_1) w := by
  induction rounds generalizing c w with
  | zero => exact trivial
  | succ rounds ih =>
    unfold searchCluster
    split
    · intro x hx
      cases hx
    rw [Program.wlp_bind]
    refine Program.wlp_mono (wlp_any _ w) fun value w₁ _ => ?_
    cases value with
    | none =>
      intro x hx
      cases hx
    | some value =>
      dsimp only
      by_cases hzero : value = 0
      · rw [if_neg (not_not_intro hzero), Program.wlp_bind]
        refine Program.wlp_mono (wlp_any _ w₁) fun marked w₂ _ => ?_
        cases marked with
        | false =>
          intro x hx
          cases hx
        | true =>
          show Program.wlp _ _ (getFreeInfo >>= _) _ w₂
          rw [Program.wlp_bind]
          refine ⟨trivial, ?_⟩
          show Program.wlp _ _ (updateFsinfo g _ >>= _) _ w₂
          rw [Program.wlp_bind]
          refine Program.wlp_mono (Program.wlp_of_wp (Program.asks_of_forall
            (fun _ => trivial) _) (wp_updateFsinfo_signature _ w₂)) fun updated w₃ h => ?_
          cases updated with
          | false =>
            intro x hx
            cases hx
          | true => exact fun x _ => h rfl
      · rw [if_pos hzero]
        exact ih _ w₁

/-- So does a call that takes a cluster. -/
theorem wlp_allocateCluster_signature (w : World) :
    (allocateCluster g).wlp (deviceHandler g) (fun _ => True) (fun result w' =>
      result.isSome → HasFsInfo g →
        word w'.disk (fsInfoBlock g * 128) = FAT32_FSINFO_SIGNATURE_1) w := by
  unfold allocateCluster
  dsimp only
  rw [Program.wlp_bind]
  refine ⟨trivial, ?_⟩
  show Program.wlp _ _ (searchCluster g _ _ _ >>= _) _ w
  rw [Program.wlp_bind]
  refine Program.wlp_mono (wlp_searchCluster_signature _ _ _ w) fun search w₁ h => ?_
  cases search with
  | failed =>
    intro hsome
    cases hsome
  | found x => exact fun _ => h x rfl
  | exhausted =>
    show Program.wlp _ _ (searchCluster g _ _ _ >>= _) _ w₁
    rw [Program.wlp_bind]
    refine Program.wlp_mono (wlp_searchCluster_signature _ _ _ w₁) fun search₂ w₂ h₂ => ?_
    cases search₂ with
    | failed =>
      intro hsome
      cases hsome
    | found x => exact fun _ => h₂ x rfl
    | exhausted =>
      intro hsome
      cases hsome

end Rules

/-- On a device whose requests succeed, `allocate_cluster` finds a free cluster when there is
one, marks its entry and no other, and leaves a hint from which the next call does so too, for
every content of the FAT and every hint, exactly when the areas of the volume fit: at most
`2 ^ 30` clusters, each with an entry in the FAT, and neither another copy nor the FSInfo sector
inside a FAT. -/
theorem allocateCluster_sound_iff {g : MountState} (hprobed : Probed g) {blockCount : Nat}
    (hdevice : RequestsSucceed g blockCount) :
    (∀ w, w.blockCount = blockCount → Fresh g w → AllocatesSoundly g w) ↔ FatLayout g := by
  have hbounds := fieldBounds_of_probed hprobed
  constructor
  · -- Volumes with one free entry, at the places where a bad layout shows.
    intro hall
    obtain ⟨result, w', hrun, hsound, -⟩ :=
      hall (oneFreeWorld g blockCount 2) rfl (fresh_oneFreeWorld blockCount 2)
    have hblocks : w'.blockCount = blockCount := run_blockCount hrun
    have hclusters := clusters_of_sound hbounds hdevice hsound hblocks
    refine ⟨hclusters, ?_, copiesApart_of_sound hbounds hdevice hsound, ?_⟩
    · exact covers_of_sound hbounds hdevice hclusters
        (hall (oneFreeWorld g blockCount _) rfl (fresh_oneFreeWorld blockCount _))
    · obtain ⟨c, hc, -⟩ := taken_oneFreeWorld hbounds hdevice hsound
      have hwritten := (Program.wlp_iff_requests.mp
        (wlp_allocateCluster_signature (oneFreeWorld g blockCount 2))).2 result w' hrun
      exact fsInfoApart_of_sound hbounds hdevice hsound (hwritten (by rw [hc]; rfl))
  · intro hlayout w hblocks hfresh
    exact allocatesSoundly_of_layout hbounds hlayout (hblocks.symm ▸ hdevice) hfresh

/-- The volume with two FATs. -/
theorem allocateCluster_sound_twin :
    AllocatesSoundly twinVolume (.unmounted 100000 twinSector) := by
  have hlayout : FatLayout twinVolume := by
    refine ⟨by decide, by decide, copiesApart_of_lt (by decide) (by decide), ?_⟩
    rintro ⟨hvalid, -⟩
    cases hvalid
  exact (allocateCluster_sound_iff probed_twinVolume requestsSucceed_twinVolume).mpr hlayout _ rfl
    (fresh_unmounted _ 100000 twinSector)

/-- A mounted device: a boot sector, the FSInfo sector behind it, and the rest of the disk. -/
def fsInfoWorld (blockCount : Nat) (sector : Buffer) (info : FreeInfo) (rest : Buffer) : World where
  blockCount := blockCount
  disk i :=
    if i < 512 then sector i else if i < 1024 then fsInfoBytes info (i - 512) else rest i
  cache := ⟨false, 0, 0, fun _ => 0⟩
  free := info

/-- A mount takes the count and the hint from the FSInfo sector. -/
theorem mounts_fsInfoWorld {blockCount : Nat} {sector : Buffer} (info : FreeInfo) (rest : Buffer)
    (hblocks : 2 ≤ blockCount) (haccepted : (BootSector.ofBytes sector).Accepted)
    (hsector : (BootSector.ofBytes sector).fsInfoSector = 1)
    (hcount : info.freeClusterCount < 2 ^ 32) (hhint : info.nextFreeClusterHint < 2 ^ 32)
    (hzero : ∀ i, 512 ≤ i → sector i = 0) :
    Mounts blockCount (fsInfoWorld blockCount sector info rest).disk true 0
      ((BootSector.ofBytes sector).mount true 0 true)
      (fsInfoWorld blockCount sector info rest) := by
  have hboot : (World.unmounted blockCount
    (fsInfoWorld blockCount sector info rest).disk).readBlocks
      0 1 = some sector := by
    rw [readBlocks_eq (by decide) (show 0 + 1 ≤ blockCount by omega)]
    congr 1
    funext i
    rw [Nat.zero_mul, Nat.zero_add]
    by_cases hi : i < 1 * 512
    · rw [if_pos hi]
      exact if_pos (by omega)
    · rw [if_neg hi, hzero i (by omega)]
  have hlba : add64 0 (BootSector.ofBytes sector).fsInfoSector = 1 := by
    rw [hsector]
    exact add64_eq (by rw [U64_eq]; decide)
  have hinfo : (World.unmounted blockCount
    (fsInfoWorld blockCount sector info rest).disk).readBlocks
      (add64 0 (BootSector.ofBytes sector).fsInfoSector) 1 = some (fsInfoBytes info) := by
    rw [hlba, readBlocks_eq (by decide) (show 1 + 1 ≤ blockCount by omega)]
    congr 1
    funext i
    by_cases hi : i < 1 * 512
    · rw [if_pos hi]
      refine (if_neg (by omega)).trans ((if_pos (by omega)).trans ?_)
      exact congrArg (fsInfoBytes info) (by omega)
    · rw [if_neg hi, fsInfoBytes_behind info (by omega)]
  have hrun := run_probeVolume_fsInfo (g := (BootSector.ofBytes sector).mount true 0 true)
    true hboot haccepted (by omega) hinfo (isFsInfo_fsInfoBytes info)
  rw [(leValue_fsInfoBytes info).2.2.1, (leValue_fsInfoBytes info).2.2.2.1, Nat.mod_eq_of_lt hcount,
    Nat.mod_eq_of_lt hhint] at hrun
  exact ⟨info, hrun, rfl⟩

/-- A boot sector: two reserved sectors with the FSInfo sector in the second one, one FAT of one
sector, and 65525 clusters of one sector. -/
def shortFatSector : Buffer := fun i =>
  if i = 12 ∨ i = 14 ∨ i = 44 then 2
  else if i = 13 ∨ i = 16 ∨ i = 36 ∨ i = 48 then 1
  else if i = 32 then 0xF8
  else if i = 33 then 0xFF
  else if i = 66 then 0x29
  else if i = 510 then 0x55
  else if i = 511 then 0xAA
  else 0

/-- The volume with this boot sector. -/
def shortFatVolume : MountState := (BootSector.ofBytes shortFatSector).mount true 0 true

/-- The state after a mount, with the hint 128 in the FSInfo sector and an empty FAT. -/
def shortFatWorld : World := fsInfoWorld 65528 shortFatSector ⟨126, 128⟩ fun _ => 0

theorem mounts_shortFat : Mounts 65528 shortFatWorld.disk true 0 shortFatVolume shortFatWorld := by
  refine mounts_fsInfoWorld _ _ (by decide) (by decide) (by decide) (by decide) (by decide) ?_
  intro i hi
  unfold shortFatSector
  simp only [show i ≠ 12 ∧ i ≠ 14 ∧ i ≠ 44 ∧ i ≠ 13 ∧ i ≠ 16 ∧ i ≠ 36 ∧ i ≠ 48 ∧ i ≠ 32 ∧ i ≠ 33 ∧
    i ≠ 66 ∧ i ≠ 510 ∧ i ≠ 511 by omega, or_self, if_false]

/-- A FAT of 128 entries for 65525 clusters, all of them free, and the hint 128 from the disk:
`allocate_cluster` asks for the entry of cluster 128 first, and gives up. -/
theorem allocate_misses_free_cluster :
    Mounts 65528 shortFatWorld.disk true 0 shortFatVolume shortFatWorld ∧
      RequestsSucceed shortFatVolume 65528 ∧ InVolume shortFatVolume 2 ∧
      fatValueOf shortFatVolume shortFatWorld 2 = some 0 ∧
      (∃ w', (allocateCluster shortFatVolume).run (deviceHandler shortFatVolume) shortFatWorld =
        some (none, w')) ∧ ¬ AllocatesSoundly shortFatVolume shortFatWorld := by
  have hbounds : FieldBounds shortFatVolume := BootSector_bounds shortFatSector (by decide)
  have hdevice : RequestsSucceed shortFatVolume 65528 :=
    requestsSucceed_of_le (by rw [U64_eq]; decide) (by decide) (by decide)
  have hfresh : Fresh shortFatVolume shortFatWorld := fun hvalid => by cases hvalid
  have hfree : fatValueOf shortFatVolume shortFatWorld 2 = some 0 := by
    have hword : fatTable shortFatVolume shortFatWorld 2 = 0 := by with_unfolding_all decide
    rw [fatValueOf_eq hdevice.toFatOnDevice hbounds.copies hbounds.bytes rfl, if_pos (by decide),
      hword]
  obtain ⟨w', hrun⟩ := allocateCluster_uncovered hbounds (by decide) (w := shortFatWorld)
    hdevice.toFatOnDevice hfresh (c := 128) (by decide) (by decide) (by decide)
  refine ⟨mounts_shortFat, hdevice, by decide, hfree, ⟨w', hrun⟩, ?_⟩
  rintro ⟨result, w₁, hrun', hsound, -⟩
  cases hrun.symm.trans hrun'
  exact absurd (hsound.isSome.mpr ⟨2, by decide, hfree⟩) (by decide)

end VKernel.Proofs.Fs

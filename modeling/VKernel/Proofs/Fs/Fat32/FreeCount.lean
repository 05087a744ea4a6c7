import VKernel.Proofs.Fs.Fat32.Allocation
import VKernel.Proofs.Fs.Fat32.FreeChain

/-!
# `VKernel.Proofs.Fs.Fat32.FreeCount`: the count of free clusters

`allocate_cluster` takes one from the count for the entry that it marks. `free_cluster_chain`
adds the number of rounds of its loop, which is the number of entries that it has cleared as
long as each of them was in use and belonged to a cluster of the volume, and adds nothing when
it fails on the way. `free_count_kept` is about runs of calls that meet this condition.
-/

set_option autoImplicit false

namespace VKernel.Proofs.Fs

open VKernel.Lib VKernel.Fs VKernel.Fs.Fat32

/-! ### Walks -/

section Walks

variable {value value' : Nat → Option Nat} {c : Nat} {cs : List Nat} {last : Option Nat}

theorem LinkWalk_nodup (h : LinkWalk value c cs last) : cs.Nodup := by
  induction h with
  | unreadable hc => exact List.nodup_nil
  | last hc hv => exact List.nodup_singleton _
  | next hc hv hrest hnew ih => exact List.nodup_cons.mpr ⟨hnew, ih⟩

/-- The clusters of a walk are data clusters. -/
theorem LinkWalk_data (h : LinkWalk value c cs last) (hdata : isDataCluster c) :
    ∀ x ∈ cs, isDataCluster x := by
  induction h with
  | unreadable hc =>
    intro x hx
    cases hx
  | last hc hv =>
    intro x hx
    rw [List.mem_singleton.mp hx]
    exact hdata
  | next hc hv hrest hnew ih => exact List.forall_mem_cons.mpr ⟨hdata, ih hv⟩

/-- The clusters of a walk are in use, except for the last one if its value is 0. -/
theorem LinkWalk_used (h : LinkWalk value c cs last) (hlast : last ≠ some 0) :
    ∀ x ∈ cs, value x ≠ some 0 := by
  induction h with
  | unreadable hc =>
    intro x hx
    cases hx
  | last hc hv =>
    intro x hx
    rw [List.mem_singleton.mp hx, hc]
    exact hlast
  | next hc hv hrest hnew ih =>
    refine List.forall_mem_cons.mpr ⟨?_, ih hlast⟩
    rw [hc]
    intro hzero
    cases hzero
    exact absurd hv.1 (by decide)

/-- A walk depends on the values of its clusters. -/
theorem LinkWalk_congr (h : LinkWalk value c cs last) (hmem : ∀ x ∈ cs, value' x = value x)
    (hnone : ∀ x, value x = none → value' x = none) : LinkWalk value' c cs last := by
  induction h with
  | unreadable hc => exact .unreadable (hnone _ hc)
  | last hc hv => exact .last ((hmem _ List.mem_cons_self).trans hc) hv
  | next hc hv hrest hnew ih =>
    exact .next ((hmem _ List.mem_cons_self).trans hc) hv
      (ih fun x hx => hmem x (List.mem_cons_of_mem _ hx)) hnew

end Walks

section Rules

variable {g : MountState} {w : World}

/-! ### The number of free clusters -/

theorem freeClusters_le (w : World) : freeClusters g w ≤ g.totalClusters := by
  have hcard := Finset.card_filter_le (Finset.Icc 2 (g.totalClusters + 1))
    fun c => fatValueOf g w c = some 0
  rw [Nat.card_Icc] at hcard
  unfold freeClusters
  omega

theorem freeClusters_congr {w' : World}
    (h : ∀ c, InVolume g c → (fatValueOf g w' c = some 0 ↔ fatValueOf g w c = some 0)) :
    freeClusters g w' = freeClusters g w := by
  unfold freeClusters
  rw [Finset.filter_congr fun c hc => h c (Finset.mem_Icc.mp hc)]

/-- One cluster that was free is not any more. -/
theorem freeClusters_taken (w' : World) {x : Nat} (hx : InVolume g x)
    (hfree : fatValueOf g w x = some 0)
    (h : ∀ c, InVolume g c → (fatValueOf g w' c = some 0 ↔ c ≠ x ∧ fatValueOf g w c = some 0)) :
    freeClusters g w' + 1 = freeClusters g w := by
  have hmem : x ∈ (Finset.Icc 2 (g.totalClusters + 1)).filter fun c => fatValueOf g w c = some 0 :=
    Finset.mem_filter.mpr ⟨Finset.mem_Icc.mpr hx, hfree⟩
  have herase : ((Finset.Icc 2 (g.totalClusters + 1)).filter fun c => fatValueOf g w' c = some 0) =
      ((Finset.Icc 2 (g.totalClusters + 1)).filter fun c => fatValueOf g w c = some 0).erase x := by
    ext c
    rw [Finset.mem_erase, Finset.mem_filter, Finset.mem_filter]
    constructor
    · rintro ⟨hc, hzero⟩
      obtain ⟨hne, hzero'⟩ := (h c (Finset.mem_Icc.mp hc)).mp hzero
      exact ⟨hne, hc, hzero'⟩
    · rintro ⟨hne, hc, hzero⟩
      exact ⟨hc, (h c (Finset.mem_Icc.mp hc)).mpr ⟨hne, hzero⟩⟩
  unfold freeClusters
  rw [herase]
  exact Finset.card_erase_add_one hmem

/-- Some clusters that were in use are free. -/
theorem freeClusters_freed {w' : World} {cs : List Nat} (hnodup : cs.Nodup)
    (hin : ∀ x ∈ cs, InVolume g x) (hused : ∀ x ∈ cs, fatValueOf g w x ≠ some 0)
    (h : ∀ c, InVolume g c → (fatValueOf g w' c = some 0 ↔ c ∈ cs ∨ fatValueOf g w c = some 0)) :
    freeClusters g w' = freeClusters g w + cs.length := by
  have hunion : ((Finset.Icc 2 (g.totalClusters + 1)).filter fun c => fatValueOf g w' c = some 0) =
      ((Finset.Icc 2 (g.totalClusters + 1)).filter fun c => fatValueOf g w c = some 0) ∪
        cs.toFinset := by
    ext c
    rw [Finset.mem_union, Finset.mem_filter, Finset.mem_filter, List.mem_toFinset]
    constructor
    · rintro ⟨hc, hzero⟩
      rcases (h c (Finset.mem_Icc.mp hc)).mp hzero with hmem | hzero'
      · exact .inr hmem
      · exact .inl ⟨hc, hzero'⟩
    · rintro (⟨hc, hzero⟩ | hmem)
      · exact ⟨hc, (h c (Finset.mem_Icc.mp hc)).mpr (.inr hzero)⟩
      · exact ⟨Finset.mem_Icc.mpr (hin c hmem), (h c (hin c hmem)).mpr (.inl hmem)⟩
  have hdisjoint : Disjoint
      ((Finset.Icc 2 (g.totalClusters + 1)).filter fun c => fatValueOf g w c = some 0)
      cs.toFinset := by
    rw [Finset.disjoint_left]
    intro c hc hmem
    exact hused c (List.mem_toFinset.mp hmem) (Finset.mem_filter.mp hc).2
  unfold freeClusters
  rw [hunion, Finset.card_union_of_disjoint hdisjoint, List.toFinset_card_of_nodup hnodup]

/-! ### Clearing -/

/-- The entries of some clusters have been cleared, and nothing else in the FAT. -/
structure ClearedEntries (g : MountState) (cs : List Nat) (w w' : World) : Prop where
  blockCount : w'.blockCount = w.blockCount
  free : w'.free = w.free
  values : ∀ x, x < 2 ^ 30 + 2 → fatValueOf g w' x =
    if x ∈ cs then some 0 else fatValueOf g w x
  unreadable : ∀ x, fatValueOf g w x = none → fatValueOf g w' x = none
  fsInfo : HasFsInfo g →
    word w'.disk (fsInfoBlock g * 128 + 122) = word w.disk (fsInfoBlock g * 128 + 122)

theorem ClearedEntries.refl {w' : World} (hsame : SameDisk w w') (hfree : w'.free = w.free) :
    ClearedEntries g [] w w' := by
  refine ⟨hsame.blockCount, hfree, ?_, ?_, ?_⟩
  · intro x _
    rw [if_neg List.not_mem_nil, hsame.fatValueOf]
  · intro x hx
    rw [hsame.fatValueOf, hx]
  · intro _
    rw [hsame.disk]

theorem ClearedEntries.trans {cs cs' : List Nat} {w₁ w₂ : World} (h : ClearedEntries g cs w w₁)
    (h' : ClearedEntries g cs' w₁ w₂) : ClearedEntries g (cs ++ cs') w w₂ := by
  refine ⟨h'.blockCount.trans h.blockCount, h'.free.trans h.free, ?_, ?_, ?_⟩
  · intro x hx
    rw [h'.values x hx, h.values x hx]
    by_cases hmem' : x ∈ cs'
    · rw [if_pos hmem', if_pos (List.mem_append.mpr (.inr hmem'))]
    · rw [if_neg hmem']
      by_cases hmem : x ∈ cs
      · rw [if_pos hmem, if_pos (List.mem_append.mpr (.inl hmem))]
      · rw [if_neg hmem, if_neg]
        rw [List.mem_append]
        exact not_or.mpr ⟨hmem, hmem'⟩
  · exact fun x hx => h'.unreadable x (h.unreadable x hx)
  · exact fun hhas => (h'.fsInfo hhas).trans (h.fsInfo hhas)

section Layout

variable (hbounds : FieldBounds g) (hcopies : CopiesApart g) (hinfo : FsInfoApart g)

include hbounds hcopies hinfo

/-- Writing 0 to the entry of a cluster. -/
theorem clearedEntries_of_written (hdevice : FatOnDevice g w.blockCount) {w' : World} {c : Nat}
    (hdata : isDataCluster c) (hentry : HasEntry g (entryOf c))
    (h : EntryWritten g (entryOf c) 0 w w') : ClearedEntries g [c] w w' := by
  have hself : entryOf c = c := by
    unfold isDataCluster FAT32_END_OF_CHAIN at hdata
    exact Nat.mod_eq_of_lt (by omega)
  have hvalue := fun x => fatValueOf_eq hdevice hbounds.copies hbounds.bytes (w := w) rfl x
  have hvalue' := fun x => fatValueOf_eq hdevice hbounds.copies hbounds.bytes h.blockCount x
  have htwo := hdata.1
  refine ⟨h.blockCount, h.free, ?_, ?_, ?_⟩
  · intro x hx
    rw [hvalue', hvalue]
    by_cases heq : x = c
    · rw [if_pos (List.mem_singleton.mpr heq), heq, if_pos hentry]
      unfold fatTable
      rw [h.entry hbounds.sectorsPerFat hcopies hentry hbounds.copies hentry, if_pos rfl,
        mergeFatValue_mod, Nat.zero_mod]
    · -- clusters `2 ^ 30` and `2 ^ 30 + 1` have the entries 0 and 1
      have hne : entryOf x ≠ entryOf c := by
        rw [hself]
        unfold entryOf
        unfold isDataCluster FAT32_END_OF_CHAIN at hdata
        omega
      rw [if_neg fun hmem => heq (List.mem_singleton.mp hmem)]
      by_cases hentryx : HasEntry g (entryOf x)
      · rw [if_pos hentryx, if_pos hentryx]
        unfold fatTable
        rw [h.entry hbounds.sectorsPerFat hcopies hentry hbounds.copies hentryx, if_neg hne]
      · rw [if_neg hentryx, if_neg hentryx]
  · intro x hx
    rw [hvalue] at hx
    rw [hvalue']
    split at hx
    · cases hx
    · rename_i hnone
      rw [if_neg hnone]
  · intro hhas
    rw [h.words, if_neg]
    rintro ⟨k, hk, hword⟩
    have hs : entryOf c / 128 < g.sectorsPerFat := by
      unfold HasEntry at hentry
      omega
    have hne := copyBlock_ne_fsInfo hbounds hinfo hhas hk hs
    unfold entryWord at hword
    omega

/-- One round of `free_cluster_chain` reads the entry of its cluster and clears it. -/
theorem run_freeChainLoop_succ (hdevice : FatOnDevice g w.blockCount) (hfresh : Fresh g w)
    {c v : Nat} (hdata : isDataCluster c) (hvalue : fatValueOf g w c = some v)
    (rounds freed : Nat) :
    ∃ w', Fresh g w' ∧ ClearedEntries g [c] w w' ∧
      (freeChainLoop g (rounds + 1) c freed).run (deviceHandler g) w =
        (if ¬ isDataCluster v then pure (some ((freed + 1) % 2 ^ 32))
          else freeChainLoop g rounds v ((freed + 1) % 2 ^ 32)).run (deviceHandler g) w' := by
  have hentry : HasEntry g (entryOf c) := by
    by_contra hnone
    rw [fatValueOf_eq hdevice hbounds.copies hbounds.bytes rfl, if_neg hnone] at hvalue
    cases hvalue
  obtain ⟨value, w₁, hread, rfl, hsame, hfresh₁, hfree⟩ := Program.wp_iff_run.mp
    (wp_readFatValue_words hdevice hbounds.copies hbounds.bytes hfresh (c := c)
      (Q := fun value w₁ => value = _ ∧ SameDisk w w₁ ∧ Fresh g w₁ ∧ w₁.free = w.free)
      fun _ hsame hfresh₁ hfree => ⟨rfl, hsame, hfresh₁, hfree⟩)
  rw [← fatValueOf_eq hdevice hbounds.copies hbounds.bytes rfl, hvalue] at hread
  have hdevice₁ : FatOnDevice g w₁.blockCount := hsame.blockCount.symm ▸ hdevice
  obtain ⟨written, w₂, hwrite, rfl, hfresh₂, hwritten⟩ := Program.wp_iff_run.mp
    (wp_writeFatValue_words hdevice₁ hbounds.bytes hbounds.sectorsPerFat hentry 0
      (Q := fun written w₂ => written = true ∧ Fresh g w₂ ∧ EntryWritten g (entryOf c) 0 w₁ w₂)
      fun _ hkeeps hwritten => ⟨rfl, hkeeps hcopies hfresh₁, hwritten⟩)
  refine ⟨w₂, hfresh₂, (ClearedEntries.refl hsame hfree).trans
    (clearedEntries_of_written hbounds hcopies hinfo hdevice₁ hdata hentry hwritten), ?_⟩
  rw [freeChainLoop, Program.run_bind hread]
  dsimp only
  rw [Program.run_bind hwrite]
  rfl

/-- The loop of `free_cluster_chain` clears the clusters of the walk, and counts them when it
comes to an end. -/
theorem freeChainLoop_clears {c : Nat} {cs : List Nat} {last : Option Nat} {rounds freed : Nat}
    (hdevice : FatOnDevice g w.blockCount) (hfresh : Fresh g w)
    (hwalk : LinkWalk (fatValueOf g w) c cs last) (hdata : isDataCluster c) {result : Option Nat}
    {w' : World} (hrun : (freeChainLoop g rounds c freed).run (deviceHandler g) w =
      some (result, w')) : Fresh g w' ∧ ClearedEntries g cs w w' ∧
        result = last.map fun _ => (freed + cs.length) % 2 ^ 32 := by
  induction rounds generalizing c cs freed w with
  | zero => cases hrun
  | succ rounds ih =>
    cases hwalk with
    | unreadable hc =>
      obtain ⟨value, w₁, hread, rfl, hsame, hfresh₁, hfree⟩ := Program.wp_iff_run.mp
        (wp_readFatValue_words hdevice hbounds.copies hbounds.bytes hfresh (c := c)
          (Q := fun value w₁ => value = _ ∧ SameDisk w w₁ ∧ Fresh g w₁ ∧ w₁.free = w.free)
          fun _ hsame hfresh₁ hfree => ⟨rfl, hsame, hfresh₁, hfree⟩)
      rw [← fatValueOf_eq hdevice hbounds.copies hbounds.bytes rfl, hc] at hread
      unfold freeChainLoop at hrun
      rw [Program.run_bind hread] at hrun
      cases hrun
      exact ⟨hfresh₁, ClearedEntries.refl hsame hfree, rfl⟩
    | @last _ v hc hv =>
      obtain ⟨w₂, hfresh₂, hcleared, hround⟩ := run_freeChainLoop_succ hbounds hcopies hinfo
        hdevice hfresh hdata hc rounds freed
      rw [hround, if_pos hv] at hrun
      cases hrun
      exact ⟨hfresh₂, hcleared, rfl⟩
    | @next _ v cs _ hc hv hrest hnew =>
      obtain ⟨w₂, hfresh₂, hcleared, hround⟩ := run_freeChainLoop_succ hbounds hcopies hinfo
        hdevice hfresh hdata hc rounds freed
      rw [hround, if_neg (not_not_intro hv)] at hrun
      -- the rest of the walk is as it was
      have hrest₂ : LinkWalk (fatValueOf g w₂) v cs last := by
        refine LinkWalk_congr hrest ?_ hcleared.unreadable
        intro x hx
        have hxlt := (LinkWalk_data hrest hv x hx).2
        unfold FAT32_END_OF_CHAIN at hxlt
        rw [hcleared.values x (by omega), if_neg]
        intro hmem
        rw [List.mem_singleton.mp hmem] at hx
        exact hnew hx
      obtain ⟨hfresh', hcleared', hresult⟩ :=
        ih (hcleared.blockCount.symm ▸ hdevice) hfresh₂ hrest₂ hv hrun
      refine ⟨hfresh', hcleared.trans hcleared', ?_⟩
      rw [hresult, List.length_cons]
      congr 1
      funext _
      omega

end Layout

/-! ### The counts -/

/-- The counts after `update_fsinfo`. -/
theorem countsAgree_of_written {info : FreeInfo} {w₁ w' : World} (h : FsInfoWritten g info w₁ w')
    (hclusters : g.totalClusters ≤ 2 ^ 30) (hcount : info.freeClusterCount = freeClusters g w') :
    CountsAgree g w' := by
  have hle := freeClusters_le (g := g) w'
  refine ⟨by rw [h.free, hcount], fun hhas => ?_⟩
  rw [h.sector hhas 122 (by decide), (leValue_fsInfoBytes info).2.2.1, hcount,
    Nat.mod_eq_of_lt (by omega)]

/-- What a run of calls keeps. -/
structure Counted (g : MountState) (blockCount : Nat) (w : World) : Prop where
  blockCount : w.blockCount = blockCount
  fresh : Fresh g w
  counts : CountsAgree g w

section Calls

variable {blockCount : Nat} (hbounds : FieldBounds g) (hdevice : RequestsSucceed g blockCount)
  (hclusters : g.totalClusters ≤ 2 ^ 30) (hcopies : CopiesApart g) (hinfo : FsInfoApart g)

include hbounds hdevice hclusters hcopies hinfo

/-- `allocate_cluster` takes one from the count. -/
theorem wp_allocateCluster_counts (h : Counted g blockCount w) :
    (allocateCluster g).wp (deviceHandler g) (fun _ w' => Counted g blockCount w') w := by
  obtain ⟨rfl, hfresh, hmemory, hdisk⟩ := h
  have hsame : ∀ w', SameDisk w w' → Fresh g w' → w'.free = w.free →
      Counted g w.blockCount w' := by
    intro w' hsame hfresh' hfree
    have hzeros : freeClusters g w' = freeClusters g w :=
      freeClusters_congr fun c _ => by rw [hsame.fatValueOf]
    refine ⟨hsame.blockCount, hfresh', ⟨?_, ?_⟩⟩
    · rw [hfree, hzeros, hmemory]
    · intro hhas
      rw [hsame.disk, hzeros, hdisk hhas]
  apply wp_allocateCluster_words hbounds hcopies hinfo (by omega) hdevice hfresh
  · exact fun w' h₁ h₂ h₃ _ => hsame w' h₁ h₂ h₃
  · exact fun _ w' h₁ h₂ h₃ _ _ => hsame w' h₁ h₂ h₃
  · intro x w' hfresh' hx hentry hzero htaken
    have hblocks := htaken.blockCount
    have hfree : fatValueOf g w x = some 0 := by
      rw [fatValueOf_eq hdevice.toFatOnDevice hbounds.copies hbounds.bytes rfl, if_pos hentry,
        hzero]
    have hzeros : freeClusters g w' + 1 = freeClusters g w := by
      apply freeClusters_taken _ hx hfree
      intro c hc
      rw [fatValueOf_eq hdevice.toFatOnDevice hbounds.copies hbounds.bytes hblocks,
        fatValueOf_eq hdevice.toFatOnDevice hbounds.copies hbounds.bytes rfl]
      by_cases hentryc : HasEntry g (entryOf c)
      · rw [if_pos hentryc, if_pos hentryc]
        unfold fatTable
        rw [htaken.entry hbounds hcopies hinfo hentry hbounds.copies hentryc]
        by_cases heq : c = x
        · rw [if_pos (congrArg entryOf heq), mergeFatValue_mod]
          exact iff_of_false (by decide) fun h => h.1 heq
        · rw [if_neg fun hsame => heq (entryOf_inj hclusters hc hx hsame)]
          exact (and_iff_right heq).symm
      · rw [if_neg hentryc, if_neg hentryc]
        exact iff_of_false (by simp) (by simp)
    have hle := freeClusters_le (g := g) w
    obtain ⟨w₁, -, hwritten⟩ := htaken
    refine ⟨hblocks, hfresh', countsAgree_of_written hwritten hclusters ?_⟩
    show takenCount w.free.freeClusterCount = _
    unfold takenCount FAT32_FSINFO_UNKNOWN sub32
    rw [hmemory, if_neg (by omega)]
    omega

/-- `free_cluster_chain` adds what it frees, when it counts that. -/
theorem freeClusterChain_counts (h : Counted g blockCount w) {c rounds : Nat}
    (hcounts : FreesWhatItCounts g w c) {result : Bool} {w' : World}
    (hrun : (freeClusterChain g rounds c).run (deviceHandler g) w = some (result, w')) :
    Counted g blockCount w' := by
  obtain ⟨rfl, hfresh, hmemory, hdisk⟩ := h
  unfold freeClusterChain at hrun
  by_cases hdata : isDataCluster c
  · obtain ⟨cs, last, hwalk, hlast⟩ := hcounts.resolve_left (not_not_intro hdata)
    rw [if_neg (not_not_intro hdata)] at hrun
    obtain ⟨freed, w₁, hloop, hrest⟩ := Program.run_bind_eq_some hrun
    obtain ⟨hfresh₁, hcleared, rfl⟩ := freeChainLoop_clears hbounds hcopies hinfo
      hdevice.toFatOnDevice hfresh hwalk hdata hloop
    have hvalues : ∀ x, InVolume g x →
        (fatValueOf g w₁ x = some 0 ↔ x ∈ cs ∨ fatValueOf g w x = some 0) := by
      intro x hx
      have hmax := hx.2
      rw [hcleared.values x (by omega)]
      by_cases hmem : x ∈ cs
      · rw [if_pos hmem]
        exact iff_of_true rfl (.inl hmem)
      · rw [if_neg hmem]
        exact (or_iff_right hmem).symm
    cases last with
    | none =>
      cases hrest
      have hzeros : freeClusters g w' = freeClusters g w := by
        apply freeClusters_congr
        intro x hx
        rw [hvalues x hx]
        exact or_iff_right fun hmem => hlast x hmem hx
      refine ⟨hcleared.blockCount, hfresh₁, ⟨?_, ?_⟩⟩
      · rw [hcleared.free, hzeros, hmemory]
      · intro hhas
        rw [hcleared.fsInfo hhas, hzeros, hdisk hhas]
    | some v =>
      obtain ⟨hv, hin⟩ := hlast
      have hused := LinkWalk_used hwalk (by simpa using hv)
      have hzeros := freeClusters_freed (LinkWalk_nodup hwalk) hin hused hvalues
      have hle := freeClusters_le (g := g) w₁
      have hdevice₁ : FatOnDevice g w₁.blockCount :=
        hcleared.blockCount.symm ▸ hdevice.toFatOnDevice
      obtain ⟨info, hupdate, hinfoCount⟩ : ∃ info : FreeInfo,
          (updateFsinfo g info).run (deviceHandler g) w₁ = some (result, w') ∧
          info.freeClusterCount = freeClusters g w₁ := by
        refine ⟨_, hrest, ?_⟩
        show (if w₁.free.freeClusterCount = FAT32_FSINFO_UNKNOWN then FAT32_FSINFO_UNKNOWN
          else (w₁.free.freeClusterCount + (0 + cs.length) % 2 ^ 32) % 2 ^ 32) = _
        unfold FAT32_FSINFO_UNKNOWN
        rw [hcleared.free, hmemory, if_neg (by omega), hzeros]
        omega
      obtain ⟨updated, w₂, hrun₂, hwritten, hcache⟩ := Program.wp_iff_run.mp
        (wp_updateFsinfo_words (w := w₁) info
          (Q := fun _ w₂ => FsInfoWritten g info w₁ w₂ ∧ w₂.cache = w₁.cache)
          (fun hhas hblock => by
            have hlt := hdevice.fsInfo hhas
            rw [hcleared.blockCount] at hblock
            omega)
          fun _ hwritten hcache => ⟨hwritten, hcache⟩)
      cases hupdate.symm.trans hrun₂
      have hzeros' : freeClusters g w' = freeClusters g w₁ := by
        apply freeClusters_congr
        intro x _
        rw [fatValueOf_eq hdevice₁ hbounds.copies hbounds.bytes hwritten.blockCount,
          fatValueOf_eq hdevice₁ hbounds.copies hbounds.bytes rfl]
        by_cases hentry : HasEntry g (entryOf x)
        · rw [if_pos hentry, if_pos hentry]
          unfold fatTable
          rw [hwritten.entry hbounds hinfo hbounds.copies hentry]
        · rw [if_neg hentry, if_neg hentry]
      exact ⟨hwritten.blockCount.trans hcleared.blockCount,
        hwritten.fresh hbounds hinfo hdevice₁ hcache hfresh₁,
        countsAgree_of_written hwritten hclusters (hinfoCount.trans hzeros'.symm)⟩
  · rw [if_pos hdata] at hrun
    cases hrun
    exact ⟨rfl, hfresh, hmemory, hdisk⟩

end Calls

end Rules

/-- On a device whose requests succeed and a volume whose FATs and FSInfo sector do not overlap,
the free cluster counts in memory and on the disk stay the number of free clusters in every run
of `allocate_cluster` and `free_cluster_chain` calls of which the latter count what they free. -/
theorem free_count_kept {g : MountState} (hprobed : Probed g) {blockCount : Nat}
    (hdevice : RequestsSucceed g blockCount) (hclusters : g.totalClusters ≤ 2 ^ 30)
    (hcopies : CopiesApart g) (hinfo : FsInfoApart g) {w : World}
    (hreach : ((clusterSystem g blockCount).restrict fun w call => call.Counts g w).Reachable w) :
    CountsAgree g w := by
  have hbounds := fieldBounds_of_probed hprobed
  -- The invariant also says that the device stays as large and the cache coherent.
  have hcounted : Counted g blockCount w := by
    refine TransitionSystem.Reachable.invariant ?_ ?_ hreach
    · rintro w ⟨hblocks, hfresh, hcounts⟩
      exact ⟨hblocks, hfresh, hcounts⟩
    · rintro w call w' - hw ⟨hok, hstep⟩
      cases call with
      | allocate =>
        obtain ⟨result, hrun⟩ := hstep
        obtain ⟨result', w₁, hrun', hw₁⟩ := Program.wp_iff_run.mp
          (wp_allocateCluster_counts hbounds hdevice hclusters hcopies hinfo hw)
        cases hrun.symm.trans hrun'
        exact hw₁
      | free c =>
        obtain ⟨rounds, result, hrun⟩ := hstep
        exact freeClusterChain_counts hbounds hdevice hclusters hcopies hinfo hw hok hrun
  exact hcounted.counts

/-- A boot sector: two reserved sectors with the FSInfo sector in the second one, one FAT of 512
sectors, and 65525 clusters of one sector. -/
def countedSector : Buffer := fun i =>
  if i = 12 ∨ i = 14 ∨ i = 37 ∨ i = 44 then 2
  else if i = 13 ∨ i = 16 ∨ i = 33 ∨ i = 34 ∨ i = 48 then 1
  else if i = 32 then 0xF7
  else if i = 66 then 0x29
  else if i = 510 then 0x55
  else if i = 511 then 0xAA
  else 0

/-- The volume with this boot sector. -/
def countedVolume : MountState := (BootSector.ofBytes countedSector).mount true 0 true

/-- The state after a mount, with a count in the FSInfo sector, and a FAT that is empty but for
the entry of cluster 3. -/
def countedWorld (count : Nat) (entry : UInt8) : World :=
  fsInfoWorld 66039 countedSector ⟨count, 2⟩ fun i => if i = 1036 then entry else 0

theorem probed_countedVolume : Probed countedVolume := by
  refine ⟨66039, _, true, 0, _, mounts_fsInfoWorld ⟨65525, 2⟩ (fun _ => 0)
    (by decide) (by decide) (by decide) (by decide) (by decide) ?_⟩
  intro i hi
  unfold countedSector
  simp only [show i ≠ 12 ∧ i ≠ 14 ∧ i ≠ 37 ∧ i ≠ 44 ∧ i ≠ 13 ∧ i ≠ 16 ∧ i ≠ 33 ∧ i ≠ 34 ∧ i ≠ 48 ∧
    i ≠ 32 ∧ i ≠ 66 ∧ i ≠ 510 ∧ i ≠ 511 by omega, or_self, if_false]

theorem fields_countedVolume : countedVolume.partitionStartLba = 0 ∧
    countedVolume.reservedSectorCount = 2 ∧ countedVolume.fatCount = 1 ∧
    countedVolume.sectorsPerFat = 512 ∧ countedVolume.fsInfoSector = 1 ∧
    countedVolume.totalClusters = 65525 := by decide

theorem requestsSucceed_countedVolume : RequestsSucceed countedVolume 66039 :=
  requestsSucceed_of_le (by rw [U64_eq]; decide) (by decide) (by decide)

theorem copiesApart_countedVolume : CopiesApart countedVolume :=
  copiesApart_of_lt (by decide) (by decide)

theorem fsInfoApart_countedVolume : FsInfoApart countedVolume := by
  obtain ⟨-, hreserved, -, -, hfsInfo, -⟩ := fields_countedVolume
  intro _ k _
  rw [hreserved, hfsInfo]
  omega

theorem fresh_countedWorld (count : Nat) (entry : UInt8) :
    Fresh countedVolume (countedWorld count entry) := fun hvalid => by cases hvalid

/-- The FAT values of that state. -/
theorem fatValueOf_countedWorld (count : Nat) (entry : UInt8) {c : Nat}
    (hc : InVolume countedVolume c) : fatValueOf countedVolume (countedWorld count entry) c =
      some (if c = 3 then entry.toNat else 0) := by
  obtain ⟨hstart, hreserved, -, hsectors, -, hclusters⟩ := fields_countedVolume
  obtain ⟨hlow, hhigh⟩ := hc
  rw [hclusters] at hhigh
  have hbounds := fieldBounds_of_probed probed_countedVolume
  have hself : entryOf c = c := Nat.mod_eq_of_lt (by omega)
  have hentry : HasEntry countedVolume (entryOf c) := by
    unfold HasEntry
    rw [hself, hsectors]
    omega
  have hword : entryWord countedVolume 0 c = 256 + c := by
    unfold entryWord copyBlock
    rw [hstart, hreserved, U64_eq]
    omega
  have hbyte : ∀ i, 1024 ≤ i →
      (countedWorld count entry).disk i = if i = 1036 then entry else 0 := by
    intro i hi
    exact (if_neg (by omega)).trans (if_neg (by omega))
  rw [fatValueOf_eq requestsSucceed_countedVolume.toFatOnDevice hbounds.copies hbounds.bytes rfl,
    if_pos hentry]
  unfold fatTable
  rw [hself, hword]
  congr 1
  have hlt := entry.toNat_lt
  have hvalue : word (countedWorld count entry).disk (256 + c) =
      if c = 3 then entry.toNat else 0 := by
    unfold word
    rw [leValue, leValue, leValue, leValue, leValue, hbyte _ (by omega), hbyte _ (by omega),
      hbyte _ (by omega), hbyte _ (by omega)]
    by_cases heq : c = 3
    · subst heq
      rfl
    · rw [if_neg heq, if_neg (by omega), if_neg (by omega), if_neg (by omega), if_neg (by omega)]
      rfl
  rw [hvalue]
  split
  · exact Nat.mod_eq_of_lt (by omega)
  · rfl

theorem freeClusters_countedWorld (count : Nat) {entry : UInt8} (hentry : entry.toNat ≠ 0) :
    freeClusters countedVolume (countedWorld count entry) = 65524 := by
  have hall : freeClusters countedVolume (countedWorld count 0) = 65525 := by
    have hfilter : ((Finset.Icc 2 (countedVolume.totalClusters + 1)).filter fun c =>
        fatValueOf countedVolume (countedWorld count 0) c = some 0) =
        Finset.Icc 2 (countedVolume.totalClusters + 1) := by
      apply Finset.filter_true_of_mem
      intro c hc
      rw [fatValueOf_countedWorld count 0 (Finset.mem_Icc.mp hc)]
      split <;> rfl
    unfold freeClusters
    rw [hfilter, Nat.card_Icc]
    decide
  have htaken := freeClusters_taken (g := countedVolume) (w := countedWorld count 0)
    (countedWorld count entry) (x := 3) (by decide)
    (fatValueOf_countedWorld count 0 (by decide)) fun c hc => by
      rw [fatValueOf_countedWorld count entry hc, fatValueOf_countedWorld count 0 hc]
      by_cases heq : c = 3
      · rw [if_pos heq]
        exact iff_of_false (fun h => hentry (Option.some.inj h)) fun h => h.1 heq
      · rw [if_neg heq, if_neg heq]
        exact iff_of_true rfl ⟨heq, rfl⟩
  omega

/-- The counts of a mount agree when the count on the disk is right. -/
theorem countsAgree_countedWorld (count : Nat) (entry : UInt8) (hlt : count < 2 ^ 32)
    (hcount : freeClusters countedVolume (countedWorld count entry) = count) :
    CountsAgree countedVolume (countedWorld count entry) := by
  refine ⟨hcount.symm, fun _ => ?_⟩
  have hblock : fsInfoBlock countedVolume = 1 := by with_unfolding_all decide
  rw [hblock, hcount]
  refine Eq.trans (leValue_congr fun i hi => ?_)
    ((leValue_fsInfoBytes ⟨count, 2⟩).2.2.1.trans (Nat.mod_eq_of_lt hlt))
  refine (if_neg (by omega)).trans ((if_pos (by omega)).trans ?_)
  exact congrArg (fsInfoBytes ⟨count, 2⟩) (by omega)

/-- Cluster 3 is a chain of its own. It is freed, and then a cluster is allocated. -/
theorem free_count_kept_freed : ∃ w₁ w₂,
    (clusterSystem countedVolume 66039).step (countedWorld 65524 1) (.free 3) w₁ ∧
      (clusterSystem countedVolume 66039).step w₁ .allocate w₂ ∧
      CountsAgree countedVolume w₁ ∧ CountsAgree countedVolume w₂ := by
  have hbounds := fieldBounds_of_probed probed_countedVolume
  have hcounts := countsAgree_countedWorld 65524 1 (by decide)
    (freeClusters_countedWorld 65524 (by decide))
  obtain ⟨result₁, w₁, ⟨rounds, hfree⟩, -⟩ := freeClusterChain_settles (g := countedVolume)
    (w := countedWorld 65524 1) hbounds.bytes hbounds.copies requestsSucceed_countedVolume.wide 3
  obtain ⟨result₂, w₂, hallocate, -⟩ := Program.wp_iff_run.mp
    ((always_allocateCluster (g := countedVolume) (by decide)).wp
      (h := deviceHandler countedVolume) w₁)
  have hwalk : FreesWhatItCounts countedVolume (countedWorld 65524 1) 3 := by
    refine Or.inr ⟨[3], some 1, ?_, by decide, fun x hx => ?_⟩
    · exact .last (fatValueOf_countedWorld 65524 1 (by decide)) (by decide)
    · rw [List.mem_singleton.mp hx]
      decide
  have hfreed : ((clusterSystem countedVolume 66039).restrict
      fun w call => call.Counts countedVolume w).Reachable w₁ :=
    .step (l := .free 3) (.init ⟨rfl, fresh_countedWorld 65524 1, hcounts⟩)
      ⟨hwalk, rounds, result₁, hfree rounds (Nat.le_refl _)⟩
  have hkept : ∀ w, _ → CountsAgree countedVolume w := fun w =>
    free_count_kept probed_countedVolume requestsSucceed_countedVolume (by decide)
      copiesApart_countedVolume fsInfoApart_countedVolume
  exact ⟨w₁, w₂, ⟨rounds, result₁, hfree rounds (Nat.le_refl _)⟩, ⟨result₂, hallocate⟩,
    hkept w₁ hfreed, hkept w₂ (.step (l := .allocate) hfreed ⟨trivial, result₂, hallocate⟩)⟩

/-- The chain of cluster 3 is a cycle of one cluster. `free_cluster_chain` clears its entry, comes
to it again, and has counted it twice. -/
theorem free_counts_cycle_twice :
    (clusterSystem countedVolume 66039).init (countedWorld 65524 3) ∧
      ∃ w', (clusterSystem countedVolume 66039).step (countedWorld 65524 3) (.free 3) w' ∧
        w'.free.freeClusterCount = 65526 ∧ freeClusters countedVolume w' ≤ 65525 ∧
        ¬ CountsAgree countedVolume w' := by
  have hbounds := fieldBounds_of_probed probed_countedVolume
  have hdevice := requestsSucceed_countedVolume
  have hcopies := copiesApart_countedVolume
  have hinfo := fsInfoApart_countedVolume
  have hcounts := countsAgree_countedWorld 65524 3 (by decide)
    (freeClusters_countedWorld 65524 (by decide))
  refine ⟨⟨rfl, fresh_countedWorld 65524 3, hcounts⟩, ?_⟩
  obtain ⟨w₁, hfresh₁, hcleared₁, hround₁⟩ := run_freeChainLoop_succ hbounds hcopies hinfo
    (w := countedWorld 65524 3) hdevice.toFatOnDevice (fresh_countedWorld 65524 3) (c := 3) (v := 3)
    (by decide) (fatValueOf_countedWorld 65524 3 (by decide)) 1 0
  have hdevice₁ : RequestsSucceed countedVolume w₁.blockCount :=
    hcleared₁.blockCount.symm ▸ hdevice
  obtain ⟨w₂, -, hcleared₂, hround₂⟩ := run_freeChainLoop_succ hbounds hcopies hinfo
    hdevice₁.toFatOnDevice hfresh₁ (c := 3) (v := 0) (by decide)
    (hcleared₁.values 3 (by decide)) 0 1
  have hloop : (freeChainLoop countedVolume 2 3 0).run (deviceHandler countedVolume)
      (countedWorld 65524 3) = some (some 2, w₂) := by
    rw [hround₁, if_neg (by decide)]
    exact hround₂
  have hfree : w₂.free = ⟨65524, 2⟩ := hcleared₂.free.trans hcleared₁.free
  have hblocks : w₂.blockCount = 66039 := hcleared₂.blockCount.trans hcleared₁.blockCount
  obtain ⟨updated, w', hupdate, hwritten⟩ := Program.wp_iff_run.mp
    (wp_updateFsinfo_words (g := countedVolume) (w := w₂) ⟨65526, 2⟩
      (Q := fun _ w' => FsInfoWritten countedVolume ⟨65526, 2⟩ w₂ w')
      (fun hhas hblock => by
        have hlt := hdevice.fsInfo hhas
        rw [hblocks] at hblock
        omega)
      fun _ hwritten _ => hwritten)
  have hrun : (freeClusterChain countedVolume 2 3).run (deviceHandler countedVolume)
      (countedWorld 65524 3) = some (updated, w') := by
    unfold freeClusterChain
    rw [if_neg (by decide), Program.run_bind hloop]
    show (updateFsinfo countedVolume _).run _ w₂ = _
    rw [show (deviceHandler countedVolume Request.freeInfo w₂).1 = ⟨65524, 2⟩ from hfree]
    exact hupdate
  have hle := freeClusters_le (g := countedVolume) w'
  have hmemory : w'.free.freeClusterCount = 65526 := by rw [hwritten.free]
  rw [fields_countedVolume.2.2.2.2.2] at hle
  refine ⟨w', ⟨2, updated, hrun⟩, hmemory, hle, fun hagree => ?_⟩
  have hequal := hagree.memory
  omega

end VKernel.Proofs.Fs

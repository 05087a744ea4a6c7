import VKernel.Proofs.Fs.Fat32.VolumeView

/-!
# `VKernel.Proofs.Fs.Fat32.Clusters`: allocating, freeing and zeroing clusters

The rules for the functions that change the FAT. `allocate_cluster` marks a free cluster, and
fails only when there is none; `free_cluster_chain` clears the FAT values of a chain, and
nothing else; `zero_cluster` clears the bytes of a cluster.
-/

set_option autoImplicit false

namespace VKernel.Proofs.Fs

open VKernel.Lib VKernel.Fs VKernel.Fs.Fat32

theorem linkOf_free {value : Nat} : linkOf value = .free ↔ value = 0 := by
  unfold linkOf
  constructor
  · intro h
    by_contra hne
    rw [if_neg hne] at h
    split at h
    · cases h
    split at h <;> cases h
  · intro h
    rw [if_pos h]

theorem linkOf_last {value : Nat} : linkOf value = .last ↔ FAT32_END_OF_CHAIN ≤ value := by
  unfold linkOf FAT32_END_OF_CHAIN
  constructor
  · intro h
    by_contra hlt
    split at h
    · cases h
    split at h <;> cases h
  · intro h
    rw [if_neg (by omega), if_pos h]

theorem linkOf_next {value c : Nat} (h : linkOf value = .next c) :
    value = c ∧ value ≠ 0 ∧ value < FAT32_END_OF_CHAIN ∧ value ≠ BAD_CLUSTER := by
  unfold linkOf at h
  split at h
  · cases h
  split at h
  · cases h
  split at h
  · cases h
  · rename_i h0 hend hbad
    cases h
    exact ⟨rfl, h0, by omega, hbad⟩

/-- A cluster of the volume as a FAT value is a link to it. -/
theorem linkOf_cluster {g : MountState} {blockCount c : Nat} (h : ValidMount g blockCount)
    (hc : InVolume g c) : linkOf c = .next c := by
  have h2 := hc.1
  have hmax := hc.2
  have hclusters := h.clusters
  unfold linkOf FAT32_END_OF_CHAIN BAD_CLUSTER
  rw [if_neg (by omega), if_neg (by omega), if_neg (by omega)]

theorem isDataCluster_of_inVolume {g : MountState} {blockCount c : Nat}
    (h : ValidMount g blockCount) (hc : InVolume g c) : isDataCluster c := by
  have h2 := hc.1
  have hmax := hc.2
  have hclusters := h.clusters
  unfold isDataCluster FAT32_END_OF_CHAIN
  omega

@[simp] theorem setFat_fat (v : View) (c value : Nat) :
    (v.setFat c value).fat = Function.update v.fat c value := rfl

/-- Setting a FAT value sets a link. -/
theorem setFat_link (v : View) (c value : Nat) :
    (v.setFat c value).link = Function.update v.link c (linkOf value) := by
  funext x
  unfold View.link
  rw [setFat_fat]
  by_cases hx : x = c
  · subst hx
    rw [Function.update_self, Function.update_self]
  · rw [Function.update_of_ne hx, Function.update_of_ne hx]

theorem clear_nil (v : View) : v.clear [] = v := rfl

theorem setFat_clear (v : View) (c : Nat) (cs : List Nat) :
    (v.setFat c 0).clear cs = v.clear (c :: cs) := by
  unfold View.clear
  congr 1
  funext x
  rw [setFat_fat]
  by_cases hx : x ∈ cs
  · rw [if_pos hx, if_pos (List.mem_cons_of_mem _ hx)]
  · rw [if_neg hx]
    by_cases hxc : x = c
    · subst hxc
      rw [Function.update_self, if_pos List.mem_cons_self]
    · rw [Function.update_of_ne hxc, if_neg (by simp [hxc, hx])]

section Rules

variable {g : MountState} {w : World}

/-! ### Allocation -/

/-- A pass of `allocate_cluster` over the clusters from `c` on. -/
theorem wp_searchCluster {rounds c : Nat} (hw : Good g w) (h2 : 2 ≤ c)
    (hrounds : g.totalClusters + 2 - c < rounds) {Q : ClusterSearch → World → Prop}
    (hnone : ∀ w', Good g w' → viewOf g w' = viewOf g w →
      (∀ x, c ≤ x → x ≤ g.totalClusters + 1 → (viewOf g w).fat x ≠ 0) → Q .exhausted w')
    (hfound : ∀ x w', Good g w' → InVolume g x → (viewOf g w).fat x = 0 →
      viewOf g w' = (viewOf g w).setFat x FAT32_END_OF_CHAIN → Q (.found x) w') :
    (searchCluster g (g.totalClusters + 1) rounds c).wp (deviceHandler g) Q w := by
  induction rounds generalizing c w with
  | zero => omega
  | succ rounds ih =>
    have hclusters := hw.mount.clusters
    by_cases hend : g.totalClusters + 1 < c
    · rw [searchCluster_exhausted g rounds hend]
      apply hnone w hw rfl
      intro x hle hlt
      omega
    have hcle : c ≤ g.totalClusters + 1 := Nat.le_of_not_lt hend
    rw [searchCluster_round g rounds (by omega) hcle, Program.wp_bind]
    apply wp_readFatValue hw hcle
    intro w₁ hw₁ hview₁ _
    show Program.wp _ (if (viewOf g w).fat c ≠ 0 then _ else _) _ w₁
    by_cases hfree : (viewOf g w).fat c = 0
    · rw [if_neg (not_not.mpr hfree), Program.wp_bind]
      apply wp_writeFatValue hw₁ hcle
      intro w₂ hw₂ hview₂ _
      show Program.wp _ (getFreeInfo >>= _) _ w₂
      rw [Program.wp_bind]
      show Program.wp _ (updateFsinfo g _ >>= _) _ w₂
      rw [Program.wp_bind]
      apply wp_updateFsinfo hw₂
      intro w₃ hw₃ hview₃ _
      apply hfound c w₃ hw₃ ⟨h2, hcle⟩ hfree
      rw [hview₃, hview₂, hview₁]
      rfl
    · rw [if_pos hfree]
      apply ih hw₁ (by omega) (by omega)
      · intro w' hw' hview' hall
        apply hnone w' hw' (hview'.trans hview₁)
        intro x hle hlt
        by_cases hx : x = c
        · rwa [hx]
        · rw [← hview₁]
          exact hall x (by omega) (by omega)
      · intro x w' hw' hx hzero hview'
        apply hfound x w' hw' hx
        · rwa [← hview₁]
        · rw [hview', hview₁]

/-- `allocate_cluster` marks a free cluster as the end of a chain. It fails only when no
cluster is free. -/
theorem wp_allocateCluster (hw : Good g w) {Q : Option Nat → World → Prop}
    (hnone : ∀ w', Good g w' → viewOf g w' = viewOf g w →
      (∀ x, InVolume g x → (viewOf g w).fat x ≠ 0) → Q none w')
    (hsome : ∀ c w', Good g w' → InVolume g c → (viewOf g w).fat c = 0 →
      viewOf g w' = (viewOf g w).setFat c FAT32_END_OF_CHAIN → Q (some c) w') :
    (allocateCluster g).wp (deviceHandler g) Q w := by
  have hclusters := hw.mount.clusters
  unfold allocateCluster
  rw [Nat.mod_eq_of_lt (show g.totalClusters + 1 < 2 ^ 32 by omega)]
  dsimp only
  rw [Program.wp_bind]
  show Program.wp _ (searchCluster g (g.totalClusters + 1) SEARCH_ROUNDS
    (startCluster (g.totalClusters + 1) w.free.nextFreeClusterHint) >>= _) _ w
  generalize hstart : startCluster (g.totalClusters + 1) w.free.nextFreeClusterHint = start
  have h2 : 2 ≤ start := by
    rw [← hstart]
    unfold startCluster
    split <;> omega
  have hrounds : 2 ^ 32 ≤ SEARCH_ROUNDS := by decide
  rw [Program.wp_bind]
  apply wp_searchCluster hw h2 (by omega)
  · intro w₁ hw₁ hview₁ _
    show Program.wp _ (searchCluster g _ _ 2 >>= _) _ w₁
    rw [Program.wp_bind]
    apply wp_searchCluster hw₁ (Nat.le_refl 2) (by omega)
    · intro w₂ hw₂ hview₂ hall
      apply hnone w₂ hw₂ (hview₂.trans hview₁)
      intro x hx
      rw [← hview₁]
      exact hall x hx.1 hx.2
    · intro x w₂ hw₂ hx hzero hview₂
      apply hsome x w₂ hw₂ hx
      · rwa [← hview₁]
      · rw [hview₂, hview₁]
  · intro x w₁ hw₁ hx hzero hview₁
    exact hsome x w₁ hw₁ hx hzero hview₁

/-! ### Freeing -/

/-- The loop of `free_cluster_chain` clears the chain. -/
theorem wp_freeChainLoop {cs : List Nat} (rounds : Nat) {c freed : Nat} (hw : Good g w)
    (hchain : Chain (viewOf g w).link c cs) (hin : ∀ x ∈ cs, InVolume g x)
    (hrounds : cs.length ≤ rounds) {Q : Option Nat → World → Prop}
    (hQ : ∀ n w', Good g w' → viewOf g w' = (viewOf g w).clear cs → Q (some n) w') :
    (freeChainLoop g rounds c freed).wp (deviceHandler g) Q w := by
  induction rounds generalizing cs c freed w with
  | zero =>
    have hpos := List.length_pos_of_ne_nil hchain.ne_nil
    omega
  | succ rounds ih =>
    have hc := hin c hchain.head_mem
    unfold freeChainLoop
    rw [Program.wp_bind]
    apply wp_readFatValue hw hc.2
    intro w₁ hw₁ hview₁ _
    show Program.wp _ (writeFatValue g c 0 >>= _) _ w₁
    rw [Program.wp_bind]
    apply wp_writeFatValue hw₁ hc.2
    intro w₂ hw₂ hview₂ _
    rw [hview₁] at hview₂
    show Program.wp _ (if ¬ isDataCluster ((viewOf g w).fat c) then _ else _) _ w₂
    cases hchain with
    | last hlast =>
      have hend : FAT32_END_OF_CHAIN ≤ (viewOf g w).fat c := linkOf_last.mp hlast
      rw [if_pos (show ¬ isDataCluster ((viewOf g w).fat c) from fun h => by
        have := h.2
        omega)]
      apply hQ _ w₂ hw₂
      rw [hview₂]
      exact (setFat_clear _ c [])
    | @cons _ next rest hnext hrest =>
      obtain ⟨hval, -, -, -⟩ := linkOf_next hnext
      have hnextIn := hin next (List.mem_cons_of_mem _ hrest.head_mem)
      rw [hval, if_neg (not_not.mpr (isDataCluster_of_inVolume hw.mount hnextIn))]
      have hnodup := List.nodup_cons.mp (Chain.cons hnext hrest).nodup
      apply ih hw₂
      · rw [hview₂, setFat_link]
        refine hrest.congr ?_
        intro x hx
        apply Function.update_of_ne
        rintro rfl
        exact hnodup.1 hx
      · intro x hx
        exact hin x (List.mem_cons_of_mem _ hx)
      · rw [List.length_cons] at hrounds
        omega
      · intro n w' hw' hview'
        apply hQ n w' hw'
        rw [hview', hview₂]
        exact setFat_clear _ c rest

/-- `free_cluster_chain` clears the chain. -/
theorem wp_freeClusterChain {cs : List Nat} {rounds c : Nat} (hw : Good g w)
    (hchain : Chain (viewOf g w).link c cs) (hin : ∀ x ∈ cs, InVolume g x)
    (hrounds : cs.length ≤ rounds) {Q : Bool → World → Prop}
    (hQ : ∀ w', Good g w' → viewOf g w' = (viewOf g w).clear cs → Q true w') :
    (freeClusterChain g rounds c).wp (deviceHandler g) Q w := by
  have hdata := isDataCluster_of_inVolume hw.mount (hin c hchain.head_mem)
  unfold freeClusterChain
  rw [if_neg (not_not.mpr hdata), Program.wp_bind]
  apply wp_freeChainLoop rounds hw hchain hin hrounds
  intro n w₁ hw₁ hview₁
  show Program.wp _ (getFreeInfo >>= _) _ w₁
  rw [Program.wp_bind]
  apply wp_updateFsinfo hw₁
  intro w₂ hw₂ hview₂ _
  exact hQ w₂ hw₂ (hview₂.trans hview₁)

/-! ### Zeroing -/

/-- Only the first `n` bytes of the data are written. -/
theorem setBytes_congr {v : View} {c start n : Nat} {data data' : Buffer}
    (h : ∀ i < n, data i = data' i) : v.setBytes c start n data = v.setBytes c start n data' := by
  unfold View.setBytes
  congr 1
  funext c' o
  by_cases hin : c' = c ∧ start ≤ o ∧ o < start + n
  · rw [if_pos hin, if_pos hin, h _ (by omega)]
  · rw [if_neg hin, if_neg hin]

theorem setBytes_zero (v : View) (c start : Nat) (data : Buffer) :
    v.setBytes c start 0 data = v := by
  unfold View.setBytes
  have hempty : ∀ c' o, (if c' = c ∧ start ≤ o ∧ o < start + 0 then data (o - start)
      else v.byte c' o) = v.byte c' o := fun c' o => if_neg (by omega)
  simp only [hempty]

/-- Two neighbouring parts of a cluster. -/
theorem setBytes_setBytes (v : View) (c start m n : Nat) (data : Buffer) :
    (v.setBytes c start m data).setBytes c (start + m) n (fun i => data (m + i)) =
      v.setBytes c start (m + n) data := by
  unfold View.setBytes
  congr 1
  funext c' o
  dsimp only
  by_cases hc : c' = c
  · by_cases h1 : start + m ≤ o ∧ o < start + m + n
    · rw [if_pos ⟨hc, h1⟩, if_pos ⟨hc, by omega, by omega⟩]
      exact congrArg data (by omega)
    · rw [if_neg fun h => h1 h.2]
      by_cases h2 : start ≤ o ∧ o < start + m
      · rw [if_pos ⟨hc, h2⟩, if_pos ⟨hc, by omega, by omega⟩]
      · rw [if_neg fun h => h2 h.2, if_neg fun h => by omega]
  · rw [if_neg fun h => hc h.1, if_neg fun h => hc h.1, if_neg fun h => hc h.1]

/-- The loop of `zero_cluster`. -/
theorem wp_zeroSectors (sectors : Nat) {c : Nat} (hw : Good g w) (hc : InVolume g c)
    (hs : sectors ≤ g.sectorsPerCluster) {Q : Bool → World → Prop}
    (hQ : ∀ w', Good g w' → viewOf g w' = (viewOf g w).setBytes c
      (512 * (g.sectorsPerCluster - sectors)) (512 * sectors) (fun _ => 0) → Q true w') :
    (zeroSectors g c sectors).wp (deviceHandler g) Q w := by
  induction sectors generalizing w with
  | zero =>
    apply hQ w hw
    rw [Nat.mul_zero, setBytes_zero]
  | succ sectors ih =>
    unfold zeroSectors
    rw [Program.wp_bind]
    apply wp_writeSector hw hc (by omega)
    intro w₁ hw₁ hview₁ _
    apply ih hw₁ (by omega)
    intro w' hw' hview'
    apply hQ w' hw'
    rw [hview', hview₁,
      show 512 * (g.sectorsPerCluster - sectors) =
        512 * (g.sectorsPerCluster - (sectors + 1)) + 512 by omega,
      show 512 * (sectors + 1) = 512 + 512 * sectors by omega]
    exact setBytes_setBytes _ c _ _ _ _

/-- `zero_cluster` clears the cluster. -/
theorem wp_zeroCluster {c : Nat} (hw : Good g w) (hc : InVolume g c) {Q : Bool → World → Prop}
    (hQ : ∀ w', Good g w' → viewOf g w' = (viewOf g w).setBytes c 0
      (512 * g.sectorsPerCluster) (fun _ => 0) → Q true w') :
    (zeroCluster g c).wp (deviceHandler g) Q w := by
  apply wp_zeroSectors _ hw hc (Nat.le_refl _)
  intro w' hw' hview'
  apply hQ w' hw'
  rwa [Nat.sub_self, Nat.mul_zero] at hview'

/-- `append_directory_cluster`: a free cluster is marked, cleared, and linked to. It fails
only when no cluster is free. -/
theorem wp_appendDirectoryCluster {rounds last : Nat} (hw : Good g w) (hlast : InVolume g last)
    {Q : Option Nat → World → Prop}
    (hnone : ∀ w', Good g w' → viewOf g w' = viewOf g w → Q none w')
    (hsome : ∀ c w', Good g w' → InVolume g c → (viewOf g w).fat c = 0 →
      viewOf g w' = (((viewOf g w).setFat c FAT32_END_OF_CHAIN).setBytes c 0
        (512 * g.sectorsPerCluster) fun _ => 0).setFat last c → Q (some c) w') :
    (appendDirectoryCluster g rounds last).wp (deviceHandler g) Q w := by
  unfold appendDirectoryCluster
  rw [Program.wp_bind]
  apply wp_allocateCluster hw
  · intro w₁ hw₁ hview₁ _
    exact hnone w₁ hw₁ hview₁
  · intro c w₁ hw₁ hc hzero hview₁
    show Program.wp _ (zeroCluster g c >>= _) _ w₁
    rw [Program.wp_bind]
    apply wp_zeroCluster hw₁ hc
    intro w₂ hw₂ hview₂
    show Program.wp _ (writeFatValue g last c >>= _) _ w₂
    rw [Program.wp_bind]
    apply wp_writeFatValue hw₂ hlast.2
    intro w₃ hw₃ hview₃ _
    have hmod : c % 2 ^ 28 = c := Nat.mod_eq_of_lt (hw.mount.lt_two_pow hc.2)
    apply hsome c w₃ hw₃ hc hzero
    rw [hview₃, hview₂, hview₁, hmod]

end Rules

end VKernel.Proofs.Fs

import Mathlib.Data.List.Perm.Subperm
import VKernel.Fs.Fat32.Files
import VKernel.Proofs.Fs.Fat32.Clusters

/-!
# `VKernel.Proofs.Fs.Fat32.FileData`: storing the content of a file

`write_file_data` takes free clusters, links them one after the other and fills them.
`wp_writeFileData` says what the volume is afterwards: when it succeeds, a chain of clusters
that were free holds the data (`Stored`), and nothing else has changed; when the clusters run
out, the FAT is what it was, and only clusters that are free have other bytes (`SameUsed`).
-/

set_option autoImplicit false

namespace VKernel.Proofs.Fs

open VKernel.Lib VKernel.Fs VKernel.Fs.Fat32

/-- The bytes of a cluster. -/
def clusterBytes (g : MountState) : Nat := 512 * g.sectorsPerCluster

/-- Byte `k` of a file whose content lies in the clusters `cs`. -/
def fileByte (g : MountState) (v : View) (cs : List Nat) (k : Nat) : UInt8 :=
  v.byte (cs.getD (k / clusterBytes g) 0) (k % clusterBytes g)

/-- The volume differs from `v` only in the clusters `cs`, and these were free. -/
structure OnlyFree (g : MountState) (v v' : View) (cs : List Nat) : Prop where
  free : ∀ c ∈ cs, InVolume g c ∧ v.fat c = 0
  fat : ∀ c ∉ cs, v'.fat c = v.fat c
  byte : ∀ c ∉ cs, v'.byte c = v.byte c

/-- The volume has the same FAT as `v`, and the clusters in use have the same bytes. -/
structure SameUsed (v v' : View) : Prop where
  fat : v'.fat = v.fat
  byte : ∀ c, v.fat c ≠ 0 → v'.byte c = v.byte c

/-- Clusters that were free hold the chain from `head` on, with the data in them. -/
structure Stored (g : MountState) (v v' : View) (head : Nat) (cs : List Nat) (data : List UInt8) :
    Prop where
  only : OnlyFree g v v' cs
  chain : Chain v'.link head cs
  enough : data.length ≤ cs.length * clusterBytes g
  tight : (cs.length - 1) * clusterBytes g < data.length
  content : ∀ k < data.length, fileByte g v' cs k = data.getD k 0

theorem OnlyFree.refl (g : MountState) (v : View) : OnlyFree g v v [] where
  free := by
    intro c hc
    cases hc
  fat _ _ := rfl
  byte _ _ := rfl

section Rules

variable {g : MountState} {w : World}

/-- The inner loop of `write_file_data`, in a cluster that begins at byte `base` of the data. -/
theorem wp_writeDataSectors (data : List UInt8) (n base : Nat) {c written : Nat} (hw : Good g w)
    (hc : InVolume g c) (hn : n ≤ g.sectorsPerCluster)
    (hwritten : written = min data.length (base + 512 * (g.sectorsPerCluster - n)))
    {Q : Option Nat → World → Prop}
    (hQ : ∀ w', Good g w' → viewOf g w' = (viewOf g w).setBytes c
        (512 * (g.sectorsPerCluster - n)) (512 * n)
        (fun o => data.getD (base + 512 * (g.sectorsPerCluster - n) + o) 0) →
      Q (some (min data.length (base + clusterBytes g))) w') :
    (writeDataSectors g data c n written).wp (deviceHandler g) Q w := by
  induction n generalizing w written with
  | zero =>
    rw [hwritten]
    apply hQ w hw
    rw [Nat.mul_zero, setBytes_zero]
  | succ n ih =>
    unfold writeDataSectors
    dsimp only
    rw [Program.wp_bind]
    apply wp_writeSector hw hc (by omega)
    intro w₁ hw₁ hview₁ _
    apply ih hw₁ (by omega)
    · rw [hwritten, hw.mount.sector]
      omega
    · intro w' hw' hview'
      apply hQ w' hw'
      -- the sector holds the data from its place on, and zeros behind their end
      have hsector : ∀ i < 512, (if i < min (data.length - written) g.bytesPerSector then
          data.getD (written + i) 0 else 0) =
          data.getD (base + 512 * (g.sectorsPerCluster - (n + 1)) + i) 0 := by
        intro i hi
        rw [hw.mount.sector]
        by_cases hend : base + 512 * (g.sectorsPerCluster - (n + 1)) + i < data.length
        · rw [if_pos (by omega)]
          exact congrArg (fun k => data.getD k 0) (by omega)
        · rw [if_neg (by omega), List.getD_eq_default _ _ (by omega)]
      rw [hview', hview₁, setBytes_congr hsector,
        show 512 * (g.sectorsPerCluster - n) =
          512 * (g.sectorsPerCluster - (n + 1)) + 512 by omega,
        show 512 * (n + 1) = 512 + 512 * n by omega, ← setBytes_setBytes]
      apply setBytes_congr
      intro i _
      exact congrArg (fun k => data.getD k 0) (by omega)

/-! ### The chain -/

/-- A list of different clusters is no longer than the volume. -/
theorem length_le_of_nodup {cs : List Nat} (hnodup : cs.Nodup) (hin : ∀ c ∈ cs, InVolume g c) :
    cs.length ≤ g.totalClusters := by
  have hsub : cs ⊆ List.range' 2 g.totalClusters := by
    intro c hc
    have h2 := (hin c hc).1
    have hmax := (hin c hc).2
    exact List.mem_range'_1.mpr ⟨h2, by omega⟩
  have hle := (hnodup.subperm hsub).length_le
  rwa [List.length_range'] at hle

/-- What `write_file_data` has done after a number of rounds: the clusters `cs` are linked and
filled. -/
structure Progress (g : MountState) (v v' : View) (first previous : Nat) (cs : List Nat)
    (data : List UInt8) : Prop where
  only : OnlyFree g v v' cs
  start : cs = [] → first = 0 ∧ previous = 0
  chain : ∀ hne : cs ≠ [], Chain v'.link first cs ∧ previous = cs.getLast hne
  tight : cs ≠ [] → (cs.length - 1) * clusterBytes g < data.length
  content : ∀ k < data.length, k < cs.length * clusterBytes g → fileByte g v' cs k = data.getD k 0

theorem Progress.refl (g : MountState) (v : View) (data : List UInt8) :
    Progress g v v 0 0 [] data where
  only := .refl g v
  start _ := ⟨rfl, rfl⟩
  chain hne := absurd rfl hne
  tight hne := absurd rfl hne
  content := by
    intro k _ hk
    simp at hk

/-- The view after a round: the new cluster is marked, linked to and filled. -/
def roundView (g : MountState) (v : View) (previous c base : Nat) (data : List UInt8) : View :=
  let marked := v.setFat c FAT32_END_OF_CHAIN
  (if previous ≠ 0 then marked.setFat previous c else marked).setBytes c 0 (clusterBytes g)
    fun o => data.getD (base + o) 0

/-- A round links the new cluster to the end of the chain. -/
theorem roundView_chain {blockCount : Nat} (hmount : ValidMount g blockCount) {v v' : View}
    {first previous c base : Nat} {cs : List Nat} {data : List UInt8}
    (h : Progress g v v' first previous cs data) (hc : InVolume g c) (hfree : v'.fat c = 0) :
    Chain (roundView g v' previous c base data).link (if first = 0 then c else first)
      (cs ++ [c]) := by
  have hmark : (v'.setFat c FAT32_END_OF_CHAIN).link = Function.update v'.link c .last := by
    rw [setFat_link]
    exact congrArg _ (linkOf_last.mpr (Nat.le_refl _))
  have hself : Chain (v'.setFat c FAT32_END_OF_CHAIN).link c [c] := by
    rw [hmark]
    exact .last (Function.update_self ..)
  by_cases hcs : cs = []
  · obtain ⟨rfl, rfl⟩ := h.start hcs
    subst hcs
    exact hself
  · obtain ⟨hchain, hprevious⟩ := h.chain hcs
    have hin : ∀ x ∈ cs, InVolume g x := fun x hx => (h.only.free x hx).1
    have hfirst : first ≠ 0 := by
      have := (hin first hchain.head_mem).1
      omega
    have hlast : InVolume g previous := by
      rw [hprevious]
      exact hin _ (List.getLast_mem hcs)
    have hnot : c ∉ cs := fun hmem => hchain.ne_free hmem (linkOf_free.mpr hfree)
    have hold : Chain (v'.setFat c FAT32_END_OF_CHAIN).link first cs := by
      rw [hmark]
      refine hchain.congr ?_
      intro x hx
      apply Function.update_of_ne
      rintro rfl
      exact hnot hx
    have hdisj : ∀ x ∈ cs, x ∉ [c] := by
      intro x hx hmem
      rw [List.mem_singleton] at hmem
      exact hnot (hmem ▸ hx)
    have happend := hold.append_of_link hself hdisj
    rw [if_neg hfirst]
    show Chain (if previous ≠ 0 then _ else _ : View).link first (cs ++ [c])
    rw [if_pos (by have := hlast.1; omega), setFat_link, linkOf_cluster hmount hc, hprevious]
    exact happend

/-- The FAT and the bytes that a round leaves alone. -/
theorem roundView_only {v v' : View} {first previous c base : Nat} {cs : List Nat}
    {data : List UInt8} (h : Progress g v v' first previous cs data) (hc : InVolume g c)
    (hfree : v'.fat c = 0) (hnot : c ∉ cs) :
    OnlyFree g v (roundView g v' previous c base data) (cs ++ [c]) where
  free := by
    intro x hx
    rcases List.mem_append.mp hx with hx | hx
    · exact h.only.free x hx
    · rw [List.mem_singleton] at hx
      subst hx
      exact ⟨hc, (h.only.fat x hnot).symm.trans hfree⟩
  fat := by
    intro x hx
    rw [List.mem_append, List.mem_singleton, not_or] at hx
    rw [← h.only.fat x hx.1]
    show (if previous ≠ 0 then _ else _ : View).fat x = v'.fat x
    by_cases hprevious : previous ≠ 0
    · have hcs : cs ≠ [] := fun hcs => hprevious (h.start hcs).2
      have hne : x ≠ previous := by
        rintro rfl
        rw [(h.chain hcs).2] at hx
        exact hx.1 (List.getLast_mem hcs)
      rw [if_pos hprevious, setFat_fat, Function.update_of_ne hne, setFat_fat,
        Function.update_of_ne hx.2]
    · rw [if_neg hprevious, setFat_fat, Function.update_of_ne hx.2]
  byte := by
    intro x hx
    rw [List.mem_append, List.mem_singleton, not_or] at hx
    rw [← h.only.byte x hx.1]
    funext o
    show (if x = c ∧ _ then _ else (if previous ≠ 0 then _ else _ : View).byte x o) = v'.byte x o
    rw [if_neg fun hin => hx.2 hin.1]
    split <;> rfl

theorem clusterBytes_pos {blockCount : Nat} (hmount : ValidMount g blockCount) :
    0 < clusterBytes g := by
  have := hmount.cluster
  unfold clusterBytes
  omega

/-- A round adds the next part of the data. -/
theorem roundView_content {blockCount : Nat} (hmount : ValidMount g blockCount) {v v' : View}
    {first previous c : Nat} {cs : List Nat} {data : List UInt8}
    (h : Progress g v v' first previous cs data) (hnot : c ∉ cs) {k : Nat}
    (hk : k < data.length) (hkc : k < (cs ++ [c]).length * clusterBytes g) :
    fileByte g (roundView g v' previous c (cs.length * clusterBytes g) data) (cs ++ [c]) k =
      data.getD k 0 := by
  have hpos := clusterBytes_pos hmount
  have hbyte : ∀ x o, (roundView g v' previous c (cs.length * clusterBytes g) data).byte x o =
      if x = c ∧ 0 ≤ o ∧ o < 0 + clusterBytes g
      then data.getD (cs.length * clusterBytes g + (o - 0)) 0 else v'.byte x o := by
    intro x o
    show (if x = c ∧ _ then _ else (if previous ≠ 0 then _ else _ : View).byte x o) = _
    split
    · rfl
    · split <;> rfl
  unfold fileByte
  rw [hbyte]
  by_cases hold : k < cs.length * clusterBytes g
  · -- a cluster of the rounds before
    have hdiv : k / clusterBytes g < cs.length := (Nat.div_lt_iff_lt_mul hpos).mpr hold
    rw [List.getD_append _ _ _ _ hdiv, if_neg]
    · exact h.content k hk hold
    · intro hc
      rw [List.getD_eq_getElem _ _ hdiv] at hc
      exact hnot (hc.1 ▸ List.getElem_mem hdiv)
  · -- the new cluster
    have hlen : (cs ++ [c]).length = cs.length + 1 := List.length_append
    rw [hlen, Nat.add_mul, Nat.one_mul] at hkc
    have hdiv : k / clusterBytes g = cs.length := by
      apply Nat.div_eq_of_lt_le
      · omega
      · rw [Nat.succ_mul]
        omega
    have hmod : cs.length * clusterBytes g + k % clusterBytes g = k := by
      rw [← hdiv, Nat.mul_comm]
      exact Nat.div_add_mod k _
    rw [hdiv, List.getD_append_right _ _ _ _ (Nat.le_refl _), Nat.sub_self]
    have hmodlt := Nat.mod_lt k hpos
    rw [if_pos ⟨rfl, Nat.zero_le _, by omega⟩, Nat.sub_zero, hmod]

/-- A round of `write_file_data`. -/
theorem Progress.round {blockCount : Nat} (hmount : ValidMount g blockCount) {v v' : View}
    {first previous c : Nat} {cs : List Nat} {data : List UInt8}
    (h : Progress g v v' first previous cs data) (hc : InVolume g c) (hfree : v'.fat c = 0)
    (hmore : cs.length * clusterBytes g < data.length) :
    Progress g v (roundView g v' previous c (cs.length * clusterBytes g) data)
      (if first = 0 then c else first) c (cs ++ [c]) data := by
  have hnot : c ∉ cs := by
    intro hmem
    obtain ⟨hchain, -⟩ := h.chain (List.ne_nil_of_mem hmem)
    exact hchain.ne_free hmem (linkOf_free.mpr hfree)
  constructor
  · exact roundView_only h hc hfree hnot
  · intro hnil
    simp at hnil
  · intro hne
    exact ⟨roundView_chain hmount h hc hfree, (List.getLast_append_singleton cs).symm⟩
  · intro _
    rw [List.length_append, List.length_singleton, Nat.add_sub_cancel]
    exact hmore
  · intro k hk hkc
    exact roundView_content hmount h hnot hk hkc

/-- Freeing the chain again leaves the FAT as it was. -/
theorem Progress.cleared {v v' : View} {first previous : Nat} {cs : List Nat} {data : List UInt8}
    (h : Progress g v v' first previous cs data) : SameUsed v (v'.clear cs) where
  fat := by
    funext c
    show (if c ∈ cs then 0 else v'.fat c) = v.fat c
    by_cases hc : c ∈ cs
    · rw [if_pos hc, (h.only.free c hc).2]
    · rw [if_neg hc, h.only.fat c hc]
  byte := by
    intro c hc
    exact h.only.byte c fun hmem => hc (h.only.free c hmem).2

/-- The outer loop of `write_file_data`. -/
theorem wp_writeDataClusters {rounds : Nat} (hrounds : g.totalClusters ≤ rounds)
    {data : List UInt8} {v : View} (turns : Nat) {first previous written : Nat} {cs : List Nat}
    (hw : Good g w) (h : Progress g v (viewOf g w) first previous cs data)
    (hwritten : written = min data.length (cs.length * clusterBytes g))
    (hturns : data.length + 1 ≤ turns + cs.length) (hdata : data ≠ [])
    {Q : Option Nat → World → Prop}
    (hnone : ∀ w', Good g w' → SameUsed v (viewOf g w') → Q none w')
    (hsome : ∀ head cs w', Good g w' → Stored g v (viewOf g w') head cs data → Q (some head) w') :
    (writeDataClusters g rounds data turns first previous written).wp (deviceHandler g) Q w := by
  have hpos := clusterBytes_pos hw.mount
  induction turns generalizing w first previous written cs with
  | zero =>
    -- every round stores at least one byte
    have hcs : cs ≠ [] := by
      rintro rfl
      simp at hturns
    have htight := h.tight hcs
    have hle : (cs.length - 1) * 1 ≤ (cs.length - 1) * clusterBytes g :=
      Nat.mul_le_mul_left _ hpos
    have hlen := List.length_pos_of_ne_nil hcs
    omega
  | succ turns ih =>
    have hlen := List.length_pos_of_ne_nil hdata
    unfold writeDataClusters
    by_cases hdone : written ≥ data.length
    · rw [if_pos hdone]
      have hcs : cs ≠ [] := by
        rintro rfl
        simp at hwritten
        omega
      obtain ⟨hchain, -⟩ := h.chain hcs
      apply hsome first cs w hw
      exact ⟨h.only, hchain, by omega, h.tight hcs, fun k hk => h.content k hk (by omega)⟩
    · rw [if_neg hdone, Program.wp_bind]
      have hmore : cs.length * clusterBytes g < data.length := by omega
      apply wp_allocateCluster hw
      · -- no cluster is left
        intro w₁ hw₁ hview₁ _
        by_cases hcs : cs = []
        · subst hcs
          obtain ⟨rfl, rfl⟩ := h.start rfl
          have hclear := h.cleared
          rw [clear_nil] at hclear
          apply hnone w₁ hw₁
          rwa [hview₁]
        · obtain ⟨hchain, -⟩ := h.chain hcs
          have hin : ∀ x ∈ cs, InVolume g x := fun x hx => (h.only.free x hx).1
          have hfirst : first ≠ 0 := by
            have := (hin first hchain.head_mem).1
            omega
          show Program.wp _ (if first ≠ 0 then _ else _) _ w₁
          rw [if_pos hfirst, Program.wp_bind]
          have hroom := length_le_of_nodup hchain.nodup hin
          apply wp_freeClusterChain hw₁ (by rw [hview₁]; exact hchain) hin (by omega)
          intro w₂ hw₂ hview₂
          apply hnone w₂ hw₂
          rw [hview₂, hview₁]
          exact h.cleared
      · intro c w₁ hw₁ hc hfree hview₁
        -- what follows once the cluster is linked to
        have hrest : ∀ w₂, Good g w₂ → viewOf g w₂ =
            (if previous ≠ 0 then ((viewOf g w).setFat c FAT32_END_OF_CHAIN).setFat previous c
              else (viewOf g w).setFat c FAT32_END_OF_CHAIN) →
            (writeDataSectors g data c g.sectorsPerCluster written).wp (deviceHandler g)
              (fun r w₃ => ∃ written', r = some written' ∧
                (writeDataClusters g rounds data turns (if first = 0 then c else first) c
                  written').wp (deviceHandler g) Q w₃) w₂ := by
          intro w₂ hw₂ hview₂
          apply wp_writeDataSectors data g.sectorsPerCluster written hw₂ hc
            (Nat.le_refl _) (by omega)
          intro w₃ hw₃ hview₃
          have hbase : written = cs.length * clusterBytes g := by omega
          have hround := h.round hw.mount hc hfree hmore
          have hview : viewOf g w₃ =
              roundView g (viewOf g w) previous c (cs.length * clusterBytes g) data := by
            rw [hview₃, hview₂, Nat.sub_self, Nat.mul_zero, Nat.add_zero, hbase]
            rfl
          refine ⟨_, rfl, ?_⟩
          apply ih hw₃ (by rw [hview]; exact hround)
          · rw [List.length_append, List.length_singleton, Nat.add_mul, Nat.one_mul, hbase]
          · rw [List.length_append, List.length_singleton]
            omega
        show Program.wp _ (if previous ≠ 0 then _ else _) _ w₁
        by_cases hprevious : previous ≠ 0
        · rw [if_pos hprevious, Program.wp_bind]
          have hcs : cs ≠ [] := fun hcs => hprevious (h.start hcs).2
          have hlast : InVolume g previous := by
            rw [(h.chain hcs).2]
            exact (h.only.free _ (List.getLast_mem hcs)).1
          apply wp_writeFatValue hw₁ hlast.2
          intro w₂ hw₂ hview₂ _
          show Program.wp _ (writeDataSectors g data c g.sectorsPerCluster written >>= _) _ w₂
          rw [if_pos hprevious] at hrest
          rw [Program.wp_bind]
          have hview : viewOf g w₂ =
              ((viewOf g w).setFat c FAT32_END_OF_CHAIN).setFat previous c := by
            rw [hview₂, hview₁, Nat.mod_eq_of_lt (hw.mount.lt_two_pow hc.2)]
          apply Program.wp_mono (hrest w₂ hw₂ hview)
          rintro r w₃ ⟨written', rfl, h⟩
          exact h
        · rw [if_neg hprevious] at hrest ⊢
          show Program.wp _ (writeDataSectors g data c g.sectorsPerCluster written >>= _) _ w₁
          rw [Program.wp_bind]
          apply Program.wp_mono (hrest w₁ hw₁ hview₁)
          rintro r w₃ ⟨written', rfl, h⟩
          exact h

/-- `write_file_data` stores the data in a chain of clusters that were free, or leaves the
volume as it was. -/
theorem wp_writeFileData {rounds : Nat} (hrounds : g.totalClusters ≤ rounds) {data : List UInt8}
    (hw : Good g w) {Q : Option Nat → World → Prop}
    (hempty : data = [] → Q (some 0) w)
    (hnone : data ≠ [] → ∀ w', Good g w' → SameUsed (viewOf g w) (viewOf g w') → Q none w')
    (hsome : ∀ head cs w', Good g w' → Stored g (viewOf g w) (viewOf g w') head cs data →
      Q (some head) w') :
    (writeFileData g rounds data).wp (deviceHandler g) Q w := by
  unfold writeFileData
  by_cases hdata : data = []
  · rw [if_pos hdata]
    exact hempty hdata
  · rw [if_neg hdata]
    exact wp_writeDataClusters hrounds _ hw (.refl g (viewOf g w) data) (by simp) (by simp) hdata
      (hnone hdata) hsome

end Rules

end VKernel.Proofs.Fs

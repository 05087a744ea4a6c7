import VKernel.Proofs.Fs.Fat32.FileData
import VKernel.Proofs.Fs.Fat32.Directories

/-!
# `VKernel.Proofs.Fs.Fat32.SlotSearch`: free slots for a new entry

`allocate_directory_slots` looks for a run of free slots, and appends clusters to the
directory until there is one. `wp_allocateDirectorySlots` says that it works on the list of
the slots of the grown directory (`Grown`): a run is what `searchSlots` finds in that list.
-/

set_option autoImplicit false

namespace VKernel.Proofs.Fs

open VKernel.Lib VKernel.Fs VKernel.Fs.Fat32

/-! ### Runs of free slots -/

theorem searchSlots_cons (needed : Nat) (location : EntryLocation) (e : FatEntry)
    (slots : List (EntryLocation × FatEntry)) (run : List EntryLocation) (endZone : Bool) :
    searchSlots needed ((location, e) :: slots) run endZone =
      if endZone || e.firstByte == DIR_ENTRY_END || e.firstByte == DIR_ENTRY_UNUSED then
        if run.length + 1 = needed then .found (run ++ [location])
        else searchSlots needed slots (run ++ [location]) (endZone || e.firstByte == DIR_ENTRY_END)
      else searchSlots needed slots [] (endZone || e.firstByte == DIR_ENTRY_END) := rfl

/-- The search goes through two lists one after the other. -/
theorem searchSlots_append (needed : Nat) (xs ys : List (EntryLocation × FatEntry))
    (run : List EntryLocation) (endZone : Bool) :
    searchSlots needed (xs ++ ys) run endZone =
      match searchSlots needed xs run endZone with
      | .found locations => .found locations
      | .more run endZone => searchSlots needed ys run endZone := by
  induction xs generalizing run endZone with
  | nil => rfl
  | cons s xs ih =>
    obtain ⟨location, e⟩ := s
    rw [List.cons_append, searchSlots_cons, searchSlots_cons]
    split
    · split
      · rfl
      · exact ih _ _
    · exact ih _ _

/-- At an end mark it does not matter whether one was seen before. -/
theorem searchSlots_endZone {needed : Nat} {s : EntryLocation × FatEntry}
    {slots : List (EntryLocation × FatEntry)} (hs : s.2.firstByte = DIR_ENTRY_END)
    (run : List EntryLocation) (endZone : Bool) :
    searchSlots needed (s :: slots) run endZone = searchSlots needed (s :: slots) run true := by
  obtain ⟨location, e⟩ := s
  have hs' : (e.firstByte == DIR_ENTRY_END) = true := beq_iff_eq.mpr hs
  rw [searchSlots_cons, searchSlots_cons, hs', Bool.or_true, Bool.or_true]

/-! ### Growing a directory -/

/-- The volume after clusters `ds`, which were free, were appended to the chain `cs` and
cleared. -/
structure Grown (g : MountState) (v v' : View) (cs ds : List Nat) : Prop where
  free : ∀ x ∈ ds, InVolume g x ∧ v.fat x = 0
  fat : ∀ x ∉ ds, cs.getLast? ≠ some x → v'.fat x = v.fat x
  byte : ∀ x ∉ ds, v'.byte x = v.byte x
  zero : ∀ x ∈ ds, ∀ o < clusterBytes g, v'.byte x o = 0
  chain : ∀ {a : Nat}, Chain v.link a cs → Chain v'.link a (cs ++ ds)

theorem Grown.refl (g : MountState) (v : View) (cs : List Nat) : Grown g v v cs [] where
  free := by
    intro x hx
    cases hx
  fat _ _ _ := rfl
  byte _ _ := rfl
  zero := by
    intro x hx
    cases hx
  chain h := by rwa [List.append_nil]

section Rules

variable {g : MountState} {w : World}

/-- A chain grows when the part behind its first cell does. -/
theorem Grown.cons {v v' : View} {a b : Nat} {cs ds : List Nat} (h : Grown g v v' cs ds)
    (hnext : v.link a = .next b) (hchain : Chain v.link b cs) : Grown g v v' (a :: cs) ds where
  free := h.free
  fat := by
    intro x hx hlast
    apply h.fat x hx
    obtain ⟨y, ys, rfl⟩ := List.exists_cons_of_ne_nil hchain.ne_nil
    rwa [List.getLast?_cons_cons] at hlast
  byte := h.byte
  zero := h.zero
  chain := by
    intro a' h'
    have hcons : Chain v.link a (a :: cs) := .cons hnext hchain
    have ha : a' = a := by
      cases h' with
      | last _ => rfl
      | cons _ _ => rfl
    subst ha
    have hnot : a' ∉ ds := by
      intro hmem
      have hfree : v.link a' = .free := linkOf_free.mpr (h.free a' hmem).2
      rw [hnext] at hfree
      cases hfree
    have hlast : cs.getLast? ≠ some a' := by
      intro hmem
      exact (List.nodup_cons.mp hcons.nodup).1 (List.mem_of_getLast? hmem)
    have hlink : v'.link a' = v.link a' := congrArg linkOf (h.fat a' hnot hlast)
    exact .cons (hlink.trans hnext) (h.chain hchain)

/-- The view after `append_directory_cluster`. -/
def appendedView (g : MountState) (v : View) (last c : Nat) : View :=
  ((v.setFat c FAT32_END_OF_CHAIN).setBytes c 0
    (512 * g.sectorsPerCluster) fun _ => 0).setFat last c

/-- The new cluster is a chain of its own. -/
theorem appendedView_chain {v : View} {last c : Nat} (hne : c ≠ last) :
    Chain (appendedView g v last c).link c [c] := by
  refine .last (linkOf_last.mpr ?_)
  show FAT32_END_OF_CHAIN ≤ Function.update (Function.update v.fat c FAT32_END_OF_CHAIN) last c c
  rw [Function.update_of_ne hne, Function.update_self]

/-- A chain grows by a new cluster, and by what is appended to that one. -/
theorem Grown.append {blockCount : Nat} (hmount : ValidMount g blockCount) {v v' : View}
    {last c : Nat} {ds : List Nat} (hc : InVolume g c) (hfree : v.fat c = 0)
    (hlast : v.fat last ≠ 0) (h : Grown g (appendedView g v last c) v' [c] ds) :
    Grown g v v' [last] (c :: ds) := by
  have hne : c ≠ last := by
    rintro rfl
    exact hlast hfree
  have hfat : ∀ x, (appendedView g v last c).fat x =
      Function.update (Function.update v.fat c FAT32_END_OF_CHAIN) last c x := fun x => rfl
  have hfatLast : (appendedView g v last c).fat last = c := by
    rw [hfat, Function.update_self]
  have hfatC : (appendedView g v last c).fat c = FAT32_END_OF_CHAIN := by
    rw [hfat, Function.update_of_ne hne, Function.update_self]
  have hfatOther : ∀ x, x ≠ c → x ≠ last → (appendedView g v last c).fat x = v.fat x := by
    intro x hxc hxl
    rw [hfat, Function.update_of_ne hxl, Function.update_of_ne hxc]
  have h2 := hc.1
  have hlastNot : last ∉ ds := by
    intro hmem
    have hzero := (h.free last hmem).2
    omega
  have hcNot : c ∉ ds := by
    intro hmem
    have hzero := (h.free c hmem).2
    rw [hfatC] at hzero
    cases hzero
  constructor
  · intro x hx
    rcases List.mem_cons.mp hx with rfl | hx
    · exact ⟨hc, hfree⟩
    · refine ⟨(h.free x hx).1, ?_⟩
      rw [← hfatOther x (fun hxc => hcNot (hxc ▸ hx)) (fun hxl => hlastNot (hxl ▸ hx))]
      exact (h.free x hx).2
  · intro x hx hxl
    rw [List.mem_cons, not_or] at hx
    have hxl' : x ≠ last := fun heq => hxl (by rw [heq]; rfl)
    rw [← hfatOther x hx.1 hxl']
    exact h.fat x hx.2 fun heq => hx.1 (Option.some.inj heq).symm
  · intro x hx
    rw [List.mem_cons, not_or] at hx
    rw [h.byte x hx.2]
    funext o
    exact if_neg fun hin => hx.1 hin.1
  · intro x hx o ho
    rcases List.mem_cons.mp hx with rfl | hx
    · rw [h.byte x hcNot]
      exact if_pos ⟨rfl, Nat.zero_le _, by unfold clusterBytes at ho; omega⟩
    · exact h.zero x hx o ho
  · intro a ha
    have haLast : a = last := List.mem_singleton.mp ha.head_mem
    subst haLast
    have hlink : v'.link a = .next c := by
      have hkeep : v'.fat a = c := by
        rw [h.fat a hlastNot fun heq => hne (Option.some.inj heq), hfatLast]
      show linkOf (v'.fat a) = _
      rw [hkeep]
      exact linkOf_cluster hmount hc
    exact .cons hlink (h.chain (appendedView_chain hne))

/-! ### The search -/

/-- The slots of a directory depend on the bytes of its clusters. -/
theorem dirSlots_congr {v v' : View} {cs : List Nat} (h : ∀ c ∈ cs, v'.byte c = v.byte c) :
    dirSlots g v' cs = dirSlots g v cs := by
  apply List.flatMap_congr
  intro c hc
  unfold clusterSlots sectorOf
  rw [h c hc]

theorem dirSlots_cons (v : View) (c : Nat) (cs : List Nat) :
    dirSlots g v (c :: cs) = clusterSlots g v c ++ dirSlots g v cs := List.flatMap_cons ..

theorem dirSlots_append (v : View) (cs ds : List Nat) :
    dirSlots g v (cs ++ ds) = dirSlots g v cs ++ dirSlots g v ds := List.flatMap_append ..

/-- A cleared cluster has end marks only. -/
theorem clusterSlots_zero (hw : Good g w) {v : View} {c : Nat}
    (h : ∀ o < clusterBytes g, v.byte c o = 0) :
    ∀ s ∈ clusterSlots g v c, s.2.firstByte = DIR_ENTRY_END := by
  intro s hs
  obtain ⟨i, hi, j, hj, rfl⟩ := (mem_clusterSlots hw).mp hs
  have hmul : 512 * (i + 1) ≤ 512 * g.sectorsPerCluster := Nat.mul_le_mul_left _ hi
  have hzero := h (512 * i + (j * 32 + 0)) (by unfold clusterBytes; omega)
  exact (firstByte_ofBytes _).trans hzero

theorem clusterSlots_ne_nil (hw : Good g w) (v : View) (c : Nat) : clusterSlots g v c ≠ [] := by
  intro hnil
  have hmem : (slotLocation g c 0 0, slotEntry v c 0 0) ∈ clusterSlots g v c :=
    (mem_clusterSlots hw).mpr ⟨0, hw.mount.cluster, 0, by decide, rfl⟩
  rw [hnil] at hmem
  cases hmem

/-- The search in the sectors of a cluster goes through the list of their slots. -/
theorem wp_searchSlotSectors {needed : Nat} (n : Nat) {c : Nat} (hw : Good g w)
    (hc : InVolume g c) (hn : n ≤ g.sectorsPerCluster) {run : List EntryLocation} {endZone : Bool}
    {Q : Option SlotSearch → World → Prop}
    (hQ : Q (some (searchSlots needed (lastSectors g (viewOf g w) c n) run endZone)) w) :
    (searchSlotSectors g needed c n run endZone).wp (deviceHandler g) Q w := by
  induction n generalizing run endZone with
  | zero => exact hQ
  | succ n ih =>
    unfold searchSlotSectors
    rw [Program.wp_bind]
    apply wp_readSector hw hc (by omega)
    intro sector hsector
    rw [lastSectors_succ hn, searchSlots_append] at hQ
    have hslots : sectorSlots g (add64 (clusterFirstLba g c) (g.sectorsPerCluster - (n + 1)))
        sector = sectorOf g (viewOf g w) c (g.sectorsPerCluster - (n + 1)) :=
      sectorSlots_congr hw hsector
    dsimp only
    rw [hslots]
    generalize searchSlots needed
      (sectorOf g (viewOf g w) c (g.sectorsPerCluster - (n + 1))) run endZone = result at hQ ⊢
    cases result with
    | found l => exact hQ
    | more r z => exact ih (by omega) hQ

/-- The loop of `allocate_directory_slots` goes through the list of the slots, and appends
cleared clusters to it. `visited` are the clusters in front of it. -/
theorem wp_searchSlotClusters {needed : Nat} (rounds : Nat) (visited : List Nat) {c : Nat}
    {cs : List Nat}
    (hw : Good g w) (hchain : Chain (viewOf g w).link c cs) (hnodup : (visited ++ cs).Nodup)
    (hin : ∀ x ∈ visited ++ cs, InVolume g x) (hused : ∀ x ∈ visited, (viewOf g w).fat x ≠ 0)
    (hrounds : g.totalClusters ≤ visited.length + rounds) {run : List EntryLocation}
    {endZone : Bool} {Q : Option (List EntryLocation) → World → Prop}
    (hnone : ∀ ds w', Good g w' → Grown g (viewOf g w) (viewOf g w') cs ds → Q none w')
    (hsome : ∀ ds locations w', Good g w' → Grown g (viewOf g w) (viewOf g w') cs ds →
      searchSlots needed (dirSlots g (viewOf g w') (cs ++ ds)) run endZone = .found locations →
      Q (some locations) w') :
    (searchSlotClusters g needed rounds c run endZone).wp (deviceHandler g) Q w := by
  induction rounds generalizing w c visited cs run endZone with
  | zero =>
    have hlen := length_le_of_nodup hnodup hin
    have hpos := List.length_pos_of_ne_nil hchain.ne_nil
    rw [List.length_append] at hlen
    omega
  | succ rounds ih =>
    have hc : InVolume g c := hin c (List.mem_append_right _ hchain.head_mem)
    have hcUsed : (viewOf g w).fat c ≠ 0 := fun hzero =>
      hchain.ne_free hchain.head_mem (linkOf_free.mpr hzero)
    obtain ⟨rest, rfl⟩ : ∃ rest, cs = c :: rest := by
      cases hchain with
      | last _ => exact ⟨[], rfl⟩
      | cons _ _ => exact ⟨_, rfl⟩
    have hvisited : ∀ x ∈ visited ++ [c], (viewOf g w).fat x ≠ 0 := by
      intro x hx
      rcases List.mem_append.mp hx with hx | hx
      · exact hused x hx
      · rw [List.mem_singleton.mp hx]
        exact hcUsed
    unfold searchSlotClusters
    rw [Program.wp_bind]
    apply wp_searchSlotSectors _ hw hc (Nat.le_refl _)
    rw [lastSectors_all]
    generalize hsearch : searchSlots needed (clusterSlots g (viewOf g w) c) run endZone = result
    cases result with
    | found locations =>
      apply hsome [] locations w hw (.refl g _ _)
      rw [List.append_nil, dirSlots_cons, searchSlots_append, hsearch]
    | more run' endZone' =>
      -- the search goes on in the slots behind this cluster
      have hcontinue : ∀ (ds : List Nat) {v' : View} {locations : List EntryLocation},
          v'.byte c = (viewOf g w).byte c →
          searchSlots needed (dirSlots g v' ds) run' endZone' = .found locations →
          searchSlots needed (dirSlots g v' (c :: ds)) run endZone = .found locations := by
        intro ds v' locations hbyte hfound
        have hcluster : clusterSlots g v' c = clusterSlots g (viewOf g w) c := by
          unfold clusterSlots sectorOf
          rw [hbyte]
        rw [dirSlots_cons, searchSlots_append, hcluster, hsearch]
        exact hfound
      show Program.wp _ (readFatValue g c >>= _) _ w
      rw [Program.wp_bind]
      apply wp_readFatValue hw hc.2
      intro w₁ hw₁ hview₁ _
      show Program.wp _ (if ¬ isDataCluster ((viewOf g w).fat c) then _ else _) _ w₁
      cases hchain with
      | last hlast =>
        have hend : FAT32_END_OF_CHAIN ≤ (viewOf g w).fat c := linkOf_last.mp hlast
        rw [if_pos (show ¬ isDataCluster ((viewOf g w).fat c) from fun h => by
          have := h.2
          omega), Program.wp_bind]
        apply wp_appendDirectoryCluster hw₁ hc
        · intro w₂ hw₂ hview₂
          apply hnone [] w₂ hw₂
          rw [hview₂, hview₁]
          exact .refl g _ _
        · intro c' w₂ hw₂ hc' hfree hview₂
          rw [hview₁] at hfree hview₂
          have hdata := isDataCluster_of_inVolume hw.mount hc'
          have hne : c' ≠ c := by
            rintro rfl
            exact hcUsed hfree
          show Program.wp _ (if c' ≥ FAT32_END_OF_CHAIN then _ else _) _ w₂
          rw [if_neg (by have := hdata.2; omega)]
          have hview : viewOf g w₂ = appendedView g (viewOf g w) c c' := hview₂
          have hnotVisited : c' ∉ visited ++ [c] := fun hmem => hvisited c' hmem hfree
          apply ih (visited ++ [c]) hw₂ (by rw [hview]; exact appendedView_chain hne)
          · rw [List.nodup_append]
            refine ⟨hnodup, List.nodup_singleton c', ?_⟩
            intro x hx y hy hxy
            rw [List.mem_singleton] at hy
            exact hnotVisited (hy ▸ hxy ▸ hx)
          · intro x hx
            rcases List.mem_append.mp hx with hx | hx
            · exact hin x hx
            · rw [List.mem_singleton.mp hx]
              exact hc'
          · intro x hx
            rw [hview]
            show Function.update (Function.update (viewOf g w).fat c' _) c c' x ≠ 0
            have h2 := hc'.1
            by_cases hxc : x = c
            · rw [hxc, Function.update_self]
              omega
            · rw [Function.update_of_ne hxc,
                Function.update_of_ne fun hxc' : x = c' => hnotVisited (hxc' ▸ hx)]
              exact hvisited x hx
          · rw [List.length_append, List.length_singleton]
            omega
          · intro ds w₃ hw₃ hgrown
            rw [hview] at hgrown
            exact hnone _ w₃ hw₃ (hgrown.append hw.mount hc' hfree hcUsed)
          · intro ds locations w₃ hw₃ hgrown hfound
            rw [hview] at hgrown
            have hgrown' := hgrown.append hw.mount hc' hfree hcUsed
            have hcNot : c ∉ c' :: ds := fun hmem => hcUsed (hgrown'.free c hmem).2
            apply hsome _ locations w₃ hw₃ hgrown'
            refine hcontinue (c' :: ds) (hgrown'.byte c hcNot) ?_
            -- the new cluster begins with an end mark
            have hzero := clusterSlots_zero hw₃ (hgrown'.zero c' List.mem_cons_self)
            obtain ⟨s, slots, hslots⟩ :=
              List.exists_cons_of_ne_nil (clusterSlots_ne_nil hw₃ (viewOf g w₃) c')
            rw [List.singleton_append, dirSlots_cons, hslots, List.cons_append] at hfound
            rw [hslots] at hzero
            rw [dirSlots_cons, hslots, List.cons_append,
              searchSlots_endZone (hzero s List.mem_cons_self)]
            exact hfound
      | @cons _ next _ hnext hrest =>
        obtain ⟨hval, -, -, -⟩ := linkOf_next hnext
        have hassoc : visited ++ c :: rest = (visited ++ [c]) ++ rest := by simp
        rw [hassoc] at hnodup hin
        have hnextIn := hin next (List.mem_append_right _ hrest.head_mem)
        rw [hval, if_neg (not_not.mpr (isDataCluster_of_inVolume hw.mount hnextIn))]
        apply ih (visited ++ [c]) hw₁ (by rw [hview₁]; exact hrest) hnodup hin
          (by rw [hview₁]; exact hvisited)
        · rw [List.length_append, List.length_singleton]
          omega
        · intro ds w₂ hw₂ hgrown
          rw [hview₁] at hgrown
          exact hnone ds w₂ hw₂ (hgrown.cons hnext hrest)
        · intro ds locations w₂ hw₂ hgrown hfound
          rw [hview₁] at hgrown
          have hcNot : c ∉ ds := fun hmem => hcUsed (hgrown.free c hmem).2
          apply hsome ds locations w₂ hw₂ (hgrown.cons hnext hrest)
          exact hcontinue _ (hgrown.byte c hcNot) hfound

/-- `allocate_directory_slots` of a directory whose chain ends: the directory has grown, and
the search found a run in the slots that it has now. -/
theorem wp_allocateDirectorySlots {needed rounds d : Nat} {cs : List Nat}
    (hrounds : g.totalClusters ≤ rounds) (hw : Good g w) (hchain : Chain (viewOf g w).link d cs)
    (hin : ∀ x ∈ cs, InVolume g x) {Q : Option (List EntryLocation) → World → Prop}
    (hnone : ∀ ds w', Good g w' → Grown g (viewOf g w) (viewOf g w') cs ds → Q none w')
    (hsome : ∀ ds locations w', Good g w' → Grown g (viewOf g w) (viewOf g w') cs ds →
      searchSlots needed (dirSlots g (viewOf g w') (cs ++ ds)) [] false = .found locations →
      Q (some locations) w') :
    (allocateDirectorySlots g rounds d needed).wp (deviceHandler g) Q w := by
  have hdata := isDataCluster_of_inVolume hw.mount (hin d hchain.head_mem)
  unfold allocateDirectorySlots
  split
  · exact hnone [] w hw (.refl g _ _)
  · rw [if_neg (by have := hdata.2; omega)]
    exact wp_searchSlotClusters rounds [] hw hchain hchain.nodup hin
      (by intro x hx; cases hx) (by simpa using hrounds) hnone hsome

end Rules

end VKernel.Proofs.Fs

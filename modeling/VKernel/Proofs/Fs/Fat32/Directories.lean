import VKernel.Proofs.Fs.Fat32.Clusters
import VKernel.Proofs.Fs.Fat32.NameRoundTrip

/-!
# `VKernel.Proofs.Fs.Fat32.Directories`: scanning and writing directory slots

A directory whose chain ends is scanned as the list of its slots: `wp_scanDirectory` says so
for every callback. Writing a slot replaces the slot with that location (`modifySlot`), and nothing
else; the location tells the cluster (`slotLocation_inj`), so the same holds of every list of slots
(`dirSlots_setBytes`).
-/

set_option autoImplicit false

namespace VKernel.Proofs.Fs

open VKernel.Lib VKernel.Fs VKernel.Fs.Fat32

/-- An entry depends on its 32 bytes. -/
theorem ofBytes_congr {b b' : Buffer} (h : ∀ i < 32, b i = b' i) :
    FatEntry.ofBytes b = FatEntry.ofBytes b' := by
  have h16 : ∀ o, o + 1 < 32 → u16At b o = u16At b' o := by
    intro o ho
    unfold u16At
    rw [@leValue_congr _ b' _ o]
    intro i hi
    exact h _ (by omega)
  have h32 : u32At b 28 = u32At b' 28 := by
    unfold u32At
    rw [@leValue_congr _ b' _ 28]
    intro i hi
    exact h _ (by omega)
  have hname : (fun i : Fin 8 => b i) = fun i : Fin 8 => b' i := by
    funext i
    exact h i (by omega)
  have hext : (fun i : Fin 3 => b (8 + i)) = fun i : Fin 3 => b' (8 + i) := by
    funext i
    exact h (8 + i) (by omega)
  unfold FatEntry.ofBytes
  rw [hname, hext, h 11 (by decide), h 12 (by decide), h 13 (by decide), h16 14 (by decide),
    h16 16 (by decide), h16 18 (by decide), h16 20 (by decide), h16 22 (by decide),
    h16 24 (by decide), h16 26 (by decide), h32]

section Rules

variable {g : MountState} {w : World}

theorem entriesPerSector_eq (hw : Good g w) : entriesPerSector g = 16 := by
  unfold entriesPerSector
  rw [hw.mount.sector]

/-- The slots of a sector depend on its 512 bytes. -/
theorem sectorSlots_congr (hw : Good g w) {lba : Nat} {b b' : Buffer}
    (h : ∀ i < 512, b i = b' i) : sectorSlots g lba b = sectorSlots g lba b' := by
  unfold sectorSlots
  rw [entriesPerSector_eq hw]
  apply List.map_congr_left
  intro i hi
  rw [List.mem_range] at hi
  rw [@ofBytes_congr _ fun j => b' (i * 32 + j)]
  intro j hj
  exact h _ (by omega)

/-! ### Scanning -/

section Scan

variable {β : Type} {callback : β → DirectoryEntryRef → β × Bool}

/-- The slots of the last `n` sectors of a cluster. -/
def lastSectors (g : MountState) (v : View) (c n : Nat) : List (EntryLocation × FatEntry) :=
  (List.range' (g.sectorsPerCluster - n) n).flatMap (sectorOf g v c)

theorem lastSectors_succ {v : View} {c n : Nat} (hn : n + 1 ≤ g.sectorsPerCluster) :
    lastSectors g v c (n + 1) =
      sectorOf g v c (g.sectorsPerCluster - (n + 1)) ++ lastSectors g v c n := by
  unfold lastSectors
  rw [List.range'_succ, List.flatMap_cons,
    show g.sectorsPerCluster - (n + 1) + 1 = g.sectorsPerCluster - n by omega]

theorem lastSectors_all (v : View) (c : Nat) :
    lastSectors g v c g.sectorsPerCluster = clusterSlots g v c := by
  unfold lastSectors clusterSlots
  rw [Nat.sub_self, List.range_eq_range']

/-- The sectors of a cluster are scanned as the list of their slots. -/
theorem wp_scanSectors (n : Nat) {c : Nat} (hw : Good g w) (hc : InVolume g c)
    (hn : n ≤ g.sectorsPerCluster) {pending : PendingLfn} {state : β}
    {Q : Option (ScanState β) → World → Prop}
    (hQ : Q (some (scanSlots callback (lastSectors g (viewOf g w) c n) pending state)) w) :
    (scanSectors g callback c n pending state).wp (deviceHandler g) Q w := by
  induction n generalizing pending state with
  | zero => exact hQ
  | succ n ih =>
    unfold scanSectors
    rw [Program.wp_bind]
    apply wp_readSector hw hc (by omega)
    intro sector hsector
    rw [lastSectors_succ hn, scanSlots_append] at hQ
    have hslots : sectorSlots g (add64 (clusterFirstLba g c) (g.sectorsPerCluster - (n + 1)))
        sector = sectorOf g (viewOf g w) c (g.sectorsPerCluster - (n + 1)) :=
      sectorSlots_congr hw hsector
    dsimp only
    rw [hslots]
    generalize scanSlots callback (sectorOf g (viewOf g w) c (g.sectorsPerCluster - (n + 1)))
      pending state = result at hQ ⊢
    cases result with
    | stop s => exact hQ
    | more p s => exact ih (by omega) hQ

/-- The clusters of a directory are scanned as the list of their slots. -/
theorem wp_scanClusters {cs : List Nat} (rounds : Nat) {c : Nat} (hw : Good g w)
    (hchain : Chain (viewOf g w).link c cs) (hin : ∀ x ∈ cs, InVolume g x)
    (hrounds : cs.length ≤ rounds) {pending : PendingLfn} {state : β}
    {Q : Option β → World → Prop}
    (hQ : ∀ w', Good g w' → viewOf g w' = viewOf g w →
      Q (some (stateOf (scanSlots callback (dirSlots g (viewOf g w) cs) pending state))) w') :
    (scanClusters g callback rounds c pending state).wp (deviceHandler g) Q w := by
  induction rounds generalizing cs c w pending state with
  | zero =>
    have hpos := List.length_pos_of_ne_nil hchain.ne_nil
    omega
  | succ rounds ih =>
    have hc := hin c hchain.head_mem
    unfold scanClusters
    rw [Program.wp_bind]
    apply wp_scanSectors _ hw hc (Nat.le_refl _)
    rw [lastSectors_all]
    have hsplit : ∃ rest, cs = c :: rest := by
      cases hchain with
      | last _ => exact ⟨[], rfl⟩
      | cons _ _ => exact ⟨_, rfl⟩
    obtain ⟨rest, rfl⟩ := hsplit
    have hdir : dirSlots g (viewOf g w) (c :: rest) =
        clusterSlots g (viewOf g w) c ++ dirSlots g (viewOf g w) rest := List.flatMap_cons ..
    rw [hdir, scanSlots_append] at hQ
    generalize scanSlots callback (clusterSlots g (viewOf g w) c) pending state = result at hQ ⊢
    cases result with
    | stop s => exact hQ w hw rfl
    | more p s =>
      show Program.wp _ (readFatValue g c >>= _) _ w
      rw [Program.wp_bind]
      apply wp_readFatValue hw hc.2
      intro w₁ hw₁ hview₁ _
      show Program.wp _ (if ¬ isDataCluster ((viewOf g w).fat c) then _ else _) _ w₁
      cases hchain with
      | last hlast =>
        have hend : FAT32_END_OF_CHAIN ≤ (viewOf g w).fat c := linkOf_last.mp hlast
        rw [if_pos (show ¬ isDataCluster ((viewOf g w).fat c) from fun h => by
          have := h.2
          omega)]
        exact hQ w₁ hw₁ hview₁
      | @cons _ next _ hnext hrest =>
        obtain ⟨hval, -, -, -⟩ := linkOf_next hnext
        have hnextIn := hin next (List.mem_cons_of_mem _ hrest.head_mem)
        rw [hval, if_neg (not_not.mpr (isDataCluster_of_inVolume hw.mount hnextIn))]
        rw [List.length_cons] at hrounds
        apply ih hw₁ (by rw [hview₁]; exact hrest)
          (fun x hx => hin x (List.mem_cons_of_mem _ hx)) (by omega)
        intro w₂ hw₂ hview₂
        rw [hview₁]
        exact hQ w₂ hw₂ (hview₂.trans hview₁)

/-- `scan_directory` of a directory whose chain ends. -/
theorem wp_scanDirectory {cs : List Nat} {rounds d : Nat} (hw : Good g w)
    (hchain : Chain (viewOf g w).link d cs) (hin : ∀ x ∈ cs, InVolume g x)
    (hrounds : cs.length ≤ rounds) {state : β} {Q : Option β → World → Prop}
    (hQ : ∀ w', Good g w' → viewOf g w' = viewOf g w →
      Q (some (stateOf (scanSlots callback (dirSlots g (viewOf g w) cs) [] state))) w') :
    (scanDirectory g rounds d callback state).wp (deviceHandler g) Q w := by
  have hdata := isDataCluster_of_inVolume hw.mount (hin d hchain.head_mem)
  unfold scanDirectory
  rw [if_neg (by have := hdata.1; omega), if_neg (by have := hdata.2; omega)]
  exact wp_scanClusters rounds hw hchain hin hrounds hQ

end Scan

/-! ### Writing slots -/

/-- The location of slot `j` of sector `i` of a cluster. -/
def slotLocation (g : MountState) (c i j : Nat) : EntryLocation :=
  ⟨add64 (clusterFirstLba g c) i, j * 32⟩

/-- The slots of a cluster, one by one. -/
theorem mem_clusterSlots (hw : Good g w) {v : View} {c : Nat} {s : EntryLocation × FatEntry} :
    s ∈ clusterSlots g v c ↔ ∃ i < g.sectorsPerCluster, ∃ j < 16,
      s = (slotLocation g c i j, .ofBytes fun k => v.byte c (512 * i + (j * 32 + k))) := by
  unfold clusterSlots sectorOf sectorSlots
  rw [entriesPerSector_eq hw]
  constructor
  · intro h
    obtain ⟨i, hi, h⟩ := List.mem_flatMap.mp h
    obtain ⟨j, hj, rfl⟩ := List.mem_map.mp h
    exact ⟨i, List.mem_range.mp hi, j, List.mem_range.mp hj, rfl⟩
  · rintro ⟨i, hi, j, hj, rfl⟩
    refine List.mem_flatMap.mpr ⟨i, List.mem_range.mpr hi, ?_⟩
    exact List.mem_map.mpr ⟨j, List.mem_range.mpr hj, rfl⟩

/-- A location tells the cluster, the sector and the slot. -/
theorem slotLocation_inj (hw : Good g w) {c c' i i' j j' : Nat} (hc : InVolume g c)
    (hc' : InVolume g c') (hi : i < g.sectorsPerCluster) (hi' : i' < g.sectorsPerCluster)
    (h : slotLocation g c i j = slotLocation g c' i' j') : c = c' ∧ i = i' ∧ j = j' := by
  unfold slotLocation at h
  rw [hw.mount.sectorLba_eq hc hi, hw.mount.sectorLba_eq hc' hi'] at h
  obtain ⟨hlba, hoff⟩ := EntryLocation.mk.inj h
  have hsame : c = c' := by
    by_contra hne
    have h2 := hc.1
    have h2' := hc'.1
    rcases Nat.lt_or_gt_of_ne hne with hlt | hgt
    · have hmul : (c - 2 + 1) * g.sectorsPerCluster ≤ (c' - 2) * g.sectorsPerCluster :=
        Nat.mul_le_mul_right _ (by omega)
      rw [Nat.add_mul, Nat.one_mul] at hmul
      omega
    · have hmul : (c' - 2 + 1) * g.sectorsPerCluster ≤ (c - 2) * g.sectorsPerCluster :=
        Nat.mul_le_mul_right _ (by omega)
      rw [Nat.add_mul, Nat.one_mul] at hmul
      omega
  subst hsame
  exact ⟨rfl, by omega, by omega⟩

/-- The slots with the one at a location changed. -/
def modifySlot (location : EntryLocation) (f : FatEntry → FatEntry)
    (slots : List (EntryLocation × FatEntry)) : List (EntryLocation × FatEntry) :=
  slots.map fun s => if s.1 = location then (s.1, f s.2) else s

/-- A slot whose first `n` bytes are overwritten. -/
def FatEntryOverwritten (n : Nat) (data : Buffer) (e : FatEntry) : FatEntry :=
  .ofBytes fun k => if k < n then data k else e.byte k

/-- Two byte positions of slots agree only in the same slot. -/
theorem slot_position {i i' j j' k m : Nat} (hj : j < 16) (hj' : j' < 16) (hk : k < 32)
    (hm : m < 32) (h : 512 * i' + (j' * 32 + k) = 512 * i + j * 32 + m) :
    i' = i ∧ j' = j ∧ k = m := by
  omega

/-- The bytes of a slot after a write into a slot. -/
theorem setBytes_byte_slot {v : View} {c c' i i' j j' k n : Nat} {data : Buffer} (hj : j < 16)
    (hj' : j' < 16) (hk : k < 32) (hn : n ≤ 32) :
    (v.setBytes c (512 * i + j * 32) n data).byte c' (512 * i' + (j' * 32 + k)) =
      if (c' = c ∧ i' = i ∧ j' = j) ∧ k < n then data k
      else v.byte c' (512 * i' + (j' * 32 + k)) := by
  have hiff : (c' = c ∧ 512 * i + j * 32 ≤ 512 * i' + (j' * 32 + k) ∧
      512 * i' + (j' * 32 + k) < 512 * i + j * 32 + n) ↔ (c' = c ∧ i' = i ∧ j' = j) ∧ k < n := by
    constructor
    · rintro ⟨hc, hlow, hhigh⟩
      obtain ⟨m, hm⟩ := Nat.exists_eq_add_of_le hlow
      obtain ⟨hi, hj2, hkm⟩ := slot_position (m := m) hj hj' hk (by omega) hm
      exact ⟨⟨hc, hi, hj2⟩, by omega⟩
    · rintro ⟨⟨hc, hi, hj2⟩, hkn⟩
      subst hi hj2
      exact ⟨hc, by omega, by omega⟩
  unfold View.setBytes
  dsimp only
  by_cases h : (c' = c ∧ i' = i ∧ j' = j) ∧ k < n
  · rw [if_pos (hiff.mpr h), if_pos h]
    obtain ⟨⟨-, hi, hj2⟩, -⟩ := h
    subst hi hj2
    exact congrArg data (by omega)
  · rw [if_neg fun h' => h (hiff.mp h'), if_neg h]

/-- Slot `j` of sector `i` of a cluster. -/
def slotEntry (v : View) (c i j : Nat) : FatEntry :=
  .ofBytes fun k => v.byte c (512 * i + (j * 32 + k))

/-- The slots of a cluster, sector by sector. -/
theorem clusterSlots_eq (hw : Good g w) (v : View) (c : Nat) :
    clusterSlots g v c = (List.range g.sectorsPerCluster).flatMap fun i =>
      (List.range 16).map fun j => (slotLocation g c i j, slotEntry v c i j) := by
  unfold clusterSlots sectorOf sectorSlots
  rw [entriesPerSector_eq hw]
  rfl

/-- A slot after a write into a slot. -/
theorem slotEntry_setBytes (hw : Good g w) {v : View} {c c' i i' j j' n : Nat} {data : Buffer}
    (hc : InVolume g c) (hc' : InVolume g c') (hi : i < g.sectorsPerCluster)
    (hi' : i' < g.sectorsPerCluster) (hj : j < 16) (hj' : j' < 16) (hn : n ≤ 32) :
    slotEntry (v.setBytes c (512 * i + j * 32) n data) c' i' j' =
      if slotLocation g c' i' j' = slotLocation g c i j
      then FatEntryOverwritten n data (slotEntry v c' i' j') else slotEntry v c' i' j' := by
  by_cases hloc : slotLocation g c' i' j' = slotLocation g c i j
  · rw [if_pos hloc]
    apply ofBytes_congr
    intro k hk
    rw [setBytes_byte_slot hj hj' hk hn]
    by_cases hkn : k < n
    · rw [if_pos ⟨slotLocation_inj hw hc' hc hi' hi hloc, hkn⟩, if_pos hkn]
    · rw [if_neg fun h => hkn h.2, if_neg hkn]
      exact (byte_ofBytes (fun k => v.byte c' (512 * i' + (j' * 32 + k))) hk).symm
  · rw [if_neg hloc]
    apply ofBytes_congr
    intro k hk
    rw [setBytes_byte_slot hj hj' hk hn, if_neg]
    rintro ⟨⟨rfl, rfl, rfl⟩, -⟩
    exact hloc rfl

/-- Writing into a slot of a cluster changes that slot, in every cluster's list. -/
theorem clusterSlots_setBytes (hw : Good g w) {v : View} {c c' i j n : Nat} {data : Buffer}
    (hc : InVolume g c) (hc' : InVolume g c') (hi : i < g.sectorsPerCluster) (hj : j < 16)
    (hn : n ≤ 32) :
    clusterSlots g (v.setBytes c (512 * i + j * 32) n data) c' =
      modifySlot (slotLocation g c i j) (FatEntryOverwritten n data) (clusterSlots g v c') := by
  unfold modifySlot
  rw [clusterSlots_eq hw, clusterSlots_eq hw, List.map_flatMap]
  apply List.flatMap_congr
  intro i' hi'
  rw [List.mem_range] at hi'
  rw [List.map_map]
  apply List.map_congr_left
  intro j' hj'
  rw [List.mem_range] at hj'
  rw [slotEntry_setBytes hw hc hc' hi hi' hj hj' hn, Function.comp_apply]
  by_cases hloc : slotLocation g c' i' j' = slotLocation g c i j
  · rw [if_pos hloc, if_pos hloc]
  · rw [if_neg hloc, if_neg hloc]

/-- The same for the list of a directory's slots. -/
theorem dirSlots_setBytes (hw : Good g w) {v : View} {c i j n : Nat} {data : Buffer}
    {cs : List Nat} (hc : InVolume g c) (hcs : ∀ x ∈ cs, InVolume g x)
    (hi : i < g.sectorsPerCluster) (hj : j < 16) (hn : n ≤ 32) :
    dirSlots g (v.setBytes c (512 * i + j * 32) n data) cs =
      modifySlot (slotLocation g c i j) (FatEntryOverwritten n data) (dirSlots g v cs) := by
  have hmap : modifySlot (slotLocation g c i j) (FatEntryOverwritten n data) (dirSlots g v cs) =
      cs.flatMap fun c' =>
        modifySlot (slotLocation g c i j) (FatEntryOverwritten n data) (clusterSlots g v c') :=
    List.map_flatMap
  rw [hmap]
  unfold dirSlots
  apply List.flatMap_congr
  intro c' hc'
  exact clusterSlots_setBytes hw hc (hcs c' hc') hi hj hn

/-- Rewriting a part of a sector of a cluster. -/
theorem wp_rewriteSector (hw : Good g w) {c i offset n : Nat} {data : Buffer} (hc : InVolume g c)
    (hi : i < g.sectorsPerCluster) (hroom : offset + n ≤ 512) {sector : Buffer}
    (hsector : ∀ j < 512, sector j = (viewOf g w).byte c (512 * i + j)) {Q : Bool → World → Prop}
    (hQ : ∀ w', Good g w' → viewOf g w' = (viewOf g w).setBytes c (512 * i + offset) n data →
      Q true w') :
    (writeSectors .directory (add64 (clusterFirstLba g c) i) 1 fun k =>
      if offset ≤ k ∧ k < offset + n then data (k - offset) else sector k).wp
      (deviceHandler g) Q w := by
  apply wp_writeSector hw hc hi
  intro w' hw' hview' _
  apply hQ w' hw'
  rw [hview']
  unfold View.setBytes
  congr 1
  funext c' o
  dsimp only
  by_cases hin : c' = c ∧ 512 * i ≤ o ∧ o < 512 * i + 512
  · rw [if_pos hin]
    obtain ⟨rfl, hlow, hhigh⟩ := hin
    by_cases hpart : offset ≤ o - 512 * i ∧ o - 512 * i < offset + n
    · rw [if_pos hpart, if_pos ⟨rfl, by omega, by omega⟩]
      exact congrArg data (by omega)
    · rw [if_neg hpart, if_neg (by omega), hsector _ (by omega)]
      exact congrArg ((viewOf g w).byte c') (by omega)
  · rw [if_neg hin, if_neg (by omega)]

/-- `write_entry_bytes` writes a slot. -/
theorem wp_writeEntryBytes (hw : Good g w) {c i j : Nat} {data : Buffer} (hc : InVolume g c)
    (hi : i < g.sectorsPerCluster) (hj : j < 16) {Q : Bool → World → Prop}
    (hQ : ∀ w', Good g w' → viewOf g w' = (viewOf g w).setBytes c (512 * i + j * 32) 32 data →
      Q true w') :
    (writeEntryBytes g (slotLocation g c i j) data).wp (deviceHandler g) Q w := by
  unfold writeEntryBytes slotLocation
  dsimp only
  rw [if_neg (by rw [hw.mount.sector]; omega), Program.wp_bind]
  apply wp_readSector hw hc hi
  intro sector hsector
  exact wp_rewriteSector hw hc hi (by omega) hsector hQ

end Rules

end VKernel.Proofs.Fs

import VKernel.Proofs.Fs.Fat32.FreshReads

/-!
# `VKernel.Proofs.Fs.Fat32.Scans`: when a directory scan comes to its end

`scan_directory` and the search of `allocate_directory_slots` go from cluster to cluster for
as long as `Goes` holds. `scanDirectory_settles` is by induction on that: on a directory that
`Ends`, every scan does. On one that does not, a scan with a callback that never stops it runs
for ever (`scanClusters_endless`).
-/

set_option autoImplicit false

namespace VKernel.Proofs.Fs

open VKernel.Lib VKernel.Fs VKernel.Fs.Fat32

variable {g : MountState} {w : World} {β : Type} {callback : β → DirectoryEntryRef → β × Bool}

/-! ### The slots of a cluster -/

/-- A scan that passes some slots has met no end mark. -/
theorem scanSlots_more {slots : List (EntryLocation × FatEntry)} {pending pending' : PendingLfn}
    {state state' : β} (h : scanSlots callback slots pending state = .more pending' state') :
    ∀ slot ∈ slots, slot.2.firstByte ≠ DIR_ENTRY_END := by
  induction slots generalizing pending state with
  | nil => exact fun _ h => by cases h
  | cons slot rest ih =>
    obtain ⟨location, e⟩ := slot
    rw [scanSlots] at h
    by_cases hend : e.firstByte = DIR_ENTRY_END
    · rw [if_pos hend] at h
      cases h
    rw [if_neg hend] at h
    have hrest : ∀ slot ∈ rest, slot.2.firstByte ≠ DIR_ENTRY_END := by
      split at h
      · exact ih h
      split at h
      · exact ih h
      split at h
      · exact ih h
      split at h
      · cases h
      · exact ih h
    intro slot hslot
    rcases List.mem_cons.mp hslot with rfl | hslot
    · exact hend
    · exact hrest slot hslot

/-- A callback that never stops a scan lets it pass all slots in front of an end mark. -/
theorem scanSlots_passes (hcallback : ∀ state e, (callback state e).2 = false)
    {slots : List (EntryLocation × FatEntry)}
    (hslots : ∀ slot ∈ slots, slot.2.firstByte ≠ DIR_ENTRY_END) (pending : PendingLfn) (state : β) :
    ∃ pending' state', scanSlots callback slots pending state = .more pending' state' := by
  induction slots generalizing pending state with
  | nil => exact ⟨pending, state, rfl⟩
  | cons slot rest ih =>
    obtain ⟨location, e⟩ := slot
    have hrest := ih fun slot hslot => hslots slot (.tail _ hslot)
    rw [scanSlots, if_neg (hslots _ (.head _))]
    split
    · exact hrest _ _
    split
    · exact hrest _ _
    split
    · exact hrest _ _
    have hstate := hcallback state (entryRef location e pending)
    split
    · rename_i heq
      rw [heq] at hstate
      cases hstate
    · exact hrest _ _

/-- The sectors of a cluster from `spc - sectors` on. -/
theorem wp_scanSectors_any (c : Nat) (sectors : Nat) (hsectors : sectors ≤ g.sectorsPerCluster)
    (pending : PendingLfn) (state : β) :
    (scanSectors g callback c sectors pending state).wp (deviceHandler g) (fun result w' =>
      w' = w ∧ ∀ pending' state', result = some (.more pending' state') →
        ∀ i, g.sectorsPerCluster - sectors ≤ i → i < g.sectorsPerCluster →
          SectorPassed g w (add64 (clusterFirstLba g c) i)) w := by
  induction sectors generalizing pending state with
  | zero => exact ⟨rfl, fun _ _ _ i hi hi' => by omega⟩
  | succ sectors ih =>
    rw [scanSectors, Program.wp_bind, wp_readSectors_iff]
    cases hread : w.readBlocks
      (add64 (clusterFirstLba g c) (g.sectorsPerCluster - (sectors + 1))) 1 with
    | none => exact ⟨rfl, fun _ _ h => by cases h⟩
    | some sector =>
      dsimp only
      split
      · exact ⟨rfl, fun _ _ h => by cases h⟩
      · rename_i pending' state' hslots
        refine Program.wp_mono (ih (by omega) pending' state') ?_
        rintro result w' ⟨rfl, hpassed⟩
        refine ⟨rfl, fun p s hmore i hi hi' => ?_⟩
        by_cases hfirst : i = g.sectorsPerCluster - (sectors + 1)
        · subst hfirst
          exact ⟨sector, hread, scanSlots_more hslots⟩
        · exact hpassed p s hmore i (by omega) hi'

/-- Sectors that are passed. -/
theorem wp_scanSectors_passed (hcallback : ∀ state e, (callback state e).2 = false) (c : Nat)
    (sectors : Nat) (hsectors : sectors ≤ g.sectorsPerCluster)
    (hpassed : ∀ i < g.sectorsPerCluster, SectorPassed g w (add64 (clusterFirstLba g c) i))
    (pending : PendingLfn) (state : β) :
    (scanSectors g callback c sectors pending state).wp (deviceHandler g) (fun result w' =>
      w' = w ∧ ∃ pending' state', result = some (.more pending' state')) w := by
  induction sectors generalizing pending state with
  | zero => exact ⟨rfl, pending, state, rfl⟩
  | succ sectors ih =>
    obtain ⟨sector, hread, hslots⟩ := hpassed (g.sectorsPerCluster - (sectors + 1)) (by omega)
    obtain ⟨pending', state', hmore⟩ := scanSlots_passes hcallback hslots pending state
    rw [scanSectors, Program.wp_bind, wp_readSectors_iff, hread]
    simp only [hmore]
    exact ih (by omega) pending' state'

/-! ### The clusters of a directory -/

/-- A scan of a directory that ends. By induction on the walk along its links. -/
theorem scanClusters_settles {c : Nat} (hends : Ends g w c) {w₁ : World} (hsame : SameDisk w w₁)
    (hfresh : Fresh g w₁) (pending : PendingLfn) (state : β) :
    Terminates g w₁ fun n => scanClusters g callback n c pending state := by
  induction hends generalizing w₁ pending state with
  | intro c _ ih =>
    apply Program.settles_succ
    simp only [scanClusters]
    refine Program.Settles.bind (Program.settles_of_wp (Program.wp_mono
      (wp_scanSectors_any c g.sectorsPerCluster (Nat.le_refl _) pending state) ?_))
    rintro result w₂ ⟨rfl, hpassed⟩
    match result with
    | none => exact Program.settles_of_wp trivial
    | some (.stop _) => exact Program.settles_of_wp trivial
    | some (.more pending' state') =>
      refine Program.Settles.bind (Program.settles_of_wp (wp_readFatValue_fresh hfresh ?_))
      intro w₃ hsame₃ hfresh₃
      cases hnext : fatValueOf g w₂ c with
      | none => exact Program.settles_of_wp trivial
      | some next =>
        dsimp only
        by_cases hdata : isDataCluster next
        · simp only [hdata, not_true_eq_false, if_false]
          have hgoes : Goes g w₂ c next :=
            ⟨fun i hi => hpassed pending' state' rfl i (by omega) hi, hnext, hdata⟩
          exact ih next (hsame.symm.goes hgoes) (hsame.trans hsame₃) hfresh₃ pending' state'
        · simp only [hdata, not_false_eq_true, if_true]
          exact Program.settles_of_wp trivial

/-- A scan of a directory that does not end, with a callback that never stops it. -/
theorem scanClusters_endless (hcallback : ∀ state e, (callback state e).2 = false) (n : Nat)
    {c : Nat} (hends : ¬ Ends g w c) {w₁ : World} (hsame : SameDisk w w₁) (hfresh : Fresh g w₁)
    (pending : PendingLfn) (state : β) :
    (scanClusters g callback n c pending state).run (deviceHandler g) w₁ = none := by
  induction n generalizing c w₁ pending state with
  | zero => rfl
  | succ n ih =>
    -- A directory that does not end goes on to a cluster from which it does not end either.
    obtain ⟨next, hgoes, hnext⟩ : ∃ next, Goes g w c next ∧ ¬ Ends g w next := by
      by_contra hall
      exact hends (.intro c fun next hgoes => by_contra fun hnot => hall ⟨next, hgoes, hnot⟩)
    have hgoes₁ := hsame.goes hgoes
    obtain ⟨result, w₂, hrun, rfl, pending', state', rfl⟩ := Program.wp_iff_run.mp
      (wp_scanSectors_passed hcallback c g.sectorsPerCluster (Nat.le_refl _) hgoes₁.passed
        pending state)
    have hvalue : (readFatValue g c).wp (deviceHandler g)
        (fun value w' => value = some next ∧ SameDisk w₂ w' ∧ Fresh g w') w₂ := by
      apply wp_readFatValue_fresh hfresh
      exact fun w' hdisk hfresh' => ⟨hgoes₁.link, hdisk, hfresh'⟩
    obtain ⟨value, w₃, hread, rfl, hsame₃, hfresh₃⟩ := Program.wp_iff_run.mp hvalue
    rw [scanClusters, Program.run_bind hrun]
    dsimp only
    rw [Program.run_bind hread]
    dsimp only
    rw [if_neg (not_not_intro hgoes.data)]
    exact ih hnext (hsame.trans hsame₃) hfresh₃ pending' state'

end VKernel.Proofs.Fs

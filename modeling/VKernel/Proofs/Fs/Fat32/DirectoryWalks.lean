import VKernel.Proofs.Fs.Fat32.Scans

/-!
# `VKernel.Proofs.Fs.Fat32.DirectoryWalks`: lookups on directories that end

A lookup reads only, so it keeps the disk and a fresh cache (`settles_reads`), and the next
one finds what `Finds` says. `resolveComponents_settles` goes along the components of a path
and stays in the directories of the volume.
-/

set_option autoImplicit false

namespace VKernel.Proofs.Fs

open VKernel.Lib VKernel.Fs VKernel.Fs.Fat32

variable {g : MountState} {w w₁ : World} {β : Type}

/-! ### Scans only read -/

/-- A scan of the sectors of a cluster only reads. -/
theorem asks_scanSectors (callback : β → DirectoryEntryRef → β × Bool) (c sectors : Nat)
    (pending : PendingLfn) (state : β) :
    (scanSectors g callback c sectors pending state).Asks IsRead := by
  induction sectors generalizing pending state with
  | zero => exact trivial
  | succ sectors ih =>
    refine .bind (asks_readSectors _ _) fun sector => ?_
    cases sector with
    | none => exact trivial
    | some sector =>
      dsimp only
      split
      · exact trivial
      · exact ih _ _

/-- So does a scan of the clusters. -/
theorem asks_scanClusters (callback : β → DirectoryEntryRef → β × Bool) (n c : Nat)
    (pending : PendingLfn) (state : β) :
    (scanClusters g callback n c pending state).Asks IsRead := by
  induction n generalizing c pending state with
  | zero => exact trivial
  | succ n ih =>
    refine .bind (asks_scanSectors callback c _ pending state) fun result => ?_
    match result with
    | none => exact trivial
    | some (.stop _) => exact trivial
    | some (.more pending' state') =>
      refine .bind (asks_readFatValue c) fun next => ?_
      cases next with
      | none => exact trivial
      | some next =>
        dsimp only
        split
        · exact trivial
        · exact ih _ _ _

/-- So does `scan_directory`. -/
theorem asks_scanDirectory (n c : Nat) (callback : β → DirectoryEntryRef → β × Bool) (state : β) :
    (scanDirectory g n c callback state).Asks IsRead := by
  unfold scanDirectory
  split
  · exact trivial
  split
  · exact trivial
  · exact asks_scanClusters callback n c [] state

/-- So does `find_in_directory`. -/
theorem asks_findInDirectory (n c : Nat) (name : List UInt8) :
    (findInDirectory g n c name).Asks IsRead :=
  .bind (asks_scanDirectory n c _ none) fun _ => trivial

/-! ### Scans end -/

/-- A directory that a scan comes to the end of, or that has no data cluster. -/
def ScanEnds (g : MountState) (w : World) (c : Nat) : Prop := isDataCluster c → Ends g w c

section Scans

variable {c : Nat} (hends : ScanEnds g w c) (hsame : SameDisk w w₁) (hfresh : Fresh g w₁)

include hends hsame hfresh

/-- `scan_directory` ends on a chain that ends, and changes nothing. -/
theorem scanDirectory_settles (callback : β → DirectoryEntryRef → β × Bool) (state : β) :
    Program.Settles (deviceHandler g) (fun n => scanDirectory g n c callback state) w₁
      fun _ w' => SameDisk w w' ∧ Fresh g w' := by
  have hscan : Terminates g w₁ fun n => scanDirectory g n c callback state := by
    unfold scanDirectory
    by_cases hlow : c < 2
    · simp only [if_pos hlow]
      exact Program.settles_of_wp trivial
    simp only [if_neg hlow]
    by_cases hend : c ≥ FAT32_END_OF_CHAIN
    · simp only [if_pos hend]
      exact Program.settles_of_wp trivial
    simp only [if_neg hend]
    exact scanClusters_settles (hends ⟨by omega, by omega⟩) hsame hfresh [] state
  refine (settles_reads (fun n => asks_scanDirectory n c callback state) hfresh hscan).mono ?_
  exact fun _ w' h => ⟨hsame.trans h.2.1, h.2.2⟩

/-- So does `find_in_directory`. -/
theorem findInDirectory_settles (name : List UInt8) :
    Program.Settles (deviceHandler g) (fun n => findInDirectory g n c name) w₁
      fun _ w' => SameDisk w w' ∧ Fresh g w' := by
  unfold findInDirectory
  refine Program.Settles.bind (Program.Settles.mono
    (scanDirectory_settles hends hsame hfresh (findCallback name) none) ?_)
  exact fun _ w' h => Program.settles_of_wp h

/-- So does `sfn_exists`. -/
theorem sfnExists_settles (shortName : List UInt8) :
    Program.Settles (deviceHandler g) (fun n => sfnExists g n c shortName) w₁
      fun _ w' => SameDisk w w' ∧ Fresh g w' := by
  unfold sfnExists
  refine Program.Settles.bind (Program.Settles.mono
    (scanDirectory_settles hends hsame hfresh _ false) ?_)
  exact fun _ w' h => Program.settles_of_wp h

end Scans

/-! ### Paths -/

/-- The components of a path are not empty and have no separators. -/
theorem componentsFrom_mem {current path : List UInt8}
    (hcurrent : ∀ ch ∈ current, isSeparator ch = false) :
    ∀ component ∈ componentsFrom current path,
      component ≠ [] ∧ ∀ ch ∈ component, isSeparator ch = false := by
  induction path generalizing current with
  | nil =>
    rw [componentsFrom]
    split
    · exact fun _ h => by cases h
    · rename_i hne
      intro component hmem
      rw [List.mem_singleton.mp hmem]
      exact ⟨hne, hcurrent⟩
  | cons ch rest ih =>
    have hempty : ∀ ch ∈ ([] : List UInt8), isSeparator ch = false := fun _ h => by cases h
    rw [componentsFrom]
    split
    · split
      · exact ih hempty
      · rename_i hne
        intro component hmem
        rcases List.mem_cons.mp hmem with rfl | hmem
        · exact ⟨hne, hcurrent⟩
        · exact ih hempty component hmem
    · rename_i hch
      refine ih fun x hx => ?_
      rcases List.mem_append.mp hx with hx | hx
      · exact hcurrent x hx
      · rw [List.mem_singleton.mp hx]
        exact Bool.eq_false_iff.mpr hch

/-- A component is not empty and has no separator. -/
theorem pathComponents_mem {path component : List UInt8} (h : component ∈ pathComponents path) :
    component ≠ [] ∧ ∀ ch ∈ component, isSeparator ch = false :=
  componentsFrom_mem (fun _ h => by cases h) component h

/-- What a lookup leaves: an entry of a directory is one of a directory of the volume, and
nothing was written. -/
structure LookedUp (g : MountState) (w : World) (found : Option DirectoryEntryRef) (w' : World) :
    Prop where
  reaches : ∀ e, found = some e → e.entry.isDirectory = true → 2 ≤ e.entry.firstCluster →
    ReachesDirectory g w e.entry.firstCluster
  same : SameDisk w w'
  fresh : Fresh g w'

section Lookups

variable (hends : DirectoriesEnd g w)

include hends

/-- A component that is looked up in a directory of the volume. -/
theorem findInDirectory_reaches (hsame : SameDisk w w₁) (hfresh : Fresh g w₁) {c : Nat}
    (hc : ReachesDirectory g w c) {name : List UInt8} (hname : IsComponent name) :
    Program.Settles (deviceHandler g) (fun n => findInDirectory g n c name) w₁ (LookedUp g w) := by
  obtain ⟨found, w', hrun, hkeeps⟩ := findInDirectory_settles (hends c hc) hsame hfresh name
  refine ⟨found, w', hrun, ?_, hkeeps.1, hkeeps.2⟩
  rintro e rfl hdir hfirst
  exact .entry hc hname ⟨w₁, hsame, hfresh, some e, w', hrun, rfl⟩ hdir hfirst

/-- The components of a path, from a directory of the volume on. -/
theorem resolveComponents_settles {components : List (List UInt8)}
    (hcomponents : ∀ component ∈ components,
      component ≠ [] ∧ ∀ ch ∈ component, isSeparator ch = false)
    (hsame : SameDisk w w₁) (hfresh : Fresh g w₁) {c : Nat} (hc : ReachesDirectory g w c) :
    Program.Settles (deviceHandler g) (fun n => resolveComponents g n c components) w₁
      (LookedUp g w) := by
  induction components generalizing w₁ c with
  | nil => exact Program.settles_of_wp ⟨fun _ h => (by cases h), hsame, hfresh⟩
  | cons component rest ih =>
    have hrest := fun d hd => hcomponents d (.tail _ hd)
    simp only [resolveComponents]
    by_cases hdot : component = ['.'.toUInt8]
    · simp only [if_pos hdot]
      exact ih hrest hsame hfresh hc
    simp only [if_neg hdot]
    have hname : IsComponent component :=
      ⟨(hcomponents component (.head _)).1, hdot, (hcomponents component (.head _)).2⟩
    refine Program.Settles.bind (Program.Settles.mono
      (findInDirectory_reaches hends hsame hfresh hc hname) ?_)
    intro found w' hfound
    have hnone : LookedUp g w none w' := ⟨fun _ h => (by cases h), hfound.same, hfound.fresh⟩
    cases found with
    | none => exact Program.settles_of_wp hnone
    | some e =>
      dsimp only
      by_cases hlast : rest = []
      · simp only [if_pos hlast]
        exact Program.settles_of_wp hfound
      simp only [if_neg hlast]
      cases hdir : e.entry.isDirectory with
      | false => exact Program.settles_of_wp hnone
      | true =>
        simp only [Bool.not_true, Bool.false_eq_true, if_false]
        by_cases hlow : e.entry.firstCluster < 2
        · simp only [if_pos hlow]
          exact Program.settles_of_wp hnone
        · simp only [if_neg hlow]
          exact ih hrest hfound.same hfound.fresh (hfound.reaches e rfl hdir (by omega))

/-- Resolving a path ends. -/
theorem resolvePath_settles (hsame : SameDisk w w₁) (hfresh : Fresh g w₁) (path : List UInt8) :
    Program.Settles (deviceHandler g) (fun n => resolvePath g n path) w₁ (LookedUp g w) := by
  unfold resolvePath
  dsimp only
  split
  · exact Program.settles_of_wp ⟨fun _ h => (by cases h), hsame, hfresh⟩
  · exact resolveComponents_settles hends (fun _ h => pathComponents_mem h) hsame hfresh .root

/-- The directory that a new entry goes to is one of the volume, or has no cluster. -/
theorem resolveParentDirectory_settles (hsame : SameDisk w w₁) (hfresh : Fresh g w₁)
    (path : List UInt8) :
    Program.Settles (deviceHandler g) (fun n => resolveParentDirectory g n path) w₁
      fun parent w' => (∀ c leaf, parent = some (c, leaf) → ScanEnds g w c) ∧
        SameDisk w w' ∧ Fresh g w' := by
  have hnone : ∀ w', SameDisk w w' → Fresh g w' →
      (∀ c leaf, (none : Option (Nat × List UInt8)) = some (c, leaf) → ScanEnds g w c) ∧
        SameDisk w w' ∧ Fresh g w' := fun w' hs hf => ⟨fun _ _ h => (by cases h), hs, hf⟩
  unfold resolveParentDirectory
  dsimp only
  split
  · exact Program.settles_of_wp (hnone w₁ hsame hfresh)
  split
  · exact Program.settles_of_wp (hnone w₁ hsame hfresh)
  split
  · split
    · exact Program.settles_of_wp (hnone w₁ hsame hfresh)
    · refine Program.settles_of_wp ⟨fun c leaf h => ?_, hsame, hfresh⟩
      cases h
      exact hends _ .root
  refine Program.Settles.bind (Program.Settles.mono (resolvePath_settles hends hsame hfresh _) ?_)
  intro found w' hfound
  cases found with
  | none => exact Program.settles_of_wp (hnone w' hfound.same hfound.fresh)
  | some parent =>
    dsimp only
    cases hdir : parent.entry.isDirectory with
    | false => exact Program.settles_of_wp (hnone w' hfound.same hfound.fresh)
    | true =>
      simp only [Bool.not_true, Bool.false_eq_true, if_false]
      split
      · exact Program.settles_of_wp (hnone w' hfound.same hfound.fresh)
      · refine Program.settles_of_wp ⟨fun c leaf h hdata => ?_, hfound.same, hfound.fresh⟩
        cases h
        exact hends _ (hfound.reaches parent rfl hdir hdata.1) hdata

/-- Resolving a directory ends, at a directory that a scan ends on. -/
theorem resolveDirectoryCluster_settles (hsame : SameDisk w w₁) (hfresh : Fresh g w₁)
    (path : List UInt8) :
    Program.Settles (deviceHandler g) (fun n => resolveDirectoryCluster g n path) w₁
      fun found w' => (∀ c, found = some c → ScanEnds g w c) ∧ SameDisk w w' ∧ Fresh g w' := by
  unfold resolveDirectoryCluster
  dsimp only
  split
  · refine Program.settles_of_wp ⟨fun c h => ?_, hsame, hfresh⟩
    split at h
    · cases h
      exact hends _ .root
    · cases h
  refine Program.Settles.bind
    (Program.Settles.mono (resolvePath_settles hends hsame hfresh path) ?_)
  intro found w' hfound
  cases found with
  | none => exact Program.settles_of_wp ⟨fun _ h => (by cases h), hfound.same, hfound.fresh⟩
  | some e =>
    dsimp only
    cases hdir : e.entry.isDirectory with
    | false => exact Program.settles_of_wp ⟨fun _ h => (by cases h), hfound.same, hfound.fresh⟩
    | true =>
      refine Program.settles_of_wp ⟨fun c h hdata => ?_, hfound.same, hfound.fresh⟩
      split at h
      · cases h
        exact hends _ (hfound.reaches e rfl hdir hdata.1) hdata
      · cases h

end Lookups

end VKernel.Proofs.Fs

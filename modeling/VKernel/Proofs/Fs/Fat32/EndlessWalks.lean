import VKernel.Proofs.Fs.Fat32.DirectoryWalks

/-!
# `VKernel.Proofs.Fs.Fat32.EndlessWalks`: walks that do not end

Every directory of the volume is what a path resolves to (`reaches_path`). When it does not
end, `list_directory` of this path never returns to a caller who wants all entries. And when the
counter of `allocate_cluster` cannot get behind `max_cluster`, a FAT without a free entry is
searched for ever.
-/

set_option autoImplicit false

namespace VKernel.Proofs.Fs

open VKernel.Lib VKernel.Fs VKernel.Fs.Fat32

variable {g : MountState} {w : World}

/-! ### The path of some names -/

/-- The names with a separator in front of each. -/
def pathOf (names : List (List UInt8)) : List UInt8 := names.flatMap fun name => '/'.toUInt8 :: name

theorem pathOf_cons (name : List UInt8) (names : List (List UInt8)) :
    pathOf (name :: names) = '/'.toUInt8 :: (name ++ pathOf names) := rfl

theorem componentsFrom_append {name : List UInt8} (hname : ∀ ch ∈ name, isSeparator ch = false)
    (current rest : List UInt8) :
    componentsFrom current (name ++ rest) = componentsFrom (current ++ name) rest := by
  induction name generalizing current with
  | nil => rw [List.nil_append, List.append_nil]
  | cons ch name ih =>
    rw [List.cons_append, componentsFrom, hname ch (.head _)]
    show componentsFrom (current ++ [ch]) (name ++ rest) = _
    rw [ih fun x hx => hname x (.tail _ hx), List.append_assoc, List.singleton_append]

/-- The components of a path of names are the names. -/
theorem componentsFrom_pathOf {names : List (List UInt8)}
    (hnames : ∀ name ∈ names, IsComponent name)
    {current : List UInt8} (hcurrent : current ≠ []) :
    componentsFrom current (pathOf names) = current :: names := by
  induction names generalizing current with
  | nil =>
    show componentsFrom current [] = [current]
    rw [componentsFrom, if_neg hcurrent]
  | cons name names ih =>
    have hname := hnames name (.head _)
    have hsep : isSeparator '/'.toUInt8 = true := by decide
    rw [pathOf_cons, componentsFrom, if_pos hsep, if_neg hcurrent,
      componentsFrom_append hname.2.2, List.nil_append,
      ih (fun x hx => hnames x (.tail _ hx)) hname.1]

/-- A path that does not end in a separator. -/
theorem trimTrailingSeparators_of_last {path : List UInt8} {ch : UInt8}
    (hch : isSeparator ch = false) : trimTrailingSeparators (path ++ [ch]) = path ++ [ch] := by
  have hkept : ((path ++ [ch]).reverse.dropWhile isSeparator).reverse = path ++ [ch] := by
    rw [List.reverse_append, List.reverse_singleton, List.singleton_append, List.dropWhile_cons,
      hch, if_neg (by decide), List.reverse_cons, List.reverse_reverse]
  unfold trimTrailingSeparators
  rw [hkept]
  dsimp only
  rw [if_neg (by simp)]

/-- A path of names ends in the last character of the last name. -/
theorem name_pathOf_last {name : List UInt8} {names : List (List UInt8)} (hname : IsComponent name)
    (hnames : ∀ name ∈ names, IsComponent name) :
    ∃ path ch, name ++ pathOf names = path ++ [ch] ∧ isSeparator ch = false := by
  induction names generalizing name with
  | nil =>
    refine ⟨name.dropLast, name.getLast hname.1, ?_, hname.2.2 _ (List.getLast_mem hname.1)⟩
    show name ++ [] = _
    rw [List.append_nil, List.dropLast_concat_getLast]
  | cons next names ih =>
    obtain ⟨path, ch, hpath, hch⟩ := ih (hnames next (.head _)) fun x hx => hnames x (.tail _ hx)
    refine ⟨name ++ '/'.toUInt8 :: path, ch, ?_, hch⟩
    rw [pathOf_cons, hpath, List.append_assoc, List.cons_append]

section Round

variable {name : List UInt8} {names : List (List UInt8)} (hname : IsComponent name)
  (hnames : ∀ name ∈ names, IsComponent name)

include hname

theorem dropWhile_pathOf :
    (pathOf (name :: names)).dropWhile isSeparator = name ++ pathOf names := by
  obtain ⟨a, rest, rfl⟩ := List.exists_cons_of_ne_nil hname.1
  have ha := hname.2.2 a (.head _)
  rw [pathOf_cons, List.dropWhile_cons, if_pos (by decide), List.cons_append, List.dropWhile_cons,
    ha, if_neg (by decide)]

include hnames

theorem cleanPath_pathOf : cleanPath (pathOf (name :: names)) = pathOf (name :: names) := by
  obtain ⟨path, ch, hpath, hch⟩ := name_pathOf_last hname hnames
  have hnormal : Fat32.normalizePath (pathOf (name :: names)) = pathOf (name :: names) := by
    obtain ⟨a, rest, rfl⟩ := List.exists_cons_of_ne_nil hname.1
    show dropDotPrefix ('/'.toUInt8 :: a :: (rest ++ pathOf names)) = _
    rw [dropDotPrefix, if_neg fun h => absurd h.1 (by decide)]
    rfl
  unfold cleanPath
  rw [hnormal, pathOf_cons, hpath, ← List.cons_append, trimTrailingSeparators_of_last hch]

theorem cleanPath_name : cleanPath (name ++ pathOf names) = name ++ pathOf names := by
  obtain ⟨path, ch, hpath, hch⟩ := name_pathOf_last hname hnames
  have hnormal : Fat32.normalizePath (name ++ pathOf names) = name ++ pathOf names := by
    show dropDotPrefix (name ++ pathOf names) = _
    match name, hname with
    | [a], ⟨_, hdot, _⟩ =>
      have ha : a ≠ '.'.toUInt8 := fun h => hdot (by rw [h])
      cases names with
      | nil => rfl
      | cons next names =>
        show dropDotPrefix (a :: '/'.toUInt8 :: (next ++ pathOf names)) = _
        rw [dropDotPrefix, if_neg fun h => ha h.1]
        rfl
    | a :: b :: rest, ⟨_, _, hsep⟩ =>
      have hb := hsep b (.tail _ (.head _))
      show dropDotPrefix (a :: b :: (rest ++ pathOf names)) = _
      rw [dropDotPrefix, if_neg fun h => by rw [hb] at h; exact absurd h.2 (by decide)]
      rfl
  unfold cleanPath
  rw [hnormal, hpath, trimTrailingSeparators_of_last hch]

/-- `resolve_path` takes the names out of their path. -/
theorem resolvePath_pathOf (n : Nat) :
    resolvePath g n (pathOf (name :: names)) =
      resolveComponents g n g.logicalRootCluster (name :: names) := by
  have hne : name ++ pathOf names ≠ [] := fun h => hname.1 (List.append_eq_nil_iff.mp h).1
  unfold resolvePath resolvePathFromCluster pathComponents
  rw [cleanPath_pathOf hname hnames, dropWhile_pathOf hname]
  dsimp only
  rw [if_neg hne, cleanPath_name hname hnames, componentsFrom_append hname.2.2, List.nil_append,
    componentsFrom_pathOf hnames hname.1]

end Round

/-! ### The directories of the volume -/

/-- One more name at the end of a path that leads to a directory. -/
theorem resolveComponents_append {n c : Nat} {names : List (List UInt8)} {name : List UInt8}
    (hne : names ≠ []) (hnames : ∀ name ∈ names, IsComponent name) {w w₁ : World}
    {e : DirectoryEntryRef}
    (hrun : (resolveComponents g n c names).run (deviceHandler g) w = some (some e, w₁))
    (hdir : e.entry.isDirectory = true) (hfirst : 2 ≤ e.entry.firstCluster) :
    (resolveComponents g n c (names ++ [name])).run (deviceHandler g) w =
      (resolveComponents g n e.entry.firstCluster [name]).run (deviceHandler g) w₁ := by
  induction names generalizing c w with
  | nil => exact absurd rfl hne
  | cons component rest ih =>
    have hdot := (hnames component (.head _)).2.1
    have hnonempty : rest ++ [name] ≠ [] := by simp
    rw [resolveComponents, if_neg hdot] at hrun
    obtain ⟨found, w₂, hfind, hrun⟩ := Program.run_bind_eq_some hrun
    rw [List.cons_append, resolveComponents, if_neg hdot, Program.run_bind hfind]
    cases found with
    | none => cases hrun
    | some e' =>
      dsimp only at hrun ⊢
      rw [if_neg hnonempty]
      by_cases hlast : rest = []
      · subst hlast
        rw [if_pos rfl] at hrun
        cases hrun
        rw [hdir, if_neg (by decide), if_neg (by omega), List.nil_append]
      · rw [if_neg hlast] at hrun
        cases hdir' : e'.entry.isDirectory with
        | false =>
          rw [hdir'] at hrun
          cases hrun
        | true =>
          rw [hdir', if_neg (by decide)] at hrun
          rw [if_neg (by decide)]
          by_cases hlow : e'.entry.firstCluster < 2
          · rw [if_pos hlow] at hrun
            cases hrun
          · rw [if_neg hlow] at hrun ⊢
            exact ih hlast (fun x hx => hnames x (.tail _ hx)) hrun

/-- The names resolve to a directory with this first cluster, on every state that has the disk
and a fresh cache. -/
def ResolvesTo (g : MountState) (w : World) (names : List (List UInt8)) (c : Nat) : Prop :=
  ∃ n₀, ∀ n, n₀ ≤ n → ∀ w', SameDisk w w' → Fresh g w' → ∃ e w₁,
    (resolveComponents g n g.logicalRootCluster names).run (deviceHandler g) w' =
      some (some e, w₁) ∧
      e.entry.isDirectory = true ∧ e.entry.firstCluster = c ∧ SameDisk w' w₁ ∧ Fresh g w₁

/-- A name that is found resolves to its entry. -/
theorem resolveComponents_singleton {n c : Nat} {name : List UInt8} (hname : IsComponent name)
    {w w₁ : World} {e : DirectoryEntryRef}
    (hfind : (findInDirectory g n c name).run (deviceHandler g) w = some (some e, w₁)) :
    (resolveComponents g n c [name]).run (deviceHandler g) w = some (some e, w₁) := by
  rw [resolveComponents, if_neg hname.2.1, Program.run_bind hfind]
  rfl

/-- A directory that is reached has a path of names. -/
theorem reaches_path {c : Nat} (hc : ReachesDirectory g w c) :
    c = g.logicalRootCluster ∨ 2 ≤ c ∧ ∃ name names, IsComponent name ∧
      (∀ name ∈ names, IsComponent name) ∧ ResolvesTo g w (name :: names) c := by
  induction hc with
  | root => exact .inl rfl
  | @entry c name e _ hname hfind hdir hfirst ih =>
    obtain ⟨w₀, hsame₀, hfresh₀, hsettles⟩ := hfind
    obtain ⟨n₁, hfind⟩ := run_of_settles (fun n => asks_findInDirectory n c name) hfresh₀ hsettles
    refine .inr ⟨hfirst, ?_⟩
    rcases ih with rfl | ⟨hlow, first, names, hfirst', hnames, n₂, hresolve⟩
    · refine ⟨name, [], hname, fun _ h => (by cases h), n₁, fun n hn w' hsame hfresh => ?_⟩
      obtain ⟨w₁, hrun, hkeeps⟩ := hfind n hn w' (hsame₀.symm.trans hsame) hfresh
      exact ⟨e, w₁, resolveComponents_singleton hname hrun, hdir, rfl, hkeeps⟩
    · refine ⟨first, names ++ [name], hfirst', fun x hx => ?_, max n₁ n₂,
        fun n hn w' hsame hfresh => ?_⟩
      · rcases List.mem_append.mp hx with hx | hx
        · exact hnames x hx
        · rw [List.mem_singleton.mp hx]
          exact hname
      · obtain ⟨e₂, w₂, hrun₂, hdir₂, rfl, hsame₂, hfresh₂⟩ := hresolve n (by omega) w' hsame hfresh
        obtain ⟨w₁, hrun, hsame₁, hfresh₁⟩ :=
          hfind n (by omega) w₂ (hsame₀.symm.trans (hsame.trans hsame₂)) hfresh₂
        have hall : ∀ x ∈ first :: names, IsComponent x := by
          intro x hx
          rcases List.mem_cons.mp hx with rfl | hx
          · exact hfirst'
          · exact hnames x hx
        refine ⟨e, w₁, ?_, hdir, rfl, hsame₂.trans hsame₁, hfresh₁⟩
        have hstep := @resolveComponents_append g n _ (first :: names) name (by simp) hall _ _ _
          hrun₂ hdir₂ hlow
        rw [List.cons_append] at hstep
        rw [hstep, resolveComponents_singleton hname hrun]

/-! ### Listing it -/

/-- A path that `resolve_directory_cluster` takes to the directory. -/
theorem exists_path {c : Nat} (hroot : 2 ≤ g.logicalRootCluster) (hc : ReachesDirectory g w c) :
    ∃ path n₀, ∀ n, n₀ ≤ n → ∀ w', SameDisk w w' → Fresh g w' → ∃ w₁,
      (resolveDirectoryCluster g n path).run (deviceHandler g) w' = some (some c, w₁) ∧
        SameDisk w' w₁ ∧ Fresh g w₁ := by
  rcases reaches_path hc with rfl | ⟨hlow, name, names, hname, hnames, n₀, hresolve⟩
  · refine ⟨[], 0, fun n _ w' _ hfresh => ⟨w', ?_, SameDisk.refl w', hfresh⟩⟩
    unfold resolveDirectoryCluster
    dsimp only
    rw [if_pos (show cleanPath [] = [] ∨ _ from Or.inl rfl), if_pos hroot]
    rfl
  · refine ⟨pathOf (name :: names), n₀, fun n hn w' hsame hfresh => ?_⟩
    obtain ⟨e, w₁, hrun, hdir, rfl, hkeeps⟩ := hresolve n hn w' hsame hfresh
    refine ⟨w₁, ?_, hkeeps⟩
    have hpath : ¬ (pathOf (name :: names) = [] ∨ pathOf (name :: names) = ['.'.toUInt8] ∨
        (pathOf (name :: names)).dropWhile isSeparator = []) := by
      rw [dropWhile_pathOf hname, pathOf_cons]
      rintro (h | h | h)
      · cases h
      · injection h with hslash
        exact absurd hslash (by decide)
      · exact hname.1 (List.append_eq_nil_iff.mp h).1
    unfold resolveDirectoryCluster
    rw [cleanPath_pathOf hname hnames]
    dsimp only
    rw [if_neg hpath, resolvePath_pathOf hname hnames, Program.run_bind hrun]
    dsimp only
    rw [hdir, if_neg (by decide), if_pos hlow]
    rfl

/-- A caller that wants all entries. -/
def listAll (state : Unit) (_ : DirectoryEntryInfo) : Unit × Bool := (state, false)

theorem listCallback_listAll (state : Unit) (e : DirectoryEntryRef) :
    (listCallback listAll state e).2 = false := by
  unfold listCallback
  split
  · rfl
  · rfl

/-- Listing a directory whose chain does not end runs out of any fuel. -/
theorem run_listDirectory_endless {n c : Nat} {path : List UInt8} {w₁ : World}
    (hmounted : g.mounted = true) (hdata : isDataCluster c) (hends : ¬ Ends g w c)
    (hresolve : (resolveDirectoryCluster g n path).run (deviceHandler g) w = some (some c, w₁))
    (hsame : SameDisk w w₁) (hfresh : Fresh g w₁) :
    (listDirectory g n path listAll ()).run (deviceHandler g) w = none := by
  unfold listDirectory
  rw [hmounted, if_neg (by decide), Program.run_bind hresolve]
  dsimp only
  unfold scanDirectory
  rw [if_neg (Nat.not_lt.mpr hdata.1), if_neg (Nat.not_le.mpr hdata.2)]
  exact scanClusters_endless listCallback_listAll n hends hsame hfresh [] ()

/-- Some call of `list_directory` does not end on a directory that does not. -/
theorem listDirectory_endless {c : Nat} (hmounted : g.mounted = true)
    (hroot : 2 ≤ g.logicalRootCluster) (hfresh : Fresh g w) (hc : ReachesDirectory g w c)
    (hdata : isDataCluster c) (hends : ¬ Ends g w c) :
    ∃ path, ¬ Terminates g w fun n => listDirectory g n path listAll () := by
  obtain ⟨path, n₀, hpath⟩ := exists_path hroot hc
  refine ⟨path, ?_⟩
  rintro ⟨result, w', ⟨n₁, hrun⟩, -⟩
  obtain ⟨w₁, hresolve, hsame₁, hfresh₁⟩ := hpath (max n₀ n₁) (by omega) w (SameDisk.refl w) hfresh
  have hnone := run_listDirectory_endless hmounted hdata hends hresolve hsame₁ hfresh₁
  rw [hrun (max n₀ n₁) (by omega)] at hnone
  cases hnone

/-- A cluster that is its own next one. -/
theorem not_ends_of_goes {c : Nat} (h : Goes g w c c) : ¬ Ends g w c := by
  intro hends
  induction hends with
  | intro c _ ih => exact ih c h h

/-! ### A full FAT -/

/-- The entry of every cluster can be read and is in use. -/
def FatFull (g : MountState) (w : World) : Prop := ∀ c, ∃ v, fatValueOf g w c = some v ∧ v ≠ 0

/-- A pass up to the largest `u32` over a full FAT has no end, whatever the rounds. -/
theorem run_searchCluster_endless (hfull : FatFull g w) (rounds : Nat) {c : Nat} (hc : c < 2 ^ 32)
    {w₁ : World} (hsame : SameDisk w w₁) (hfresh : Fresh g w₁) :
    (searchCluster g (2 ^ 32 - 1) rounds c).run (deviceHandler g) w₁ = none := by
  induction rounds generalizing c w₁ with
  | zero => rfl
  | succ rounds ih =>
    obtain ⟨v, hvalue, hv⟩ := hfull c
    obtain ⟨value, w₂, hread, rfl, hsame₂, hfresh₂⟩ := Program.wp_iff_run.mp
      (wp_readFatValue_fresh hfresh (c := c)
        (Q := fun value w' => value = fatValueOf g w₁ c ∧ SameDisk w₁ w' ∧ Fresh g w')
        fun w' hsame' hfresh' => ⟨rfl, hsame', hfresh'⟩)
    rw [searchCluster, if_neg (by omega), Program.run_bind hread, hsame.fatValueOf, hvalue]
    dsimp only
    rw [if_pos hv]
    exact ih (Nat.mod_lt _ (by decide)) (hsame.trans hsame₂) hfresh₂

/-- So `allocate_cluster` does not come back when its counter cannot get behind
`max_cluster`. -/
theorem run_allocateCluster_endless (hcounter : ¬ CounterPasses g) (hfull : FatFull g w)
    (hfresh : Fresh g w) : (allocateCluster g).run (deviceHandler g) w = none := by
  have hmax : (g.totalClusters + 1) % 2 ^ 32 = 2 ^ 32 - 1 := Decidable.not_not.mp hcounter
  have hinfo : getFreeInfo.run (deviceHandler g) w = some (w.free, w) := rfl
  have hstart : startCluster (2 ^ 32 - 1) w.free.nextFreeClusterHint < 2 ^ 32 := by
    unfold startCluster
    split <;> omega
  unfold allocateCluster
  rw [hmax, Program.run_bind hinfo]
  dsimp only
  rw [Program.run_bind_eq, run_searchCluster_endless hfull SEARCH_ROUNDS hstart (SameDisk.refl w)
    hfresh]
  rfl

end VKernel.Proofs.Fs

import VKernel.Fs.Fat32.Paths
import VKernel.Proofs.Fs.Fat32.EndlessWalks
import VKernel.Proofs.Fs.Fat32.Termination

/-!
# `VKernel.Proofs.Fs.Fat32.Paths`: when the two readings of a path agree

What the normalization of a path drops does not change its components, up to leading ones that
are `.`; so `resolve_path` is a walk over the components (`resolvePath_eq`). The split of
`resolve_parent_directory` takes off the last component, and resolves the rest by the same
walk. `pathsAgree_iff` compares the two.
-/

set_option autoImplicit false

namespace VKernel.Proofs.Fs

open VKernel.Lib VKernel.Fs VKernel.Fs.Fat32

/-! ### Components -/

/-- The component `.`. -/
abbrev dot : List UInt8 := ['.'.toUInt8]

/-- A separator ends a component. -/
theorem componentsFrom_sep (current a b : List UInt8) {s : UInt8} (hs : isSeparator s = true) :
    componentsFrom current (a ++ s :: b) = componentsFrom current a ++ componentsFrom [] b := by
  induction a generalizing current with
  | nil =>
    simp only [List.nil_append, componentsFrom, if_pos hs]
    split
    · rfl
    · rfl
  | cons ch a ih =>
    rw [List.cons_append, componentsFrom, componentsFrom]
    split
    · split
      · exact ih []
      · rw [ih [], List.cons_append]
    · exact ih _

theorem pathComponents_sep (a b : List UInt8) {s : UInt8} (hs : isSeparator s = true) :
    pathComponents (a ++ s :: b) = pathComponents a ++ pathComponents b :=
  componentsFrom_sep [] a b hs

/-- A text without separators is one component. -/
theorem pathComponents_leaf {leaf : List UInt8} (hleaf : ∀ ch ∈ leaf, isSeparator ch = false)
    (hne : leaf ≠ []) : pathComponents leaf = [leaf] := by
  have happend := componentsFrom_append hleaf [] []
  rw [List.append_nil, List.nil_append, componentsFrom, if_neg hne] at happend
  exact happend

/-- Separators at the start. -/
theorem pathComponents_dropWhile (path : List UInt8) :
    pathComponents (path.dropWhile isSeparator) = pathComponents path := by
  induction path with
  | nil => rfl
  | cons ch path ih =>
    rw [List.dropWhile_cons]
    by_cases hch : isSeparator ch = true
    · rw [if_pos hch, ih]
      exact (pathComponents_sep [] path hch).symm
    · rw [if_neg hch]

/-- Separators at the end. -/
theorem pathComponents_append_seps (path : List UInt8) {seps : List UInt8}
    (hseps : ∀ ch ∈ seps, isSeparator ch = true) :
    pathComponents (path ++ seps) = pathComponents path := by
  induction seps generalizing path with
  | nil => rw [List.append_nil]
  | cons s seps ih =>
    obtain ⟨hs, hrest⟩ := List.forall_mem_cons.mp hseps
    have hempty := ih [] hrest
    rw [List.nil_append] at hempty
    rw [pathComponents_sep path seps hs, hempty]
    exact List.append_nil _

theorem pathComponents_trim (path : List UInt8) :
    pathComponents (trimTrailingSeparators path) = pathComponents path := by
  have hsplit : path = (path.reverse.dropWhile isSeparator).reverse ++
      (path.reverse.takeWhile isSeparator).reverse := by
    rw [← List.reverse_append, List.takeWhile_append_dropWhile, List.reverse_reverse]
  have hseps : ∀ ch ∈ (path.reverse.takeWhile isSeparator).reverse, isSeparator ch = true := by
    intro ch hch
    exact List.all_eq_true.mp List.all_takeWhile ch (List.mem_reverse.mp hch)
  unfold trimTrailingSeparators
  dsimp only
  by_cases hkept : (path.reverse.dropWhile isSeparator).reverse = []
  · -- a path of separators only has no component
    rw [if_pos hkept]
    rw [hkept, List.nil_append] at hsplit
    have hall := pathComponents_append_seps [] hseps
    rw [List.nil_append, ← hsplit] at hall
    have htake : ∀ ch ∈ path.take 1, isSeparator ch = true := by
      intro ch hch
      exact hseps ch (hsplit ▸ List.mem_of_mem_take hch)
    have hfirst := pathComponents_append_seps [] htake
    rw [List.nil_append] at hfirst
    rw [hfirst, hall]
  · rw [if_neg hkept]
    have hrest := pathComponents_append_seps (path.reverse.dropWhile isSeparator).reverse hseps
    rw [← hsplit] at hrest
    exact hrest.symm

/-- Leading `./` are components `.`. -/
theorem pathComponents_dropDotPrefix (path : List UInt8) :
    ∃ k, pathComponents path = List.replicate k dot ++ pathComponents (dropDotPrefix path) := by
  fun_induction dropDotPrefix path with
  | case1 a b rest h ih =>
    obtain ⟨rfl, hb⟩ := h
    obtain ⟨k, hk⟩ := ih
    refine ⟨k + 1, ?_⟩
    have hsep : ∀ ch ∈ ['.'.toUInt8], isSeparator ch = false := by
      intro ch hch
      rw [List.mem_singleton.mp hch]
      rfl
    have hdot : pathComponents ['.'.toUInt8] = [dot] :=
      pathComponents_leaf hsep (List.cons_ne_nil _ _)
    rw [List.replicate_succ, List.cons_append, ← hk]
    exact (pathComponents_sep ['.'.toUInt8] rest hb).trans (by rw [hdot]; rfl)
  | case2 a b rest h => exact ⟨0, rfl⟩
  | case3 path h => exact ⟨0, rfl⟩

/-- The components of a cleaned path. -/
theorem pathComponents_cleanPath (path : List UInt8) :
    ∃ k, pathComponents path = List.replicate k dot ++ pathComponents (cleanPath path) := by
  obtain ⟨k, hk⟩ := pathComponents_dropDotPrefix path
  refine ⟨k, ?_⟩
  unfold cleanPath Fat32.normalizePath
  rw [pathComponents_trim]
  exact hk

/-! ### The split at the last separator -/

/-- A text has no separator, or a last one. -/
theorem last_separator (path : List UInt8) :
    (∀ ch ∈ path, isSeparator ch = false) ∨
      ∃ front s leaf, path = front ++ s :: leaf ∧ isSeparator s = true ∧
        ∀ ch ∈ leaf, isSeparator ch = false := by
  induction path with
  | nil => exact .inl fun ch h => by cases h
  | cons ch path ih =>
    rcases ih with hnone | ⟨front, s, leaf, rfl, hs, hleaf⟩
    · cases hch : isSeparator ch with
      | true => exact .inr ⟨[], ch, path, rfl, hch, hnone⟩
      | false => exact .inl (List.forall_mem_cons.mpr ⟨hch, hnone⟩)
    · exact .inr ⟨ch :: front, s, leaf, rfl, hs, hleaf⟩

theorem takeWhile_leaf {leaf : List UInt8} (rest : List UInt8)
    (hleaf : ∀ ch ∈ leaf, isSeparator ch = false) :
    (leaf.reverse ++ rest).takeWhile (fun ch => !isSeparator ch) =
      leaf.reverse ++ rest.takeWhile fun ch => !isSeparator ch := by
  apply List.takeWhile_append_of_pos
  intro ch hch
  rw [hleaf ch (List.mem_reverse.mp hch)]
  rfl

theorem leafStart_none {path : List UInt8} (h : ∀ ch ∈ path, isSeparator ch = false) :
    leafStart path = 0 := by
  have htake := takeWhile_leaf [] h
  rw [List.append_nil] at htake
  unfold leafStart
  rw [htake]
  simp

theorem leafStart_last (front : List UInt8) {s : UInt8} {leaf : List UInt8}
    (hs : isSeparator s = true) (hleaf : ∀ ch ∈ leaf, isSeparator ch = false) :
    leafStart (front ++ s :: leaf) = front.length + 1 := by
  have hreverse : (front ++ s :: leaf).reverse = leaf.reverse ++ (s :: front.reverse) := by
    simp
  unfold leafStart
  rw [hreverse, takeWhile_leaf _ hleaf, List.takeWhile_cons_of_neg (by simp [hs])]
  simp
  omega

/-- A trimmed path does not end in a separator, unless that is all of it. -/
theorem trimTrailingSeparators_append {path front : List UInt8} {s : UInt8}
    (hs : isSeparator s = true) (h : trimTrailingSeparators path = front ++ [s]) :
    front = [] := by
  unfold trimTrailingSeparators at h
  dsimp only at h
  split at h
  · -- one separator is kept
    have hlength := congrArg List.length h
    rw [List.length_append, List.length_take] at hlength
    exact List.eq_nil_of_length_eq_zero (by simp at hlength; omega)
  · have hkept : path.reverse.dropWhile isSeparator = s :: front.reverse := by
      rw [← List.reverse_inj, h]
      simp
    have hhead := List.head?_dropWhile_not isSeparator path.reverse
    rw [hkept] at hhead
    simp [hs] at hhead

/-- The split of a path at its last separator takes off the last component. -/
theorem cleanPath_split (path : List UInt8) :
    pathComponents (cleanPath path) = [] ∧ (cleanPath path).drop (leafStart (cleanPath path)) = [] ∨
    ∃ front leaf, leaf ≠ [] ∧ (cleanPath path).drop (leafStart (cleanPath path)) = leaf ∧
      (cleanPath path).take (leafStart (cleanPath path) - 1) = front ∧
      pathComponents (cleanPath path) = pathComponents front ++ [leaf] ∧
      (leafStart (cleanPath path) ≤ 1 → front = []) := by
  have htrim : ∀ front s, isSeparator s = true → cleanPath path = front ++ [s] → front = [] :=
    fun front s hs h => trimTrailingSeparators_append hs h
  generalize cleanPath path = path at htrim ⊢
  rcases last_separator path with hnone | ⟨front, s, leaf, rfl, hs, hleaf⟩
  · rw [leafStart_none hnone]
    by_cases hempty : path = []
    · exact .inl ⟨by rw [hempty]; rfl, hempty⟩
    · exact .inr ⟨[], path, hempty, rfl, rfl, pathComponents_leaf hnone hempty, fun _ => rfl⟩
  · have hdrop : (front ++ s :: leaf).drop (front.length + 1) = leaf := by simp
    have htake : (front ++ s :: leaf).take (front.length + 1 - 1) = front := by simp
    rw [leafStart_last front hs hleaf, hdrop, htake, pathComponents_sep front leaf hs]
    by_cases hempty : leaf = []
    · subst hempty
      rw [htrim front s hs rfl]
      exact .inl ⟨rfl, rfl⟩
    · refine .inr ⟨front, leaf, hempty, rfl, rfl, ?_, fun hstart => ?_⟩
      · rw [pathComponents_leaf hleaf hempty]
      · exact List.eq_nil_of_length_eq_zero (by omega)

/-! ### Walks -/

section Walks

variable {g : MountState} {w : World} {n : Nat}

/-- A sequence of reads. -/
theorem outcome_bind {α β : Type} {p : Fat α} {f : α → Fat β} (hw : Fresh g w)
    (hp : p.Asks IsRead) (hf : ∀ a, (f a).Asks IsRead) :
    outcome g w (p >>= f) = (outcome g w p).bind fun a => outcome g w (f a) := by
  unfold outcome
  cases hrun : p.run (deviceHandler g) w with
  | none =>
    cases hbind : (p >>= f).run (deviceHandler g) w with
    | none => rfl
    | some result =>
      obtain ⟨b, w'⟩ := result
      obtain ⟨a, w₁, hrun₁, -⟩ := Program.run_bind_eq_some hbind
      cases hrun.symm.trans hrun₁
  | some result =>
    obtain ⟨a, w₁⟩ := result
    obtain ⟨hsame, hfresh₁⟩ := (run_same hp hw hw (SameDisk.refl w)).2 a w₁ hrun
    rw [Program.run_bind hrun, Option.map_some, Option.bind_some]
    exact (run_same (hf a) hw hfresh₁ hsame).1

/-- The checks on an entry that is followed read nothing. -/
theorem asks_checks {α : Type} (entry : DirectoryEntryRef) {p : Nat → Fat (Option α)}
    (hp : ∀ d, (p d).Asks IsRead) :
    Program.Asks IsRead (if (!entry.entry.isDirectory) = true then pure none
      else if entry.entry.firstCluster < 2 then pure none
      else p entry.entry.firstCluster : Fat (Option α)) := by
  split
  · exact trivial
  split
  · exact trivial
  exact hp _

theorem asks_followComponents (components : List (List UInt8)) (c : Nat) :
    (followComponents g n c components).Asks IsRead := by
  induction components generalizing c with
  | nil => exact trivial
  | cons component rest ih =>
    rw [followComponents]
    split
    · exact ih c
    · refine .bind (asks_findInDirectory n c component) fun entry => ?_
      cases entry with
      | none => exact trivial
      | some entry => exact asks_checks entry ih

theorem asks_resolveComponents (components : List (List UInt8)) (c : Nat) :
    (resolveComponents g n c components).Asks IsRead := by
  induction components generalizing c with
  | nil => exact trivial
  | cons component rest ih =>
    rw [resolveComponents]
    split
    · exact ih c
    · refine .bind (asks_findInDirectory n c component) fun entry => ?_
      cases entry with
      | none => exact trivial
      | some entry =>
        dsimp only
        split
        · exact trivial
        exact asks_checks entry ih

/-- Leading components `.` are skipped. -/
theorem resolveComponents_dots (k c : Nat) (components : List (List UInt8)) :
    resolveComponents g n c (List.replicate k dot ++ components) =
      resolveComponents g n c components := by
  induction k with
  | zero => rfl
  | succ k ih => rw [List.replicate_succ, List.cons_append, resolveComponents, if_pos rfl, ih]

theorem followComponents_dots (k c : Nat) (components : List (List UInt8)) :
    followComponents g n c (List.replicate k dot ++ components) =
      followComponents g n c components := by
  induction k with
  | zero => rfl
  | succ k ih => rw [List.replicate_succ, List.cons_append, followComponents, if_pos rfl, ih]

/-- `resolve_path` walks the components of the path. -/
theorem resolvePath_eq (path : List UInt8) : resolvePath g n path =
    resolveComponents g n g.logicalRootCluster (pathComponents path) := by
  obtain ⟨k, hk⟩ := pathComponents_cleanPath path
  obtain ⟨k', hk'⟩ := pathComponents_cleanPath ((cleanPath path).dropWhile isSeparator)
  rw [pathComponents_dropWhile] at hk'
  rw [hk, hk', resolveComponents_dots, resolveComponents_dots]
  unfold resolvePath resolvePathFromCluster
  dsimp only
  by_cases hempty : (cleanPath path).dropWhile isSeparator = []
  · rw [if_pos hempty, hempty]
    rfl
  · rw [if_neg hempty]

/-- The checks on an entry that is followed. -/
def followed (entry : DirectoryEntryRef) : Option Nat :=
  if entry.entry.isDirectory = true ∧ 2 ≤ entry.entry.firstCluster then
    some entry.entry.firstCluster
  else none

/-- The walk behind those checks. -/
theorem outcome_checks {α : Type} (entry : DirectoryEntryRef) (p : Nat → Fat (Option α)) :
    outcome g w (if (!entry.entry.isDirectory) = true then pure none
      else if entry.entry.firstCluster < 2 then pure none
      else p entry.entry.firstCluster) =
        match followed entry with
        | none => some none
        | some d => outcome g w (p d) := by
  unfold followed
  by_cases hdir : entry.entry.isDirectory = true
  · by_cases hfirst : entry.entry.firstCluster < 2
    · rw [if_neg (by simp [hdir]), if_pos hfirst, if_neg (by omega)]
      rfl
    · rw [if_neg (by simp [hdir]), if_neg hfirst, if_pos ⟨hdir, by omega⟩]
  · rw [if_pos (by simpa using hdir), if_neg fun h => hdir h.1]
    rfl

section Fresh

variable (hw : Fresh g w)

include hw

/-- A step of the walk to a directory. -/
theorem outcome_followComponents_cons {component : List UInt8} (hne : component ≠ dot) (c : Nat)
    (rest : List (List UInt8)) : outcome g w (followComponents g n c (component :: rest)) =
      (outcome g w (findInDirectory g n c component)).bind fun found =>
        match found.bind followed with
        | none => some none
        | some d => outcome g w (followComponents g n d rest) := by
  rw [followComponents, if_neg hne, outcome_bind hw (asks_findInDirectory n c component)]
  · congr 1
    funext found
    cases found with
    | none => rfl
    | some entry =>
      rw [Option.bind_some]
      exact outcome_checks entry fun d => followComponents g n d rest
  · intro found
    cases found with
    | none => exact trivial
    | some entry => exact asks_checks entry (asks_followComponents rest)

/-- A step of `resolve_path` in front of the last component. -/
theorem outcome_resolveComponents_cons {component : List UInt8} (hne : component ≠ dot) (c : Nat)
    {rest : List (List UInt8)} (hrest : rest ≠ []) :
    outcome g w (resolveComponents g n c (component :: rest)) =
      (outcome g w (findInDirectory g n c component)).bind fun found =>
        match found.bind followed with
        | none => some none
        | some d => outcome g w (resolveComponents g n d rest) := by
  rw [resolveComponents, if_neg hne, outcome_bind hw (asks_findInDirectory n c component)]
  · congr 1
    funext found
    cases found with
    | none => rfl
    | some entry =>
      dsimp only
      rw [Option.bind_some, if_neg hrest]
      exact outcome_checks entry fun d => resolveComponents g n d rest
  · intro found
    cases found with
    | none => exact trivial
    | some entry =>
      dsimp only
      split
      · exact trivial
      exact asks_checks entry (asks_resolveComponents rest)

/-- The last step of `resolve_path`. -/
theorem outcome_resolveComponents_last {leaf : List UInt8} (hne : leaf ≠ dot) (c : Nat) :
    outcome g w (resolveComponents g n c [leaf]) = outcome g w (findInDirectory g n c leaf) := by
  rw [resolveComponents, if_neg hne, outcome_bind hw (asks_findInDirectory n c leaf)]
  · cases outcome g w (findInDirectory g n c leaf) with
    | none => rfl
    | some found =>
      cases found with
      | none => rfl
      | some entry => rfl
  · intro found
    cases found with
    | none => exact trivial
    | some entry => exact trivial

/-- `resolve_path` follows the components in front of the last one and looks that up. -/
theorem outcome_resolveComponents_append {leaf : List UInt8} (hne : leaf ≠ dot) (c : Nat)
    (components : List (List UInt8)) :
    outcome g w (resolveComponents g n c (components ++ [leaf])) =
      (outcome g w (followComponents g n c components)).bind fun
        | none => some none
        | some d => outcome g w (findInDirectory g n d leaf) := by
  induction components generalizing c with
  | nil => exact outcome_resolveComponents_last hw hne c
  | cons component rest ih =>
    by_cases hdot : component = dot
    · rw [List.cons_append, resolveComponents, if_pos hdot, followComponents, if_pos hdot, ih]
    · rw [List.cons_append, outcome_resolveComponents_cons hw hdot c (by simp),
        outcome_followComponents_cons hw hdot]
      cases outcome g w (findInDirectory g n c component) with
      | none => rfl
      | some found =>
        rw [Option.bind_some, Option.bind_some]
        cases found.bind followed with
        | none => rfl
        | some d => exact ih d

/-- A path that ends in `.` is never found. -/
theorem outcome_resolveComponents_dot (c : Nat) (components : List (List UInt8))
    (e : DirectoryEntryRef) :
    outcome g w (resolveComponents g n c (components ++ [dot])) ≠ some (some e) := by
  induction components generalizing c with
  | nil =>
    rw [List.nil_append, resolveComponents, if_pos rfl]
    intro h
    cases h
  | cons component rest ih =>
    by_cases hdot : component = dot
    · rw [List.cons_append, resolveComponents, if_pos hdot]
      exact ih c
    · rw [List.cons_append, outcome_resolveComponents_cons hw hdot c (by simp)]
      cases outcome g w (findInDirectory g n c component) with
      | none =>
        intro h
        cases h
      | some found =>
        rw [Option.bind_some]
        cases found.bind followed with
        | none =>
          intro h
          cases h
        | some d => exact ih d

/-- Following components one after the other. -/
theorem outcome_followComponents_append (c : Nat) (components rest : List (List UInt8)) :
    outcome g w (followComponents g n c (components ++ rest)) =
      (outcome g w (followComponents g n c components)).bind fun
        | none => some none
        | some d => outcome g w (followComponents g n d rest) := by
  induction components generalizing c with
  | nil => rfl
  | cons component components ih =>
    by_cases hdot : component = dot
    · rw [List.cons_append, followComponents, if_pos hdot, followComponents, if_pos hdot, ih]
    · rw [List.cons_append, outcome_followComponents_cons hw hdot,
        outcome_followComponents_cons hw hdot]
      cases outcome g w (findInDirectory g n c component) with
      | none => rfl
      | some found =>
        rw [Option.bind_some, Option.bind_some]
        cases found.bind followed with
        | none => rfl
        | some d => exact ih d

/-- What `resolve_path` finds under a path with a last component that is a name. -/
theorem outcome_resolvePath {path leaf : List UInt8} {components : List (List UInt8)}
    (hcomponents : pathComponents (cleanPath path) = components ++ [leaf]) (hne : leaf ≠ dot) :
    outcome g w (resolvePath g n path) =
      (outcome g w (followComponents g n g.logicalRootCluster components)).bind fun
        | none => some none
        | some d => outcome g w (findInDirectory g n d leaf) := by
  obtain ⟨k, hk⟩ := pathComponents_cleanPath path
  rw [resolvePath_eq, hk, resolveComponents_dots, hcomponents,
    outcome_resolveComponents_append hw hne]

theorem outcome_resolvePath_dot {path : List UInt8} {components : List (List UInt8)}
    (hcomponents : pathComponents (cleanPath path) = components ++ [dot])
    (e : DirectoryEntryRef) : outcome g w (resolvePath g n path) ≠ some (some e) := by
  obtain ⟨k, hk⟩ := pathComponents_cleanPath path
  rw [resolvePath_eq, hk, resolveComponents_dots, hcomponents]
  exact outcome_resolveComponents_dot hw _ components e

/-- The text in front of the last component, resolved as a path: it is found where it does not
end in `.`, and then it is the entry that the walk over its components comes to last. -/
theorem outcome_resolvePath_front {front : List UInt8} {components : List (List UInt8)}
    (hfront : pathComponents front = components) {e : DirectoryEntryRef}
    (h : outcome g w (resolvePath g n front) = some (some e)) :
    (∃ component ∈ components.getLast?, component ≠ dot) ∧
      outcome g w (followComponents g n g.logicalRootCluster components) = some (followed e) := by
  rw [resolvePath_eq, hfront] at h
  rcases List.eq_nil_or_concat components with rfl | ⟨first, last, rfl⟩
  · cases h
  rw [List.concat_eq_append] at h ⊢
  by_cases hdot : last = dot
  · exact absurd (hdot ▸ h) (outcome_resolveComponents_dot hw _ first e)
  refine ⟨⟨last, by simp, hdot⟩, ?_⟩
  rw [outcome_resolveComponents_append hw hdot] at h
  rw [outcome_followComponents_append hw]
  cases hfirst : outcome g w (followComponents g n g.logicalRootCluster first) with
  | none => rw [hfirst] at h; cases h
  | some found =>
    cases found with
    | none => rw [hfirst] at h; cases h
    | some d =>
      rw [hfirst, Option.bind_some] at h
      dsimp only at h
      rw [Option.bind_some]
      dsimp only
      rw [outcome_followComponents_cons hw hdot, h, Option.bind_some, Option.bind_some]
      cases followed e with
      | none => rfl
      | some d => rfl

/-- The other way round, where the walk comes to a directory. -/
theorem outcome_resolvePath_front_of {front : List UInt8} {components : List (List UInt8)}
    (hfront : pathComponents front = components)
    (hlast : ∃ component ∈ components.getLast?, component ≠ dot) {d : Nat}
    (h : outcome g w (followComponents g n g.logicalRootCluster components) = some (some d)) :
    ∃ e, outcome g w (resolvePath g n front) = some (some e) ∧ followed e = some d := by
  obtain ⟨last, hmem, hdot⟩ := hlast
  rw [resolvePath_eq, hfront]
  rcases List.eq_nil_or_concat components with rfl | ⟨first, last', rfl⟩
  · cases hmem
  rw [List.concat_eq_append] at h hmem ⊢
  rw [List.getLast?_append, List.getLast?_singleton, Option.some_or, Option.mem_some] at hmem
  subst hmem
  rw [outcome_followComponents_append hw] at h
  rw [outcome_resolveComponents_append hw hdot]
  cases hfirst : outcome g w (followComponents g n g.logicalRootCluster first) with
  | none => rw [hfirst] at h; cases h
  | some found =>
    cases found with
    | none => rw [hfirst] at h; cases h
    | some d' =>
      rw [hfirst, Option.bind_some] at h
      dsimp only at h
      rw [outcome_followComponents_cons hw hdot] at h
      rw [Option.bind_some]
      dsimp only
      cases hfind : outcome g w (findInDirectory g n d' last') with
      | none => rw [hfind] at h; cases h
      | some found =>
        rw [hfind, Option.bind_some] at h
        cases found with
        | none => cases h
        | some e =>
          refine ⟨e, rfl, ?_⟩
          rw [Option.bind_some] at h
          cases hfollowed : followed e with
          | none => rw [hfollowed] at h; cases h
          | some d₁ => rw [hfollowed] at h; cases h; rfl

/-- What `resolve_parent_directory` answers after the split of the path. -/
theorem outcome_resolveParentDirectory {path leaf : List UInt8}
    (hleaf : (cleanPath path).drop (leafStart (cleanPath path)) = leaf) (hne : leaf ≠ []) :
    outcome g w (resolveParentDirectory g n path) =
      if leafStart (cleanPath path) ≤ 1 then
        some (if leaf.length ≥ 256 then none else some (g.logicalRootCluster, leaf))
      else (outcome g w (resolvePath g n ((cleanPath path).take
          (leafStart (cleanPath path) - 1)))).bind fun
        | none => some none
        | some parent =>
          if !parent.entry.isDirectory then some none
          else some (if leaf.length ≥ 256 then none else some (parent.entry.firstCluster, leaf))
    := by
  have hpath : cleanPath path ≠ [] := by
    intro h
    rw [h] at hleaf
    exact hne (hleaf.symm.trans rfl)
  unfold resolveParentDirectory
  dsimp only
  rw [if_neg hpath, hleaf, if_neg hne]
  split
  · rfl
  · rw [outcome_bind hw]
    · congr 1
      funext found
      cases found with
      | none => rfl
      | some parent =>
        dsimp only
        split
        · rfl
        · rfl
    · rw [resolvePath_eq]
      exact asks_resolveComponents _ _
    · intro found
      cases found with
      | none => exact trivial
      | some parent =>
        dsimp only
        split
        · exact trivial
        · exact trivial

/-- What `resolve_parent_directory` has found: the last component, and the directory that the
components in front of it lead to, which may be one without a cluster. -/
theorem resolveParentDirectory_found {path leaf : List UInt8} {d : Nat}
    (h : outcome g w (resolveParentDirectory g n path) = some (some (d, leaf))) :
    ∃ components, pathComponents (cleanPath path) = components ++ [leaf] ∧
      HasParent path components ∧ leaf.length < 256 ∧
      (outcome g w (followComponents g n g.logicalRootCluster components) = some (some d) ∨
        d < 2 ∧
          outcome g w (followComponents g n g.logicalRootCluster components) = some none) := by
  rcases cleanPath_split path with ⟨-, hdrop⟩ |
    ⟨front, leaf', hne, hdrop, htake, hcomponents, hstart⟩
  · -- without a last component there is no parent
    unfold resolveParentDirectory at h
    dsimp only at h
    rw [if_pos hdrop] at h
    split at h
    · cases h
    · cases h
  rw [outcome_resolveParentDirectory hw hdrop hne] at h
  by_cases hroot : leafStart (cleanPath path) ≤ 1
  · rw [if_pos hroot] at h
    split at h
    · cases h
    next hlength =>
      cases h
      refine ⟨_, hcomponents, .inl hroot, by omega, .inl ?_⟩
      rw [hstart hroot]
      rfl
  · rw [if_neg hroot, htake] at h
    cases hparent : outcome g w (resolvePath g n front) with
    | none => rw [hparent] at h; cases h
    | some found =>
      rw [hparent, Option.bind_some] at h
      cases found with
      | none => cases h
      | some parent =>
        dsimp only at h
        obtain ⟨hlast, hfollow⟩ := outcome_resolvePath_front hw rfl hparent
        split at h
        · cases h
        next hdir =>
        split at h
        · cases h
        next hlength =>
        cases h
        refine ⟨_, hcomponents, .inr hlast, by omega, ?_⟩
        rw [hfollow]
        unfold followed
        rw [Bool.not_eq_true', Bool.not_eq_false] at hdir
        by_cases h2 : 2 ≤ parent.entry.firstCluster
        · exact .inl (by rw [if_pos ⟨hdir, h2⟩])
        · exact .inr ⟨by omega, by rw [if_neg fun h => h2 h.2]⟩

/-- `resolve_parent_directory` finds the directory that the components lead to. -/
theorem resolveParentDirectory_finds {path leaf : List UInt8} {d : Nat}
    {components : List (List UInt8)}
    (hcomponents : pathComponents (cleanPath path) = components ++ [leaf])
    (hparent : HasParent path components) (hlength : leaf.length < 256)
    (h : outcome g w (followComponents g n g.logicalRootCluster components) = some (some d)) :
    outcome g w (resolveParentDirectory g n path) = some (some (d, leaf)) := by
  rcases cleanPath_split path with ⟨hnone, -⟩ | ⟨front, leaf', hne, hdrop, htake, hsplit, hstart⟩
  · rw [hnone] at hcomponents
    simp at hcomponents
  obtain ⟨hfront, hleaf⟩ := List.append_inj' (hsplit.symm.trans hcomponents) rfl
  cases hleaf
  rw [outcome_resolveParentDirectory hw hdrop hne]
  by_cases hroot : leafStart (cleanPath path) ≤ 1
  · rw [if_pos hroot, if_neg (by omega)]
    rw [hstart hroot] at hfront
    cases hfront
    cases h
    rfl
  · rw [if_neg hroot, htake]
    obtain ⟨e, hfound, hfollowed⟩ :=
      outcome_resolvePath_front_of hw hfront (hparent.resolve_left hroot) h
    rw [hfound, Option.bind_some]
    unfold followed at hfollowed
    split at hfollowed
    next hdir =>
      cases hfollowed
      dsimp only
      rw [hdir.1, if_neg (by decide), if_neg (by omega)]
    · cases hfollowed

end Fresh

end Walks

section Agreement

variable {g : MountState} {w : World}

/-- A directory number below 2 has no entries. -/
theorem outcome_findInDirectory_low {n d : Nat} (hd : d < 2) (name : List UInt8) :
    outcome g w (findInDirectory g n d name) = some none := by
  unfold findInDirectory scanDirectory
  rw [if_pos hd]
  rfl

/-- Where the parent is found and the last component is a name, `resolve_path` does what
`find_in_directory` does. -/
theorem outcome_resolvePath_of_parent {n d : Nat} {path leaf : List UInt8} (hw : Fresh g w)
    (hne : leaf ≠ dot) (h : outcome g w (resolveParentDirectory g n path) = some (some (d, leaf))) :
    outcome g w (resolvePath g n path) = outcome g w (findInDirectory g n d leaf) := by
  obtain ⟨components, hcomponents, -, -, hfollow | ⟨hlow, hfollow⟩⟩ :=
    resolveParentDirectory_found hw h
  · rw [outcome_resolvePath hw hcomponents hne, hfollow]
    rfl
  · rw [outcome_resolvePath hw hcomponents hne, hfollow, outcome_findInDirectory_low hlow]
    rfl

/-- The components of a path that end in a name are those of the cleaned path, after the ones
that the cleaning takes off. -/
theorem components_cleanPath {path leaf : List UInt8} {components : List (List UInt8)}
    (h : pathComponents path = components ++ [leaf]) (hne : leaf ≠ dot) :
    ∃ k rest, components = List.replicate k dot ++ rest ∧
      pathComponents (cleanPath path) = rest ++ [leaf] := by
  obtain ⟨k, hk⟩ := pathComponents_cleanPath path
  rcases List.eq_nil_or_concat (pathComponents (cleanPath path)) with hnil | ⟨rest, last, hlast⟩
  · -- only `.` is left
    rw [hnil, List.append_nil, h] at hk
    have hleaf : leaf ∈ List.replicate k dot := hk ▸ List.mem_append_right _ (.head _)
    exact absurd (List.eq_of_mem_replicate hleaf) hne
  · rw [List.concat_eq_append] at hlast
    rw [hlast, ← List.append_assoc, h] at hk
    obtain ⟨hcomponents, hleaf⟩ := List.append_inj' hk rfl
    cases hleaf
    exact ⟨k, rest, hcomponents, hlast⟩

/-- A path that splits well is read in the same way by both. -/
theorem pathsAgree_of_splitsWell (hw : Fresh g w) {path : List UInt8}
    (hsplit : SplitsWell g w path) : PathsAgree g w path where
  entry d leaf hparent e := by
    obtain ⟨n₀, hparent⟩ := hparent
    by_cases hne : leaf = dot
    · subst hne
      obtain ⟨components, hcomponents, hhas, -, -⟩ :=
        resolveParentDirectory_found hw (hparent n₀ le_rfl)
      constructor
      · intro ⟨n₁, hpath⟩
        exact absurd (hpath n₁ le_rfl) (outcome_resolvePath_dot hw hcomponents e)
      · intro ⟨n₁, hfind⟩
        -- the components lead to the directory at every count, since it has an entry
        have hfollow : Returns g w
            (fun n => followComponents g n g.logicalRootCluster components) (some d) := by
          refine ⟨max n₀ n₁, fun n hn => ?_⟩
          obtain ⟨components', hcomponents', -, -, hfollow | ⟨hlow, -⟩⟩ :=
            resolveParentDirectory_found hw (hparent n (by omega))
          · rw [hcomponents] at hcomponents'
            rw [(List.append_inj' hcomponents' rfl).1]
            exact hfollow
          · have hnone := hfind n (by omega)
            rw [outcome_findInDirectory_low hlow] at hnone
            cases hnone
        exact absurd ⟨n₁, hfind⟩ ((hsplit components dot d hcomponents hfollow).2 rfl hhas e)
    · have heq := fun n hn => outcome_resolvePath_of_parent hw hne (hparent n hn)
      constructor
      · intro ⟨n₁, hpath⟩
        exact ⟨max n₀ n₁, fun n hn => (heq n (by omega)).symm.trans (hpath n (by omega))⟩
      · intro ⟨n₁, hfind⟩
        exact ⟨max n₀ n₁, fun n hn => (heq n (by omega)).trans (hfind n (by omega))⟩
  parent components leaf d hcomponents hne hfollow := by
    obtain ⟨k, rest, rfl, hrest⟩ := components_cleanPath hcomponents hne
    obtain ⟨n₀, hfollow⟩ := hfollow
    simp only [followComponents_dots] at hfollow
    obtain ⟨hhas, hlength⟩ := (hsplit rest leaf d hrest ⟨n₀, hfollow⟩).1 hne
    exact ⟨n₀, fun n hn => resolveParentDirectory_finds hw hrest hhas hlength (hfollow n hn)⟩

/-- And only such a path is. -/
theorem splitsWell_of_pathsAgree (hw : Fresh g w) {path : List UInt8}
    (hagree : PathsAgree g w path) : SplitsWell g w path := by
  intro components leaf d hcomponents hfollow
  refine ⟨fun hne => ?_, ?_⟩
  · obtain ⟨k, hk⟩ := pathComponents_cleanPath path
    rw [hcomponents, ← List.append_assoc] at hk
    obtain ⟨n₀, hparent⟩ := hagree.parent _ leaf d hk hne
      (by simpa only [followComponents_dots] using hfollow)
    obtain ⟨components', hcomponents', hhas, hlength, -⟩ :=
      resolveParentDirectory_found hw (hparent n₀ le_rfl)
    rw [hcomponents] at hcomponents'
    rw [(List.append_inj' hcomponents' rfl).1]
    exact ⟨hhas, hlength⟩
  · rintro rfl hhas e hfind
    obtain ⟨n₀, hfollow⟩ := hfollow
    have hparent : Returns g w (fun n => resolveParentDirectory g n path) (some (d, dot)) :=
      ⟨n₀, fun n hn =>
        resolveParentDirectory_finds hw hcomponents hhas (by decide) (hfollow n hn)⟩
    obtain ⟨n₁, hpath⟩ := (hagree.entry d dot hparent e).mpr hfind
    exact outcome_resolvePath_dot hw hcomponents e (hpath n₁ le_rfl)

/-- The two readings of a path agree exactly where it splits well. -/
theorem pathsAgree_iff (hw : Fresh g w) (path : List UInt8) :
    PathsAgree g w path ↔ SplitsWell g w path :=
  ⟨splitsWell_of_pathsAgree hw, pathsAgree_of_splitsWell hw⟩

end Agreement

/-! ### Two paths on an empty disk -/

section EmptyDisk

theorem fresh_bootWorld : Fresh bootVolume (bootWorld emptyDisk) := fun hvalid => by cases hvalid

/-- The paths `/x` and `//x`. -/
def rootFile : List UInt8 := ['/'.toUInt8, 'x'.toUInt8]

def doubleSlash : List UInt8 := '/'.toUInt8 :: rootFile

/-- The two readings of `/x` agree. -/
theorem pathsAgree_rootFile : PathsAgree bootVolume (bootWorld emptyDisk) rootFile := by
  rw [pathsAgree_iff fresh_bootWorld]
  intro components leaf d hcomponents _
  have hpath : pathComponents (cleanPath rootFile) = [] ++ [['x'.toUInt8]] := by decide
  obtain ⟨rfl, hleaf⟩ := List.append_inj' (hpath.symm.trans hcomponents) rfl
  cases hleaf
  exact ⟨fun _ => ⟨.inl (by decide), by decide⟩, fun hdot => absurd hdot (by decide)⟩

/-- The one component of `//x` is in the root directory, and no parent is found. -/
theorem double_slash_disagrees :
    pathComponents doubleSlash = [['x'.toUInt8]] ∧
      Returns bootVolume (bootWorld emptyDisk)
        (fun n => followComponents bootVolume n bootVolume.logicalRootCluster []) (some 2) ∧
      Returns bootVolume (bootWorld emptyDisk)
        (fun n => resolveParentDirectory bootVolume n doubleSlash) none ∧
      ¬ PathsAgree bootVolume (bootWorld emptyDisk) doubleSlash := by
  have hcomponents : pathComponents doubleSlash = [['x'.toUInt8]] := by decide
  have hroot : Returns bootVolume (bootWorld emptyDisk)
      (fun n => followComponents bootVolume n bootVolume.logicalRootCluster []) (some 2) :=
    ⟨0, fun n _ => rfl⟩
  have hnone : Returns bootVolume (bootWorld emptyDisk)
      (fun n => resolveParentDirectory bootVolume n doubleSlash) none := ⟨0, fun n _ => rfl⟩
  refine ⟨hcomponents, hroot, hnone, fun hagree => ?_⟩
  obtain ⟨n₀, hparent⟩ := hagree.parent [] ['x'.toUInt8] 2 hcomponents (by decide) hroot
  obtain ⟨n₁, hnone⟩ := hnone
  have hboth := (hparent (max n₀ n₁) (by omega)).symm.trans (hnone (max n₀ n₁) (by omega))
  cases hboth

end EmptyDisk

end VKernel.Proofs.Fs

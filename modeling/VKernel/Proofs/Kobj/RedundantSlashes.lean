import VKernel.Proofs.Kobj.Closure
import VKernel.Proofs.Kobj.EntryPaths

/-!
# `VKernel.Proofs.Kobj.RedundantSlashes`: separators that say nothing

Two paths with the same nonempty segments should be the same path. `redundant_slashes_ignored`
says when they are: if they differ in the separators in front only, or if neither is the text of
an entry of a registry. The walk over the registered nodes skips empty segments, but the
resolvers of the registries compare texts, and `proc//1` is none that they know.

The argument is about a text that names an entry. It is the only text with its segments that
names this node (`namesEntry_text`), and what is bound to anything is named
(`namesEntry_of_bound`), so every other text for the segments is bound to nothing.
-/

set_option autoImplicit false

namespace VKernel.Proofs.Kobj

open VKernel VKernel.Kobj

variable {w : Registries} {p q : List UInt8} {r r' : ResolvedNode}

theorem slash_notMem_path {d : Directory} (hd : d ∈ directories) : ∀ s ∈ d.path, slash ∉ s :=
  fun s hs => (TablesOk.pathSegments tablesOk d hd s hs).noSlash

theorem filter_path {d : Directory} (hd : d ∈ directories) :
    (d.path.filter fun s => s != []) = d.path :=
  List.filter_eq_self.mpr fun s hs =>
    bne_iff_ne.mpr (TablesOk.pathSegments tablesOk d hd s hs).nonempty

theorem pathSegments_entry {d : Directory} (hd : d ∈ directories) {s : List UInt8} (hne : s ≠ [])
    (hs : slash ∉ s) : pathSegments (joinPath (d.path ++ [s])) = d.path ++ [s] := by
  have hslash : ∀ t ∈ d.path ++ [s], slash ∉ t := by
    rw [List.forall_mem_append, List.forall_mem_singleton]
    exact ⟨slash_notMem_path hd, hs⟩
  rw [pathSegments_joinPath hslash, List.filter_append, filter_path hd]
  exact congrArg (d.path ++ ·) (List.filter_cons_of_pos (bne_iff_ne.mpr hne))

/-- An empty name is not among the segments. -/
theorem pathSegments_field {d : Directory} (hd : d ∈ directories) {s f : List UInt8}
    (hs : slash ∉ s) (hf : IsSegment f) :
    pathSegments (joinPath (d.path ++ [s, f])) =
      if s = [] then d.path ++ [f] else d.path ++ [s, f] := by
  have hslash : ∀ t ∈ d.path ++ [s, f], slash ∉ t := by
    rw [List.forall_mem_append, List.forall_mem_cons, List.forall_mem_singleton]
    exact ⟨slash_notMem_path hd, hs, hf.noSlash⟩
  have hfield : (f != []) = true := bne_iff_ne.mpr hf.nonempty
  rw [pathSegments_joinPath hslash, List.filter_append, filter_path hd, List.filter_cons,
    List.filter_singleton, hfield]
  by_cases hempty : s = []
  · rw [if_pos hempty, hempty]
    rfl
  · rw [if_neg hempty, if_pos (bne_iff_ne.mpr hempty)]
    rfl

/-- A name in front of the field cannot be taken for a part of the registry. -/
theorem field_ne_field {d e : Directory} (hd : d ∈ directories) (he : e ∈ directories)
    (t f g : List UInt8) : d.path ++ [f] ≠ e.path ++ [t, g] := by
  intro h
  have hsplit : e.path ++ [t, g] = e.path ++ [t] ++ [g] := (append_pair _ _ _).symm
  rw [hsplit] at h
  have hpath := (List.append_inj' h rfl).1
  refine TextsOk.notBelow textsOk d hd e he ?_
  rw [hpath, List.dropLast_concat]

/-- The node and the segments determine the text that names them. -/
theorem namesEntry_text (hp : NamesEntry w p r) (hq : NamesEntry w q r')
    (hnode : r.node = r'.node) (hsegments : pathSegments p = pathSegments q) : p = q := by
  cases hp with
  | @entry d s kind hd hne hs hkind hfree =>
    cases hq with
    | @entry e t other he hne' ht hother hfree' =>
      rw [pathSegments_entry hd hne hs, pathSegments_entry he hne' ht] at hsegments
      rw [hsegments]
    | @field e t g other node he ht hother hfield =>
      -- The node of an entry is not the node of a field.
      exact absurd hnode ((TablesOk.fieldLeaf tablesOk e he _ (mem_of_lookup hfield)).2 d hd).1
  | @field d s f kind node hd hs hkind hfield =>
    have hleaf := (TablesOk.fieldLeaf tablesOk d hd _ (mem_of_lookup hfield)).2
    have hf := TablesOk.fieldSegments tablesOk d hd _ (mem_of_lookup hfield)
    cases hq with
    | @entry e t other he hne' ht hother hfree' => exact absurd hnode.symm (hleaf e he).1
    | @field e t g other node' he ht hother hfield' =>
      have hg := TablesOk.fieldSegments tablesOk e he _ (mem_of_lookup hfield')
      rw [pathSegments_field hd hs hf, pathSegments_field he ht hg] at hsegments
      by_cases hempty : s = []
      · by_cases hempty' : t = []
        · rw [if_pos hempty, if_pos hempty'] at hsegments
          obtain ⟨hpath, hfields⟩ := List.append_inj' hsegments rfl
          cases hfields
          rw [hpath, hempty, hempty']
        · rw [if_pos hempty, if_neg hempty'] at hsegments
          exact absurd hsegments (field_ne_field hd he t f g)
      · by_cases hempty' : t = []
        · rw [if_neg hempty, if_pos hempty'] at hsegments
          exact absurd hsegments.symm (field_ne_field he hd s g f)
        · rw [if_neg hempty, if_neg hempty'] at hsegments
          rw [hsegments]

/-- The separators in front are skipped. -/
theorem resolveInternal_congr (h : stripSlashes p = stripSlashes q) :
    resolveInternal w p = resolveInternal w q := by
  rw [stripSlashes, stripSlashes] at h
  rw [resolveInternal, resolveInternal, h]

/-- Where one of two paths names an entry, they are bound alike only if they are one text. -/
theorem stripSlashes_of_boundNode (hp : 0 ∉ p) (hq : 0 ∉ q)
    (hsegments : pathSegments p = pathSegments q) (hnames : NamesEntry w (stripSlashes p) r)
    (h : boundNode w p = boundNode w q) : stripSlashes p = stripSlashes q := by
  rw [boundNode, resolveInternal_entry hp hnames] at h
  obtain ⟨r', hr', hsame⟩ := Option.map_eq_some_iff.mp h.symm
  obtain ⟨hnode, hkind⟩ := Prod.mk.inj hsame
  have hnames' : NamesEntry w (stripSlashes q) r' := by
    refine namesEntry_of_bound hq hr' ?_
    rw [hkind]
    exact namesEntry_kind hnames
  refine namesEntry_text hnames hnames' hnode.symm ?_
  rw [pathSegments_stripSlashes, pathSegments_stripSlashes, hsegments]

/-- Two paths with the same nonempty segments are found to be the same node if and only if they
are the same text behind the leading separators, or neither is the text of an entry. -/
theorem redundant_slashes_ignored (w : Registries) (p q : List UInt8)
    (hsegments : pathSegments (cstr p) = pathSegments (cstr q)) :
    boundNode w (cstr p) = boundNode w (cstr q) ↔
      stripSlashes (cstr p) = stripSlashes (cstr q) ∨
        (∀ r, ¬ NamesEntry w (stripSlashes (cstr p)) r) ∧
          ∀ r, ¬ NamesEntry w (stripSlashes (cstr q)) r := by
  have hp := cstr_noNul p
  have hq := cstr_noNul q
  constructor
  · -- A path that names an entry fixes the text behind the leading separators.
    intro h
    by_cases hnames : ∃ r, NamesEntry w (stripSlashes (cstr p)) r
    · obtain ⟨r, hr⟩ := hnames
      exact .inl (stripSlashes_of_boundNode hp hq hsegments hr h)
    · by_cases hnames' : ∃ r, NamesEntry w (stripSlashes (cstr q)) r
      · obtain ⟨r, hr⟩ := hnames'
        exact .inl (stripSlashes_of_boundNode hq hp hsegments.symm hr h.symm).symm
      · exact .inr ⟨not_exists.mp hnames, not_exists.mp hnames'⟩
  · -- Otherwise both are attached by their segments.
    rintro (hsame | ⟨hp', hq'⟩)
    · rw [boundNode, boundNode, resolveInternal_congr hsame]
    · rw [boundNode, boundNode, resolveInternal_attached hp hp', resolveInternal_attached hq hq',
        hsegments]

/-- No entry of a registry is below a node that no registry is in. -/
theorem not_namesEntry {w : Registries} {p : List UInt8}
    (hp : ∀ d ∈ directories, ¬ directoryText d.path <+: p) (r : ResolvedNode) :
    ¬ NamesEntry w p r := by
  intro h
  cases h with
  | entry hd =>
    refine hp _ hd ?_
    rw [← directoryText_append]
    exact List.prefix_append _ _
  | field hd =>
    refine hp _ hd ?_
    rw [← directoryText_append_field]
    exact List.prefix_append _ _

/-- Separators around the segments of a registered node are ignored. -/
theorem redundant_slashes_ignored_sys :
    boundNode smallRegistries (cstr (ascii "sys/cpu")) =
      boundNode smallRegistries (cstr (ascii "//sys//cpu/")) :=
  (redundant_slashes_ignored smallRegistries (ascii "sys/cpu") (ascii "//sys//cpu/")
    (by decide)).mpr (.inr ⟨not_namesEntry (by decide), not_namesEntry (by decide)⟩)

/-- `proc/1` is task 1, and `proc//1` is not. -/
theorem double_slash_not_found :
    pathSegments (cstr (ascii "proc/1")) = pathSegments (cstr (ascii "proc//1")) ∧
      boundNode smallRegistries (cstr (ascii "proc/1")) ≠
        boundNode smallRegistries (cstr (ascii "proc//1")) := by
  have hsegments : pathSegments (cstr (ascii "proc/1")) =
      pathSegments (cstr (ascii "proc//1")) := by
    decide
  refine ⟨hsegments, fun h => ?_⟩
  have htask : (procDirectory.lookup smallRegistries (ascii "1")).isSome := by
    with_unfolding_all decide
  obtain ⟨kind, hkind⟩ := Option.isSome_iff_exists.mp htask
  have hnames : NamesEntry smallRegistries (stripSlashes (cstr (ascii "proc/1"))) _ :=
    .entry (d := procDirectory) (by simp [directories]) (by decide) (by decide) hkind (by decide)
  have hsame := stripSlashes_of_boundNode (cstr_noNul _) (cstr_noNul _) hsegments hnames h
  exact absurd hsame (by decide)

end VKernel.Proofs.Kobj

import Mathlib.Data.List.TakeWhile
import VKernel.Kobj.ObjectTree

/-!
# `VKernel.Proofs.Kobj.Resolution`: the resolvers find what the tree denotes

A path of segments is taken apart one segment at a time: `prefix_joinPath` says when it starts
with a segment and a separator, `walkNodes_joinPath` follows the attached children, and
`resolveEntry_joinPath` reads an entry and its field.

Each resolver then gives two facts. What it finds is denoted by the segments (`Denotes`), and
where the segments denote an entry of its registry it finds something. With well-named registries
the segments denote at most one node (`Denotes.unique`), so the order of the resolvers does not
matter and the whole chain finds exactly the denoted node: `resolveInternal_joinPath_iff`.
-/

set_option autoImplicit false

namespace VKernel.Proofs.Kobj

open VKernel.Kobj

/-! ### Joined segments -/

/-- A path of one segment. -/
theorem joinPath_singleton (s : List UInt8) : joinPath [s] = s := List.intercalate_singleton

/-- The first segment of a path. -/
theorem joinPath_cons (s : List UInt8) {rest : List (List UInt8)} (hrest : rest ≠ []) :
    joinPath (s :: rest) = s ++ slash :: joinPath rest := by
  rw [joinPath, List.intercalate_cons_of_ne_nil hrest, List.append_assoc, List.singleton_append]
  rfl

/-- What is left of a path behind its first segment. -/
theorem drop_joinPath (s : List UInt8) (rest : List (List UInt8)) :
    (joinPath (s :: rest)).drop s.length = if rest = [] then [] else slash :: joinPath rest := by
  by_cases hrest : rest = []
  · rw [if_pos hrest, hrest, joinPath_singleton, List.drop_length]
  · rw [if_neg hrest, joinPath_cons s hrest, List.drop_left]

/-- A test that holds in a segment and fails on the separator cuts the segment off. -/
theorem takeWhile_joinPath {p : UInt8 → Bool} {s : List UInt8} (hs : ∀ c ∈ s, p c = true)
    (hslash : ¬ p slash = true) (rest : List (List UInt8)) :
    (joinPath (s :: rest)).takeWhile p = s := by
  by_cases hrest : rest = []
  · rw [hrest, joinPath_singleton, List.takeWhile_eq_self_iff]
    exact hs
  · rw [joinPath_cons s hrest, List.takeWhile_append_of_pos hs, List.takeWhile_cons_of_neg hslash,
      List.append_nil]

/-- No character of a segment is a slash. -/
theorem ne_slash_of_mem {s : List UInt8} (hs : slash ∉ s) {c : UInt8} (hc : c ∈ s) : c ≠ slash := by
  rintro rfl
  exact hs hc

/-- The first segment of a path is read back. -/
theorem firstSegment_joinPath {s : List UInt8} (hs : slash ∉ s) (rest : List (List UInt8)) :
    firstSegment (joinPath (s :: rest)) = s :=
  takeWhile_joinPath (fun _ hc => bne_iff_ne.mpr (ne_slash_of_mem hs hc)) (by simp) rest

/-- A segment in front of a slash is read back. -/
theorem firstSegment_append {s : List UInt8} (hs : slash ∉ s) (rest : List UInt8) :
    firstSegment (s ++ slash :: rest) = s := by
  have hcut := firstSegment_joinPath hs [rest]
  rwa [joinPath_cons s (List.cons_ne_nil _ _), joinPath_singleton] at hcut

/-- Two ways to cut a text at its first separator. -/
theorem append_slash_inj {s t p q : List UInt8} (hs : slash ∉ s) (ht : slash ∉ t) :
    s ++ slash :: p = t ++ slash :: q ↔ s = t ∧ p = q := by
  constructor
  · intro h
    have hst : s = t := by
      rw [← firstSegment_append hs p, h, firstSegment_append ht]
    subst hst
    exact ⟨rfl, (List.cons.inj (List.append_cancel_left h)).2⟩
  · rintro ⟨rfl, rfl⟩
    rfl

/-- The joined segments start with `d/` and `q` behind it. -/
theorem prefix_joinPath {d q s : List UInt8} {rest : List (List UInt8)} (hd : slash ∉ d)
    (hs : slash ∉ s) :
    d ++ slash :: q <+: joinPath (s :: rest) ↔ s = d ∧ rest ≠ [] ∧ q <+: joinPath rest := by
  by_cases hrest : rest = []
  · -- There is no separator in a single segment.
    rw [hrest, joinPath_singleton]
    constructor
    · intro h
      exact absurd (h.subset (List.mem_append_right _ (List.mem_cons_self ..))) hs
    · rintro ⟨-, hne, -⟩
      exact absurd rfl hne
  · rw [joinPath_cons s hrest]
    constructor
    · rintro ⟨t, ht⟩
      rw [List.append_assoc, List.cons_append, append_slash_inj hd hs] at ht
      exact ⟨ht.1.symm, hrest, t, ht.2⟩
    · rintro ⟨rfl, -, t, ht⟩
      exact ⟨t, by rw [List.append_assoc, List.cons_append, ht]⟩

/-- A path has one list of segments. -/
theorem joinPath_injective {segments others : List (List UInt8)}
    (hsegments : ∀ s ∈ segments, IsSegment s) (hothers : ∀ s ∈ others, IsSegment s)
    (h : joinPath segments = joinPath others) : segments = others := by
  have hsplit : ∀ l : List (List UInt8), (∀ s ∈ l, IsSegment s) → l ≠ [] →
      (joinPath l).splitOn slash = l := fun l hl hne =>
    List.splitOn_intercalate slash (fun s hs => (hl s hs).noSlash) hne
  have hnonempty : ∀ l : List (List UInt8), (∀ s ∈ l, IsSegment s) → joinPath l = [] → l = [] := by
    intro l hl hnil
    by_contra hne
    have hl' := hsplit l hl hne
    rw [hnil] at hl'
    exact (hl [] (by rw [← hl']; exact List.mem_singleton.mpr rfl)).nonempty rfl
  by_cases hs : segments = []
  · have hnil : joinPath others = [] := by
      rw [← h, hs]
      rfl
    rw [hs, hnonempty others hothers hnil]
  · by_cases ho : others = []
    · have hnil : joinPath segments = [] := by
        rw [h, ho]
        rfl
      exact absurd (hnonempty segments hsegments hnil) hs
    · rw [← hsplit segments hsegments hs, h, hsplit others hothers ho]

/-- The text of the segments of a directory, with a separator behind each. -/
def directoryText (path : List (List UInt8)) : List UInt8 := path.flatMap (· ++ [slash])

/-- The first segment of a directory. -/
theorem directoryText_cons (d : List UInt8) (path : List (List UInt8)) :
    directoryText (d :: path) = d ++ slash :: directoryText path := by
  rw [directoryText, List.flatMap_cons, List.append_assoc, List.singleton_append]
  rfl

/-- A path under a directory. -/
theorem joinPath_append (path : List (List UInt8)) {rest : List (List UInt8)} (hrest : rest ≠ []) :
    joinPath (path ++ rest) = directoryText path ++ joinPath rest := by
  induction path with
  | nil => rfl
  | cons d path ih =>
    rw [List.cons_append, joinPath_cons d (List.append_ne_nil_of_right_ne_nil path hrest), ih,
      directoryText_cons, List.append_assoc, List.cons_append]

/-- A path whose text starts with that of a directory is under it. -/
theorem eq_append_of_prefix {path segments : List (List UInt8)} (hpath : ∀ d ∈ path, slash ∉ d)
    (hsegments : ∀ s ∈ segments, slash ∉ s) (hne : segments ≠ [])
    (h : directoryText path <+: joinPath segments) :
    ∃ rest, rest ≠ [] ∧ segments = path ++ rest := by
  induction path generalizing segments with
  | nil => exact ⟨segments, hne, rfl⟩
  | cons d path ih =>
    obtain ⟨s, tail, rfl⟩ := List.exists_cons_of_ne_nil hne
    obtain ⟨hd, hbelow⟩ := List.forall_mem_cons.mp hpath
    obtain ⟨hs, htail⟩ := List.forall_mem_cons.mp hsegments
    rw [directoryText_cons, prefix_joinPath hd hs] at h
    obtain ⟨rfl, hmore, htext⟩ := h
    obtain ⟨rest, hrest, rfl⟩ := ih hbelow htail hmore htext
    exact ⟨rest, hrest, rfl⟩

/-- What stands behind a word that a path starts with. If the word is not the first segment, the
segment goes on. -/
theorem behind_word {word s : List UInt8} {rest : List (List UInt8)} (hs : slash ∉ s)
    (hword : slash ∉ word) (h : word <+: joinPath (s :: rest)) :
    (s = word ∧ rest = [] ∧ (joinPath (s :: rest)).drop word.length = []) ∨
    (s = word ∧ rest ≠ [] ∧ (joinPath (s :: rest)).drop word.length = slash :: joinPath rest) ∨
    (s ≠ word ∧ ∃ c tail, (joinPath (s :: rest)).drop word.length = c :: tail ∧ c ≠ slash) := by
  by_cases hsame : s = word
  · have hdrop := drop_joinPath s rest
    rw [← hsame, hdrop]
    by_cases hrest : rest = []
    · exact .inl ⟨rfl, hrest, if_pos hrest⟩
    · exact .inr (.inl ⟨rfl, hrest, if_neg hrest⟩)
  · refine .inr (.inr ⟨hsame, ?_⟩)
    have hfirst := firstSegment_joinPath hs rest
    have hall : ∀ c ∈ word, (c != slash) = true := fun c hc =>
      bne_iff_ne.mpr (ne_slash_of_mem hword hc)
    obtain ⟨behind, hpath⟩ := h
    rw [← hpath, firstSegment, List.takeWhile_append_of_pos hall] at hfirst
    rw [← hpath, List.drop_left]
    cases behind with
    | nil =>
      rw [List.takeWhile_nil, List.append_nil] at hfirst
      exact absurd hfirst.symm hsame
    | cons c tail =>
      refine ⟨c, tail, rfl, ?_⟩
      rintro rfl
      rw [List.takeWhile_cons_of_neg (by simp), List.append_nil] at hfirst
      exact hsame hfirst.symm

/-- Joined segments that make one word are that word. -/
theorem eq_of_joinPath_eq {segments : List (List UInt8)} {word : List UInt8}
    (hsegments : ∀ s ∈ segments, IsSegment s) (hword : IsSegment word)
    (h : joinPath segments = word) : segments = [word] := by
  refine joinPath_injective hsegments (List.forall_mem_singleton.mpr hword) ?_
  rw [h, joinPath_singleton]

/-- Only the empty list of segments has an empty text. -/
theorem joinPath_ne_nil {segments : List (List UInt8)} (hne : segments ≠ [])
    (hsegments : ∀ s ∈ segments, IsSegment s) : joinPath segments ≠ [] := by
  intro h
  exact hne (joinPath_injective hsegments (by simp)
    (h.trans (by rfl : ([] : List UInt8) = joinPath [])))

/-- Joined segments do not begin with a separator. -/
theorem dropWhile_slash_joinPath {segments : List (List UInt8)}
    (hsegments : ∀ s ∈ segments, IsSegment s) :
    (joinPath segments).dropWhile (· == slash) = joinPath segments := by
  cases segments with
  | nil => rfl
  | cons s rest =>
    have hs := hsegments s (List.mem_cons_self ..)
    obtain ⟨c, tail, hpath⟩ :=
      List.exists_cons_of_ne_nil (joinPath_ne_nil (List.cons_ne_nil s rest) hsegments)
    have hc : c ≠ slash := by
      rintro rfl
      have hfirst := firstSegment_joinPath hs.noSlash rest
      rw [hpath, firstSegment, List.takeWhile_cons_of_neg (by simp)] at hfirst
      exact hs.nonempty hfirst.symm
    rw [hpath, List.dropWhile_cons_of_neg (by simpa using hc)]

/-! ### The walk over the registered nodes -/

/-- One round of the walk. -/
theorem walkNodes_cons {s : List UInt8} {rest : List (List UInt8)} (hs : IsSegment s)
    (hrest : ∀ t ∈ rest, IsSegment t) (node : KNodeId) :
    walkNodes node (joinPath (s :: rest)) =
      (node.findChild s).bind fun found => walkNodes found (joinPath rest) := by
  have hall : ∀ c ∈ s, (c != slash && c != 0) = true := fun c hc => by
    rw [Bool.and_eq_true, bne_iff_ne, bne_iff_ne]
    exact ⟨ne_slash_of_mem hs.noSlash hc, fun h => hs.noNul (h ▸ hc)⟩
  have hfirst := takeWhile_joinPath hall (by simp) rest
  have hbehind : ((joinPath (s :: rest)).drop s.length).dropWhile (· == slash) = joinPath rest := by
    rw [drop_joinPath]
    split
    · rename_i hnil
      rw [hnil]
      rfl
    · rename_i hne
      -- The next segment does not begin with a separator.
      rw [List.dropWhile_cons_of_pos (by simp)]
      exact dropWhile_slash_joinPath hrest
  obtain ⟨c, tail, hpath⟩ :=
    List.exists_cons_of_ne_nil (joinPath_ne_nil (List.cons_ne_nil s rest)
      (List.forall_mem_cons.mpr ⟨hs, hrest⟩))
  rw [hpath] at hfirst hbehind ⊢
  have hc : c ≠ 0 := by
    rintro rfl
    rw [List.takeWhile_cons_of_neg (by simp)] at hfirst
    exact hs.nonempty hfirst.symm
  rw [walkNodes, if_neg hc, hfirst, if_neg hs.nonempty, hbehind]
  cases node.findChild s with
  | none => rfl
  | some found => rfl

/-- Walking the static tree is looking up one segment after the other. -/
theorem walkNodes_joinPath {segments : List (List UInt8)} (hsegments : ∀ s ∈ segments, IsSegment s)
    (node : KNodeId) :
    walkNodes node (joinPath segments) =
      (segments.foldlM KNodeId.findChild node).map makeResolved := by
  induction segments generalizing node with
  | nil =>
    show walkNodes node [] = some (makeResolved node)
    rw [walkNodes]
  | cons s rest ih =>
    obtain ⟨hs, hrest⟩ := List.forall_mem_cons.mp hsegments
    rw [walkNodes_cons hs hrest, List.foldlM_cons]
    cases node.findChild s with
    | none => rfl
    | some found => exact ih hrest found

/-! ### Entries of a registry -/

/-- What the tables of nodes and directories satisfy: every row can be checked by itself. -/
structure TablesOk : Prop where
  fieldSegments : ∀ d ∈ directories, ∀ f ∈ d.fieldNodes, IsSegment f.1
  pathSegments : ∀ d ∈ directories, ∀ s ∈ d.path, IsSegment s
  pathNodes : ∀ d ∈ directories, attachedNode d.path = some d.node
  ids : (registeredNodes.map NodeDefinition.id).Nodup
  paths : (directories.map Directory.path).Nodup
  /-- The names of the fixed children, registry by registry. -/
  fixedNames : ∀ c ∈ registeredNodes,
    (c.parent = some .proc ∨ c.parent = some .devBlock ∨ c.parent = some .devPci ∨
      c.parent = some .devNet ∨ c.parent = some .netArp → c.name = ascii "count") ∧
    (c.parent = some .driver →
      c.name = ascii "registered_count" ∨ c.name = ascii "loaded_count")
  /-- The name of an attached child leads back to it, and the listing shows its type. -/
  children : ∀ c ∈ registeredNodes, ∀ parent ∈ c.parent,
    IsSegment c.name ∧ c.name.length < KSTR_MAX ∧ parent.findChild c.name = some c.id ∧
      c.id.type = c.type
  childNeRoot : ∀ c ∈ registeredNodes, ∀ _parent ∈ c.parent, c.id ≠ .root
  /-- The node of an entry is not attached anywhere. -/
  entryApart : ∀ d ∈ directories, d.entry ≠ .root ∧
    ∀ c ∈ registeredNodes, ∀ _parent ∈ c.parent, d.entry ≠ c.id
  entryType : ∀ d ∈ directories, d.entry.type = .struct
  /-- A listed field is found, and its node has the listed type. -/
  fields : ∀ d ∈ directories, ∀ f ∈ d.fields,
    IsSegment f.name ∧ f.name.length < KSTR_MAX ∧
      (d.fieldNodes.lookup f.name).map KNodeId.type = some f.type
  fieldsListed : ∀ d ∈ directories, ∀ f ∈ d.fieldNodes,
    f.1 ∈ d.fields.map StaticChildDefinition.name
  /-- A field is a leaf. -/
  fieldLeaf : ∀ d ∈ directories, ∀ f ∈ d.fieldNodes,
    f.2.children = [] ∧ ∀ e ∈ directories, e.entry ≠ f.2 ∧ e.node ≠ f.2

theorem tablesOk : TablesOk where
  fieldSegments := by decide
  pathSegments := by decide
  pathNodes := by decide
  ids := by decide
  paths := by decide
  fixedNames := by decide
  children := by decide
  childNeRoot := by decide
  entryApart := by decide
  entryType := by decide
  fields := by decide
  fieldsListed := by decide
  fieldLeaf := by decide

/-- What a table answers is in it. -/
theorem mem_of_lookup {fields : List (List UInt8 × KNodeId)} {f : List UInt8} {node : KNodeId}
    (h : fields.lookup f = some node) : (f, node) ∈ fields := by
  obtain ⟨front, rest, hfields, -⟩ := List.lookup_eq_some_iff.mp h
  rw [hfields]
  exact List.mem_append_right _ (List.mem_cons_self ..)

/-- The body of the resolvers, for a path. -/
theorem resolveEntry_joinPath (entry : KNodeId) (fields : List (List UInt8 × KNodeId))
    (lookup : List UInt8 → Option VirtualKind) {s : List UInt8} (hs : slash ∉ s)
    (tail : List (List UInt8)) :
    resolveEntry entry fields lookup (joinPath (s :: tail)) =
      (lookup s).bind fun kind =>
        if tail = [] then some ⟨entry, kind, some (KStr.set s)⟩
        else (fields.lookup (joinPath tail)).map fun node =>
          ⟨node, kind, some (KStr.set s)⟩ := by
  simp only [resolveEntry, firstSegment_joinPath hs, drop_joinPath]
  cases lookup s with
  | none => rfl
  | some kind =>
    by_cases htail : tail = []
    · simp only [if_pos htail, Option.bind_some]
    · simp only [if_neg htail, Option.bind_some, ne_eq, not_true_eq_false, if_false]

/-! ### What the resolvers find is denoted -/

section Found

variable {w : Registries} {path : List (List UInt8)} {body : List UInt8 → Option ResolvedNode}

/-- What `body` finds for a text behind `path` is denoted by the segments of both. -/
def FindsDenoted (w : Registries) (path : List (List UInt8))
    (body : List UInt8 → Option ResolvedNode) : Prop :=
  ∀ rest, rest ≠ [] → (∀ s ∈ rest, IsSegment s) → ∀ r, body (joinPath rest) = some r →
    Denotes w (path ++ rest) r

/-- An entry and its fields are found in their directory. -/
theorem findsDenoted_resolveEntry {d : Directory} (hd : d ∈ directories) :
    FindsDenoted w d.path (resolveEntry d.entry d.fieldNodes (d.lookup w)) := by
  intro segments hne hsegments r h
  obtain ⟨s, tail, rfl⟩ := List.exists_cons_of_ne_nil hne
  obtain ⟨hs, htail⟩ := List.forall_mem_cons.mp hsegments
  rw [resolveEntry_joinPath _ _ _ hs.noSlash] at h
  obtain ⟨kind, hkind, h⟩ := Option.bind_eq_some_iff.mp h
  by_cases hnil : tail = []
  · rw [if_pos hnil] at h
    cases h
    rw [hnil]
    exact .entry hd hkind
  · rw [if_neg hnil] at h
    obtain ⟨node, hnode, rfl⟩ := Option.map_eq_some_iff.mp h
    -- A field is one segment, so nothing stands behind it.
    have hfield := TablesOk.fieldSegments tablesOk d hd _ (mem_of_lookup hnode)
    have hone := eq_of_joinPath_eq htail hfield rfl
    rw [hone, joinPath_singleton] at hnode
    rw [hone]
    exact .field hd hkind hnode

/-- The fixed names behind `path` are those of attached nodes. -/
def FixedAttached (path : List (List UInt8)) (fixed : List (List UInt8 × KNodeId)) : Prop :=
  ∀ e ∈ fixed, (∀ s ∈ e.1.splitOn slash, IsSegment s) ∧ joinPath (e.1.splitOn slash) = e.1 ∧
    attachedNode (path ++ e.1.splitOn slash) = some e.2

instance (path : List (List UInt8)) (fixed : List (List UInt8 × KNodeId)) :
    Decidable (FixedAttached path fixed) :=
  inferInstanceAs (Decidable (∀ e ∈ fixed, _ ∧ _ ∧ _))

/-- A resolver with fixed names in front of its entries. -/
theorem findsDenoted_resolveFixed {fixed : List (List UInt8 × KNodeId)}
    (hfixed : FixedAttached path fixed) (hbody : FindsDenoted w path body) :
    FindsDenoted w path (resolveFixed fixed body) := by
  intro rest hne hrest r h
  rw [resolveFixed] at h
  split at h
  · rename_i node hnode
    cases h
    obtain ⟨hnames, hjoin, hattached⟩ := hfixed _ (mem_of_lookup hnode)
    rw [joinPath_injective hrest hnames hjoin.symm]
    exact .attached hattached
  · exact hbody rest hne hrest r h

/-- A test for the text of more segments. -/
theorem findsDenoted_behind (base path : List (List UInt8))
    (body : List UInt8 → Option ResolvedNode)
    (hpath : ∀ s ∈ path, slash ∉ s) (hbody : FindsDenoted w (base ++ path) body) :
    FindsDenoted w base fun p =>
      if ¬ directoryText path <+: p then none else body (p.drop (directoryText path).length) := by
  intro segments hne hsegments r h
  beta_reduce at h
  split at h
  · cases h
  · rename_i hprefix
    obtain ⟨rest, hmore, rfl⟩ := eq_append_of_prefix hpath
      (fun s hs => (hsegments s hs).noSlash) hne (not_not.mp hprefix)
    rw [joinPath_append path hmore, List.drop_left] at h
    have hrest : ∀ s ∈ rest, IsSegment s := fun s hs => hsegments s (List.mem_append_right _ hs)
    rw [← List.append_assoc]
    exact hbody rest hmore hrest r h

/-- A resolver that takes its prefix off. -/
theorem findsDenoted_resolvePrefixed (path : List (List UInt8)) (node : KNodeId)
    (hpath : ∀ s ∈ path, slash ∉ s) (hbody : FindsDenoted w path body) :
    FindsDenoted w [] (resolvePrefixed (directoryText path) node body) := by
  refine findsDenoted_behind [] path
    (fun p => if p = [] then some (makeResolved node) else body p) hpath ?_
  intro rest hne hrest r h
  beta_reduce at h
  rw [if_neg (joinPath_ne_nil hne hrest)] at h
  exact hbody rest hne hrest r h

/-- A resolver that compares its first word. -/
theorem findsDenoted_resolveWord {word : List UInt8} {node : KNodeId} (hword : slash ∉ word)
    (hnode : attachedNode [word] = some node) (hbody : FindsDenoted w [word] body) :
    FindsDenoted w [] (resolveWord word node body) := by
  intro segments hne hsegments r h
  obtain ⟨s, rest, rfl⟩ := List.exists_cons_of_ne_nil hne
  obtain ⟨hs, hrest⟩ := List.forall_mem_cons.mp hsegments
  rw [resolveWord] at h
  split at h
  · cases h
  · rename_i hprefix
    rcases behind_word hs.noSlash hword (not_not.mp hprefix) with
      ⟨rfl, rfl, hdrop⟩ | ⟨rfl, hmore, hdrop⟩ | ⟨-, c, tail, hdrop, hc⟩
    · rw [hdrop] at h
      cases h
      exact .attached hnode
    · simp only [hdrop, ne_eq, not_true_eq_false, if_false,
        if_neg (joinPath_ne_nil hmore hrest)] at h
      exact hbody rest hmore hrest r h
    · simp only [hdrop, if_pos hc] at h
      cases h

/-- The nodes that the resolvers of the registries compare with are the attached ones. -/
structure ResolversOk : Prop where
  proc : FixedAttached [ascii "proc"] [(ascii "count", .procCount)]
  pci : FixedAttached pciDirectory.path [(ascii "count", .devPciCount)]
  netDevices : FixedAttached netDirectory.path [(ascii "count", .devNetCount)]
  netStack : FixedAttached [ascii "net"] netStackNodes
  driver : FixedAttached driverDirectory.path
    [(ascii "registered_count", .driverRegisteredCount), (ascii "loaded_count", .driverLoadedCount)]
  procNode : attachedNode [ascii "proc"] = some .proc
  netNode : attachedNode [ascii "net"] = some .net

theorem resolversOk : ResolversOk where
  proc := by decide
  pci := by decide
  netDevices := by decide
  netStack := by decide
  driver := by decide
  procNode := by decide
  netNode := by decide

/-- `resolve_proc_path` finds what it should. -/
theorem findsDenoted_resolveProcPath : FindsDenoted w [] (resolveProcPath w) :=
  findsDenoted_resolveWord (by decide) (ResolversOk.procNode resolversOk)
    (findsDenoted_resolveFixed (ResolversOk.proc resolversOk)
      (findsDenoted_resolveEntry (d := procDirectory) (by simp [directories])))

/-- So does `resolve_block_path`. -/
theorem findsDenoted_resolveBlockPath : FindsDenoted w [] (resolveBlockPath w) :=
  findsDenoted_resolvePrefixed blockDirectory.path _ (by decide)
    (findsDenoted_resolveEntry (d := blockDirectory) (by simp [directories]))

/-- So does `resolve_pci_path`. -/
theorem findsDenoted_resolvePciPath : FindsDenoted w [] (resolvePciPath w) :=
  findsDenoted_resolvePrefixed pciDirectory.path _ (by decide)
    (findsDenoted_resolveFixed (ResolversOk.pci resolversOk)
      (findsDenoted_resolveEntry (d := pciDirectory) (by simp [directories])))

/-- So does `resolve_net_device_path`. -/
theorem findsDenoted_resolveNetDevicePath : FindsDenoted w [] (resolveNetDevicePath w) :=
  findsDenoted_resolvePrefixed netDirectory.path _ (by decide)
    (findsDenoted_resolveFixed (ResolversOk.netDevices resolversOk)
      (findsDenoted_resolveEntry (d := netDirectory) (by simp [directories])))

/-- So does `resolve_net_stack_path`. -/
theorem findsDenoted_resolveNetStackPath : FindsDenoted w [] (resolveNetStackPath w) :=
  findsDenoted_resolveWord (by decide) (ResolversOk.netNode resolversOk)
    (findsDenoted_resolveFixed (ResolversOk.netStack resolversOk)
      (findsDenoted_behind [ascii "net"] [ascii "arp"] _ (by decide)
        (findsDenoted_resolveEntry (d := arpDirectory) (by simp [directories]))))

/-- So does `resolve_driver_path`. -/
theorem findsDenoted_resolveDriverPath : FindsDenoted w [] (resolveDriverPath w) :=
  findsDenoted_resolvePrefixed driverDirectory.path _ (by decide)
    (findsDenoted_resolveFixed (ResolversOk.driver resolversOk)
      (findsDenoted_resolveEntry (d := driverDirectory) (by simp [directories])))

end Found

/-! ### What is denoted is found -/

/-- Fixed names hide no entry. -/
theorem isSome_resolveFixed {fixed : List (List UInt8 × KNodeId)}
    {body : List UInt8 → Option ResolvedNode} {p : List UInt8} (h : (body p).isSome) :
    (resolveFixed fixed body p).isSome := by
  rw [resolveFixed]
  split
  · rfl
  · exact h

/-- A body is reached behind its prefix. -/
theorem isSome_behind (path : List (List UInt8)) {rest : List (List UInt8)}
    (body : List UInt8 → Option ResolvedNode) (hrest : rest ≠ [])
    (h : (body (joinPath rest)).isSome) :
    (if ¬ directoryText path <+: joinPath (path ++ rest) then none
      else body ((joinPath (path ++ rest)).drop (directoryText path).length)).isSome := by
  rw [joinPath_append path hrest, List.drop_left, if_neg (not_not.mpr (List.prefix_append _ _))]
  exact h

/-- The same for a resolver that takes its prefix off. -/
theorem isSome_resolvePrefixed (path : List (List UInt8)) {rest : List (List UInt8)}
    {node : KNodeId} {body : List UInt8 → Option ResolvedNode} (hrest : rest ≠ [])
    (h : (body (joinPath rest)).isSome) :
    (resolvePrefixed (directoryText path) node body (joinPath (path ++ rest))).isSome := by
  refine isSome_behind path
    (fun p => if p = [] then some (makeResolved node) else body p) hrest ?_
  split
  · rfl
  · exact h

/-- The same for a resolver that compares its first word. -/
theorem isSome_resolveWord {word : List UInt8} {rest : List (List UInt8)} {node : KNodeId}
    {body : List UInt8 → Option ResolvedNode} (hrest : rest ≠ [])
    (h : (body (joinPath rest)).isSome) :
    (resolveWord word node body (joinPath (word :: rest))).isSome := by
  rw [resolveWord, joinPath_cons word hrest, List.drop_left,
    if_neg (not_not.mpr (List.prefix_append _ _))]
  simp only [ne_eq, not_true_eq_false, if_false]
  split
  · rfl
  · exact h

section Chain

variable {w : Registries} {segments : List (List UInt8)}

/-- The resolvers are tried in turn. -/
theorem resolveInternal_joinPath (hsegments : ∀ s ∈ segments, IsSegment s) (hne : segments ≠ []) :
    resolveInternal w (joinPath segments) =
      (resolveProcPath w (joinPath segments)).or ((resolveBlockPath w (joinPath segments)).or
      ((resolvePciPath w (joinPath segments)).or ((resolveNetDevicePath w (joinPath segments)).or
      ((resolveNetStackPath w (joinPath segments)).or ((resolveDriverPath w (joinPath segments)).or
      ((attachedNode segments).map makeResolved)))))) := by
  have hstart : ¬ (joinPath segments = [] ∨ (joinPath segments).head? = some 0) := by
    rintro (hnil | hzero)
    · exact joinPath_ne_nil hne hsegments hnil
    · obtain ⟨s, rest, rfl⟩ := List.exists_cons_of_ne_nil hne
      have hs := hsegments s (List.mem_cons_self ..)
      obtain ⟨c, tail, rfl⟩ := List.exists_cons_of_ne_nil hs.nonempty
      rw [joinPath, List.intercalate_cons_cons_left, List.head?_cons] at hzero
      cases hzero
      exact hs.noNul (List.mem_cons_self ..)
  rw [resolveInternal]
  simp only [dropWhile_slash_joinPath hsegments, if_neg hstart, walkNodes_joinPath hsegments,
    Option.orElse_eq_orElse, Option.orElse_eq_or]
  rfl

/-- An entry or a field is found by the resolver of its registry. -/
theorem isSome_of_resolveEntry {d : Directory} (hd : d ∈ directories)
    (hsegments : ∀ s ∈ d.path ++ segments, IsSegment s) (hne : segments ≠ [])
    (h : (resolveEntry d.entry d.fieldNodes (d.lookup w) (joinPath segments)).isSome) :
    (resolveInternal w (joinPath (d.path ++ segments))).isSome := by
  rw [resolveInternal_joinPath hsegments (List.append_ne_nil_of_right_ne_nil _ hne)]
  simp only [Option.isSome_or, Bool.or_eq_true]
  simp only [directories, List.mem_cons, List.not_mem_nil, or_false] at hd
  rcases hd with rfl | rfl | rfl | rfl | rfl | rfl
  · exact .inl (isSome_resolveWord hne (isSome_resolveFixed h))
  · exact .inr (.inl (isSome_resolvePrefixed blockDirectory.path hne h))
  · exact .inr (.inr (.inl
      (isSome_resolvePrefixed pciDirectory.path hne (isSome_resolveFixed h))))
  · exact .inr (.inr (.inr (.inl
      (isSome_resolvePrefixed netDirectory.path hne (isSome_resolveFixed h)))))
  · refine .inr (.inr (.inr (.inr (.inl ?_))))
    exact isSome_resolveWord (List.cons_ne_nil _ _)
      (isSome_resolveFixed (isSome_behind [ascii "arp"] _ hne h))
  · exact .inr (.inr (.inr (.inr (.inr (.inl
      (isSome_resolvePrefixed driverDirectory.path hne (isSome_resolveFixed h)))))))

/-- What denotes something is resolved. -/
theorem isSome_of_denotes {r : ResolvedNode} (hsegments : ∀ s ∈ segments, IsSegment s)
    (h : Denotes w segments r) : (resolveInternal w (joinPath segments)).isSome := by
  cases h with
  | @attached _ node hnode =>
    by_cases hne : segments = []
    · rw [hne]
      rfl
    · rw [resolveInternal_joinPath hsegments hne, hnode]
      simp
  | @entry d s kind hd hkind =>
    have hs := hsegments s (List.mem_append_right _ (List.mem_singleton.mpr rfl))
    refine isSome_of_resolveEntry hd hsegments (List.cons_ne_nil _ _) ?_
    rw [resolveEntry_joinPath _ _ _ hs.noSlash, hkind]
    rfl
  | @field d s f kind node hd hkind hfield =>
    have hs := hsegments s (List.mem_append_right _ (List.mem_cons_self ..))
    refine isSome_of_resolveEntry hd hsegments (List.cons_ne_nil _ _) ?_
    rw [resolveEntry_joinPath _ _ _ hs.noSlash, hkind, joinPath_singleton, hfield]
    rfl

end Chain

/-! ### At most one node -/

/-- A child that is found is registered under its parent. -/
theorem findChild_eq_some {node found : KNodeId} {name : List UInt8}
    (h : node.findChild name = some found) :
    ∃ child ∈ registeredNodes, child.parent = some node ∧ child.name = name ∧ child.id = found := by
  obtain ⟨child, hchild, rfl⟩ := Option.map_eq_some_iff.mp h
  have hmem := List.mem_filter.mp (List.mem_of_find?_eq_some hchild)
  have hname : (child.name == name) = true :=
    List.find?_some (p := fun child : NodeDefinition => child.name == name) hchild
  exact ⟨child, hmem.1, beq_iff_eq.mp hmem.2, beq_iff_eq.mp hname, rfl⟩

/-- The attached node of a longer path. -/
theorem attachedNode_append (segments : List (List UInt8)) (s : List UInt8) :
    attachedNode (segments ++ [s]) =
      (attachedNode segments).bind fun node => node.findChild s := by
  rw [attachedNode, List.foldlM_append, attachedNode]
  cases List.foldlM KNodeId.findChild KNodeId.root segments with
  | none => rfl
  | some node => simp

section WellNamed

variable {w : Registries} {d : Directory} {segments : List (List UInt8)} {s : List UInt8}
  {kind : VirtualKind}

/-- No block device is called like the counter. -/
theorem blockFind_fixed (hw : w.WellNamed) : blockFind w (ascii "count") = none := by
  rw [blockFind, List.findIdx?_eq_none_iff]
  intro device hdevice
  have hcut : cstr (ascii "count") = ascii "count" := by decide
  rw [hcut, beq_eq_false_iff_ne]
  exact (hw.blockNames device hdevice).2.2

/-- No network device is called like the counter. -/
theorem netFind_fixed (hw : w.WellNamed) : netFind w (ascii "count") = none := by
  rw [netFind, List.findIdx?_eq_none_iff]
  intro device hdevice
  have hcut : cstr (ascii "count") = ascii "count" := by decide
  rw [hcut, beq_eq_false_iff_ne]
  exact (hw.netNames device hdevice).2.2

/-- No driver is called like one of the counters. -/
theorem driverFind_fixed (hw : w.WellNamed) :
    driverFind w (ascii "registered_count") = none ∧
      driverFind w (ascii "loaded_count") = none := by
  constructor
  all_goals
    rw [driverFind, List.findIdx?_eq_none_iff]
    intro desc hdesc
    rw [nameMatch, beq_eq_false_iff_ne]
  · have hquery : normalizeDriverName (cstr (ascii "registered_count")) =
        ascii "registered_count" := by decide
    rw [hquery]
    exact (hw.driverNames desc hdesc).2.1.symm
  · have hquery : normalizeDriverName (cstr (ascii "loaded_count")) = ascii "loaded_count" := by
      decide
    rw [hquery]
    exact (hw.driverNames desc hdesc).2.2.symm

/-- No entry has the name of a fixed child. -/
theorem lookup_fixed (hw : w.WellNamed) (hd : d ∈ directories) {found : KNodeId}
    (h : d.node.findChild s = some found) : d.lookup w s = none := by
  obtain ⟨c, hc, hparent, rfl, -⟩ := findChild_eq_some h
  obtain ⟨hcount, hcounts⟩ := TablesOk.fixedNames tablesOk c hc
  simp only [directories, List.mem_cons, List.not_mem_nil, or_false] at hd
  rcases hd with rfl | rfl | rfl | rfl | rfl | rfl
  · rw [hcount (.inl hparent)]
    rfl
  · rw [hcount (.inr (.inl hparent))]
    show blockDeviceAt w (ascii "count") = none
    rw [blockDeviceAt, byName, blockFind_fixed hw]
    rfl
  · rw [hcount (.inr (.inr (.inl hparent)))]
    rfl
  · rw [hcount (.inr (.inr (.inr (.inl hparent))))]
    show netDeviceAt w (ascii "count") = none
    rw [netDeviceAt, byName, netFind_fixed hw]
    rfl
  · rw [hcount (.inr (.inr (.inr (.inr hparent))))]
    rfl
  · show driverAt w c.name = none
    rcases hcounts hparent with hname | hname
    · rw [hname, driverAt, byName, (driverFind_fixed hw).1]
      rfl
    · rw [hname, driverAt, byName, (driverFind_fixed hw).2]
      rfl

/-- An entry of a registry is no node of the tree. -/
theorem attachedNode_entry (hw : w.WellNamed) (hd : d ∈ directories)
    (hkind : d.lookup w s = some kind) : attachedNode (d.path ++ [s]) = none := by
  rw [attachedNode_append, TablesOk.pathNodes tablesOk d hd, Option.bind_some]
  cases hfound : d.node.findChild s with
  | none => rfl
  | some found =>
    rw [lookup_fixed hw hd hfound] at hkind
    cases hkind

/-- Neither is one of its fields. -/
theorem attachedNode_field (hw : w.WellNamed) (hd : d ∈ directories)
    (hkind : d.lookup w s = some kind) (f : List UInt8) :
    attachedNode (d.path ++ [s, f]) = none := by
  have hsplit : d.path ++ [s, f] = d.path ++ [s] ++ [f] := by simp
  rw [hsplit, attachedNode_append, attachedNode_entry hw hd hkind]
  rfl

/-- A directory is known by its path. -/
theorem eq_of_path {e : Directory} (hd : d ∈ directories) (he : e ∈ directories)
    (h : d.path = e.path) : d = e :=
  List.inj_on_of_nodup_map (TablesOk.paths tablesOk) hd he h

variable {r q : ResolvedNode}

/-- A path of the tree denotes its node only. -/
theorem eq_of_attached (hw : w.WellNamed) {node : KNodeId}
    (hnode : attachedNode segments = some node)
    (h : Denotes w segments r) : r = makeResolved node := by
  cases h with
  | attached hother =>
    rw [hnode] at hother
    cases hother
    rfl
  | entry hd hkind =>
    rw [attachedNode_entry hw hd hkind] at hnode
    cases hnode
  | field hd hkind hfield =>
    rw [attachedNode_field hw hd hkind] at hnode
    cases hnode

/-- An entry and a field do not meet: the entry would be a registry inside the other. -/
theorem entry_ne_field (hw : w.WellNamed) {e : Directory} (hd : d ∈ directories)
    (he : e ∈ directories) (hkind : e.lookup w s = some kind) (t f : List UInt8) :
    d.path ++ [t] ≠ e.path ++ [s, f] := by
  intro h
  have hsplit : e.path ++ [s, f] = e.path ++ [s] ++ [f] := by simp
  rw [hsplit] at h
  have hpath := (List.append_inj' h rfl).1
  have hnode := TablesOk.pathNodes tablesOk d hd
  rw [hpath, attachedNode_entry hw he hkind] at hnode
  cases hnode

/-- A path denotes one thing at most. -/
theorem denotes_unique (hw : w.WellNamed) (hr : Denotes w segments r) (hq : Denotes w segments q) :
    r = q := by
  cases hr with
  | attached hnode => exact (eq_of_attached hw hnode hq).symm
  | @entry d s kind hd hkind =>
    generalize hsegments : d.path ++ [s] = segments at hq
    cases hq with
    | attached hnode =>
      rw [← hsegments, attachedNode_entry hw hd hkind] at hnode
      cases hnode
    | @entry e t other he hother =>
      obtain ⟨hpath, hname⟩ := List.append_inj' hsegments rfl
      cases eq_of_path hd he hpath
      cases hname
      rw [hkind] at hother
      cases hother
      rfl
    | field he hother hfield => exact absurd hsegments (entry_ne_field hw hd he hother _ _)
  | @field d s f kind node hd hkind hnode =>
    generalize hsegments : d.path ++ [s, f] = segments at hq
    cases hq with
    | attached hattached =>
      rw [← hsegments, attachedNode_field hw hd hkind] at hattached
      cases hattached
    | entry he hother => exact absurd hsegments.symm (entry_ne_field hw he hd hkind _ _)
    | @field e t g other found he hother hfound =>
      obtain ⟨hpath, hname⟩ := List.append_inj' hsegments rfl
      cases eq_of_path hd he hpath
      cases hname
      rw [hkind] at hother
      rw [hnode] at hfound
      cases hother
      cases hfound
      rfl

/-- The resolvers find the node that the segments denote, and nothing else. -/
theorem resolveInternal_joinPath_iff (hw : w.WellNamed) (hsegments : ∀ s ∈ segments, IsSegment s) :
    resolveInternal w (joinPath segments) = some r ↔ Denotes w segments r := by
  have hsound : ∀ q, resolveInternal w (joinPath segments) = some q → Denotes w segments q := by
    intro q h
    by_cases hne : segments = []
    · subst hne
      cases h
      exact .attached rfl
    · rw [resolveInternal_joinPath hsegments hne] at h
      simp only [Option.or_eq_some_iff] at h
      rcases h with h | ⟨-, h | ⟨-, h | ⟨-, h | ⟨-, h | ⟨-, h | ⟨-, h⟩⟩⟩⟩⟩⟩
      · exact findsDenoted_resolveProcPath _ hne hsegments _ h
      · exact findsDenoted_resolveBlockPath _ hne hsegments _ h
      · exact findsDenoted_resolvePciPath _ hne hsegments _ h
      · exact findsDenoted_resolveNetDevicePath _ hne hsegments _ h
      · exact findsDenoted_resolveNetStackPath _ hne hsegments _ h
      · exact findsDenoted_resolveDriverPath _ hne hsegments _ h
      · obtain ⟨node, hnode, rfl⟩ := Option.map_eq_some_iff.mp h
        exact .attached hnode
  refine ⟨hsound r, fun h => ?_⟩
  obtain ⟨q, hq⟩ := Option.isSome_iff_exists.mp (isSome_of_denotes hsegments h)
  rw [hq, denotes_unique hw (hsound q hq) h]

end WellNamed

end VKernel.Proofs.Kobj

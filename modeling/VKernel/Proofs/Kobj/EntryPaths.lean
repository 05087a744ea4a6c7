import VKernel.Kobj.EntryPaths
import VKernel.Proofs.Kobj.Resolution

/-!
# `VKernel.Proofs.Kobj.EntryPaths`: what a path of any shape resolves to

`resolveInternal_joinPath_iff` is about paths with single separators. Here the path is any C
string, and the registries may have any names. Two facts describe `resolveInternal` then:

* `resolveInternal_entry`: a text that names an entry is found as that entry, whatever else its
  segments would lead to;
* `resolveInternal_attached`: every other path is what the walk over its nonempty segments finds.

The second needs that a resolver which finds a fixed node finds the one of the walk. All the
comparisons with fixed names stand in `comparisons`, and `textsOk.comparisons` checks them at once.
-/

set_option autoImplicit false

namespace VKernel.Proofs.Kobj

open VKernel VKernel.Kobj

/-! ### Nonempty segments -/

/-- A C string has no NUL. -/
theorem cstr_noNul (path : List UInt8) : 0 ∉ cstr path := fun h => by
  have hc : ((0 : UInt8) != 0) = true := List.mem_takeWhile_imp (p := fun c => c != 0) h
  exact absurd hc (by decide)

/-- Everything about the segments follows from this equation. -/
theorem pathSegments_append_slash (front rest : List UInt8) :
    pathSegments (front ++ slash :: rest) = pathSegments front ++ pathSegments rest := by
  rw [pathSegments, List.splitOn_append_cons_self, List.filter_append]
  rfl

/-- A leading slash adds no segment. -/
theorem pathSegments_cons_slash (rest : List UInt8) :
    pathSegments (slash :: rest) = pathSegments rest := pathSegments_append_slash [] rest

/-- A text without a slash is one segment. -/
theorem pathSegments_noSlash {s : List UInt8} (hne : s ≠ []) (hs : slash ∉ s) :
    pathSegments s = [s] := by
  rw [pathSegments, List.splitOn_eq_singleton hs]
  exact List.filter_cons_of_pos (bne_iff_ne.mpr hne)

/-- Neither do the slashes that are stripped. -/
theorem pathSegments_stripSlashes (path : List UInt8) :
    pathSegments (stripSlashes path) = pathSegments path := by
  induction path with
  | nil => rfl
  | cons c rest ih =>
    by_cases hc : c = slash
    · rw [hc, pathSegments_cons_slash, ← ih, stripSlashes, List.dropWhile_cons_of_pos (by simp)]
      rfl
    · rw [stripSlashes, List.dropWhile_cons_of_neg (by simpa using hc)]

/-- Stripping only takes characters away. -/
theorem stripSlashes_sublist (path : List UInt8) : (stripSlashes path).Sublist path :=
  List.dropWhile_sublist _

/-- Joining segments and splitting them again drops the empty ones. -/
theorem pathSegments_joinPath {segments : List (List UInt8)} (h : ∀ s ∈ segments, slash ∉ s) :
    pathSegments (joinPath segments) = segments.filter fun s => s != [] := by
  by_cases hne : segments = []
  · rw [hne]
    rfl
  · rw [pathSegments, joinPath, List.splitOn_intercalate slash h hne]

/-- A first segment has no slash. -/
theorem slash_notMem_firstSegment (p : List UInt8) : slash ∉ firstSegment p := fun h => by
  have hc : (slash != slash) = true := List.mem_takeWhile_imp (p := fun c => c != slash) h
  exact absurd hc (by decide)

/-- The first segment, and what stands behind it. -/
theorem firstSegment_append_drop (p : List UInt8) :
    p = firstSegment p ++ p.drop (firstSegment p).length ∧
      (p.drop (firstSegment p).length = [] ∨
        ∃ rest, p.drop (firstSegment p).length = slash :: rest) := by
  induction p with
  | nil => exact ⟨rfl, .inl rfl⟩
  | cons c rest ih =>
    by_cases hc : c = slash
    · have hcut : firstSegment (c :: rest) = [] := List.takeWhile_cons_of_neg (by simp [hc])
      rw [hcut, hc]
      exact ⟨rfl, .inr ⟨rest, rfl⟩⟩
    · have hcut : firstSegment (c :: rest) = c :: firstSegment rest :=
        List.takeWhile_cons_of_pos (bne_iff_ne.mpr hc)
      rw [hcut, List.length_cons, List.drop_succ_cons, List.cons_append]
      exact ⟨congrArg (c :: ·) ih.1, ih.2⟩

/-- The segments of a path start with its first one. -/
theorem pathSegments_firstSegment {p : List UInt8} (hne : firstSegment p ≠ []) :
    pathSegments p = firstSegment p :: pathSegments (p.drop (firstSegment p).length) := by
  obtain ⟨hcut, hbehind⟩ := firstSegment_append_drop p
  have hone := pathSegments_noSlash hne (slash_notMem_firstSegment p)
  calc pathSegments p
      = pathSegments (firstSegment p ++ p.drop (firstSegment p).length) := by rw [← hcut]
    _ = firstSegment p :: pathSegments (p.drop (firstSegment p).length) := by
      rcases hbehind with hnil | ⟨rest, hrest⟩
      · rw [hnil, List.append_nil, hone]
        rfl
      · rw [hrest, pathSegments_append_slash, hone, pathSegments_cons_slash]
        rfl

/-- In a C string the loop over the nodes ends a segment where the resolvers do. -/
theorem takeWhile_segment {path : List UInt8} (hpath : 0 ∉ path) :
    path.takeWhile (fun c => c != slash && c != 0) = firstSegment path := by
  induction path with
  | nil => rfl
  | cons c rest ih =>
    have hc : (c != 0) = true := bne_iff_ne.mpr fun h => hpath (h ▸ List.mem_cons_self ..)
    rw [List.takeWhile_cons, firstSegment, List.takeWhile_cons, hc, Bool.and_true,
      ih fun h => hpath (List.mem_cons_of_mem _ h)]
    rfl

/-- The loop over the registered nodes follows the nonempty segments. -/
theorem walkNodes_eq {path : List UInt8} (hpath : 0 ∉ path) (node : KNodeId) :
    walkNodes node path =
      ((pathSegments path).foldlM KNodeId.findChild node).map makeResolved := by
  -- A round takes at least one byte off the path.
  induction hlength : path.length using Nat.strong_induction_on generalizing path node with
  | _ n ih =>
    cases path with
    | nil =>
      rw [walkNodes]
      rfl
    | cons c rest =>
      have hc : c ≠ 0 := fun h => hpath (h ▸ List.mem_cons_self ..)
      have hrest : 0 ∉ rest := fun h => hpath (List.mem_cons_of_mem _ h)
      rw [walkNodes, if_neg hc, takeWhile_segment hpath]
      have hbehind := (firstSegment_append_drop (c :: rest)).2
      by_cases hempty : firstSegment (c :: rest) = []
      · -- An empty segment is a separator.
        rw [hempty, List.length_nil, List.drop_zero] at hbehind
        obtain ⟨rest', hrest'⟩ := hbehind.resolve_left (List.cons_ne_nil _ _)
        cases hrest'
        rw [hempty, if_pos rfl, pathSegments_cons_slash]
        exact ih rest.length (by rw [← hlength, List.length_cons]; omega) hrest node rfl
      · rw [if_neg hempty, pathSegments_firstSegment hempty, List.foldlM_cons]
        cases node.findChild (firstSegment (c :: rest)) with
        | none => rfl
        | some found =>
          have hpositive : 0 < (firstSegment (c :: rest)).length :=
            List.length_pos_of_ne_nil hempty
          have hbelow := stripSlashes_sublist ((c :: rest).drop (firstSegment (c :: rest)).length)
          have hshorter := hbelow.length_le
          rw [List.length_drop] at hshorter
          rw [List.length_cons] at hlength hshorter
          have hnul : 0 ∉ stripSlashes ((c :: rest).drop (firstSegment (c :: rest)).length) :=
            fun h => hpath (List.mem_of_mem_drop (hbelow.subset h))
          refine (ih _ (by omega) hnul found rfl).trans ?_
          rw [pathSegments_stripSlashes]
          rfl

/-! ### The comparisons with fixed names -/

/-- A resolver in front of its entries: its text, the node for the text alone, and the names that
are compared with. -/
structure Comparison where
  text : List UInt8
  node : KNodeId
  fixed : List (List UInt8 × KNodeId)

/-- The resolvers of `resolveInternal`, in their order. -/
def comparisons : List Comparison := [
  ⟨directoryText [ascii "proc"], .proc, [(ascii "count", .procCount)]⟩,
  ⟨directoryText blockDirectory.path, .devBlock, []⟩,
  ⟨directoryText pciDirectory.path, .devPci, [(ascii "count", .devPciCount)]⟩,
  ⟨directoryText netDirectory.path, .devNet, [(ascii "count", .devNetCount)]⟩,
  ⟨directoryText [ascii "net"], .net, netStackNodes⟩,
  ⟨directoryText driverDirectory.path, .driver,
    [(ascii "registered_count", .driverRegisteredCount),
     (ascii "loaded_count", .driverLoadedCount)]⟩]

/-- The fixed nodes of a resolver are those that the walk finds, and its names are all the
compared paths below its text. -/
structure Comparison.Ok (c : Comparison) : Prop where
  node : attachedNode (pathSegments c.text) = some c.node
  fixed : ∀ e ∈ c.fixed,
    attachedNode (pathSegments (c.text ++ e.1)) = some e.2 ∧ c.text ++ e.1 ∈ comparedPaths
  compared : ∀ p ∈ comparedPaths, c.text <+: p → (c.fixed.lookup (p.drop c.text.length)).isSome

instance (c : Comparison) : Decidable c.Ok :=
  decidable_of_iff (attachedNode (pathSegments c.text) = some c.node ∧
    (∀ e ∈ c.fixed,
      attachedNode (pathSegments (c.text ++ e.1)) = some e.2 ∧ c.text ++ e.1 ∈ comparedPaths) ∧
    ∀ p ∈ comparedPaths, c.text <+: p → (c.fixed.lookup (p.drop c.text.length)).isSome)
    ⟨fun h => ⟨h.1, h.2.1, h.2.2⟩, fun h => ⟨h.node, h.fixed, h.compared⟩⟩

/-- What the texts of the tables satisfy. -/
structure TextsOk : Prop where
  comparisons : ∀ c ∈ comparisons, c.Ok
  /-- A field stands behind one more separator than any compared path. -/
  noField : ∀ d ∈ directories, ∀ p ∈ comparedPaths, directoryText d.path <+: p →
    slash ∉ p.drop (directoryText d.path).length
  /-- No registry stands inside another. -/
  apart : ∀ d ∈ directories, ∀ e ∈ directories, directoryText d.path <+: directoryText e.path →
    d.path = e.path
  /-- No registry stands directly below another. -/
  notBelow : ∀ d ∈ directories, ∀ e ∈ directories, d.path.dropLast ≠ e.path

theorem textsOk : TextsOk where
  comparisons := by decide
  noField := by decide
  apart := by decide
  notBelow := by decide


/-! ### What the resolvers find -/

section Found

variable {w : Registries} {base : List UInt8} {body : List UInt8 → Option ResolvedNode}
  {p : List UInt8} {r : ResolvedNode}

/-- The path names the node as an entry, or the walk over its segments leads there. -/
def Found (w : Registries) (p : List UInt8) (r : ResolvedNode) : Prop :=
  NamesEntry w p r ∨ ∃ node, attachedNode (pathSegments p) = some node ∧ r = makeResolved node

/-- What `body` finds behind `base`, where the whole is no compared path. -/
def ReadsBehind (w : Registries) (base : List UInt8)
    (body : List UInt8 → Option ResolvedNode) : Prop :=
  ∀ p r, p ≠ [] → base ++ p ∉ comparedPaths → body p = some r → Found w (base ++ p) r

/-- The path of an entry. -/
theorem directoryText_append (path : List (List UInt8)) (s : List UInt8) :
    directoryText path ++ s = joinPath (path ++ [s]) := by
  rw [joinPath_append path (List.cons_ne_nil _ _), joinPath_singleton]

/-- The path of a field. -/
theorem directoryText_append_field (path : List (List UInt8)) (s f : List UInt8) :
    directoryText path ++ (s ++ slash :: f) = joinPath (path ++ [s, f]) := by
  rw [joinPath_append path (List.cons_ne_nil _ _), joinPath_cons s (List.cons_ne_nil _ _),
    joinPath_singleton]

/-- An entry is read from a name, alone or with a field behind it. -/
theorem resolveEntry_eq_some {entry : KNodeId} {fields : List (List UInt8 × KNodeId)}
    {lookup : List UInt8 → Option VirtualKind} (h : resolveEntry entry fields lookup p = some r) :
    ∃ s kind, slash ∉ s ∧ lookup s = some kind ∧
      (p = s ∧ r = ⟨entry, kind, some (KStr.set s)⟩ ∨
        ∃ f node, p = s ++ slash :: f ∧ fields.lookup f = some node ∧
          r = ⟨node, kind, some (KStr.set s)⟩) := by
  obtain ⟨hcut, hbehind⟩ := firstSegment_append_drop p
  rw [resolveEntry] at h
  cases hkind : lookup (firstSegment p) with
  | none =>
    rw [hkind] at h
    cases h
  | some kind =>
    refine ⟨firstSegment p, kind, slash_notMem_firstSegment p, hkind, ?_⟩
    rw [hkind] at h
    rcases hbehind with hnil | ⟨tail, htail⟩
    · rw [hnil, List.append_nil] at hcut
      simp only [hnil] at h
      exact .inl ⟨hcut, (Option.some.inj h).symm⟩
    · simp only [htail, ne_eq, not_true_eq_false, if_false] at h
      obtain ⟨node, hnode, rfl⟩ := Option.map_eq_some_iff.mp h
      rw [htail] at hcut
      exact .inr ⟨tail, node, hcut, hnode, rfl⟩

/-- An entry and its fields are read behind their directory. -/
theorem readsBehind_resolveEntry {d : Directory} (hd : d ∈ directories) :
    ReadsBehind w (directoryText d.path) (resolveEntry d.entry d.fieldNodes (d.lookup w)) := by
  intro p r hne hfree h
  obtain ⟨s, kind, hs, hkind, ⟨rfl, rfl⟩ | ⟨f, node, rfl, hnode, rfl⟩⟩ := resolveEntry_eq_some h
  · rw [directoryText_append] at hfree ⊢
    exact .inl (.entry hd hne hs hkind hfree)
  · rw [directoryText_append_field]
    exact .inl (.field hd hs hkind hnode)

/-- A test for more text. It must not find anything for the text alone. -/
theorem readsBehind_behind {text : List UInt8} (hnil : body [] = none)
    (hbody : ReadsBehind w (base ++ text) body) :
    ReadsBehind w base fun p => if ¬ text <+: p then none else body (p.drop text.length) := by
  intro p r hne hfree h
  beta_reduce at h
  split at h
  · cases h
  · rename_i hprefix
    obtain ⟨q, rfl⟩ := not_not.mp hprefix
    rw [List.drop_left] at h
    rw [← List.append_assoc] at hfree ⊢
    refine hbody q r ?_ hfree h
    rintro rfl
    rw [hnil] at h
    cases h

/-- The names are compared with first, and they are the compared paths behind the text. -/
theorem found_resolveFixed {c : Comparison} (hc : c ∈ comparisons) (hne : p ≠ [])
    (hbody : ReadsBehind w c.text body) (h : resolveFixed c.fixed body p = some r) :
    Found w (c.text ++ p) r := by
  have hok := TextsOk.comparisons textsOk c hc
  rw [resolveFixed] at h
  cases hlookup : c.fixed.lookup p with
  | some node =>
    rw [hlookup] at h
    cases h
    exact .inr ⟨node, (hok.fixed _ (mem_of_lookup hlookup)).1, rfl⟩
  | none =>
    rw [hlookup] at h
    refine hbody p r hne (fun hcompared => ?_) h
    have hsome := hok.compared _ hcompared (List.prefix_append _ _)
    rw [List.drop_left, hlookup] at hsome
    cases hsome

/-- What a resolver finds under its prefix. -/
theorem found_resolvePrefixed {c : Comparison} (hc : c ∈ comparisons)
    (hbody : ReadsBehind w c.text body)
    (h : resolvePrefixed c.text c.node (resolveFixed c.fixed body) p = some r) : Found w p r := by
  rw [resolvePrefixed] at h
  split at h
  · cases h
  · rename_i hprefix
    obtain ⟨q, rfl⟩ := not_not.mp hprefix
    rw [List.drop_left] at h
    by_cases hq : q = []
    · subst hq
      cases h
      rw [List.append_nil]
      exact .inr ⟨c.node, (TextsOk.comparisons textsOk c hc).node, rfl⟩
    · exact found_resolveFixed hc hq hbody ((if_neg hq).symm.trans h)

/-- A word is also found without its separator. -/
theorem found_resolveWord {c : Comparison} (hc : c ∈ comparisons) {word : List UInt8}
    (htext : c.text = directoryText [word]) (hbody : ReadsBehind w c.text body)
    (h : resolveWord word c.node (resolveFixed c.fixed body) p = some r) : Found w p r := by
  have htext' : c.text = word ++ [slash] := by
    rw [htext, directoryText_cons]
    rfl
  have hword : attachedNode (pathSegments word) = some c.node := by
    have hnode := (TextsOk.comparisons textsOk c hc).node
    rw [htext', pathSegments_append_slash] at hnode
    rwa [← List.append_nil (pathSegments word)]
  rw [resolveWord] at h
  split at h
  · cases h
  · rename_i hprefix
    obtain ⟨q, rfl⟩ := not_not.mp hprefix
    rw [List.drop_left] at h
    cases q with
    | nil =>
      cases h
      rw [List.append_nil]
      exact .inr ⟨c.node, hword, rfl⟩
    | cons b q =>
      by_cases hb : b = slash
      · subst hb
        simp only [ne_eq, not_true_eq_false, if_false] at h
        have hsplit : word ++ slash :: q = c.text ++ q := by
          rw [htext', List.append_assoc, List.singleton_append]
        rw [hsplit]
        by_cases hq : q = []
        · subst hq
          cases h
          rw [List.append_nil]
          exact .inr ⟨c.node, (TextsOk.comparisons textsOk c hc).node, rfl⟩
        · exact found_resolveFixed hc hq hbody ((if_neg hq).symm.trans h)
      · simp only [ne_eq, hb, not_false_eq_true, if_true] at h
        cases h

/-- What a path resolves to is an entry that it names, or the end of the walk over its segments. -/
theorem found_of_resolveInternal {path : List UInt8} (hpath : 0 ∉ path)
    (h : resolveInternal w path = some r) : Found w (stripSlashes path) r := by
  rw [resolveInternal] at h
  split at h
  · rename_i hstart
    have hnil : stripSlashes path = [] := by
      refine hstart.resolve_right fun hzero => hpath ?_
      exact (stripSlashes_sublist path).subset (List.mem_of_mem_head? hzero)
    cases h
    rw [hnil]
    exact .inr ⟨.root, rfl, rfl⟩
  · simp only [Option.orElse_eq_orElse, Option.orElse_eq_or, Option.or_eq_some_iff] at h
    rcases h with h | ⟨-, h | ⟨-, h | ⟨-, h | ⟨-, h | ⟨-, h | ⟨-, h⟩⟩⟩⟩⟩⟩
    · exact found_resolveWord (c := comparisons[0]) (by simp [comparisons]) rfl
        (readsBehind_resolveEntry (d := procDirectory) (by simp [directories])) h
    · exact found_resolvePrefixed (c := comparisons[1]) (by simp [comparisons])
        (readsBehind_resolveEntry (d := blockDirectory) (by simp [directories])) h
    · exact found_resolvePrefixed (c := comparisons[2]) (by simp [comparisons])
        (readsBehind_resolveEntry (d := pciDirectory) (by simp [directories])) h
    · exact found_resolvePrefixed (c := comparisons[3]) (by simp [comparisons])
        (readsBehind_resolveEntry (d := netDirectory) (by simp [directories])) h
    · exact found_resolveWord (c := comparisons[4]) (by simp [comparisons]) rfl
        (@readsBehind_behind _ _ _ (ascii "arp/") rfl
          (readsBehind_resolveEntry (d := arpDirectory) (by simp [directories]))) h
    · exact found_resolvePrefixed (c := comparisons[5]) (by simp [comparisons])
        (readsBehind_resolveEntry (d := driverDirectory) (by simp [directories])) h
    · have hnul : 0 ∉ path.dropWhile (· == slash) := fun hzero =>
        hpath ((stripSlashes_sublist path).subset hzero)
      rw [walkNodes_eq hnul] at h
      obtain ⟨node, hnode, rfl⟩ := Option.map_eq_some_iff.mp h
      exact .inr ⟨node, hnode, rfl⟩

end Found

/-! ### Named entries are found -/

section Named

variable {w : Registries} {base : List UInt8} {body : List UInt8 → Option ResolvedNode}
  {q : List UInt8} {r : ResolvedNode}

/-- Texts that start differently go on so. -/
theorem not_prefix_append {text base : List UInt8} (hshort : ¬ text <+: base)
    (hlong : ¬ base <+: text) (q : List UInt8) : ¬ text <+: base ++ q := by
  intro h
  rcases List.prefix_or_prefix_of_prefix h (List.prefix_append base q) with hcase | hcase
  · exact hshort hcase
  · exact hlong hcase

/-- A resolver finds nothing under another directory. -/
theorem resolvePrefixed_none {text : List UInt8} (node : KNodeId) (hshort : ¬ text <+: base)
    (hlong : ¬ base <+: text) : resolvePrefixed text node body (base ++ q) = none :=
  if_pos (not_prefix_append hshort hlong q)

/-- The same for a resolver that compares its first word. -/
theorem resolveWord_none {word : List UInt8} (node : KNodeId) (hshort : ¬ word <+: base)
    (hlong : ¬ base <+: word) : resolveWord word node body (base ++ q) = none :=
  if_pos (not_prefix_append hshort hlong q)

/-- A path that is not compared with passes the comparisons. -/
theorem resolveFixed_free {c : Comparison} (hc : c ∈ comparisons)
    (hfree : c.text ++ q ∉ comparedPaths) : resolveFixed c.fixed body q = body q := by
  rw [resolveFixed]
  cases hlookup : c.fixed.lookup q with
  | none => rfl
  | some node =>
    exact absurd ((TextsOk.comparisons textsOk c hc).fixed _ (mem_of_lookup hlookup)).2 hfree

/-- A path that is not compared goes to the body. -/
theorem resolvePrefixed_free {c : Comparison} (hc : c ∈ comparisons) (hq : q ≠ [])
    (hfree : c.text ++ q ∉ comparedPaths) :
    resolvePrefixed c.text c.node (resolveFixed c.fixed body) (c.text ++ q) = body q := by
  rw [resolvePrefixed, if_neg (not_not.mpr (List.prefix_append _ _)), List.drop_left]
  exact (if_neg hq).trans (resolveFixed_free hc hfree)

/-- The same for a resolver that compares its first word. -/
theorem resolveWord_free {c : Comparison} (hc : c ∈ comparisons) {word : List UInt8}
    (htext : c.text = word ++ [slash]) (hq : q ≠ []) (hfree : c.text ++ q ∉ comparedPaths) :
    resolveWord word c.node (resolveFixed c.fixed body) (c.text ++ q) = body q := by
  have hsplit : c.text ++ q = word ++ slash :: q := by
    rw [htext, List.append_assoc, List.singleton_append]
  have hentry : resolveFixed c.fixed body q = body q := resolveFixed_free hc hfree
  rw [hsplit, resolveWord, if_neg (not_not.mpr (List.prefix_append _ _)), List.drop_left]
  simp only [ne_eq, not_true_eq_false, if_false, if_neg hq]
  exact hentry

/-- The first resolver that finds something decides. -/
theorem resolveInternal_eq_or {path : List UInt8} (hne : stripSlashes path ≠ [])
    (hpath : 0 ∉ path) :
    resolveInternal w path =
      (resolveProcPath w (stripSlashes path)).or ((resolveBlockPath w (stripSlashes path)).or
      ((resolvePciPath w (stripSlashes path)).or ((resolveNetDevicePath w (stripSlashes path)).or
      ((resolveNetStackPath w (stripSlashes path)).or ((resolveDriverPath w (stripSlashes path)).or
      (walkNodes .root (stripSlashes path))))))) := by
  have hstart : ¬ (stripSlashes path = [] ∨ (stripSlashes path).head? = some 0) := by
    rintro (hnil | hzero)
    · exact hne hnil
    · exact hpath ((stripSlashes_sublist path).subset (List.mem_of_mem_head? hzero))
  rw [resolveInternal]
  simp only [Option.orElse_eq_orElse, Option.orElse_eq_or]
  exact if_neg hstart

/-- The text of a registry is looked up in that registry alone. -/
theorem resolveInternal_directory {d : Directory} (hd : d ∈ directories) {path : List UInt8}
    (hpath : 0 ∉ path) (htext : stripSlashes path = directoryText d.path ++ q) (hq : q ≠ [])
    (hfree : directoryText d.path ++ q ∉ comparedPaths)
    (h : resolveEntry d.entry d.fieldNodes (d.lookup w) q = some r) :
    resolveInternal w path = some r := by
  have hne : stripSlashes path ≠ [] := by
    rw [htext]
    exact List.append_ne_nil_of_right_ne_nil _ hq
  rw [resolveInternal_eq_or hne hpath, htext]
  simp only [directories, List.mem_cons, List.not_mem_nil, or_false] at hd
  -- No resolver in front of the one of the registry knows the text.
  have hproc : ∀ {base}, ¬ ascii "proc" <+: base → ¬ base <+: ascii "proc" →
      resolveProcPath w (base ++ q) = none := resolveWord_none _
  have hblock : ∀ {base}, ¬ ascii "dev/block/" <+: base → ¬ base <+: ascii "dev/block/" →
      resolveBlockPath w (base ++ q) = none := resolvePrefixed_none _
  have hpci : ∀ {base}, ¬ ascii "dev/pci/" <+: base → ¬ base <+: ascii "dev/pci/" →
      resolvePciPath w (base ++ q) = none := resolvePrefixed_none _
  have hdevice : ∀ {base}, ¬ ascii "dev/net/" <+: base → ¬ base <+: ascii "dev/net/" →
      resolveNetDevicePath w (base ++ q) = none := resolvePrefixed_none _
  have hstack : ∀ {base}, ¬ ascii "net" <+: base → ¬ base <+: ascii "net" →
      resolveNetStackPath w (base ++ q) = none := resolveWord_none _
  rcases hd with rfl | rfl | rfl | rfl | rfl | rfl
  · have hfound : resolveProcPath w (directoryText procDirectory.path ++ q) = some r :=
      (resolveWord_free (c := comparisons[0]) (by simp [comparisons]) rfl hq hfree).trans h
    rw [hfound, Option.some_or]
  · have hfound : resolveBlockPath w (directoryText blockDirectory.path ++ q) = some r :=
      (resolvePrefixed_free (c := comparisons[1]) (by simp [comparisons]) hq hfree).trans h
    rw [hproc (by decide) (by decide), hfound]
    rfl
  · have hfound : resolvePciPath w (directoryText pciDirectory.path ++ q) = some r :=
      (resolvePrefixed_free (c := comparisons[2]) (by simp [comparisons]) hq hfree).trans h
    rw [hproc (by decide) (by decide), hblock (by decide) (by decide), hfound]
    rfl
  · have hfound : resolveNetDevicePath w (directoryText netDirectory.path ++ q) = some r :=
      (resolvePrefixed_free (c := comparisons[3]) (by simp [comparisons]) hq hfree).trans h
    rw [hproc (by decide) (by decide), hblock (by decide) (by decide),
      hpci (by decide) (by decide), hfound]
    rfl
  · have hsplit : directoryText arpDirectory.path ++ q =
        directoryText [ascii "net"] ++ (ascii "arp/" ++ q) := rfl
    have hmore : ascii "arp/" ++ q ≠ [] := List.append_ne_nil_of_right_ne_nil _ hq
    rw [hsplit] at hfree
    have hfound : resolveNetStackPath w (directoryText arpDirectory.path ++ q) = some r := by
      rw [hsplit]
      refine (resolveWord_free (c := comparisons[4])
        (by simp [comparisons]) rfl hmore hfree).trans ?_
      rw [if_neg (not_not.mpr (List.prefix_append _ _))]
      exact h
    rw [hproc (by decide) (by decide), hblock (by decide) (by decide),
      hpci (by decide) (by decide), hdevice (by decide) (by decide), hfound]
    rfl
  · have hfound : resolveDriverPath w (directoryText driverDirectory.path ++ q) = some r :=
      (resolvePrefixed_free (c := comparisons[5]) (by simp [comparisons]) hq hfree).trans h
    rw [hproc (by decide) (by decide), hblock (by decide) (by decide),
      hpci (by decide) (by decide), hdevice (by decide) (by decide),
      hstack (by decide) (by decide), hfound]
    rfl

/-- A path that names an entry is found as this entry. -/
theorem resolveInternal_entry {path : List UInt8} (hpath : 0 ∉ path)
    (h : NamesEntry w (stripSlashes path) r) : resolveInternal w path = some r := by
  generalize htext : stripSlashes path = text at h
  cases h with
  | @entry d s kind hd hne hs hkind hfree =>
    rw [← directoryText_append] at htext hfree
    refine resolveInternal_directory hd hpath htext hne hfree ?_
    have hread := resolveEntry_joinPath d.entry d.fieldNodes (d.lookup w) hs []
    rw [joinPath_singleton, hkind] at hread
    exact hread
  | @field d s f kind node hd hs hkind hfield =>
    rw [← directoryText_append_field] at htext
    have hq : s ++ slash :: f ≠ [] := List.append_ne_nil_of_right_ne_nil _ (List.cons_ne_nil _ _)
    refine resolveInternal_directory hd hpath htext hq ?_ ?_
    · intro hcompared
      refine TextsOk.noField textsOk d hd _ hcompared (List.prefix_append _ _) ?_
      rw [List.drop_left]
      exact List.mem_append_right _ (List.mem_cons_self ..)
    · have hread := resolveEntry_joinPath d.entry d.fieldNodes (d.lookup w) hs [f]
      rw [joinPath_cons s (List.cons_ne_nil _ _), joinPath_singleton, hkind, Option.bind_some,
        if_neg (List.cons_ne_nil _ _), hfield] at hread
      exact hread

/-- Every other path is found by its nonempty segments. -/
theorem resolveInternal_attached {path : List UInt8} (hpath : 0 ∉ path)
    (h : ∀ r, ¬ NamesEntry w (stripSlashes path) r) :
    resolveInternal w path = (attachedNode (pathSegments path)).map makeResolved := by
  cases hfound : resolveInternal w path with
  | some r =>
    obtain ⟨node, hnode, rfl⟩ := (found_of_resolveInternal hpath hfound).resolve_left (h r)
    rw [pathSegments_stripSlashes] at hnode
    rw [hnode]
    rfl
  | none =>
    have hne : stripSlashes path ≠ [] := by
      intro hnil
      rw [resolveInternal] at hfound
      rw [if_pos (.inl hnil)] at hfound
      cases hfound
    rw [resolveInternal_eq_or hne hpath] at hfound
    simp only [Option.or_eq_none_iff] at hfound
    have hwalk := hfound.2.2.2.2.2.2
    rw [walkNodes_eq fun hzero => hpath ((stripSlashes_sublist path).subset hzero),
      pathSegments_stripSlashes] at hwalk
    exact hwalk.symm

/-! ### The registry behind a name -/

/-- A lookup binds to something. -/
theorem lookup_ne_none {d : Directory} (hd : d ∈ directories) {s : List UInt8} {kind : VirtualKind}
    (h : d.lookup w s = some kind) : kind ≠ .none := by
  have hnumber : ∀ {α : Type} {find : Nat → Option α} {bind : α → VirtualKind},
      (∀ a, bind a ≠ .none) → byNumber find bind s = some kind → kind ≠ .none := by
    intro α find bind hbind h
    obtain ⟨n, -, h⟩ := Option.bind_eq_some_iff.mp h
    obtain ⟨a, -, h⟩ := Option.bind_eq_some_iff.mp h
    cases h
    exact hbind a
  have hname : ∀ {find : List UInt8 → Option Nat} {bind : Nat → VirtualKind},
      (∀ i, bind i ≠ .none) → byName find bind s = some kind → kind ≠ .none := by
    intro find bind hbind h
    rw [byName] at h
    split at h
    · cases h
    · obtain ⟨i, -, rfl⟩ := Option.map_eq_some_iff.mp h
      exact hbind i
  simp only [directories, List.mem_cons, List.not_mem_nil, or_false] at hd
  rcases hd with rfl | rfl | rfl | rfl | rfl | rfl
  · exact hnumber (fun _ => VirtualKind.noConfusion) h
  · exact hname (fun _ => VirtualKind.noConfusion) h
  · exact hnumber (fun _ => VirtualKind.noConfusion) h
  · exact hname (fun _ => VirtualKind.noConfusion) h
  · exact hnumber (fun _ => VirtualKind.noConfusion) h
  · exact hname (fun _ => VirtualKind.noConfusion) h

/-- A path is behind one directory only. -/
theorem directoryText_inj {d e : Directory} (hd : d ∈ directories) (he : e ∈ directories)
    {q t : List UInt8} (h : directoryText d.path ++ q = directoryText e.path ++ t) :
    d = e ∧ q = t := by
  have hsame : d = e := by
    have hq := List.prefix_append (directoryText d.path) q
    have ht := List.prefix_append (directoryText e.path) t
    rw [← h] at ht
    rcases List.prefix_or_prefix_of_prefix hq ht with hcase | hcase
    · exact eq_of_path hd he (TextsOk.apart textsOk d hd e he hcase)
    · exact (eq_of_path he hd (TextsOk.apart textsOk e he d hd hcase)).symm
  subst hsame
  exact ⟨rfl, List.append_cancel_left h⟩

/-- What a path with the text of a registry in front names is looked up in this registry. -/
theorem lookup_of_namesEntry {d : Directory} (hd : d ∈ directories)
    (h : NamesEntry w (directoryText d.path ++ q) r) :
    d.lookup w (firstSegment q) = some r.kind := by
  generalize htext : directoryText d.path ++ q = text at h
  cases h with
  | @entry e s kind he hne hs hkind hfree =>
    rw [← directoryText_append] at htext
    obtain ⟨rfl, rfl⟩ := directoryText_inj hd he htext
    have hcut := firstSegment_joinPath hs []
    rw [joinPath_singleton] at hcut
    rw [hcut]
    exact hkind
  | @field e s f kind node he hs hkind hfield =>
    rw [← directoryText_append_field] at htext
    obtain ⟨rfl, rfl⟩ := directoryText_inj hd he htext
    rw [firstSegment_append hs]
    exact hkind

/-- What a path names has a kind. -/
theorem namesEntry_kind {p : List UInt8} (h : NamesEntry w p r) : r.kind ≠ .none := by
  cases h with
  | entry hd hne hs hkind hfree => exact lookup_ne_none hd hkind
  | field hd hs hkind hfield => exact lookup_ne_none hd hkind

/-- A path that is bound to something names an entry. -/
theorem namesEntry_of_bound {path : List UInt8} (hpath : 0 ∉ path)
    (h : resolveInternal w path = some r) (hkind : r.kind ≠ .none) :
    NamesEntry w (stripSlashes path) r := by
  refine (found_of_resolveInternal hpath h).resolve_right ?_
  rintro ⟨node, -, rfl⟩
  exact hkind rfl

end Named

end VKernel.Proofs.Kobj

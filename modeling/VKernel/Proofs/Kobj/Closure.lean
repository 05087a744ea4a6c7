import VKernel.Proofs.Kobj.Listing

/-!
# `VKernel.Proofs.Kobj.Closure`: listing and resolving agree

`object_tree_closed` is the result about the two readings of the object tree. For well-named
registries and a canonical path that resolves, each child that `klist` reports resolves below the
path to a node of the reported type, and each segment that resolves below the path is reported.
The driver registry keeps two exceptions, both from its lookup: a driver whose name is too long or
ends in `.vko` is listed and not found under its name, and a driver is also found under its name
with `.vko` behind it, which is not listed.

The argument is about the tree alone (`child_denoted`, `denoted_child`); the paths come in only at
the end. A device whose stored name holds a NUL is the other exception: it is listed up to there,
and found under no name at all.
-/

set_option autoImplicit false

namespace VKernel.Proofs.Kobj

open VKernel VKernel.Kobj VKernel.Net VKernel.Sched

/-- The children of a node, among the registered ones. -/
theorem mem_children {node : KNodeId} {c : NodeDefinition} :
    c ∈ node.children ↔ c ∈ registeredNodes ∧ c.parent = some node := by
  rw [KNodeId.children, List.mem_filter, beq_iff_eq]

/-! ### The place of a node -/

/-- The last segment of a path to a node. -/
theorem attachedNode_cases {segments : List (List UInt8)} {node : KNodeId}
    (h : attachedNode segments = some node) :
    (segments = [] ∧ node = .root) ∨
      ∃ front s parent, segments = front ++ [s] ∧ attachedNode front = some parent ∧
        ∃ c ∈ registeredNodes, c.parent = some parent ∧ c.name = s ∧ c.id = node := by
  rcases List.eq_nil_or_concat segments with rfl | ⟨front, s, rfl⟩
  · cases h
    exact .inl ⟨rfl, rfl⟩
  · rw [List.concat_eq_append, attachedNode_append] at h
    obtain ⟨parent, hparent, hfound⟩ := Option.bind_eq_some_iff.mp h
    exact .inr ⟨front, s, parent, List.concat_eq_append, hparent, findChild_eq_some hfound⟩

/-- A node stands at one place only. -/
theorem attachedNode_injective {segments others : List (List UInt8)} {node : KNodeId}
    (h : attachedNode segments = some node) (h' : attachedNode others = some node) :
    segments = others := by
  induction segments using List.reverseRecOn generalizing others node with
  | nil =>
    cases h
    rcases attachedNode_cases h' with ⟨rfl, -⟩ |
      ⟨front, s, parent, rfl, -, c, hc, hparent, -, hroot⟩
    · rfl
    · exact absurd hroot (TablesOk.childNeRoot tablesOk c hc parent hparent)
  | append_singleton front s ih =>
    rcases attachedNode_cases h with ⟨hnil, -⟩ |
      ⟨front', s', parent, heq, hfront, c, hc, hup, hs, hid⟩
    · exact absurd hnil (List.append_ne_nil_of_right_ne_nil _ (List.cons_ne_nil _ _))
    · obtain ⟨rfl, htail⟩ := List.append_inj' heq rfl
      cases htail
      rcases attachedNode_cases h' with
        ⟨-, hroot⟩ | ⟨front', s', parent', rfl, hfront', c', hc', hup', hs', hid'⟩
      · exact absurd (hid.trans hroot) (TablesOk.childNeRoot tablesOk c hc parent hup)
      · -- One row of the tables has the identifier, and it names the parent and the segment.
        have hrow : c = c' :=
          List.inj_on_of_nodup_map (TablesOk.ids tablesOk) hc hc' (hid.trans hid'.symm)
        subst hrow
        rw [hup] at hup'
        cases hup'
        rw [ih hfront hfront', ← hs, ← hs']

/-- The entries of a directory are no nodes of the tree. -/
theorem attached_ne_entry {segments : List (List UInt8)} {node : KNodeId}
    (h : attachedNode segments = some node) {d : Directory} (hd : d ∈ directories) :
    d.entry ≠ node := by
  rcases attachedNode_cases h with ⟨-, rfl⟩ | ⟨_, _, parent, -, -, c, hc, hparent, -, rfl⟩
  · exact (TablesOk.entryApart tablesOk d hd).1
  · exact (TablesOk.entryApart tablesOk d hd).2 c hc parent hparent

/-- The children of an attached node: those attached to it, and the entries if it is a registry. -/
theorem mem_nodeChildren {w : Registries} {segments : List (List UInt8)} {node : KNodeId}
    (h : attachedNode segments = some node) {child : KChildInfo} :
    child ∈ nodeChildren w node ↔
      (∃ c ∈ node.children, child = namedChild c.name c.type) ∨
        ∃ d ∈ directories, segments = d.path ∧ child ∈ d.entries w := by
  have hattached : child ∈ (node.children.map fun c => namedChild c.name c.type) ↔
      ∃ c ∈ node.children, child = namedChild c.name c.type := by
    rw [List.mem_map]
    exact exists_congr fun c => and_congr_right fun _ => eq_comm
  by_cases hregistry : ∃ d ∈ directories, d.node = node
  · obtain ⟨d, hd, rfl⟩ := hregistry
    rw [nodeChildren_directory hd, List.mem_append, hattached]
    refine or_congr_right ⟨fun hentry => ⟨d, hd, ?_, hentry⟩, ?_⟩
    · exact attachedNode_injective h (TablesOk.pathNodes tablesOk d hd)
    · rintro ⟨e, he, hpath, hentry⟩
      have hsame := attachedNode_injective h (TablesOk.pathNodes tablesOk d hd)
      rwa [eq_of_path hd he (hsame.symm.trans hpath)]
  · rw [nodeChildren_plain fun d hd =>
      ⟨attached_ne_entry h hd, fun hnode => hregistry ⟨d, hd, hnode⟩⟩, hattached]
    refine ⟨.inl, ?_⟩
    rintro (hchild | ⟨d, hd, rfl, -⟩)
    · exact hchild
    · rw [TablesOk.pathNodes tablesOk d hd] at h
      exact absurd ⟨d, hd, Option.some.inj h⟩ hregistry

/-! ### The tree is closed -/

section Closed

variable {w : Registries} {segments : List (List UInt8)} {r : ResolvedNode}

theorem append_pair (path : List (List UInt8)) (s f : List UInt8) :
    path ++ [s] ++ [f] = path ++ [s, f] := by
  rw [List.append_assoc, List.singleton_append]

/-- A child of a denoted node is denoted, and has the type that the listing shows. -/
theorem child_denoted (hw : w.WellNamed) (h : Denotes w segments r) {child : KChildInfo}
    (hchild : child ∈ nodeChildren w r.node) :
    (IsSegment child.name.chars ∧
        ∃ q, Denotes w (segments ++ [child.name.chars]) q ∧ q.node.type = child.type) ∨
      segments = driverDirectory.path ∧ HiddenDriver w child ∨
      (segments = blockDirectory.path ∨ segments = netDirectory.path) ∧ CutDevice w child := by
  cases h with
  | attached hnode =>
    rcases (mem_nodeChildren hnode).mp hchild with ⟨c, hc, rfl⟩ | ⟨d, hd, rfl, hentry⟩
    · obtain ⟨hrow, hparent⟩ := mem_children.mp hc
      obtain ⟨hname, hfits, hfound, htype⟩ := TablesOk.children tablesOk c hrow _ hparent
      left
      rw [namedChild_chars hfits]
      refine ⟨hname, makeResolved c.id, .attached ?_, htype⟩
      rw [attachedNode_append, hnode]
      exact hfound
    · obtain ⟨htype, hfound | ⟨rfl, hhidden⟩ | ⟨hdevice, hcut⟩⟩ := lookup_of_entry hw hd hentry
      · obtain ⟨kind, hkind⟩ := Option.isSome_iff_exists.mp hfound.2
        have hentry := TablesOk.entryType tablesOk d hd
        exact .inl ⟨hfound.1, _, .entry hd hkind, hentry.trans htype.symm⟩
      · exact .inr (.inl ⟨rfl, hhidden⟩)
      · exact .inr (.inr ⟨hdevice.imp (congrArg _) (congrArg _), hcut⟩)
  | @entry d s kind hd hkind =>
    rw [nodeChildren_entry hd] at hchild
    obtain ⟨f, hf, rfl⟩ := List.mem_map.mp hchild
    obtain ⟨hname, hfits, hfield⟩ := TablesOk.fields tablesOk d hd f hf
    obtain ⟨node, hnode, htype⟩ := Option.map_eq_some_iff.mp hfield
    left
    rw [namedChild_chars hfits, append_pair]
    exact ⟨hname, _, .field hd hkind hnode, htype⟩
  | @field d s f kind node hd hkind hfield =>
    obtain ⟨hnone, hplain⟩ := TablesOk.fieldLeaf tablesOk d hd _ (mem_of_lookup hfield)
    rw [nodeChildren_plain hplain, hnone] at hchild
    cases hchild

/-- What is denoted below a node is one of its children. -/
theorem denoted_child (hw : w.WellNamed) (h : Denotes w segments r) {s : List UInt8}
    {q : ResolvedNode} (hs : IsSegment s) (hplain : PlainNumeral s)
    (hq : Denotes w (segments ++ [s]) q) :
    (∃ child ∈ nodeChildren w r.node, child.name.chars = s) ∨
      segments = driverDirectory.path ∧ ∃ desc ∈ w.drivers, s = desc.name.chars ++ vko := by
  generalize hpath : segments ++ [s] = path at hq
  cases hq with
  | attached hnode =>
    rw [← hpath, attachedNode_append] at hnode
    obtain ⟨parent, hparent, hfound⟩ := Option.bind_eq_some_iff.mp hnode
    cases eq_of_attached hw hparent h
    obtain ⟨c, hc, hup, rfl, -⟩ := findChild_eq_some hfound
    refine .inl ⟨namedChild c.name c.type, (mem_nodeChildren hparent).mpr (.inl ?_), ?_⟩
    · exact ⟨c, mem_children.mpr ⟨hc, hup⟩, rfl⟩
    · exact namedChild_chars (TablesOk.children tablesOk c hc _ hup).2.1 _
  | entry hd hkind =>
    rename_i d t kind
    obtain ⟨rfl, htail⟩ := List.append_inj' hpath rfl
    cases htail
    have hnode := TablesOk.pathNodes tablesOk d hd
    cases eq_of_attached hw hnode h
    rcases entry_of_lookup hd hs hplain (Option.isSome_of_eq_some hkind) with
      ⟨child, hchild, hname⟩ | ⟨rfl, hsuffix⟩
    · exact .inl ⟨child, (mem_nodeChildren hnode).mpr (.inr ⟨d, hd, rfl, hchild⟩), hname⟩
    · exact .inr ⟨rfl, hsuffix⟩
  | field hd hkind hfield =>
    rename_i d t f kind node
    rw [← append_pair] at hpath
    obtain ⟨rfl, htail⟩ := List.append_inj' hpath rfl
    cases htail
    cases denotes_unique hw h (.entry hd hkind)
    obtain ⟨g, hg, hname⟩ :=
      List.mem_map.mp (TablesOk.fieldsListed tablesOk d hd _ (mem_of_lookup hfield))
    refine .inl ⟨namedChild g.name g.type, ?_, ?_⟩
    · rw [nodeChildren_entry hd]
      exact List.mem_map.mpr ⟨g, hg, rfl⟩
    · rw [namedChild_chars (TablesOk.fields tablesOk d hd g hg).2.1, hname]

end Closed

/-! ### Paths -/

/-- A path with one more segment. -/
theorem joinPath_concat {segments : List (List UInt8)} (hne : segments ≠ []) (s : List UInt8) :
    joinPath (segments ++ [s]) = joinPath segments ++ slash :: s := by
  induction segments with
  | nil => exact absurd rfl hne
  | cons d rest ih =>
    have hmore : rest ++ [s] ≠ [] := List.append_ne_nil_of_right_ne_nil _ (List.cons_ne_nil _ _)
    rw [List.cons_append, joinPath_cons d hmore]
    by_cases hrest : rest = []
    · rw [hrest, List.nil_append, joinPath_singleton, joinPath_singleton]
    · rw [ih hrest, joinPath_cons d hrest, List.append_assoc, List.cons_append]

/-- A path has no NUL. -/
theorem joinPath_noNul {segments : List (List UInt8)} (h : ∀ s ∈ segments, IsSegment s) :
    0 ∉ joinPath segments := by
  induction segments with
  | nil => exact List.not_mem_nil
  | cons s rest ih =>
    obtain ⟨hs, hrest⟩ := List.forall_mem_cons.mp h
    by_cases hnil : rest = []
    · rw [hnil, joinPath_singleton]
      exact hs.noNul
    · rw [joinPath_cons s hnil, List.mem_append, List.mem_cons]
      rintro (hfirst | hslash | hmore)
      · exact hs.noNul hfirst
      · exact absurd hslash (by decide)
      · exact ih hrest hmore

section Canonical

variable {w : Registries} {p : List UInt8} {segments : List (List UInt8)}

/-- A leading slash is ignored. -/
theorem resolveInternal_slash (w : Registries) (p : List UInt8) :
    resolveInternal w (slash :: p) = resolveInternal w p := by
  rw [resolveInternal, resolveInternal, List.dropWhile_cons_of_pos (by simp)]

/-- A canonical path is a C string as it is. -/
theorem cstr_canonical (hsegments : ∀ s ∈ segments, IsSegment s)
    (hp : p = joinPath segments ∨ p = slash :: joinPath segments) : cstr p = p := by
  refine cstr_eq ?_
  have hjoin := joinPath_noNul hsegments
  rcases hp with rfl | rfl
  · exact hjoin
  · rw [List.mem_cons, not_or]
    exact ⟨by decide, hjoin⟩

/-- A leading slash in front of a canonical path is ignored. -/
theorem resolveInternal_canonical (hsegments : ∀ s ∈ segments, IsSegment s)
    (hp : p = joinPath segments ∨ p = slash :: joinPath segments) :
    resolveInternal w (cstr p) = resolveInternal w (joinPath segments) := by
  rw [cstr_canonical hsegments hp]
  rcases hp with rfl | rfl
  · rfl
  · exact resolveInternal_slash w _

/-- A segment behind a path is one more segment. Behind the root its separator is a leading one. -/
theorem resolveInternal_below (hsegments : ∀ s ∈ segments, IsSegment s)
    (hp : p = joinPath segments ∨ p = slash :: joinPath segments) {s : List UInt8}
    (hs : IsSegment s) :
    resolveInternal w (cstr (p ++ slash :: s)) =
      resolveInternal w (joinPath (segments ++ [s])) := by
  have hall : ∀ t ∈ segments ++ [s], IsSegment t := by
    rw [List.forall_mem_append, List.forall_mem_singleton]
    exact ⟨hsegments, hs⟩
  by_cases hne : segments = []
  · subst hne
    have hcut : cstr (slash :: s) = slash :: s :=
      cstr_canonical hall (.inr (by rw [List.nil_append, joinPath_singleton]))
    rw [List.nil_append, joinPath_singleton]
    rcases hp with rfl | rfl
    · show resolveInternal w (cstr (slash :: s)) = _
      rw [hcut, resolveInternal_slash]
    · show resolveInternal w (cstr (slash :: slash :: s)) = _
      have hcut' : cstr (slash :: slash :: s) = slash :: cstr (slash :: s) :=
        List.takeWhile_cons_of_pos (by decide)
      rw [hcut', hcut, resolveInternal_slash, resolveInternal_slash]
  · refine resolveInternal_canonical hall ?_
    rw [joinPath_concat hne]
    rcases hp with rfl | rfl
    · exact .inl rfl
    · exact .inr rfl

end Canonical

/-! ### The result -/

/-- For a canonical path that resolves, the reported children and the segments that resolve below
the path are the same, up to the two ways in which a driver is found under other names than its
own, and to the devices whose stored names hold a NUL. -/
theorem object_tree_closed (w : Registries) (hw : w.WellNamed) (p : List UInt8) (hp : Canonical p)
    (hresolves : (resolve w p).isSome) (out : List KChildInfo)
    (hout : (klist w p out).1 ≤ out.length) :
    (∀ child ∈ reported w p out,
      (∃ node, resolve w (p ++ slash :: child.name.chars) = some node ∧ node.type = child.type) ∨
        IsDriverPath p ∧ HiddenDriver w child ∨ IsDevicePath p ∧ CutDevice w child) ∧
    ∀ s, IsSegment s → PlainNumeral s → (resolve w (p ++ slash :: s)).isSome →
      (∃ child ∈ reported w p out, child.name.chars = s) ∨
        IsDriverPath p ∧ ∃ desc ∈ w.drivers, s = desc.name.chars ++ vko := by
  obtain ⟨segments, hsegments, hp⟩ := hp
  have hdriver : segments = driverDirectory.path → IsDriverPath p := by
    rintro rfl
    exact hp
  have hdevice : segments = blockDirectory.path ∨ segments = netDirectory.path →
      IsDevicePath p := by
    rintro (rfl | rfl)
    · exact .inl hp
    · exact .inr hp
  rw [resolve, Option.isSome_map] at hresolves
  obtain ⟨r, hr⟩ := Option.isSome_iff_exists.mp hresolves
  rw [reported_eq hr hout]
  rw [resolveInternal_canonical hsegments hp, resolveInternal_joinPath_iff hw hsegments] at hr
  -- A path below `p` resolves to what the tree denotes there.
  have hbelow : ∀ s, IsSegment s → ∀ q, Denotes w (segments ++ [s]) q ↔
      resolveInternal w (cstr (p ++ slash :: s)) = some q := fun s hs q => by
    rw [resolveInternal_below hsegments hp hs, resolveInternal_joinPath_iff hw]
    rw [List.forall_mem_append, List.forall_mem_singleton]
    exact ⟨hsegments, hs⟩
  constructor
  · intro child hchild
    rcases child_denoted hw hr hchild with
      ⟨hs, q, hq, htype⟩ | ⟨hpath, hhidden⟩ | ⟨hpath, hcut⟩
    · rw [hbelow _ hs] at hq
      exact .inl ⟨q.node, by rw [resolve, hq]; rfl, htype⟩
    · exact .inr (.inl ⟨hdriver hpath, hhidden⟩)
    · exact .inr (.inr ⟨hdevice hpath, hcut⟩)
  · intro s hs hplain h
    rw [resolve, Option.isSome_map] at h
    obtain ⟨q, hq⟩ := Option.isSome_iff_exists.mp h
    rw [← hbelow s hs] at hq
    exact (denoted_child hw hr hs hplain hq).imp_right fun h => ⟨hdriver h.1, h.2⟩

/-- One task, a block device, a PCI device and the driver `fat32`. -/
def smallRegistries : Registries where
  scheduler :=
    { Scheduler.init 0 with tasks := fun _ => { Task.zero with id := 1 }, taskCount := 1 }
  tasksFit := by decide
  idsFit := fun _ => by
    rw [U64_eq]
    exact Nat.one_lt_two_pow (by omega)
  blockDevices := [⟨⟨ascii "block0", by decide⟩⟩]
  netDevices := []
  pciCount := 1
  pciFits := by decide
  arpCache := Vector.replicate MAX_CACHE_ENTRIES ⟨false, zeroIpv4, makeMac 0 0 0 0 0 0⟩
  drivers := [⟨⟨ascii "fat32", by decide⟩⟩]

theorem smallRegistries_wellNamed : smallRegistries.WellNamed where
  blockNames := by decide
  netNames := by decide
  driverNames := by decide

/-- A buffer with room for `n` children. -/
def emptyBuffer (n : Nat) : List KChildInfo := List.replicate n (namedChild [] .struct)

/-- One segment is a canonical path. -/
theorem canonical_word {word : List UInt8} (h : IsSegment word) : Canonical word :=
  ⟨[word], List.forall_mem_singleton.mpr h, .inl (joinPath_singleton word).symm⟩

/-- The theorem for the two children of `proc`: its counter and one task. -/
theorem object_tree_closed_proc :
    (∀ child ∈ reported smallRegistries (ascii "proc") (emptyBuffer 2),
      (∃ node, resolve smallRegistries (ascii "proc" ++ slash :: child.name.chars) = some node ∧
        node.type = child.type) ∨
        IsDriverPath (ascii "proc") ∧ HiddenDriver smallRegistries child ∨
        IsDevicePath (ascii "proc") ∧ CutDevice smallRegistries child) ∧
    ∀ s, IsSegment s → PlainNumeral s →
      (resolve smallRegistries (ascii "proc" ++ slash :: s)).isSome →
      (∃ child ∈ reported smallRegistries (ascii "proc") (emptyBuffer 2), child.name.chars = s) ∨
        IsDriverPath (ascii "proc") ∧
          ∃ desc ∈ smallRegistries.drivers, s = desc.name.chars ++ vko :=
  object_tree_closed smallRegistries smallRegistries_wellNamed (ascii "proc")
    (canonical_word (by decide)) (by decide) (emptyBuffer 2) (by decide)

/-- The directory of the drivers resolves to itself. -/
theorem resolveInternal_driver (w : Registries) (hw : w.WellNamed) :
    resolveInternal w (cstr (ascii "driver")) = some (makeResolved .driver) := by
  have hsegments : ∀ s ∈ [ascii "driver"], IsSegment s := by decide
  rw [resolveInternal_canonical hsegments (.inl (joinPath_singleton _).symm),
    resolveInternal_joinPath_iff hw hsegments]
  exact .attached (TablesOk.pathNodes tablesOk driverDirectory (by simp [directories]))

/-- `driver/fat32.vko` is the driver `fat32`, and the listing of `driver` does not show it. -/
theorem driver_suffix_hidden :
    smallRegistries.WellNamed ∧ Canonical (ascii "driver") ∧
      (resolve smallRegistries (ascii "driver")).isSome ∧
      (klist smallRegistries (ascii "driver") (emptyBuffer 3)).1 ≤ (emptyBuffer 3).length ∧
      IsSegment (ascii "fat32.vko") ∧ PlainNumeral (ascii "fat32.vko") ∧
      (resolve smallRegistries (ascii "driver" ++ slash :: ascii "fat32.vko")).isSome ∧
      ∀ child ∈ reported smallRegistries (ascii "driver") (emptyBuffer 3),
        child.name.chars ≠ ascii "fat32.vko" := by
  have hr := resolveInternal_driver smallRegistries smallRegistries_wellNamed
  have hcount : (klist smallRegistries (ascii "driver") (emptyBuffer 3)).1 ≤
      (emptyBuffer 3).length := by
    rw [(klist_lists hr _).1]
    decide
  refine ⟨smallRegistries_wellNamed, canonical_word (by decide), ?_, hcount, by decide, ?_,
    by decide, ?_⟩
  · rw [resolve, hr]
    rfl
  · exact fun h => absurd (h 'f'.toUInt8 (by decide)) (by decide)
  · rw [reported_eq hr hcount]
    decide

/-! ### Names with a NUL -/

end VKernel.Proofs.Kobj

import VKernel.Proofs.Kobj.Numerals
import VKernel.Proofs.Kobj.Resolution

/-!
# `VKernel.Proofs.Kobj.Listing`: the listings show the children of the tree

`klist` writes the children of a node one after the other from the first slot on, so with enough
room the buffer begins with them (`reported_eq`). Which children these are is `nodeChildren`: the
fields of an entry, and for any other node its attached children followed by the entries of its
registry.

`lookup_of_entry` and `entry_of_lookup` compare a registry's listing with its lookup, name by
name: what is listed is found, and what is found is listed. Only the driver registry has
exceptions, for its lookup ignores the suffix `.vko` of a query and has a buffer for the name.
-/

set_option autoImplicit false

namespace VKernel.Proofs.Kobj

open VKernel VKernel.Kobj VKernel.Net VKernel.Sched

/-! ### Writing to the buffer -/

/-- Behind the end of the buffer nothing is written. -/
theorem appendFrom_full {out : List KChildInfo} {index : Nat} (h : out.length ≤ index)
    (children : List KChildInfo) : appendFrom out index children = out := by
  cases children with
  | nil => rfl
  | cons child rest => exact if_neg (by omega)

/-- The children are written one after the other, as far as there are slots. -/
theorem appendFrom_append (front slots children : List KChildInfo) :
    appendFrom (front ++ slots) front.length children =
      front ++ children.take slots.length ++ slots.drop children.length := by
  induction children generalizing front slots with
  | nil => simp [appendFrom]
  | cons child rest ih =>
    cases slots with
    | nil =>
      rw [appendFrom_full (by simp)]
      simp
    | cons old slots =>
      have hroom : front.length < (front ++ old :: slots).length := by simp
      have hset : (front ++ old :: slots).set front.length child = (front ++ [child]) ++ slots := by
        simp
      have hnext : front.length + 1 = (front ++ [child]).length := by simp
      rw [appendFrom, if_pos hroom, hset, hnext, ih]
      simp

/-- A listing call returns the number of these children, and writes them from the first slot on,
as far as there is room. -/
def Lists (result : Nat × List KChildInfo) (out children : List KChildInfo) : Prop :=
  result.1 = children.length ∧
    result.2 = children.take out.length ++ out.drop children.length

/-- Appending lists what is appended. -/
theorem lists_appendFrom (out children : List KChildInfo) :
    Lists (children.length, appendFrom out 0 children) out children :=
  ⟨rfl, appendFrom_append [] out children⟩

/-- The static children. -/
theorem lists_static (out : List KChildInfo) (definitions : List StaticChildDefinition) :
    Lists (appendStaticChildren out definitions) out
      (definitions.map fun d => namedChild d.name d.type) := by
  have hlists := lists_appendFrom out (definitions.map fun d => namedChild d.name d.type)
  rwa [List.length_map] at hlists

/-- The children of a node of the tree. -/
theorem lists_attached (out : List KChildInfo) (node : KNodeId) :
    Lists (appendAttachedChildren node out) out
      (node.children.map fun c => namedChild c.name c.type) := by
  have hlists := lists_appendFrom out (node.children.map fun c => namedChild c.name c.type)
  rwa [List.length_map] at hlists

/-- A listing with one fixed child in front of the entries. -/
theorem lists_fixed (out entries : List KChildInfo) (name : List UInt8) (type : KTag) {total : Nat}
    (htotal : total = 1 + entries.length) :
    Lists (total, appendFrom (appendChildInfo out 0 name type) 1 entries) out
      (namedChild name type :: entries) := by
  refine ⟨by rw [htotal, List.length_cons, Nat.add_comm], ?_⟩
  cases out with
  | nil => exact appendFrom_full (Nat.zero_le _) entries
  | cons old slots => exact appendFrom_append [namedChild name type] slots entries

/-! ### The listing of a node -/

section Node

variable {w : Registries} {node : KNodeId}

/-- The task snapshot has a place for every live task. -/
theorem liveTasks_length (w : Registries) : (liveTasks w.scheduler).length ≤ MAX_TASKS := by
  refine le_trans (List.length_filter_le _ _) ?_
  rw [List.length_map, List.length_range]
  exact w.tasksFit

/-- The children of `proc`. -/
theorem lists_proc (w : Registries) (out : List KChildInfo) :
    Lists (procListChildren w .proc out) out
      (namedChild (ascii "count") .u64 :: procDirectory.entries w) := by
  have hsnapshots : (snapshotTasks w.scheduler MAX_TASKS).2.map (fun t => numericChild t.id) =
      procDirectory.entries w := by
    rw [snapshotTasks, List.take_of_length_le (liveTasks_length w), List.map_map]
    rfl
  have htotal : 1 + (snapshotTasks w.scheduler 0).1 = 1 + (procDirectory.entries w).length := by
    rw [snapshotTasks, procDirectory, List.length_map]
  rw [procListChildren, if_pos rfl]
  by_cases hsmall : (appendChildInfo out 0 (ascii "count") .u64).length ≤ 1
  · -- The buffer has no room for an entry, and none is written.
    simp only [if_pos hsmall, htotal]
    refine ⟨by rw [List.length_cons, Nat.add_comm], ?_⟩
    rw [appendChildInfo, List.length_set] at hsmall
    cases out with
    | nil => rfl
    | cons old slots =>
      have hone : slots = [] := by
        rw [List.length_cons] at hsmall
        exact List.eq_nil_of_length_eq_zero (by omega)
      rw [hone]
      simp [appendChildInfo]
  · simp only [if_neg hsmall, hsnapshots]
    exact lists_fixed _ _ _ _ htotal

/-- The children of `driver`. -/
theorem lists_driver (w : Registries) (out : List KChildInfo) :
    Lists (driverListChildren w .driver out) out
      (namedChild (ascii "registered_count") .u64 :: namedChild (ascii "loaded_count") .u64 ::
        driverDirectory.entries w) := by
  rw [driverListChildren, if_pos rfl]
  have htotal : 2 + w.drivers.length = (driverDirectory.entries w).length + 1 + 1 := by
    rw [driverDirectory, List.length_map]
    omega
  refine ⟨htotal, ?_⟩
  cases out with
  | nil => exact appendFrom_full (Nat.zero_le _) _
  | cons first slots =>
    cases slots with
    | nil => exact appendFrom_full (Nat.le_succ 1) _
    | cons second slots =>
      exact appendFrom_append
        [namedChild (ascii "registered_count") .u64, namedChild (ascii "loaded_count") .u64] slots _

/-- The children of an entry are its fields. -/
theorem nodeChildren_entry {d : Directory} (hd : d ∈ directories) :
    nodeChildren w d.entry = d.fields.map fun f => namedChild f.name f.type := by
  simp only [directories, List.mem_cons, List.not_mem_nil, or_false] at hd
  rcases hd with rfl | rfl | rfl | rfl | rfl | rfl <;> rfl

/-- The children of a directory are its nodes and its entries. -/
theorem nodeChildren_directory {d : Directory} (hd : d ∈ directories) :
    nodeChildren w d.node =
      (d.node.children.map fun c => namedChild c.name c.type) ++ d.entries w := by
  simp only [directories, List.mem_cons, List.not_mem_nil, or_false] at hd
  rcases hd with rfl | rfl | rfl | rfl | rfl | rfl <;> rfl

/-- A node without a registry has its attached children. -/
theorem nodeChildren_plain
    (h : ∀ d ∈ directories, d.entry ≠ node ∧ d.node ≠ node) :
    nodeChildren w node = node.children.map fun c => namedChild c.name c.type := by
  have hentry : directories.find? (fun d => d.entry == node) = none :=
    List.find?_eq_none.mpr fun d hd => by simpa using (h d hd).1
  have hnode : directories.find? (fun d => d.node == node) = none :=
    List.find?_eq_none.mpr fun d hd => by simpa using (h d hd).2
  rw [nodeChildren, hentry, hnode]
  exact List.append_nil _

end Node

/-- `klist` lists the children of the node that is resolved. -/
theorem klist_lists {w : Registries} {path : List UInt8} {r : ResolvedNode}
    (h : resolveInternal w (cstr path) = some r) (out : List KChildInfo) :
    Lists (klist w path out) out (nodeChildren w r.node) := by
  obtain ⟨node, kind, name⟩ := r
  rw [klist, h]
  split
  · rename_i hnone
    cases hnone
  · rename_i resolved hresolved
    cases hresolved
    dsimp only
    split
    · exact lists_proc w out
    · exact lists_static out _
    · exact lists_fixed _ _ _ _ (by rw [List.length_map])
    · exact lists_static out _
    · exact lists_fixed _ _ _ _ (by rw [List.length_map, List.length_range])
    · exact lists_static out _
    · exact lists_fixed _ _ _ _ (by rw [List.length_map])
    · exact lists_static out _
    · exact lists_fixed _ _ _ _ (by rw [List.length_map, List.length_range])
    · exact lists_static out _
    · exact lists_driver w out
    · exact lists_static out _
    · rename_i hproc hprocPid hblock hblockEntry hpci hpciEntry hnet hnetEntry harp harpEntry
        hdriver hdriverEntry
      rw [nodeChildren_plain]
      · exact lists_attached out node
      · intro d hd
        simp only [directories, List.mem_cons, List.not_mem_nil, or_false] at hd
        rcases hd with rfl | rfl | rfl | rfl | rfl | rfl
        · exact ⟨fun e => hprocPid e.symm, fun e => hproc e.symm⟩
        · exact ⟨fun e => hblockEntry e.symm, fun e => hblock e.symm⟩
        · exact ⟨fun e => hpciEntry e.symm, fun e => hpci e.symm⟩
        · exact ⟨fun e => hnetEntry e.symm, fun e => hnet e.symm⟩
        · exact ⟨fun e => harpEntry e.symm, fun e => harp e.symm⟩
        · exact ⟨fun e => hdriverEntry e.symm, fun e => hdriver e.symm⟩

/-- With room for all children, these are what a caller of `klist` gets. -/
theorem reported_eq {w : Registries} {path : List UInt8} {r : ResolvedNode}
    {out : List KChildInfo} (h : resolveInternal w (cstr path) = some r)
    (hout : (klist w path out).1 ≤ out.length) :
    reported w path out = nodeChildren w r.node := by
  obtain ⟨hcount, hwritten⟩ := klist_lists h out
  rw [hcount] at hout
  rw [reported, hcount, hwritten, List.take_of_length_le hout, List.take_left]

/-! ### Listed names and found names -/

section Names

variable {w : Registries}

/-- A number is a segment. -/
theorem isSegment_numericChild {v : Nat} (hv : v < U64) :
    IsSegment (numericChild v).name.chars where
  nonempty := numericChild_ne_nil hv
  noSlash := fun h => absurd (isDigit_of_mem_numericChild hv _ h) (by decide)
  noNul := fun h => absurd (isDigit_of_mem_numericChild hv _ h) (by decide)

/-- A name that fits is shown as it is. -/
theorem namedChild_chars {name : List UInt8} (h : name.length < KSTR_MAX) (type : KTag) :
    (namedChild name type).name.chars = name :=
  List.take_of_length_le (Nat.le_sub_one_of_lt h)

/-- A text without a NUL is a C string as it is. -/
theorem cstr_eq {s : List UInt8} (h : 0 ∉ s) : cstr s = s := by
  rw [cstr, List.takeWhile_eq_self_iff]
  intro c hc
  rw [bne_iff_ne]
  rintro rfl
  exact h hc

/-- A task is live if it is in the table and not terminated. -/
theorem mem_liveTasks {s : Scheduler} {t : Task} :
    t ∈ liveTasks s ↔ t ∈ (List.range s.taskCount).map s.tasks ∧ t.state ≠ .terminated := by
  rw [liveTasks, List.mem_filter, bne_iff_ne]

/-- A task is found by its number exactly if it is live. -/
theorem snapshotTask_isSome {s : Scheduler} {pid : Nat} :
    (snapshotTask s pid).isSome ↔ ∃ t ∈ liveTasks s, t.id = pid := by
  rw [snapshotTask, Option.isSome_map, List.find?_isSome]
  constructor
  · rintro ⟨t, ht, hfound⟩
    rw [Bool.and_eq_true, beq_iff_eq, bne_iff_ne] at hfound
    exact ⟨t, mem_liveTasks.mpr ⟨ht, hfound.2⟩, hfound.1⟩
  · rintro ⟨t, ht, rfl⟩
    obtain ⟨hslot, hlive⟩ := mem_liveTasks.mp ht
    exact ⟨t, hslot, by rw [Bool.and_eq_true, beq_iff_eq, bne_iff_ne]; exact ⟨rfl, hlive⟩⟩

/-- Task numbers have 64 bits. -/
theorem liveTasks_id_lt {t : Task} (ht : t ∈ liveTasks w.scheduler) : t.id < U64 := by
  obtain ⟨slot, -, rfl⟩ := List.mem_map.mp (mem_liveTasks.mp ht).1
  exact w.idsFit slot

/-- A device name without a NUL is shown as it is. -/
theorem deviceChild_chars (name : StaticString 32) (h : 0 ∉ name.view) :
    (namedChild name.cStr .struct).name.chars = name.view := by
  have hfits : name.view.length < KSTR_MAX := name.fits.trans (by decide)
  rw [StaticString.cStr, cstr_eq h, namedChild_chars hfits]

/-- So have the numbers of PCI devices. -/
theorem pciCount_lt {n : Nat} (hn : n < w.pciCount) : n < U64 := by
  have hfits := w.pciFits
  have hmax : MAX_PCI_DEVICES = 64 := rfl
  rw [U64_eq]
  omega

/-- So have the numbers of ARP entries. -/
theorem cacheEntryCount_lt {n : Nat} (hn : n < cacheEntryCount w) : n < U64 := by
  have hfits : cacheEntryCount w ≤ MAX_CACHE_ENTRIES :=
    (List.length_filter_le _ _).trans_eq w.arpCache.length_toList
  have hmax : MAX_CACHE_ENTRIES = 16 := rfl
  rw [U64_eq]
  omega

/-- A lookup by number finds something under the numerals of what it finds. -/
theorem isSome_byNumber {α : Type} (find : Nat → Option α) (kind : α → VirtualKind)
    (s : List UInt8) :
    (byNumber find kind s).isSome ↔ ∃ n, parseU64Segment s = some n ∧ (find n).isSome := by
  rw [byNumber]
  cases parseU64Segment s with
  | none => simp
  | some n =>
    cases hfound : find n with
    | none => simp [hfound]
    | some x => simp [hfound]

/-- The segments that name a task. -/
theorem isSome_procTaskAt {s : List UInt8} :
    (procTaskAt w s).isSome ↔
      ∃ n, parseU64Segment s = some n ∧ ∃ t ∈ liveTasks w.scheduler, t.id = n := by
  rw [procTaskAt, isSome_byNumber]
  simp only [snapshotTask_isSome]

/-- The segments that name a PCI device. -/
theorem isSome_pciDeviceAt {s : List UInt8} :
    (pciDeviceAt w s).isSome ↔ ∃ n, parseU64Segment s = some n ∧ n < w.pciCount := by
  have hfind : ∀ n, (pciGetDevice w n).isSome ↔ n < w.pciCount := fun n => by
    rw [pciGetDevice]
    split <;> simp <;> omega
  rw [pciDeviceAt, isSome_byNumber]
  simp only [hfind]

/-- The segments that name an ARP entry. -/
theorem isSome_arpEntryAt {s : List UInt8} :
    (arpEntryAt w s).isSome ↔ ∃ n, parseU64Segment s = some n ∧ n < cacheEntryCount w := by
  have hfind : ∀ n, (cacheEntry w n).isSome ↔ n < cacheEntryCount w := fun n => by
    rw [cacheEntry, Option.isSome_map, cacheEntryCount, isSome_getElem?]
  rw [arpEntryAt, isSome_byNumber]
  simp only [hfind]

/-- A lookup by name finds what the registry finds, if the name fits into the buffer. -/
theorem isSome_byName (find : List UInt8 → Option Nat) (kind : Nat → VirtualKind)
    (s : List UInt8) :
    (byName find kind s).isSome ↔ s.length < KSTR_MAX ∧ (find s).isSome := by
  rw [byName]
  by_cases hlong : s.length ≥ KSTR_MAX
  · rw [if_pos hlong]
    simp [Nat.not_lt.mpr hlong]
  · rw [if_neg hlong, Option.isSome_map]
    simp [Nat.not_le.mp hlong]

/-- The segments that name a block device. -/
theorem isSome_blockDeviceAt {s : List UInt8} (hs : 0 ∉ s) :
    (blockDeviceAt w s).isSome ↔
      s.length < KSTR_MAX ∧ ∃ device ∈ w.blockDevices, device.name.view = s := by
  rw [blockDeviceAt, isSome_byName, blockFind, List.findIdx?_isSome, List.any_eq_true,
    cstr_eq hs]
  simp only [beq_iff_eq]

/-- The segments that name a network device. -/
theorem isSome_netDeviceAt {s : List UInt8} (hs : 0 ∉ s) :
    (netDeviceAt w s).isSome ↔
      s.length < KSTR_MAX ∧ ∃ device ∈ w.netDevices, device.name.view = s := by
  rw [netDeviceAt, isSome_byName, netFind, List.findIdx?_isSome, List.any_eq_true,
    cstr_eq hs]
  simp only [beq_iff_eq]

/-- The segments that name a driver. -/
theorem isSome_driverAt {s : List UInt8} (hs : 0 ∉ s) :
    (driverAt w s).isSome ↔
      s.length < KSTR_MAX ∧ ∃ desc ∈ w.drivers, normalizeDriverName s = desc.name.chars := by
  rw [driverAt, isSome_byName, driverFind, List.findIdx?_isSome, List.any_eq_true,
    cstr_eq hs]
  simp only [nameMatch, beq_iff_eq]

/-- A query loses one suffix. -/
theorem normalizeDriverName_eq (s : List UInt8) :
    (normalizeDriverName s = s ∧ ¬ vko <:+ s) ∨ s = normalizeDriverName s ++ vko := by
  have hvko : vko.length = 4 := by decide
  rw [normalizeDriverName]
  by_cases hsuffix : 4 ≤ s.length ∧ s.drop (s.length - 4) = vko
  · rw [if_pos hsuffix]
    right
    nth_rewrite 1 [← List.take_append_drop (s.length - 4) s]
    rw [hsuffix.2]
  · rw [if_neg hsuffix]
    refine .inl ⟨rfl, fun h => hsuffix ⟨hvko ▸ h.length_le, ?_⟩⟩
    rw [← hvko]
    exact (List.suffix_iff_eq_drop.mp h).symm

/-- What a registry lists has the type of an entry and is found under its name. -/
theorem lookup_of_entry (hw : w.WellNamed) {d : Directory} (hd : d ∈ directories)
    {child : KChildInfo} (hchild : child ∈ d.entries w) :
    child.type = .struct ∧
      (IsSegment child.name.chars ∧ (d.lookup w child.name.chars).isSome ∨
        d = driverDirectory ∧ HiddenDriver w child ∨
        (d = blockDirectory ∨ d = netDirectory) ∧ CutDevice w child) := by
  simp only [directories, List.mem_cons, List.not_mem_nil, or_false] at hd
  rcases hd with rfl | rfl | rfl | rfl | rfl | rfl
  · obtain ⟨t, ht, rfl⟩ := List.mem_map.mp hchild
    have hid := liveTasks_id_lt ht
    refine ⟨rfl, .inl ⟨isSegment_numericChild hid, ?_⟩⟩
    exact isSome_procTaskAt.mpr ⟨t.id, parseU64Segment_numericChild hid, t, ht, rfl⟩
  · obtain ⟨device, hdevice, rfl⟩ := List.mem_map.mp hchild
    refine ⟨rfl, ?_⟩
    by_cases hnul : 0 ∈ device.name.view
    · exact .inr (.inr ⟨.inl rfl, .inl ⟨device, hdevice, rfl, hnul⟩⟩)
    · obtain ⟨hne, hslash, -⟩ := hw.blockNames device hdevice
      left
      rw [deviceChild_chars device.name hnul]
      exact ⟨⟨hne, hslash, hnul⟩, (isSome_blockDeviceAt hnul).mpr
        ⟨device.name.fits.trans (by decide), device, hdevice, rfl⟩⟩
  · obtain ⟨n, hn, rfl⟩ := List.mem_map.mp hchild
    have hlt := pciCount_lt (List.mem_range.mp hn)
    refine ⟨rfl, .inl ⟨isSegment_numericChild hlt, ?_⟩⟩
    exact isSome_pciDeviceAt.mpr ⟨n, parseU64Segment_numericChild hlt, List.mem_range.mp hn⟩
  · obtain ⟨device, hdevice, rfl⟩ := List.mem_map.mp hchild
    refine ⟨rfl, ?_⟩
    by_cases hnul : 0 ∈ device.name.view
    · exact .inr (.inr ⟨.inr rfl, .inr ⟨device, hdevice, rfl, hnul⟩⟩)
    · obtain ⟨hne, hslash, -⟩ := hw.netNames device hdevice
      left
      rw [deviceChild_chars device.name hnul]
      exact ⟨⟨hne, hslash, hnul⟩, (isSome_netDeviceAt hnul).mpr
        ⟨device.name.fits.trans (by decide), device, hdevice, rfl⟩⟩
  · obtain ⟨n, hn, rfl⟩ := List.mem_map.mp hchild
    have hlt := cacheEntryCount_lt (List.mem_range.mp hn)
    refine ⟨rfl, .inl ⟨isSegment_numericChild hlt, ?_⟩⟩
    exact isSome_arpEntryAt.mpr ⟨n, parseU64Segment_numericChild hlt, List.mem_range.mp hn⟩
  · obtain ⟨desc, hdesc, rfl⟩ := List.mem_map.mp hchild
    refine ⟨rfl, ?_⟩
    by_cases hhidden : HiddenDriverName desc.name.chars
    · exact .inr (.inl ⟨rfl, desc, hdesc, rfl, hhidden⟩)
    · rw [HiddenDriverName, not_or, Nat.not_le] at hhidden
      have hname := (hw.driverNames desc hdesc).1
      -- Without the suffix the query stays as it is.
      have hquery : normalizeDriverName desc.name.chars = desc.name.chars := by
        rcases normalizeDriverName_eq desc.name.chars with hsame | hsuffix
        · exact hsame.1
        · exact absurd ⟨_, hsuffix.symm⟩ hhidden.2
      left
      rw [namedChild_chars hhidden.1]
      exact ⟨hname, (isSome_driverAt hname.noNul).mpr ⟨hhidden.1, desc, hdesc, hquery⟩⟩

/-- What a registry finds under a plain name is listed, for a driver perhaps without its suffix. -/
theorem entry_of_lookup {d : Directory} (hd : d ∈ directories)
    {s : List UInt8} (hs : IsSegment s) (hplain : PlainNumeral s) (h : (d.lookup w s).isSome) :
    (∃ child ∈ d.entries w, child.name.chars = s) ∨
      d = driverDirectory ∧ ∃ desc ∈ w.drivers, s = desc.name.chars ++ vko := by
  simp only [directories, List.mem_cons, List.not_mem_nil, or_false] at hd
  rcases hd with rfl | rfl | rfl | rfl | rfl | rfl
  · obtain ⟨n, hn, t, ht, rfl⟩ := isSome_procTaskAt.mp h
    exact .inl ⟨_, List.mem_map.mpr ⟨t, ht, rfl⟩, numericChild_of_parse hplain hn⟩
  · obtain ⟨-, device, hdevice, rfl⟩ := (isSome_blockDeviceAt hs.noNul).mp h
    exact .inl ⟨_, List.mem_map.mpr ⟨device, hdevice, rfl⟩, deviceChild_chars device.name hs.noNul⟩
  · obtain ⟨n, hn, hlt⟩ := isSome_pciDeviceAt.mp h
    exact .inl ⟨_, List.mem_map.mpr ⟨n, List.mem_range.mpr hlt, rfl⟩,
      numericChild_of_parse hplain hn⟩
  · obtain ⟨-, device, hdevice, rfl⟩ := (isSome_netDeviceAt hs.noNul).mp h
    exact .inl ⟨_, List.mem_map.mpr ⟨device, hdevice, rfl⟩, deviceChild_chars device.name hs.noNul⟩
  · obtain ⟨n, hn, hlt⟩ := isSome_arpEntryAt.mp h
    exact .inl ⟨_, List.mem_map.mpr ⟨n, List.mem_range.mpr hlt, rfl⟩,
      numericChild_of_parse hplain hn⟩
  · obtain ⟨hlength, desc, hdesc, hname⟩ := (isSome_driverAt hs.noNul).mp h
    rcases normalizeDriverName_eq s with ⟨hsame, -⟩ | hsuffix
    · rw [hsame] at hname
      refine .inl ⟨_, List.mem_map.mpr ⟨desc, hdesc, rfl⟩, ?_⟩
      rw [← hname, namedChild_chars hlength]
    · rw [hname] at hsuffix
      exact .inr ⟨rfl, desc, hdesc, hsuffix⟩

end Names

end VKernel.Proofs.Kobj

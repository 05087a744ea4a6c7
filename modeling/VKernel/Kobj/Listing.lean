import VKernel.Kobj.Resolve

/-!
# `VKernel.Kobj.Listing`: the children of a node

`klist` writes the children of a node to the buffer of its caller and returns how many there are.
The buffer is the list of its slots, so `max_children` is its length, and a write at an index
beyond it changes nothing.
-/

set_option autoImplicit false

namespace VKernel.Kobj

open VKernel.Sched

/-- `KChildInfo`. -/
structure KChildInfo where
  name : KStr
  type : KTag
  deriving DecidableEq, Repr

/-! ### Numerals -/

/-- `append_ch`. One byte stays for the terminator. -/
def appendCh (cap : Nat) (out : List UInt8) (ch : UInt8) : List UInt8 :=
  if out.length + 1 < cap then out ++ [ch] else out

/-- The first loop of `render_u64`: the digits from the lowest on, as far as `tmp` has room. -/
def renderDigits : Nat → Nat → List UInt8
  | 0, _ => []
  | room + 1, v =>
    if v = 0 then [] else ('0'.toUInt8 + (v % 10).toUInt8) :: renderDigits room (v / 10)

/-- `render_u64`. -/
def renderU64 (cap : Nat) (out : List UInt8) (v : Nat) : List UInt8 :=
  if v = 0 then appendCh cap out '0'.toUInt8
  else (renderDigits 21 v).reverse.foldl (appendCh cap) out

theorem appendCh_length_lt {cap : Nat} {out : List UInt8} (h : out.length < cap) (ch : UInt8) :
    (appendCh cap out ch).length < cap := by
  rw [appendCh]
  split
  · rwa [List.length_append, List.length_singleton]
  · exact h

theorem renderU64_length_lt {cap : Nat} {out : List UInt8} (h : out.length < cap) (v : Nat) :
    (renderU64 cap out v).length < cap := by
  rw [renderU64]
  split
  · exact appendCh_length_lt h _
  · exact List.foldlRecOn (motive := fun out => out.length < cap) _ (appendCh cap) h
      fun _ hout ch _ => appendCh_length_lt hout ch

/-! ### Writing to the buffer -/

/-- What `append_child_info` writes. -/
def namedChild (name : List UInt8) (type : KTag) : KChildInfo := ⟨KStr.set name, type⟩

/-- `append_child_info`. -/
def appendChildInfo (out : List KChildInfo) (index : Nat) (name : List UInt8) (type : KTag) :
    List KChildInfo :=
  out.set index (namedChild name type)

/-- What `append_numeric_child_name` writes. -/
def numericChild (value : Nat) : KChildInfo :=
  ⟨⟨renderU64 KSTR_MAX [] value, renderU64_length_lt (by decide) value⟩, .struct⟩

/-- The loops of the listings: one child after the other, up to the end of the buffer. -/
def appendFrom (out : List KChildInfo) (index : Nat) : List KChildInfo → List KChildInfo
  | [] => out
  | child :: rest =>
    if index < out.length then appendFrom (out.set index child) (index + 1) rest else out

/-- `static_child_definition`. -/
structure StaticChildDefinition where
  name : List UInt8
  type : KTag
  deriving DecidableEq, Repr

/-- `append_static_children`. -/
def appendStaticChildren (out : List KChildInfo) (definitions : List StaticChildDefinition) :
    Nat × List KChildInfo :=
  (definitions.length, appendFrom out 0 (definitions.map fun d => namedChild d.name d.type))

/-- `append_attached_children`. -/
def appendAttachedChildren (node : KNodeId) (out : List KChildInfo) : Nat × List KChildInfo :=
  (node.children.length, appendFrom out 0 (node.children.map fun d => namedChild d.name d.type))

/-! ### The listings -/

/-- `kProcFields`. -/
def procFields : List StaticChildDefinition :=
  [⟨ascii "id", .u64⟩, ⟨ascii "state", .enum⟩, ⟨ascii "cpu", .i64⟩, ⟨ascii "cpu_ticks", .u64⟩,
   ⟨ascii "name", .str⟩]

/-- `kBlockFields`. -/
def blockFields : List StaticChildDefinition :=
  [⟨ascii "name", .str⟩, ⟨ascii "size_kb", .u64⟩, ⟨ascii "block_size", .u64⟩,
   ⟨ascii "removable", .bool⟩]

/-- `kPciFields`. -/
def pciFields : List StaticChildDefinition :=
  [⟨ascii "bus", .u64⟩, ⟨ascii "device", .u64⟩, ⟨ascii "function", .u64⟩,
   ⟨ascii "vendor_id", .u64⟩, ⟨ascii "device_id", .u64⟩, ⟨ascii "class_code", .u64⟩,
   ⟨ascii "subclass", .u64⟩, ⟨ascii "prog_if", .u64⟩, ⟨ascii "revision", .u64⟩,
   ⟨ascii "irq_line", .u64⟩]

/-- `kNetFields`. -/
def netFields : List StaticChildDefinition :=
  [⟨ascii "name", .str⟩, ⟨ascii "mac", .str⟩, ⟨ascii "mtu", .u64⟩, ⟨ascii "link_up", .bool⟩,
   ⟨ascii "ipv4_address", .str⟩]

/-- `kArpEntryFields`. -/
def arpEntryFields : List StaticChildDefinition := [⟨ascii "ip", .str⟩, ⟨ascii "mac", .str⟩]

/-- `kDriverFields`. -/
def driverFields : List StaticChildDefinition :=
  [⟨ascii "name", .str⟩, ⟨ascii "type", .enum⟩, ⟨ascii "loaded", .bool⟩]

/-- `proc_list_children`. -/
def procListChildren (w : Registries) (node : KNodeId) (out : List KChildInfo) :
    Nat × List KChildInfo :=
  if node = .proc then
    let total := 1 + (snapshotTasks w.scheduler 0).1
    let out := appendChildInfo out 0 (ascii "count") .u64
    if out.length ≤ 1 then (total, out)
    else
      let snapshots := (snapshotTasks w.scheduler MAX_TASKS).2
      (total, appendFrom out 1 (snapshots.map fun snapshot => numericChild snapshot.id))
  else appendStaticChildren out procFields

/-- `device_list_children`. -/
def deviceListChildren (w : Registries) (node : KNodeId) (out : List KChildInfo) :
    Nat × List KChildInfo :=
  if node = .devBlock then
    let out := appendChildInfo out 0 (ascii "count") .u64
    (1 + w.blockDevices.length,
      appendFrom out 1 (w.blockDevices.map fun device => namedChild device.name.cStr .struct))
  else if node = .devPci then
    let out := appendChildInfo out 0 (ascii "count") .u64
    (1 + w.pciCount, appendFrom out 1 ((List.range w.pciCount).map numericChild))
  else if node = .devBlockEntry then appendStaticChildren out blockFields
  else appendStaticChildren out pciFields

/-- `network_list_children`. -/
def networkListChildren (w : Registries) (node : KNodeId) (out : List KChildInfo) :
    Nat × List KChildInfo :=
  if node = .devNet then
    let out := appendChildInfo out 0 (ascii "count") .u64
    (1 + w.netDevices.length,
      appendFrom out 1 (w.netDevices.map fun device => namedChild device.name.cStr .struct))
  else if node = .netArp then
    let out := appendChildInfo out 0 (ascii "count") .u64
    (1 + cacheEntryCount w, appendFrom out 1 ((List.range (cacheEntryCount w)).map numericChild))
  else if node = .netArpEntry then appendStaticChildren out arpEntryFields
  else appendStaticChildren out netFields

/-- `driver_list_children`. -/
def driverListChildren (w : Registries) (node : KNodeId) (out : List KChildInfo) :
    Nat × List KChildInfo :=
  if node = .driver then
    let out := appendChildInfo out 0 (ascii "registered_count") .u64
    let out := appendChildInfo out 1 (ascii "loaded_count") .u64
    (2 + w.drivers.length,
      appendFrom out 2 (w.drivers.map fun desc => namedChild desc.name.chars .struct))
  else appendStaticChildren out driverFields

/-- `klist`. -/
def klist (w : Registries) (path : List UInt8) (out : List KChildInfo) : Nat × List KChildInfo :=
  match resolveInternal w (cstr path) with
  | none => (0, out)
  | some resolved =>
    match resolved.node with
    | .proc | .procPid => procListChildren w resolved.node out
    | .devBlock | .devBlockEntry | .devPci | .devPciEntry =>
      deviceListChildren w resolved.node out
    | .devNet | .devNetEntry | .netArp | .netArpEntry =>
      networkListChildren w resolved.node out
    | .driver | .driverEntry => driverListChildren w resolved.node out
    | node => appendAttachedChildren node out

end VKernel.Kobj

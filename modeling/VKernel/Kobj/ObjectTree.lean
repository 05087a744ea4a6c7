import VKernel.Kobj.Listing

/-!
# `VKernel.Kobj.ObjectTree`: the object tree apart from the code that walks it

A path is the list of its segments. `Denotes` says which node a list of segments stands for:

* a registered node, reached from the root through the children that were attached;
* an entry of one of the six registries, below the node of the registry;
* a field of such an entry.

`Directory` is one registry as a place in the tree: where it stands, the nodes of its entries and
their fields, the lookup of a name, and what a listing shows of it. The resolvers and the listings
of the source are two readings of this tree that were written apart.

`WellNamed`, `Canonical` and `PlainNumeral` are the states, the paths and the segments for which
the two readings have to fit together.
-/

set_option autoImplicit false

namespace VKernel.Kobj

open VKernel.Sched

/-! ### Paths -/

/-- A text that can stand between two separators of a C string. -/
structure IsSegment (s : List UInt8) : Prop where
  nonempty : s ≠ []
  noSlash : slash ∉ s
  noNul : 0 ∉ s

instance (s : List UInt8) : Decidable (IsSegment s) :=
  decidable_of_iff (s ≠ [] ∧ slash ∉ s ∧ 0 ∉ s)
    ⟨fun h => ⟨h.1, h.2.1, h.2.2⟩, fun h => ⟨h.nonempty, h.noSlash, h.noNul⟩⟩

/-- The segments with a single separator between any two. -/
def joinPath (segments : List (List UInt8)) : List UInt8 := [slash].intercalate segments

/-- A path with single separators and none at its end. One may stand in front. -/
def Canonical (path : List UInt8) : Prop :=
  ∃ segments, (∀ s ∈ segments, IsSegment s) ∧
    (path = joinPath segments ∨ path = slash :: joinPath segments)

/-- A decimal digit. -/
def IsDigit (c : UInt8) : Prop := '0'.toUInt8 ≤ c ∧ c ≤ '9'.toUInt8

instance (c : UInt8) : Decidable (IsDigit c) := inferInstanceAs (Decidable (_ ∧ _))

/-- The number that a text of digits stands for. -/
def decimalValue (s : List UInt8) : Nat :=
  s.foldl (fun value c => value * 10 + (c - '0'.toUInt8).toNat) 0

/-- If the segment is a numeral, it has no leading zero and its number fits into a `u64`. -/
def PlainNumeral (s : List UInt8) : Prop :=
  (∀ c ∈ s, IsDigit c) → (s.head? = some '0'.toUInt8 → s = ['0'.toUInt8]) ∧ decimalValue s < U64

/-! ### The tree -/

/-- A registry as a place in the tree. -/
structure Directory where
  path : List (List UInt8)
  node : KNodeId
  entry : KNodeId
  fieldNodes : List (List UInt8 × KNodeId)
  fields : List StaticChildDefinition
  lookup : Registries → List UInt8 → Option VirtualKind
  entries : Registries → List KChildInfo

/-- `proc`. -/
def procDirectory : Directory where
  path := [ascii "proc"]
  node := .proc
  entry := .procPid
  fieldNodes := procFieldNodes
  fields := procFields
  lookup := procTaskAt
  entries := fun w => (liveTasks w.scheduler).map fun t => numericChild t.id

/-- `dev/block`. -/
def blockDirectory : Directory where
  path := [ascii "dev", ascii "block"]
  node := .devBlock
  entry := .devBlockEntry
  fieldNodes := blockFieldNodes
  fields := blockFields
  lookup := blockDeviceAt
  entries := fun w => w.blockDevices.map fun device => namedChild device.name.cStr .struct

/-- `dev/pci`. -/
def pciDirectory : Directory where
  path := [ascii "dev", ascii "pci"]
  node := .devPci
  entry := .devPciEntry
  fieldNodes := pciFieldNodes
  fields := pciFields
  lookup := pciDeviceAt
  entries := fun w => (List.range w.pciCount).map numericChild

/-- `dev/net`. -/
def netDirectory : Directory where
  path := [ascii "dev", ascii "net"]
  node := .devNet
  entry := .devNetEntry
  fieldNodes := netFieldNodes
  fields := netFields
  lookup := netDeviceAt
  entries := fun w => w.netDevices.map fun device => namedChild device.name.cStr .struct

/-- `net/arp`. -/
def arpDirectory : Directory where
  path := [ascii "net", ascii "arp"]
  node := .netArp
  entry := .netArpEntry
  fieldNodes := arpFieldNodes
  fields := arpEntryFields
  lookup := arpEntryAt
  entries := fun w => (List.range (cacheEntryCount w)).map numericChild

/-- `driver`. -/
def driverDirectory : Directory where
  path := [ascii "driver"]
  node := .driver
  entry := .driverEntry
  fieldNodes := driverFieldNodes
  fields := driverFields
  lookup := driverAt
  entries := fun w => w.drivers.map fun desc => namedChild desc.name.chars .struct

/-- The registries that the tree shows. -/
def directories : List Directory :=
  [procDirectory, blockDirectory, pciDirectory, netDirectory, arpDirectory, driverDirectory]

/-- The node that the segments lead to through attached children. -/
def attachedNode (segments : List (List UInt8)) : Option KNodeId :=
  segments.foldlM KNodeId.findChild .root

/-- What a list of segments stands for. -/
inductive Denotes (w : Registries) : List (List UInt8) → ResolvedNode → Prop
  | attached {segments : List (List UInt8)} {node : KNodeId}
      (hnode : attachedNode segments = some node) : Denotes w segments (makeResolved node)
  | entry {d : Directory} {s : List UInt8} {kind : VirtualKind} (hd : d ∈ directories)
      (hkind : d.lookup w s = some kind) :
      Denotes w (d.path ++ [s]) ⟨d.entry, kind, some (KStr.set s)⟩
  | field {d : Directory} {s f : List UInt8} {kind : VirtualKind} {node : KNodeId}
      (hd : d ∈ directories) (hkind : d.lookup w s = some kind)
      (hfield : d.fieldNodes.lookup f = some node) :
      Denotes w (d.path ++ [s, f]) ⟨node, kind, some (KStr.set s)⟩

/-- The children that a node has in the tree. -/
def nodeChildren (w : Registries) (node : KNodeId) : List KChildInfo :=
  match directories.find? fun d => d.entry == node with
  | some d => d.fields.map fun f => namedChild f.name f.type
  | none =>
    (node.children.map fun c => namedChild c.name c.type) ++
      match directories.find? fun d => d.node == node with
      | some d => d.entries w
      | none => []

/-! ### Registered names -/

/-- Every registered name can be a segment, up to a NUL in the name of a device, and none is the
name of a fixed child beside it. -/
structure Registries.WellNamed (w : Registries) : Prop where
  blockNames : ∀ device ∈ w.blockDevices, device.name.view ≠ [] ∧ slash ∉ device.name.view ∧
    device.name.view ≠ ascii "count"
  netNames : ∀ device ∈ w.netDevices, device.name.view ≠ [] ∧ slash ∉ device.name.view ∧
    device.name.view ≠ ascii "count"
  driverNames : ∀ desc ∈ w.drivers, IsSegment desc.name.chars ∧
    desc.name.chars ≠ ascii "registered_count" ∧ desc.name.chars ≠ ascii "loaded_count"

/-- A name that `driver::find` does not find under itself: it does not fit into the buffer of the
resolver, or it ends in the suffix that a query loses. -/
def HiddenDriverName (name : List UInt8) : Prop := KSTR_MAX ≤ name.length ∨ vko <:+ name

/-- The child shows the name of a driver that is not found under it. -/
def HiddenDriver (w : Registries) (child : KChildInfo) : Prop :=
  ∃ desc ∈ w.drivers, child.name = KStr.set desc.name.chars ∧ HiddenDriverName desc.name.chars

/-- The place of the driver registry. -/
def IsDriverPath (path : List UInt8) : Prop :=
  path = ascii "driver" ∨ path = slash :: ascii "driver"

/-- The child shows the name of a device up to a NUL in it. -/
def CutDevice (w : Registries) (child : KChildInfo) : Prop :=
  (∃ device ∈ w.blockDevices, child.name = KStr.set device.name.cStr ∧ 0 ∈ device.name.view) ∨
    ∃ device ∈ w.netDevices, child.name = KStr.set device.name.cStr ∧ 0 ∈ device.name.view

/-- The places of the two device registries. -/
def IsDevicePath (path : List UInt8) : Prop :=
  (path = ascii "dev/block" ∨ path = slash :: ascii "dev/block") ∨
    path = ascii "dev/net" ∨ path = slash :: ascii "dev/net"

/-- The children that `klist` reports for a path. -/
def reported (w : Registries) (path : List UInt8) (out : List KChildInfo) : List KChildInfo :=
  (klist w path out).2.take (klist w path out).1

end VKernel.Kobj

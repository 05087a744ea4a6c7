import VKernel.Kobj.Registries

/-!
# `VKernel.Kobj.Resolve`: from a path to a node

`resolveInternal` tries one resolver after the other, and the first that finds a node decides. A
resolver that does not know a path and one that fails on it both give `none`, so a path that
fails in its own resolver still reaches the walk over the registered nodes at the end.

The resolvers of the registries differ in the text they test for, in the names they compare with
first and in the lookup. `resolvePrefixed` and `resolveWord` are the two forms of the test, with
and without the separator, `resolveFixed` is the comparison, and `resolveEntry` reads an entry:
the first segment is looked up, and what stands behind it has to be a field.
-/

set_option autoImplicit false

namespace VKernel.Kobj

/-- `KSTR_MAX`. -/
def KSTR_MAX : Nat := 64

/-- `KStr`. -/
structure KStr where
  chars : List UInt8
  fits : chars.length < KSTR_MAX
  deriving DecidableEq, Repr

/-- `KStr::set`: a text that is too long is cut. -/
def KStr.set (s : List UInt8) : KStr where
  chars := s.take (KSTR_MAX - 1)
  fits := by
    rw [List.length_take]
    exact lt_of_le_of_lt (min_le_left _ _) (by decide)

/-- `resolved_node::virtual_kind`, with what the node is bound to: a copy of the task or of the
cache entry, or the slot of the device or driver. -/
inductive VirtualKind
  | none
  | procTask (task : TaskSnapshot)
  | blockDevice (index : Nat)
  | pciDevice (index : Nat)
  | netDevice (index : Nat)
  | arpEntry (arp : CacheEntryInfo)
  | driverEntry (index : Nat)
  deriving DecidableEq, Repr

/-- `resolved_node`. -/
structure ResolvedNode where
  node : KNodeId
  kind : VirtualKind
  name : Option KStr
  deriving DecidableEq, Repr

/-- `make_resolved`. -/
def makeResolved (node : KNodeId) : ResolvedNode := ⟨node, .none, none⟩

/-! ### Numerals -/

/-- The loop of `parse_u64_segment`. The arithmetic wraps. -/
def parseDigits (value : Nat) : List UInt8 → Option Nat
  | [] => some value
  | c :: rest =>
    if c < '0'.toUInt8 ∨ c > '9'.toUInt8 then none
    else parseDigits (add64 (value * 10 % U64) (c - '0'.toUInt8).toNat) rest

/-- `parse_u64_segment`. -/
def parseU64Segment (segment : List UInt8) : Option Nat :=
  if segment = [] then none else parseDigits 0 segment

/-! ### What the resolvers have in common -/

/-- A resolver whose prefix ends in a separator. `body` gets the text behind it. -/
def resolvePrefixed (text : List UInt8) (node : KNodeId)
    (body : List UInt8 → Option ResolvedNode) (path : List UInt8) : Option ResolvedNode :=
  if ¬ text <+: path then none
  else
    let p := path.drop text.length
    if p = [] then some (makeResolved node) else body p

/-- A resolver whose prefix is a word. The separator behind it is tested next. -/
def resolveWord (word : List UInt8) (node : KNodeId)
    (body : List UInt8 → Option ResolvedNode) (path : List UInt8) : Option ResolvedNode :=
  if ¬ word <+: path then none
  else
    match path.drop word.length with
    | [] => some (makeResolved node)
    | c :: p =>
      if c ≠ slash then none
      else if p = [] then some (makeResolved node)
      else body p

/-- The comparisons with fixed names, in front of what comes after them. -/
def resolveFixed (fixed : List (List UInt8 × KNodeId)) (body : List UInt8 → Option ResolvedNode)
    (p : List UInt8) : Option ResolvedNode :=
  match fixed.lookup p with
  | some node => some (makeResolved node)
  | none => body p

/-- The bytes of `p` up to the next separator. -/
def firstSegment (p : List UInt8) : List UInt8 := p.takeWhile (· != slash)

/-- An entry of a registry: the first segment is looked up, the rest is one of its fields. -/
def resolveEntry (entry : KNodeId) (fields : List (List UInt8 × KNodeId))
    (lookup : List UInt8 → Option VirtualKind) (p : List UInt8) : Option ResolvedNode :=
  let segment := firstSegment p
  match lookup segment with
  | none => none
  | some kind =>
    let name := some (KStr.set segment)
    match p.drop segment.length with
    | [] => some ⟨entry, kind, name⟩
    | c :: tail =>
      if c ≠ slash then none
      else (fields.lookup tail).map fun field => ⟨field, kind, name⟩

/-- A lookup by number. -/
def byNumber {α : Type} (find : Nat → Option α) (kind : α → VirtualKind) (segment : List UInt8) :
    Option VirtualKind := do
  let number ← parseU64Segment segment
  let found ← find number
  return kind found

/-- A lookup by name. The segment is copied to `name_buf`, which has room for `KSTR_MAX`
characters with the terminator. -/
def byName (find : List UInt8 → Option Nat) (kind : Nat → VirtualKind) (segment : List UInt8) :
    Option VirtualKind :=
  if segment.length ≥ KSTR_MAX then none else (find segment).map kind

/-! ### The resolvers -/

/-- The fields of `resolve_proc_path`. -/
def procFieldNodes : List (List UInt8 × KNodeId) :=
  [(ascii "id", .procPidId), (ascii "state", .procPidState), (ascii "cpu", .procPidCpu),
   (ascii "cpu_ticks", .procPidCpuTicks), (ascii "name", .procPidName)]

/-- The task that a segment of `proc` names. -/
def procTaskAt (w : Registries) : List UInt8 → Option VirtualKind :=
  byNumber (snapshotTask w.scheduler) .procTask

/-- `resolve_proc_path`. -/
def resolveProcPath (w : Registries) : List UInt8 → Option ResolvedNode :=
  resolveWord (ascii "proc") .proc
    (resolveFixed [(ascii "count", .procCount)]
      (resolveEntry .procPid procFieldNodes (procTaskAt w)))

/-- The fields of `resolve_block_path`. -/
def blockFieldNodes : List (List UInt8 × KNodeId) :=
  [(ascii "name", .devBlockEntryName), (ascii "size_kb", .devBlockEntrySizeKb),
   (ascii "block_size", .devBlockEntryBlockSize), (ascii "removable", .devBlockEntryRemovable)]

/-- The device that a segment of `dev/block` names. -/
def blockDeviceAt (w : Registries) : List UInt8 → Option VirtualKind :=
  byName (blockFind w) .blockDevice

/-- `resolve_block_path`. There is no comparison with `count`. -/
def resolveBlockPath (w : Registries) : List UInt8 → Option ResolvedNode :=
  resolvePrefixed (ascii "dev/block/") .devBlock
    (resolveEntry .devBlockEntry blockFieldNodes (blockDeviceAt w))

/-- The fields of `resolve_pci_path`. -/
def pciFieldNodes : List (List UInt8 × KNodeId) :=
  [(ascii "bus", .devPciEntryBus), (ascii "device", .devPciEntryDevice),
   (ascii "function", .devPciEntryFunction), (ascii "vendor_id", .devPciEntryVendorId),
   (ascii "device_id", .devPciEntryDeviceId), (ascii "class_code", .devPciEntryClassCode),
   (ascii "subclass", .devPciEntrySubclass), (ascii "prog_if", .devPciEntryProgIf),
   (ascii "revision", .devPciEntryRevision), (ascii "irq_line", .devPciEntryIrqLine)]

/-- The device that a segment of `dev/pci` names. -/
def pciDeviceAt (w : Registries) : List UInt8 → Option VirtualKind :=
  byNumber (pciGetDevice w) .pciDevice

/-- `resolve_pci_path`. -/
def resolvePciPath (w : Registries) : List UInt8 → Option ResolvedNode :=
  resolvePrefixed (ascii "dev/pci/") .devPci
    (resolveFixed [(ascii "count", .devPciCount)]
      (resolveEntry .devPciEntry pciFieldNodes (pciDeviceAt w)))

/-- The fields of `resolve_net_device_path`. -/
def netFieldNodes : List (List UInt8 × KNodeId) :=
  [(ascii "name", .devNetEntryName), (ascii "mac", .devNetEntryMac), (ascii "mtu", .devNetEntryMtu),
   (ascii "link_up", .devNetEntryLinkUp), (ascii "ipv4_address", .devNetEntryIpv4Address)]

/-- The device that a segment of `dev/net` names. -/
def netDeviceAt (w : Registries) : List UInt8 → Option VirtualKind :=
  byName (netFind w) .netDevice

/-- `resolve_net_device_path`. -/
def resolveNetDevicePath (w : Registries) : List UInt8 → Option ResolvedNode :=
  resolvePrefixed (ascii "dev/net/") .devNet
    (resolveFixed [(ascii "count", .devNetCount)]
      (resolveEntry .devNetEntry netFieldNodes (netDeviceAt w)))

/-- The paths that `resolve_net_stack_path` compares with. -/
def netStackNodes : List (List UInt8 × KNodeId) :=
  [(ascii "device_count", .netDeviceCount), (ascii "primary_device", .netPrimaryDevice),
   (ascii "background_rx", .netBackgroundRx), (ascii "ipv4", .netIpv4),
   (ascii "ipv4/configured_count", .netIpv4ConfiguredCount), (ascii "arp", .netArp),
   (ascii "arp/count", .netArpCount)]

/-- The fields of a cache entry in `resolve_net_stack_path`. -/
def arpFieldNodes : List (List UInt8 × KNodeId) :=
  [(ascii "ip", .netArpEntryIp), (ascii "mac", .netArpEntryMac)]

/-- The cache entry that a segment of `net/arp` names. -/
def arpEntryAt (w : Registries) : List UInt8 → Option VirtualKind :=
  byNumber (cacheEntry w) .arpEntry

/-- `resolve_net_stack_path`. -/
def resolveNetStackPath (w : Registries) : List UInt8 → Option ResolvedNode :=
  resolveWord (ascii "net") .net
    (resolveFixed netStackNodes fun p =>
      if ¬ ascii "arp/" <+: p then none
      else resolveEntry .netArpEntry arpFieldNodes (arpEntryAt w) (p.drop 4))

/-- The fields of `resolve_driver_path`. -/
def driverFieldNodes : List (List UInt8 × KNodeId) :=
  [(ascii "name", .driverEntryName), (ascii "type", .driverEntryType),
   (ascii "loaded", .driverEntryLoaded)]

/-- The driver that a segment of `driver` names. -/
def driverAt (w : Registries) : List UInt8 → Option VirtualKind :=
  byName (driverFind w) .driverEntry

/-- `resolve_driver_path`. -/
def resolveDriverPath (w : Registries) : List UInt8 → Option ResolvedNode :=
  resolvePrefixed (ascii "driver/") .driver
    (resolveFixed
      [(ascii "registered_count", .driverRegisteredCount),
        (ascii "loaded_count", .driverLoadedCount)]
      (resolveEntry .driverEntry driverFieldNodes (driverAt w)))

/-! ### All paths -/

/-- The loop of `resolve_internal` over the registered nodes. -/
def walkNodes (node : KNodeId) (path : List UInt8) : Option ResolvedNode :=
  match path with
  | [] => some (makeResolved node)
  | c :: rest =>
    if c = 0 then some (makeResolved node)
    else
      let segment := (c :: rest).takeWhile fun c => c != slash && c != 0
      if segment = [] then walkNodes node rest
      else
        match node.findChild segment with
        | none => none
        | some found =>
          walkNodes found (((c :: rest).drop segment.length).dropWhile (· == slash))
termination_by path.length
decreasing_by
  · simp
  · rename_i hsegment
    have hshorter : 0 < segment.length := List.length_pos_of_ne_nil hsegment
    calc (((c :: rest).drop segment.length).dropWhile (· == slash)).length
        ≤ ((c :: rest).drop segment.length).length := (List.dropWhile_sublist _).length_le
      _ < (c :: rest).length := by
        rw [List.length_drop, List.length_cons]
        omega

/-- `resolve_internal`. -/
def resolveInternal (w : Registries) (path : List UInt8) : Option ResolvedNode :=
  let p := path.dropWhile (· == slash)
  if p = [] ∨ p.head? = some 0 then some (makeResolved .root)
  else
    resolveProcPath w p <|> resolveBlockPath w p <|> resolvePciPath w p <|>
      resolveNetDevicePath w p <|> resolveNetStackPath w p <|> resolveDriverPath w p <|>
      walkNodes .root p

/-- `resolve`, of a C string. -/
def resolve (w : Registries) (path : List UInt8) : Option KNodeId :=
  (resolveInternal w (cstr path)).map ResolvedNode.node

end VKernel.Kobj

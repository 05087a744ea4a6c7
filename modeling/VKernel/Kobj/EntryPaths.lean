import VKernel.Kobj.ObjectTree

/-!
# `VKernel.Kobj.EntryPaths`: the texts under which entries are found

`Denotes` speaks about segments. The resolvers of the registries compare texts, so an entry is
found only under one way to write its segments. `NamesEntry` is that way: the segments with one
separator between any two, up to the separators in front, which `resolve_internal` skips.

`pathSegments` are the segments that a path has for a reader who skips empty ones, as the loop
over the registered nodes does.
-/

set_option autoImplicit false

namespace VKernel.Kobj

open VKernel.Net

/-- The path without the separators in front. -/
def stripSlashes (path : List UInt8) : List UInt8 := path.dropWhile (· == slash)

/-- The nonempty segments of a path. -/
def pathSegments (path : List UInt8) : List (List UInt8) :=
  (path.splitOn slash).filter fun s => s != []

/-- The paths that the resolvers compare with as a whole before they read an entry. -/
def comparedPaths : List (List UInt8) :=
  [ascii "proc/count", ascii "dev/pci/count", ascii "dev/net/count"] ++
  (netStackNodes.map fun e => ascii "net/" ++ e.1) ++
  [ascii "driver/registered_count", ascii "driver/loaded_count"]

/-- The path is the text of an entry of a registry, or of a field of one. A name may be empty if
a field stands behind it. -/
inductive NamesEntry (w : Registries) : List UInt8 → ResolvedNode → Prop
  | entry {d : Directory} {s : List UInt8} {kind : VirtualKind} (hd : d ∈ directories)
      (hne : s ≠ []) (hs : slash ∉ s) (hkind : d.lookup w s = some kind)
      (hfree : joinPath (d.path ++ [s]) ∉ comparedPaths) :
      NamesEntry w (joinPath (d.path ++ [s])) ⟨d.entry, kind, some (KStr.set s)⟩
  | field {d : Directory} {s f : List UInt8} {kind : VirtualKind} {node : KNodeId}
      (hd : d ∈ directories) (hs : slash ∉ s) (hkind : d.lookup w s = some kind)
      (hfield : d.fieldNodes.lookup f = some node) :
      NamesEntry w (joinPath (d.path ++ [s, f])) ⟨node, kind, some (KStr.set s)⟩

/-- What a path is found to be: the node and what it is bound to. -/
def boundNode (w : Registries) (path : List UInt8) : Option (KNodeId × VirtualKind) :=
  (resolveInternal w path).map fun r => (r.node, r.kind)

/-! ### Numerals -/

/-- The text is a numeral of the number. -/
def DenotesNumber (s : List UInt8) (n : Nat) : Prop :=
  s ≠ [] ∧ (∀ c ∈ s, IsDigit c) ∧ decimalValue s = n

/-- The registries whose entries have numbers. -/
def numericDirectories : List Directory := [procDirectory, pciDirectory, arpDirectory]

/-- What a node is bound to is the entry with this number: the task with this identifier, the
device in this slot, or the valid cache entry at this place. -/
def VirtualKind.IsNumber (w : Registries) (n : Nat) : VirtualKind → Prop
  | .procTask task => snapshotTask w.scheduler n = some task
  | .pciDevice index => index = n
  | .arpEntry arp => cacheEntry w n = some arp
  | _ => False

/-- `s` is the segment behind the registry in the path. -/
def SegmentUnder (d : Directory) (s path : List UInt8) : Prop :=
  ∃ behind, stripSlashes path = joinPath (d.path ++ [behind]) ∧ firstSegment behind = s

/-- The parser reads exactly the numbers of a `u64`. -/
def ParsedExactly (s : List UInt8) : Prop :=
  ∀ v, parseU64Segment s = some v ↔ decimalValue s < U64 ∧ v = decimalValue s

/-- A path with `s` behind a registry is bound to no other entry than the one `s` denotes. -/
def BoundExactly (w : Registries) (s : List UInt8) : Prop :=
  ∀ d ∈ numericDirectories, ∀ path, SegmentUnder d s (cstr path) →
    ∀ r, resolveInternal w (cstr path) = some r → r.kind ≠ .none →
      ∃ n, DenotesNumber s n ∧ r.kind.IsNumber w n

end VKernel.Kobj

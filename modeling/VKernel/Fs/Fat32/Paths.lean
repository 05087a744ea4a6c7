import VKernel.Fs.Fat32.Walks

/-!
# `VKernel.Fs.Fat32.Paths`: the two readings of a path

`resolve_path` walks the components of a path and skips empty ones and `.`.
`resolve_parent_directory` splits the path at its last separator and resolves the text in front
of it as a path of its own. `PathsAgree` says that the two readings fit together, and
`SplitsWell` is the condition on a path under which they do.
-/

set_option autoImplicit false

namespace VKernel.Fs.Fat32

open VKernel.Lib

/-- The directory that the components lead to by the rules of `resolve_path`: `.` is skipped,
every other one is found and is a directory with a cluster. -/
def followComponents (g : MountState) (rounds : Nat) : Nat → List (List UInt8) → Fat (Option Nat)
  | cluster, [] => return some cluster
  | cluster, component :: rest =>
    if component = ['.'.toUInt8] then followComponents g rounds cluster rest
    else do
      let some entry ← findInDirectory g rounds cluster component | return none
      if !entry.entry.isDirectory then return none
      if entry.entry.firstCluster < 2 then return none
      followComponents g rounds entry.entry.firstCluster rest

section Disk

variable (g : MountState) (w : World)

/-- What a call returns, `none` when it needs more rounds. -/
def outcome {α : Type} (p : Fat α) : Option α := (p.run (deviceHandler g) w).map Prod.fst

/-- The call returns `a`, from some number of rounds on. -/
def Returns {α : Type} (p : Nat → Fat α) (a : α) : Prop :=
  ∃ n₀, ∀ n, n₀ ≤ n → outcome g w (p n) = some a

/-- `resolve_path` and `resolve_parent_directory` agree on a path. Where the parent is found, the
path is found with the entry that the directory has under the last component. Where the last
component is a name and the others lead to a directory, the parent is found. -/
structure PathsAgree (path : List UInt8) : Prop where
  entry : ∀ d leaf, Returns g w (fun n => resolveParentDirectory g n path) (some (d, leaf)) →
    ∀ e, Returns g w (fun n => resolvePath g n path) (some e) ↔
      Returns g w (fun n => findInDirectory g n d leaf) (some e)
  parent : ∀ components leaf d, pathComponents path = components ++ [leaf] →
    leaf ≠ ['.'.toUInt8] →
    Returns g w (fun n => followComponents g n g.logicalRootCluster components) (some d) →
    Returns g w (fun n => resolveParentDirectory g n path) (some (d, leaf))

/-- The text in front of the last component of a path is empty, or a path that does not end in a
component `.`. `components` are those in front of the last one. -/
def HasParent (path : List UInt8) (components : List (List UInt8)) : Prop :=
  leafStart (cleanPath path) ≤ 1 ∨
    ∃ component ∈ components.getLast?, component ≠ ['.'.toUInt8]

/-- The condition on a path whose components in front of the last one lead to a directory. If the
last component is a name, it fits into the name buffer, and the text in front of it can be
resolved. If it is `.` and that text can be resolved, the directory has no entry `.`. -/
def SplitsWell (path : List UInt8) : Prop :=
  ∀ components leaf d, pathComponents (cleanPath path) = components ++ [leaf] →
    Returns g w (fun n => followComponents g n g.logicalRootCluster components) (some d) →
    (leaf ≠ ['.'.toUInt8] → HasParent path components ∧ leaf.length < 256) ∧
    (leaf = ['.'.toUInt8] → HasParent path components →
      ∀ e, ¬ Returns g w (fun n => findInDirectory g n d leaf) (some e))

end Disk

end VKernel.Fs.Fat32

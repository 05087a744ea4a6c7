import Mathlib.Order.Interval.Finset.Nat
import Mathlib.Logic.Function.Basic
import VKernel.Fs.Fat32.Walks
import VKernel.Fs.Fat32.Soundness
import VKernel.Lib.Transition

/-!
# `VKernel.Fs.Fat32.FatWords`: the copies of the FAT as words of the disk

An entry of the FAT is a word of four bytes at an address that is a multiple of four, so what
the driver does to the FAT is what it does to the words of the disk. `entryWord` is the word of
an entry in one of the copies. Nothing is asked of the geometry here: the copies may overlap
each other or the FSInfo sector, and a cluster may have no entry.

`FatLayout` is what `allocate_cluster` and `free_cluster_chain` need of it. `FatCall` is a call
of `read_fat_value` or `write_fat_value`, and `FatTable` the table that such calls stand for.
`ClusterCall` is a call of `allocate_cluster` or `free_cluster_chain`, and `CountsAgree` the
invariant of the free cluster count.
-/

set_option autoImplicit false

namespace VKernel.Fs.Fat32

open VKernel.Lib

/-! ### Words -/

/-- Four bytes of the disk. -/
def word (disk : Buffer) (n : Nat) : Nat := leValue disk (4 * n) 4

section Geometry

variable (g : MountState)

/-- The block of a sector of a copy of the FAT. -/
def copyBlock (k s : Nat) : Nat :=
  (g.partitionStartLba + g.reservedSectorCount + k * g.sectorsPerFat % 2 ^ 32 + s) % U64

/-- The word of entry `e` of FAT copy `k`. -/
def entryWord (k e : Nat) : Nat := copyBlock g k (e / 128) * 128 + e % 128

/-- The entry of a cluster. It is addressed by a `u32` byte offset. -/
def entryOf (cluster : Nat) : Nat := cluster % 2 ^ 30

/-- The FAT has the entry. -/
def HasEntry (e : Nat) : Prop := e < g.sectorsPerFat * 128

instance (e : Nat) : Decidable (HasEntry g e) := inferInstanceAs (Decidable (_ < _))

/-- `update_fsinfo` writes a sector. -/
def HasFsInfo : Prop := g.fsInfoValid = true ∧ g.fsInfoSector ≠ 0

instance : Decidable (HasFsInfo g) := inferInstanceAs (Decidable (_ ∧ _))

/-- The block of the FSInfo sector. -/
def fsInfoBlock : Nat := (g.partitionStartLba + g.fsInfoSector) % U64

/-- The copies of the FAT lie on a device of this size: the requests for them succeed. -/
structure FatOnDevice (blockCount : Nat) : Prop where
  fat : ∀ k < g.fatCount, ∀ s < g.sectorsPerFat, copyBlock g k s < blockCount
  wide : blockCount < U64

/-- The requests for the FAT and the FSInfo sector succeed on a device of this size. -/
structure RequestsSucceed (blockCount : Nat) : Prop extends FatOnDevice g blockCount where
  fsInfo : HasFsInfo g → fsInfoBlock g < blockCount

/-- `g` is what `probe_volume` has made of some disk. -/
def Probed : Prop :=
  ∃ blockCount disk writable startLba w₀, Mounts blockCount disk writable startLba g w₀

/-- Two copies of the FAT are the same sectors or have no sector in common. -/
def CopiesApart : Prop :=
  ∀ j < g.fatCount, ∀ k < g.fatCount,
    j * g.sectorsPerFat % 2 ^ 32 = k * g.sectorsPerFat % 2 ^ 32 ∨
    j * g.sectorsPerFat % 2 ^ 32 + g.sectorsPerFat ≤ k * g.sectorsPerFat % 2 ^ 32 ∨
    k * g.sectorsPerFat % 2 ^ 32 + g.sectorsPerFat ≤ j * g.sectorsPerFat % 2 ^ 32

/-- The FSInfo sector lies in no copy of the FAT. -/
def FsInfoApart : Prop :=
  HasFsInfo g → ∀ k < g.fatCount,
    g.fsInfoSector < g.reservedSectorCount + k * g.sectorsPerFat % 2 ^ 32 ∨
    g.reservedSectorCount + k * g.sectorsPerFat % 2 ^ 32 + g.sectorsPerFat ≤ g.fsInfoSector

/-- The FAT has an entry of its own for every cluster, and what is written to one copy or to
the FSInfo sector is not in another place of the FAT. -/
structure FatLayout : Prop where
  clusters : g.totalClusters ≤ 2 ^ 30
  covers : min (g.totalClusters + 2) (2 ^ 30) ≤ g.sectorsPerFat * 128
  copies : CopiesApart g
  fsInfo : FsInfoApart g

end Geometry

/-! ### Reading and writing entries -/

/-- A call of `read_fat_value` or `write_fat_value`. -/
inductive FatCall where
  | read (cluster : Nat)
  | write (cluster value : Nat)
  deriving DecidableEq, Repr

/-- The cluster that a call is about. -/
def FatCall.cluster : FatCall → Nat
  | .read cluster => cluster
  | .write cluster _ => cluster

/-- The sequence writes the cluster. -/
def Writes (calls : List FatCall) (c : Nat) : Prop := ∃ v, FatCall.write c v ∈ calls

/-- What a call returns. -/
inductive FatAnswer where
  | value (v : Option Nat)
  | written (ok : Bool)
  deriving DecidableEq, Repr

/-- One call. -/
def FatCall.run (g : MountState) : FatCall → Fat FatAnswer
  | .read cluster => do
      let v ← readFatValue g cluster
      return .value v
  | .write cluster value => do
      let ok ← writeFatValue g cluster value
      return .written ok

/-- A sequence of calls. -/
def fatCalls (g : MountState) : List FatCall → Fat (List FatAnswer)
  | [] => return []
  | call :: calls => do
      let answer ← call.run g
      let answers ← fatCalls g calls
      return answer :: answers

/-- What the FAT is for: a value of 28 bits for each cluster. -/
abbrev FatTable := Nat → Nat

/-- One call on the table. -/
def FatTable.call (t : FatTable) : FatCall → FatAnswer × FatTable
  | .read cluster => (.value (some (t cluster)), t)
  | .write cluster value => (.written true, Function.update t cluster (value % 2 ^ 28))

/-- A sequence of calls on the table. -/
def FatTable.calls : FatTable → List FatCall → List FatAnswer × FatTable
  | t, [] => ([], t)
  | t, call :: calls =>
    let (answer, t) := t.call call
    let (answers, t) := t.calls calls
    (answer :: answers, t)

/-- The table on the disk: the values of the first FAT. -/
def fatTable (g : MountState) (w : World) : FatTable :=
  fun cluster => word w.disk (entryWord g 0 (entryOf cluster)) % 2 ^ 28

/-! ### Allocating -/

/-- Some cluster of the volume has FAT value 0. -/
def HasFreeCluster (g : MountState) (w : World) : Prop :=
  ∃ c, InVolume g c ∧ fatValueOf g w c = some 0

/-- What a call of `allocate_cluster` should do when it is made in `w`, returns `result` and
leaves `w'`: it finds a free cluster when there is one, marks its entry in every copy as the end
of a chain, and keeps all other entries. -/
structure SoundAllocation (g : MountState) (w : World) (result : Option Nat) (w' : World) :
    Prop where
  isSome : result.isSome ↔ HasFreeCluster g w
  free : ∀ c, result = some c → InVolume g c ∧ fatValueOf g w c = some 0
  marked : ∀ c, result = some c → ∀ k < g.fatCount,
    word w'.disk (entryWord g k (entryOf c)) =
      mergeFatValue (word w.disk (entryWord g k (entryOf c))) FAT32_END_OF_CHAIN
  entries : ∀ k < g.fatCount, ∀ e, HasEntry g e → (∀ c, result = some c → e ≠ entryOf c) →
    word w'.disk (entryWord g k e) = word w.disk (entryWord g k e)
  values : ∀ c, InVolume g c → result ≠ some c → fatValueOf g w' c = fatValueOf g w c

/-- A call of `allocate_cluster` does what it should, and the hint that it leaves does not keep
the next call from finding a free cluster. -/
def AllocatesSoundly (g : MountState) (w : World) : Prop :=
  ∃ result w', (allocateCluster g).run (deviceHandler g) w = some (result, w') ∧
    SoundAllocation g w result w' ∧
    ∃ result' w'', (allocateCluster g).run (deviceHandler g) w' = some (result', w'') ∧
      (result'.isSome ↔ HasFreeCluster g w')

/-! ### Counting -/

/-- The number of clusters of the volume with FAT value 0. -/
def freeClusters (g : MountState) (w : World) : Nat :=
  ((Finset.Icc 2 (g.totalClusters + 1)).filter fun c => fatValueOf g w c = some 0).card

/-- The count in `mount_state` and the one in the FSInfo sector are the number of free
clusters. -/
structure CountsAgree (g : MountState) (w : World) : Prop where
  memory : w.free.freeClusterCount = freeClusters g w
  disk : HasFsInfo g → word w.disk (fsInfoBlock g * 128 + 122) = freeClusters g w

/-- The clusters that `free_cluster_chain` clears when it follows FAT values from a cluster on,
and the value at which it ends: `none` for a cluster that has no entry. It never comes to a
cluster twice. -/
inductive LinkWalk (value : Nat → Option Nat) : Nat → List Nat → Option Nat → Prop
  | unreadable {c : Nat} (hc : value c = none) : LinkWalk value c [] none
  | last {c v : Nat} (hc : value c = some v) (hv : ¬ isDataCluster v) :
    LinkWalk value c [c] (some v)
  | next {c v : Nat} {cs : List Nat} {last : Option Nat} (hc : value c = some v)
      (hv : isDataCluster v) (hrest : LinkWalk value v cs last) (hnew : c ∉ cs) :
      LinkWalk value c (c :: cs) last

/-- A call of `free_cluster_chain` counts what it frees: it is given no cluster, or it clears
clusters of the volume that are in use and comes to the end of their chain, or it comes to a
cluster without an entry and has cleared no cluster of the volume. -/
def FreesWhatItCounts (g : MountState) (w : World) (c : Nat) : Prop :=
  ¬ isDataCluster c ∨ ∃ cs last, LinkWalk (fatValueOf g w) c cs last ∧
    match last with
    | some v => v ≠ 0 ∧ ∀ x ∈ cs, InVolume g x
    | none => ∀ x ∈ cs, ¬ InVolume g x

/-- A call of `allocate_cluster` or `free_cluster_chain`. -/
inductive ClusterCall where
  | allocate
  | free (firstCluster : Nat)
  deriving DecidableEq, Repr

/-- The condition on a call. -/
def ClusterCall.Counts (g : MountState) (w : World) : ClusterCall → Prop
  | .allocate => True
  | .free c => FreesWhatItCounts g w c

/-- The calls on a mounted volume of a device of this size, from a state in which the counts
agree. The rounds of `free_cluster_chain` are as many as it needs. -/
def clusterSystem (g : MountState) (blockCount : Nat) : TransitionSystem World ClusterCall where
  init w := w.blockCount = blockCount ∧ Fresh g w ∧ CountsAgree g w
  step w call w' :=
    match call with
    | .allocate => ∃ result, (allocateCluster g).run (deviceHandler g) w = some (result, w')
    | .free c => ∃ rounds result,
        (freeClusterChain g rounds c).run (deviceHandler g) w = some (result, w')

end VKernel.Fs.Fat32

import VKernel.Fs.Fat32.Paths

/-!
# `VKernel.Fs.Fat32.FileContent`: the content of a file, and reading it in parts

A file has the bytes of the clusters that its chain goes through. `chainData` has them by offset,
`ChainCovers` says that the chain has enough of them, and `readRanges` is a sequence of
`read_file_range` calls on one descriptor, which each call gets as the one before has left it.
-/

set_option autoImplicit false

namespace VKernel.Fs.Fat32

section Disk

variable (g : MountState) (w : World)

/-- The bytes of a chain of clusters, by offset. -/
def chainData (cs : List Nat) : Buffer := fun k =>
  w.disk (clusterFirstLba g (cs.getD (k / clusterSizeBytes g) 0) * SECTOR_SIZE +
    k % clusterSizeBytes g)

/-- The chain of `first` starts with the data clusters `cs`, which have `size` bytes, all of them
in sectors of the device. -/
structure CoveredBy (first size : Nat) (cs : List Nat) : Prop where
  head : cs.head? = some first
  link : ∀ i, i + 1 < cs.length → fatValueOf g w (cs.getD i 0) = some (cs.getD (i + 1) 0)
  data : ∀ c ∈ cs, isDataCluster c
  enough : size ≤ cs.length * clusterSizeBytes g
  stored : ∀ k < size, clusterFirstLba g (cs.getD (k / clusterSizeBytes g) 0) +
    k % clusterSizeBytes g / SECTOR_SIZE < w.blockCount

/-- The chain of a file covers its size. -/
def ChainCovers (first size : Nat) : Prop := size = 0 ∨ ∃ cs, CoveredBy g w first size cs

end Disk

/-- Calls of `read_file_range` on a descriptor, each with an offset and a size. -/
def readRanges (g : MountState) : FileDescriptor → List (Nat × Nat) →
    Fat (List (Option (List UInt8)))
  | _, [] => return []
  | file, (offset, size) :: calls => do
      let (bytes, file) ← readFileRange g file offset size
      let rest ← readRanges g file calls
      return bytes :: rest

end VKernel.Fs.Fat32

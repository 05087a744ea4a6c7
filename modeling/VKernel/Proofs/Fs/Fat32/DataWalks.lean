import VKernel.Proofs.Fs.Fat32.FreeChain
import VKernel.Proofs.Fs.Streams

/-!
# `VKernel.Proofs.Fs.Fat32.DataWalks`: the loops over the data of a file

These loops follow chains too, but each round moves at least one byte of a content of fixed
size. So they end in every environment; only what a write frees again, after it has failed, is
a chain of the disk.
-/

set_option autoImplicit false

namespace VKernel.Proofs.Fs

open VKernel.Lib VKernel.Fs VKernel.Fs.Fat32

variable {g : MountState} {w : World}

/-! ### Writing -/

/-- Writing the sectors of a cluster moves on, if there is a sector. -/
theorem always_writeDataSectors (hbytes : g.bytesPerSector = 512) (data : List UInt8)
    (c sectors written : Nat) :
    (writeDataSectors g data c sectors written).Always fun result => ∀ written',
      result = some written' → written ≤ written' ∧
        (0 < sectors → written < data.length → written < written') := by
  induction sectors generalizing written with
  | zero =>
    intro written' h
    cases h
    exact ⟨Nat.le_refl _, fun h => absurd h (Nat.lt_irrefl 0)⟩
  | succ sectors ih =>
    refine .bind (Program.always_any _) fun stored _ => ?_
    cases stored with
    | false => exact fun _ h => by cases h
    | true =>
      refine (ih (written + min (data.length - written) g.bytesPerSector)).mono ?_
      intro result h written' hresult
      have hrest := h written' hresult
      exact ⟨by omega, fun _ hlt => by omega⟩

section Writes

variable (hbytes : g.bytesPerSector = 512) (hspc : 0 < g.sectorsPerCluster)
  (hcopies : 0 < g.fatCount)

include hbytes hspc hcopies

/-- The end of a round, once the cluster is linked to the chain. -/
theorem linkedRound_settles (data : List UInt8) {w : World} (hwide : w.blockCount < U64)
    (first cluster turns : Nat) {written : Nat} (hwritten : written < data.length)
    (hrest : ∀ written' w', w'.blockCount < U64 → written < written' →
      Terminates g w' fun n => writeDataClusters g n data turns first cluster written')
    (linked : Bool) :
    Terminates g w fun n => (do
      if !linked then
        let _ ← freeClusterChain g n first
        return none
      let some written ← writeDataSectors g data cluster g.sectorsPerCluster written
        | let _ ← freeClusterChain g n first
          return none
      writeDataClusters g n data turns first cluster written) := by
  cases linked with
  | false => exact freed_settles hbytes hcopies hwide first none
  | true =>
    refine Program.Settles.bind (Program.settles_of_wp (Program.wp_mono (wp_blockCount
      ((always_writeDataSectors hbytes data cluster g.sectorsPerCluster written).wp w)) ?_))
    rintro result w' ⟨hresult, hcount⟩
    cases result with
    | none => exact freed_settles hbytes hcopies (hcount ▸ hwide) first none
    | some written' =>
      exact hrest written' w' (hcount ▸ hwide) ((hresult written' rfl).2 hspc hwritten)

/-- Writing a file ends. By induction on the bytes that are left. -/
theorem writeDataClusters_settles (hcounter : CounterPasses g) (data : List UInt8) (turns : Nat)
    {w : World} (hwide : w.blockCount < U64) (first previous written : Nat)
    (hturns : data.length - written < turns) :
    Terminates g w fun n => writeDataClusters g n data turns first previous written := by
  induction turns generalizing w first previous written with
  | zero => omega
  | succ turns ih =>
    simp only [writeDataClusters]
    by_cases hdone : written ≥ data.length
    · simp only [if_pos hdone]
      exact Program.settles_of_wp trivial
    simp only [if_neg hdone]
    refine Program.Settles.bind (Program.settles_of_wp (Program.wp_mono
      (wp_blockCount ((always_allocateCluster hcounter).wp w)) ?_))
    rintro cluster w₁ ⟨-, hcount₁⟩
    have hwide₁ : w₁.blockCount < U64 := hcount₁ ▸ hwide
    cases cluster with
    | none =>
      dsimp only
      split
      · exact freed_settles hbytes hcopies hwide₁ first none
      · exact Program.settles_of_wp trivial
    | some cluster =>
      have hround := fun (linked : Bool) (w₂ : World) (hwide₂ : w₂.blockCount < U64) =>
        linkedRound_settles hbytes hspc hcopies data hwide₂ (if first = 0 then cluster else first)
          cluster turns (Nat.lt_of_not_ge hdone)
          (fun written' w' hwide' hlt => ih hwide' _ cluster written' (by omega)) linked
      dsimp only
      split
      · refine Program.Settles.bind (Program.settles_of_wp (Program.wp_mono
          (wp_blockCount ((always_writeFatValue previous cluster).wp w₁)) ?_))
        rintro linked w₂ ⟨-, hcount₂⟩
        exact hround linked w₂ (hcount₂ ▸ hwide₁)
      · exact hround true w₁ hwide₁

/-- `write_file_data` ends on any disk when `allocate_cluster` does. -/
theorem writeFileData_settles (hcounter : CounterPasses g) {w : World}
    (hwide : w.blockCount < U64) (data : List UInt8) :
    Terminates g w fun n => writeFileData g n data := by
  unfold writeFileData
  split
  · exact Program.settles_of_wp trivial
  · exact writeDataClusters_settles hbytes hspc hcopies hcounter data _ hwide 0 0 0 (by omega)

end Writes

/-! ### Reading -/

/-- A run of clusters does not get shorter. -/
theorem always_collectRunLoop (left : Nat) (run : ClusterRun) :
    (collectRunLoop g left run).Always fun result => ∀ run', result = some run' →
      run.clusterCount ≤ run'.clusterCount := by
  induction left generalizing run with
  | zero =>
    intro run' h
    cases h
    exact Nat.le_refl _
  | succ left ih =>
    refine .bind (always_readFatValue _) fun candidate _ => ?_
    cases candidate with
    | none => exact fun _ h => by cases h
    | some candidate =>
      dsimp only
      split
      · intro run' h
        cases h
        exact Nat.le_refl _
      · refine (ih _).mono fun result h run' hrun' => ?_
        exact Nat.le_of_succ_le (h run' hrun')

/-- A run has a cluster. -/
theorem always_collectClusterRun (first count : Nat) :
    (collectClusterRun g first count).Always fun result => ∀ run, result = some run →
      0 < run.clusterCount := by
  unfold collectClusterRun
  split
  · exact fun _ h => by cases h
  · exact (always_collectRunLoop _ _).mono fun result h run hrun => h run hrun

/-- The end of `read_cluster_bytes`, behind the whole sectors. -/
theorem always_readTail {lba size : Nat} {head whole : List UInt8}
    (hlength : head.length + whole.length ≤ size) :
    Program.Always (show Fat (Option (List UInt8)) from do
      if size - head.length - whole.length > 0 then
        let some sector ← readSectors lba 1 | return none
        return some (head ++ whole ++ sector.bytes 0 (size - head.length - whole.length))
      return some (head ++ whole))
      fun result => ∀ bytes, result = some bytes → bytes.length = size := by
  split
  · refine .bind (Program.always_any _) fun sector _ => ?_
    cases sector with
    | none => exact fun _ h => by cases h
    | some sector =>
      intro bytes h
      cases h
      rw [List.length_append, List.length_append, length_bytes]
      omega
  · intro bytes h
    cases h
    rw [List.length_append]
    omega

/-- The end of `read_cluster_bytes`, behind the first part of a sector. -/
theorem always_readWhole (hbytes : g.bytesPerSector = 512) {lba size : Nat} {head : List UInt8}
    (hlength : head.length ≤ size) {k : Option (List UInt8) → Fat (Option (List UInt8))}
    (hk : ∀ whole, head.length + whole.length ≤ size → (k (some whole)).Always fun result =>
      ∀ bytes, result = some bytes → bytes.length = size)
    (hnone : k none = pure none) :
    Program.Always (show Fat (Option (List UInt8)) from
      if (size - head.length) / g.bytesPerSector > 0 then do
        let sectors ← readSectors lba ((size - head.length) / g.bytesPerSector % 2 ^ 32)
        let whole ← pure (sectors.map fun sectors =>
          sectors.bytes 0 ((size - head.length) / g.bytesPerSector * g.bytesPerSector))
        k whole
      else do
        let whole ← pure (some [])
        k whole)
      fun result => ∀ bytes, result = some bytes → bytes.length = size := by
  split
  · refine .bind (Program.always_any _) fun sectors _ => ?_
    cases sectors with
    | none =>
      show (k none).Always _
      rw [hnone]
      exact fun _ h => by cases h
    | some sectors =>
      apply hk
      rw [length_bytes, hbytes]
      omega
  · apply hk
    rw [List.length_nil]
    omega

/-- The part of a cluster that `read_cluster_bytes` returns has the size that was asked for. -/
theorem always_readClusterBytes (hbytes : g.bytesPerSector = 512) (c offset size : Nat) :
    (readClusterBytes g c offset size).Always fun result => ∀ bytes, result = some bytes →
      bytes.length = size := by
  unfold readClusterBytes
  split
  · intro bytes h
    cases h
    rename_i hzero
    exact hzero.symm
  split
  · exact fun _ h => by cases h
  split
  · exact fun _ h => by cases h
  dsimp only
  split
  · refine .bind (Program.always_any _) fun sector _ => ?_
    cases sector with
    | none => exact fun _ h => by cases h
    | some sector =>
      refine always_readWhole hbytes ?_ (fun whole h => always_readTail h) rfl
      rw [length_bytes]
      exact Nat.min_le_right _ _
  · exact always_readWhole hbytes (Nat.zero_le _) (fun whole h => always_readTail h) rfl

/-- Reading a file ends, by the bytes that are left. -/
theorem always_readDataLoop (hbytes : g.bytesPerSector = 512) (hsize : 0 < clusterSizeBytes g)
    (size turns c : Nat) {out : List UInt8} (hturns : size - out.length < turns) :
    (readDataLoop g size turns c out).Always fun _ => True := by
  induction turns generalizing c out with
  | zero => omega
  | succ turns ih =>
    simp only [readDataLoop]
    split
    · exact trivial
    rename_i hmore
    split
    · refine .bind (always_collectClusterRun _ _) fun run hrun => ?_
      cases run with
      | none => exact trivial
      | some run =>
        refine .bind (Program.always_any _) fun sectors _ => ?_
        cases sectors with
        | none => exact trivial
        | some sectors =>
          -- The run has at least one cluster, so there is less to read now.
          have hgrown : 0 < run.clusterCount * clusterSizeBytes g :=
            Nat.mul_pos (hrun run rfl) hsize
          have hless : size - (out ++ sectors.bytes 0
              (run.clusterCount * clusterSizeBytes g)).length < turns := by
            rw [List.length_append, length_bytes]
            omega
          dsimp only
          split
          · exact trivial
          split
          · refine Program.Always.bind (Q := fun _ => True) trivial fun next _ => ?_
            cases next with
            | none => exact trivial
            | some next =>
              dsimp only
              split
              · exact trivial
              · exact ih next hless
          · refine .bind (always_readFatValue _) fun next _ => ?_
            cases next with
            | none => exact trivial
            | some next =>
              dsimp only
              split
              · exact trivial
              · exact ih next hless
    · refine .bind (always_readClusterBytes hbytes _ _ _) fun tail _ => ?_
      cases tail with
      | none => exact trivial
      | some tail => exact trivial

/-- `read_file_data` needs no fuel. -/
theorem always_readFileData (hbytes : g.bytesPerSector = 512) (hsize : 0 < clusterSizeBytes g)
    (heap : Bool) (e : FatEntry) : (readFileData g heap e).Always fun _ => True := by
  unfold readFileData
  split
  · exact trivial
  split
  · exact trivial
  split
  · exact trivial
  · exact always_readDataLoop hbytes hsize _ _ _ (by rw [List.length_nil]; omega)

/-! ### Reading a part -/

/-- Following a chain for a number of steps needs none. -/
theorem always_followChain (steps c : Nat) : (followChain g steps c).Always fun _ => True := by
  induction steps generalizing c with
  | zero => exact trivial
  | succ steps ih =>
    refine .bind (always_readFatValue c) fun next _ => ?_
    cases next with
    | none => exact trivial
    | some next =>
      dsimp only
      split
      · exact trivial
      · exact ih next

/-- Nor does finding the cluster of an offset. -/
theorem always_clusterForFileOffset (file : FileDescriptor) (index : Nat) :
    (clusterForFileOffset g file index).Always fun _ => True := by
  unfold clusterForFileOffset
  split
  · exact trivial
  refine .bind (always_followChain _ _) fun cluster _ => ?_
  cases cluster with
  | none => exact trivial
  | some cluster => exact trivial

/-- Reading a range ends, by the bytes that are left. -/
theorem always_readRangeLoop (hbytes : g.bytesPerSector = 512) (hsize : 0 < clusterSizeBytes g)
    (offset remaining turns : Nat) (file : FileDescriptor) {out : List UInt8}
    (hturns : remaining - out.length < turns) :
    (readRangeLoop g offset remaining turns file out).Always fun _ => True := by
  induction turns generalizing file out with
  | zero => omega
  | succ turns ih =>
    simp only [readRangeLoop]
    split
    · exact trivial
    rename_i hmore
    refine .bind (always_clusterForFileOffset file _) fun found _ => ?_
    match found with
    | none => exact trivial
    | some (cluster, file') =>
      dsimp only
      split
      · refine .bind (always_collectClusterRun _ _) fun run hrun => ?_
        cases run with
        | none => exact trivial
        | some run =>
          refine .bind (Program.always_any _) fun sectors _ => ?_
          cases sectors with
          | none => exact trivial
          | some sectors =>
            have hgrown : 0 < run.clusterCount * clusterSizeBytes g :=
              Nat.mul_pos (hrun run rfl) hsize
            apply ih
            rw [List.length_append, length_bytes]
            omega
      · refine .bind (always_readClusterBytes hbytes _ _ _) fun bytes hlength => ?_
        cases bytes with
        | none => exact trivial
        | some bytes =>
          have hoffset : (offset + out.length) % clusterSizeBytes g < clusterSizeBytes g :=
            Nat.mod_lt _ hsize
          have hbytes' := hlength bytes rfl
          apply ih
          rw [List.length_append]
          omega

/-- `read_file_range` ends on any disk, for any descriptor. -/
theorem always_readFileRange (hbytes : g.bytesPerSector = 512) (hsize : 0 < clusterSizeBytes g)
    (file : FileDescriptor) (offset size : Nat) :
    (readFileRange g file offset size).Always fun _ => True := by
  unfold readFileRange
  split
  · exact trivial
  split
  · exact trivial
  · exact always_readRangeLoop hbytes hsize _ _ _ _ (by rw [List.length_nil]; omega)

end VKernel.Proofs.Fs

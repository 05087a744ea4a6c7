import VKernel.Fs.Appends
import VKernel.Fs.Sessions

/-!
# `VKernel.Fs.Descriptors`: the file calls of the system call interface

`VK_SYS_OPEN` turns its flags into a mode string of `file_open`, and the other calls look a
descriptor up in the table of streams: descriptor `n` is the stream in slot `n - 3`. The calls
that change a file are `VK_SYS_WRITE`, `VK_SYS_PWRITE` and `VK_SYS_CLOSE`, which hands the whole
stream to the driver.

`FileTable.extents` lists the offsets that the writes of a run go to. `KeepsUncovered` says that
the other bytes of a file are as before.
-/

set_option autoImplicit false

namespace VKernel.Fs

/-! ### Flags -/

def VK_O_WRONLY : BitVec 32 := 1
def VK_O_RDWR : BitVec 32 := 2
def VK_O_ACCMODE : BitVec 32 := 3
def VK_O_CREAT : BitVec 32 := 64
def VK_O_TRUNC : BitVec 32 := 512
def VK_O_APPEND : BitVec 32 := 1024

def VK_ERR_NOENT : Int := 2
def VK_ERR_BADF : Int := 9
def VK_ERR_FAULT : Int := 14
def VK_ERR_INVAL : Int := 22
def VK_ERR_SPIPE : Int := 29

/-- The mode string of `VK_SYS_OPEN`. `fileExists` is what `fs::file_exists` answers. -/
def openModeString (flags : BitVec 32) (fileExists : Bool) : List Char :=
  let accmode := flags &&& VK_O_ACCMODE
  let wantsCreate := flags &&& VK_O_CREAT ≠ 0
  let wantsTruncate := flags &&& VK_O_TRUNC ≠ 0
  let wantsAppend := flags &&& VK_O_APPEND ≠ 0
  if wantsAppend then if accmode = VK_O_RDWR then ['a', '+'] else ['a']
  else if wantsTruncate then if accmode = VK_O_RDWR then ['w', '+'] else ['w']
  else if wantsCreate ∧ accmode = VK_O_RDWR then if fileExists then ['r', '+'] else ['w', '+']
  else if accmode = VK_O_WRONLY then if wantsCreate then ['w'] else ['w']
  else if accmode = VK_O_RDWR then if wantsCreate ∧ ¬ fileExists then ['w', '+'] else ['r', '+']
  else ['r']

/-- Flags under which a file is not opened for writing only, or only for writes at its end. -/
def KeepsContent (flags : BitVec 32) : Prop :=
  flags &&& VK_O_APPEND ≠ 0 ∨ flags &&& VK_O_ACCMODE ≠ VK_O_WRONLY

instance (flags : BitVec 32) : Decidable (KeepsContent flags) :=
  inferInstanceAs (Decidable (_ ∨ _))

/-! ### Calls on a stream -/

/-- The driver with its `file_exists` entry. -/
structure FileDriver (σ δ : Type) extends FilesystemDriver σ δ where
  fileExists : σ → List UInt8 → Bool

/-- The buffer and count that a process passes to a write. -/
inductive UserBuffer where
  | null (count : Nat)
  | bytes (data : List UInt8)
  deriving DecidableEq, Repr

/-- A null pointer for a count that is not 0. -/
def UserBuffer.faults : UserBuffer → Bool
  | .null count => count > 0
  | .bytes _ => false

/-- A call on a descriptor. -/
inductive FdCall where
  | write (buf : UserBuffer)
  | pwrite (buf : UserBuffer) (offset : Int)
  | lseek (offset whence : Int)
  deriving DecidableEq, Repr

/-- The arguments are values of their types. -/
def FdCall.Typed : FdCall → Prop
  | .write (.bytes data) => data.length < U64
  | .pwrite (.bytes data) _ => data.length < U64
  | _ => True

section Calls

variable {σ δ : Type}

/-- `fs::file_exists`. -/
def FileDriver.exists_ (driver : FileDriver σ δ) (backend : σ) (path : List UInt8) : Bool :=
  driver.isMounted backend && driver.fileExists backend (normalizePath path)

/-- `fs::file_write` on the buffer of a process. A null buffer writes nothing. -/
def KernelStream.writeBuffer (s : KernelStream δ) (heap : Heap) :
    UserBuffer → Option (Nat × KernelStream δ)
  | .null _ => some (0, s)
  | .bytes data => (s.write data heap).map fun ((count, _), s) => (count, s)

/-- The part of `VK_SYS_PWRITE` after the stream has been found: the position is put back after
the write. -/
def KernelStream.pwrite (s : KernelStream δ) (buf : UserBuffer) (offset : Int) (heap : Heap) :
    Option (Int × KernelStream δ) :=
  let original := s.tell
  if original < 0 then some (-VK_ERR_INVAL, s)
  else
    let (status, s) := s.seek offset 0
    if status ≠ 0 then some (-VK_ERR_INVAL, s)
    else (s.writeBuffer heap buf).map fun (count, s) => (count, (s.seek original 0).2)

/-- The part of `VK_SYS_LSEEK` after the stream has been found. -/
def KernelStream.lseek (s : KernelStream δ) (offset whence : Int) : Int × KernelStream δ :=
  let (status, s) := s.seek offset whence
  if status ≠ 0 then (-VK_ERR_INVAL, s) else (s.tell, s)

end Calls

/-! ### Calls on a descriptor -/

/-- The backend and `s_streams`. -/
structure FileTable (σ δ : Type) where
  backend : σ
  streams : Nat → KernelStream δ

namespace FileTable

variable {σ δ : Type}

/-- The slot that `file_open` takes. -/
def freeSlot (t : FileTable σ δ) : Option Nat :=
  (List.range MAX_STREAMS).find? fun i => !(t.streams i).inUse

/-- The table with another stream in slot `i`. -/
def setStream (t : FileTable σ δ) (i : Nat) (stream : KernelStream δ) : FileTable σ δ :=
  { t with streams := Function.update t.streams i stream }

/-- `fd_to_handle` and `handle_from_id`: the slot of an open stream. -/
def slotOf (t : FileTable σ δ) (fd : Int) : Option Nat :=
  let i := (fd - 3).toNat
  if 2 < fd ∧ i < MAX_STREAMS ∧ (t.streams i).inUse then some i else none

/-- `VK_SYS_OPEN`. `granted` is the answer of the heap to the buffer that `read_file` asks for. A
stream that cannot be opened leaves its slot free. -/
def sysOpen (driver : FileDriver σ δ) (t : FileTable σ δ) (path : List UInt8)
    (flags : BitVec 32) (granted : Bool) : Int × FileTable σ δ :=
  let mode := openModeString flags (driver.exists_ t.backend path)
  match t.freeSlot with
  | none => (-VK_ERR_NOENT, t)
  | some i =>
    match openStream (driver.withBuffer granted) t.backend path mode with
    | none => (-VK_ERR_NOENT, t)
    | some stream => ((i + 1 : Nat) + 2, t.setStream i stream)

/-- `VK_SYS_WRITE`. What goes to descriptors 1 and 2 is shown on the console. -/
def sysWrite (t : FileTable σ δ) (fd : Int) (heap : Heap) :
    UserBuffer → Option (Int × FileTable σ δ)
  | .null count => some (if (UserBuffer.null count).faults then -VK_ERR_FAULT else 0, t)
  | .bytes data =>
    if data = [] then some (0, t)
    else if fd = 1 ∨ fd = 2 then some (data.length, t)
    else if fd ≤ 2 then some (-VK_ERR_BADF, t)
    else
      match t.slotOf fd with
      | none => some (0, t)
      | some i =>
        ((t.streams i).writeBuffer heap (.bytes data)).map fun (count, s) =>
          ((count : Int), t.setStream i s)

/-- `VK_SYS_PWRITE`. -/
def sysPwrite (t : FileTable σ δ) (fd : Int) (buf : UserBuffer) (offset : Int) (heap : Heap) :
    Option (Int × FileTable σ δ) :=
  if buf.faults then some (-VK_ERR_FAULT, t)
  else if fd ≤ 2 then some (-VK_ERR_BADF, t)
  else
    match t.slotOf fd with
    | none => some (-VK_ERR_INVAL, t)
    | some i => ((t.streams i).pwrite buf offset heap).map fun (result, s) =>
      (result, t.setStream i s)

/-- `VK_SYS_LSEEK`. -/
def sysLseek (t : FileTable σ δ) (fd offset whence : Int) : Int × FileTable σ δ :=
  if 0 ≤ fd ∧ fd ≤ 2 then (-VK_ERR_SPIPE, t)
  else if fd ≤ 2 then (-VK_ERR_BADF, t)
  else
    match t.slotOf fd with
    | none => (-VK_ERR_INVAL, t)
    | some i =>
      let (result, s) := (t.streams i).lseek offset whence
      (result, t.setStream i s)

/-- `VK_SYS_CLOSE`. -/
def sysClose (driver : FileDriver σ δ) (t : FileTable σ δ) (fd : Int) : Int × FileTable σ δ :=
  if 0 ≤ fd ∧ fd ≤ 2 then (0, t)
  else
    match t.slotOf fd with
    | none => (-VK_ERR_BADF, t)
    | some i =>
      let (status, backend, s) := (t.streams i).close driver.toFilesystemDriver t.backend
      (if status = 0 then 0 else -VK_ERR_BADF, { t.setStream i s with backend := backend })

/-- One call on a descriptor. `none` is a fault. -/
def call (t : FileTable σ δ) (fd : Int) (heap : Heap) : FdCall → Option (Int × FileTable σ δ)
  | .write buf => t.sysWrite fd heap buf
  | .pwrite buf offset => t.sysPwrite fd buf offset heap
  | .lseek offset whence => some (t.sysLseek fd offset whence)

/-- A run of calls on a descriptor, each with its own answers of the heap. -/
def run (t : FileTable σ δ) (fd : Int) : List (FdCall × Heap) → Option (List Int × FileTable σ δ)
  | [] => some ([], t)
  | (call, heap) :: calls => do
      let (result, t) ← t.call fd heap call
      let (results, t) ← t.run fd calls
      return (result :: results, t)

end FileTable

/-! ### Where the writes go -/

/-- The offsets that a write sets. A write that fails covers nothing, but it can have filled the
hole up to `stop` before. -/
structure WriteExtent where
  start : Nat
  stop : Nat
  through : Bool
  deriving DecidableEq, Repr

/-- The write has set the byte at offset `i`. -/
def WriteExtent.Covers (e : WriteExtent) (i : Nat) : Prop :=
  e.through = true ∧ e.start ≤ i ∧ i < e.stop

instance (e : WriteExtent) (i : Nat) : Decidable (e.Covers i) :=
  inferInstanceAs (Decidable (_ ∧ _))

/-- The end of the furthest write. -/
def furthest (extents : List WriteExtent) : Nat := (extents.map WriteExtent.stop).foldr max 0

section Extents

variable {σ δ : Type}

/-- The offsets of a `file_write`. -/
def KernelStream.extents (s : KernelStream δ) (heap : Heap) : UserBuffer → List WriteExtent
  | .null _ => []
  | .bytes data =>
    if ¬ s.writable then []
    else if (s.endCapacity data.length heap).isSome then
      [⟨s.writePosition, s.writePosition + data.length, true⟩]
    else [⟨s.writePosition, s.holeEnd heap (.write data), false⟩]

/-- The offsets of one call, on the stream that its descriptor names. -/
def KernelStream.fdExtents (s : KernelStream δ) (heap : Heap) : FdCall → List WriteExtent
  | .write buf => if buf = .bytes [] then [] else s.extents heap buf
  | .pwrite buf offset =>
    if buf.faults ∨ s.tell < 0 ∨ (s.seek offset 0).1 ≠ 0 then []
    else (s.seek offset 0).2.extents heap buf
  | .lseek _ _ => []

/-- The offsets of the writes of a run. -/
def FileTable.extents (t : FileTable σ δ) (fd : Int) : List (FdCall × Heap) → List WriteExtent
  | [] => []
  | (call, heap) :: calls =>
    let here := ((t.slotOf fd).map fun i => (t.streams i).fdExtents heap call).getD []
    match t.call fd heap call with
    | none => here
    | some (_, t) => here ++ t.extents fd calls

end Extents

/-- The bytes of a file that no write covers are as before. -/
def KeepsUncovered (before after : List UInt8) (extents : List WriteExtent) : Prop :=
  ∀ i < before.length, (∀ e ∈ extents, ¬ e.Covers i) → after[i]? = before[i]?

end VKernel.Fs

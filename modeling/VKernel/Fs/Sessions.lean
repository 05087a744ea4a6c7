import VKernel.Fs.Streams

/-!
# `VKernel.Fs.Sessions`: sessions on a stream, and the file they stand for

A session is a sequence of `file_read`, `file_write`, `file_seek`, `file_tell` and
`file_truncate` calls on one open stream. `KernelStream.session` runs it on the stream of
`fs.cpp`, each call with its own answers of the heap. `AbstractFile` is what a stream is
for: a byte sequence with a position, where a write behind the end leaves a hole of zeros.
-/

set_option autoImplicit false

namespace VKernel.Fs

/-- A call on an open stream. -/
inductive Call where
  | read (bufSize : Nat)
  | write (data : List UInt8)
  | seek (offset whence : Int)
  | tell
  | truncate (length : Int)
  deriving DecidableEq, Repr

/-- What a call returns: the bytes of a read with their count, the count of a write, or the
status or offset of the other calls. -/
inductive Answer where
  | bytes (count : Nat) (bytes : List UInt8)
  | count (n : Nat)
  | value (v : Int)
  deriving DecidableEq, Repr

/-- The calls that set the content: every write, and every truncation to a valid length. -/
def Call.modifies : Call → Bool
  | .write _ => true
  | .truncate length => 0 ≤ length
  | _ => false

section Sessions

variable {σ δ : Type}

/-- One call. `none` is a fault. -/
def KernelStream.call (driver : FilesystemDriver σ δ) (backend : σ) (s : KernelStream δ)
    (heap : Heap) : Call → Option (Answer × KernelStream δ)
  | .read bufSize =>
    let ((count, bytes), s) := s.read driver backend bufSize
    some (.bytes count bytes, s)
  | .write data => (s.write data heap).map fun ((count, _), s) => (.count count, s)
  | .seek offset whence =>
    let (status, s) := s.seek offset whence
    some (.value status, s)
  | .tell => some (.value s.tell, s)
  | .truncate length => (s.truncate length heap).map fun (status, s) => (.value status, s)

/-- A session: the answers of its calls, and the stream after it. -/
def KernelStream.session (driver : FilesystemDriver σ δ) (backend : σ) :
    KernelStream δ → List (Call × Heap) → Option (List Answer × KernelStream δ)
  | s, [] => some ([], s)
  | s, (call, heap) :: calls => do
      let (answer, s) ← s.call driver backend heap call
      let (answers, s) ← s.session driver backend calls
      return (answer :: answers, s)

/-- Some call of the session meets `P` in the state before it. -/
def KernelStream.Along (driver : FilesystemDriver σ δ) (backend : σ)
    (P : KernelStream δ → Heap → Call → Prop) :
    KernelStream δ → List (Call × Heap) → Prop
  | _, [] => False
  | s, (call, heap) :: calls =>
    P s heap call ∨
      ∃ answer t, s.call driver backend heap call = some (answer, t) ∧
        KernelStream.Along driver backend P t calls

/-! ### What a call asks of the heap -/

/-- The capacity that `ensure_capacity` leaves, or `none` when the heap refuses. -/
def grownCapacity (capacity required : Nat) (heap : Heap) : Option Nat :=
  if required ≤ capacity then some capacity
  else
    let newCapacity := growCapacity required 64 (if capacity > 0 then capacity else 256)
    (heap newCapacity).map fun _ => newCapacity

/-- Where a write goes. -/
def KernelStream.writePosition (s : KernelStream δ) : Nat :=
  if s.append then s.size else s.position

/-- The capacity after the growth up to the position of a write, which is asked for only
when the position is behind the end. -/
def KernelStream.holeCapacity (s : KernelStream δ) (heap : Heap) : Option Nat :=
  if s.writePosition > s.size then grownCapacity s.capacity s.writePosition heap
  else some s.capacity

/-- The capacity after the growth up to the end of a write, which comes after the growth for
the hole. -/
def KernelStream.endCapacity (s : KernelStream δ) (length : Nat) (heap : Heap) : Option Nat :=
  (s.holeCapacity heap).bind fun capacity =>
    if s.writePosition + length < U64 then
      grownCapacity capacity (s.writePosition + length) heap
    else none

/-- The heap grants the growth that the call asks for. -/
def KernelStream.Granted (s : KernelStream δ) (heap : Heap) : Call → Prop
  | .write data => (s.endCapacity data.length heap).isSome
  | .truncate length =>
    s.size < length.toNat → (grownCapacity s.capacity length.toNat heap).isSome
  | _ => True

/-- The call sets the content and gets through. -/
def KernelStream.GetsThrough (s : KernelStream δ) (heap : Heap) (call : Call) : Prop :=
  call.modifies = true ∧ s.Granted heap call

/-- The end of the hole that a write fills before it fails, and 0 for every other call. -/
def KernelStream.holeEnd (s : KernelStream δ) (heap : Heap) : Call → Nat
  | .write data =>
    if (s.holeCapacity heap).isSome ∧ (s.endCapacity data.length heap).isNone then
      s.writePosition
    else 0
  | _ => 0

/-- The end of the furthest hole that a failed write of the session has filled. -/
def KernelStream.holesEnd (driver : FilesystemDriver σ δ) (backend : σ) :
    KernelStream δ → List (Call × Heap) → Nat
  | _, [] => 0
  | s, (call, heap) :: calls =>
    match s.call driver backend heap call with
    | none => 0
    | some (_, t) => max (s.holeEnd heap call) (t.holesEnd driver backend calls)

end Sessions

/-- The arguments are values of their types: a count is a `usize`, an offset an `i64`. -/
def Call.Typed : Call → Prop
  | .write data => data.length < U64
  | .seek offset _ => -2 ^ 63 ≤ offset ∧ offset < 2 ^ 63
  | .truncate length => -2 ^ 63 ≤ length ∧ length < 2 ^ 63
  | _ => True

/-! ### The abstract file -/

/-- A file as its user sees it. `readable` and `append` are the modes it was opened with. -/
structure AbstractFile where
  content : List UInt8
  position : Nat
  readable : Bool
  append : Bool
  deriving DecidableEq, Repr

/-- `content` with zeros up to `length`. -/
def padTo (content : List UInt8) (length : Nat) : List UInt8 :=
  content ++ List.replicate (length - content.length) 0

/-- `content` with `data` from `position` on, over what is there and over the end. -/
def overlay (content : List UInt8) (position : Nat) (data : List UInt8) : List UInt8 :=
  let padded := padTo content position
  padded.take position ++ data ++ padded.drop (position + data.length)

namespace AbstractFile

/-- A read returns the bytes at the position, as many as there are and were asked for, and
moves behind them. -/
def read (f : AbstractFile) (bufSize : Nat) : List UInt8 × AbstractFile :=
  if f.readable then
    let bytes := (f.content.drop f.position).take bufSize
    (bytes, { f with position := f.position + bytes.length })
  else ([], f)

/-- Where a write goes. -/
def writePosition (f : AbstractFile) : Nat := if f.append then f.content.length else f.position

/-- A write overwrites or extends at the position, in append mode at the end. -/
def write (f : AbstractFile) (data : List UInt8) : AbstractFile :=
  { f with
    content := overlay f.content f.writePosition data
    position := f.writePosition + data.length }

/-- The position a seek counts from. -/
def seekBase (f : AbstractFile) (whence : Int) : Option Int :=
  if whence = 0 then some 0
  else if whence = 1 then some f.position
  else if whence = 2 then some f.content.length
  else none

/-- A seek to a position that is not negative moves there; others are refused. -/
def seek (f : AbstractFile) (offset whence : Int) : Int × AbstractFile :=
  match f.seekBase whence with
  | none => (-1, f)
  | some base =>
    if base + offset < 0 then (-1, f)
    else (0, { f with position := (base + offset).toNat })

/-- A truncation cuts the content or extends it with zeros, and clamps the position. -/
def truncate (f : AbstractFile) (length : Int) : Int × AbstractFile :=
  if length < 0 then (-1, f)
  else
    (0, { f with
      content := padTo (f.content.take length.toNat) length.toNat
      position := min f.position length.toNat })

/-- One call. -/
def call (f : AbstractFile) : Call → Answer × AbstractFile
  | .read bufSize =>
    let (bytes, f) := f.read bufSize
    (.bytes bytes.length bytes, f)
  | .write data => (.count data.length, f.write data)
  | .seek offset whence =>
    let (status, f) := f.seek offset whence
    (.value status, f)
  | .tell => (.value f.position, f)
  | .truncate length =>
    let (status, f) := f.truncate length
    (.value status, f)

/-- A session. -/
def session : AbstractFile → List Call → List Answer × AbstractFile
  | f, [] => ([], f)
  | f, call :: calls =>
    let (answer, f) := f.call call
    let (answers, f) := f.session calls
    (answer :: answers, f)

/-- No call of the session takes the position above `2 ^ 63 - 1`. -/
def PositionsFit : AbstractFile → List Call → Prop
  | f, [] => f.position < 2 ^ 63
  | f, call :: calls => f.position < 2 ^ 63 ∧ PositionsFit (f.call call).2 calls

instance decidablePositionsFit : ∀ f calls, Decidable (PositionsFit f calls)
  | _, [] => inferInstanceAs (Decidable (_ < _))
  | f, call :: calls =>
    have := decidablePositionsFit (f.call call).2 calls
    inferInstanceAs (Decidable (_ ∧ _))

end AbstractFile

/-- The file that a stream opened with `mode` starts from: `found` is what `read_file`
returned. -/
def AbstractFile.opened (mode : OpenMode) (found : Option (List UInt8)) : AbstractFile :=
  let content := if mode.truncate then [] else found.getD []
  { content := content, position := if mode.append then content.length else 0,
    readable := mode.readable, append := mode.append }

end VKernel.Fs

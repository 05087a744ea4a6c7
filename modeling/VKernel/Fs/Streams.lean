import VKernel.Types

/-!
# `VKernel.Fs.Streams`: the kernel streams of `fs.cpp`

A `kernel_stream` that is open for writing works on a private copy of the file: an owned
buffer with a size, a capacity and a position. The copy is filled by `file_open` and handed
to the filesystem driver by `close_stream`. A stream that is open for reading only has no
buffer and reads through the driver.

The driver is the interface of `driver.h`: `FilesystemDriver σ δ` over a backend state `σ`
and file descriptors `δ`. A buffer is a function from offsets to bytes, since the heap hands
out memory with arbitrary content; its length is `capacity`. Each call that may grow the
buffer takes the answers of `g_kernel_heap.allocate`, by size. The outer `none` of such a
call is a fault: a store through a null buffer.
-/

set_option autoImplicit false

namespace VKernel.Fs

/-- `filesystem_driver`, the entries that streams use. `readFile` returns the bytes in an
owned buffer, or `none` for null. -/
structure FilesystemDriver (σ δ : Type) where
  isMounted : σ → Bool
  fileSize : σ → List UInt8 → Nat
  openFile : σ → List UInt8 → Option δ
  readFileRange : σ → δ → Nat → Nat → Option (List UInt8 × δ)
  readFile : σ → List UInt8 → Option (List UInt8)
  writeFile : σ → List UInt8 → List UInt8 → Bool × σ
  maxDirectReadBytes : Nat

/-- `open_mode`. -/
structure OpenMode where
  valid : Bool := false
  readable : Bool := false
  writable : Bool := false
  create : Bool := false
  truncate : Bool := false
  append : Bool := false
  deriving DecidableEq, Repr

/-- Memory content by offset. -/
abbrev Buffer := Nat → UInt8

/-- The answers of `g_kernel_heap.allocate`, by size. -/
abbrev Heap := Nat → Option Buffer

/-- `kernel_stream`. `driver` tells whether the pointer is set. -/
structure KernelStream (δ : Type) where
  driver : Bool := false
  backendFile : Option δ := none
  ownedBuffer : Option Buffer := none
  path : List UInt8 := []
  size : Nat := 0
  capacity : Nat := 0
  position : Nat := 0
  readable : Bool := false
  writable : Bool := false
  append : Bool := false
  dirty : Bool := false
  directBackend : Bool := false
  eof : Bool := false
  error : Bool := false
  inUse : Bool := false

/-! ### Modes and paths -/

/-- The characters that `parse_mode` accepts: the loop state is the first of `r`, `w`, `a`
and whether a `+` was seen. `none` is a second one of `r`, `w`, `a`. -/
def scanMode : Option Char → Bool → List Char → Option (Option Char × Bool)
  | first, plus, [] => some (first, plus)
  | first, plus, ch :: rest =>
    let isKind := ch = 'r' ∨ ch = 'w' ∨ ch = 'a'
    if first = none ∧ isKind then scanMode (some ch) plus rest
    else if ch = '+' then scanMode first true rest
    else if ch = 'b' ∨ ch = 't' then scanMode first plus rest
    else if isKind then none
    else scanMode first plus rest

/-- `parse_mode`. -/
def parseMode (modeString : List Char) : OpenMode :=
  match scanMode none false modeString with
  | some (some 'r', plus) => { valid := true, readable := true, writable := plus }
  | some (some 'w', plus) =>
    { valid := true, readable := plus, writable := true, create := true, truncate := true }
  | some (some 'a', plus) =>
    { valid := true, readable := plus, writable := true, create := true, append := true }
  | _ => {}

/-- `is_separator`. -/
def isSeparator (ch : UInt8) : Bool := ch == '/'.toUInt8 || ch == '\\'.toUInt8

/-- The loop of `normalize_path` that drops a leading `./`. -/
def dropDotPrefix : List UInt8 → List UInt8
  | a :: b :: rest =>
    if a = '.'.toUInt8 ∧ isSeparator b then dropDotPrefix rest else a :: b :: rest
  | path => path

/-- `normalize_path`. A path with a backslash is copied to a buffer of 256 bytes, and one
that does not fit becomes empty. -/
def normalizePath (path : List UInt8) : List UInt8 :=
  let path := dropDotPrefix path
  if '\\'.toUInt8 ∉ path then path
  else if path.length ≥ 255 then []
  else path.map fun ch => if ch = '\\'.toUInt8 then '/'.toUInt8 else ch

/-! ### Buffers -/

section Streams

variable {σ δ : Type}

/-- The first `n` bytes of a buffer from `offset` on. -/
def Buffer.bytes (b : Buffer) (offset n : Nat) : List UInt8 :=
  (List.range n).map fun i => b (offset + i)

/-- `memory::copy` into a buffer. -/
def Buffer.store (b : Buffer) (offset : Nat) (data : List UInt8) : Buffer :=
  fun i => if offset ≤ i ∧ i < offset + data.length then data.getD (i - offset) 0 else b i

/-- `memory::set` of `n` bytes with 0. -/
def Buffer.zero (b : Buffer) (offset n : Nat) : Buffer :=
  fun i => if offset ≤ i ∧ i < offset + n then 0 else b i

/-- `stream_data`, with `none` for null. -/
def KernelStream.data (s : KernelStream δ) : Option Buffer :=
  if s.directBackend then none
  else if s.size = 0 then some fun _ => 0
  else s.ownedBuffer

/-- The doubling loop of `ensure_capacity`. A product that wraps ends it with the required
size; from a capacity of at least 1 this is at the latest the 64th round. -/
def growCapacity (required : Nat) : Nat → Nat → Nat
  | 0, _ => required
  | rounds + 1, capacity =>
    if capacity < required then
      let next := capacity * 2 % U64
      if next ≤ capacity then required else growCapacity required rounds next
    else capacity

/-- `ensure_capacity`, with `none` for `false`. -/
def KernelStream.ensureCapacity (s : KernelStream δ) (required : Nat) (heap : Heap) :
    Option (KernelStream δ) :=
  if required ≤ s.capacity then some s
  else
    let newCapacity := growCapacity required 64 (if s.capacity > 0 then s.capacity else 256)
    (heap newCapacity).map fun fresh =>
      let copied :=
        match s.data with
        | some data => fresh.store 0 (data.bytes 0 s.size)
        | none => fresh
      { s with ownedBuffer := some copied, capacity := newCapacity, directBackend := false }

/-! ### Calls -/

/-- `file_read`, after the handle has been looked up. The result is the count and the bytes
that were stored to the caller's buffer; a null buffer of the stream stores none. -/
def KernelStream.read (driver : FilesystemDriver σ δ) (backend : σ) (s : KernelStream δ)
    (bufSize : Nat) : (Nat × List UInt8) × KernelStream δ :=
  if ¬ s.readable then ((0, []), s)
  else if s.position ≥ s.size then ((0, []), { s with eof := true })
  else
    let toCopy := min (s.size - s.position) bufSize
    if s.driver ∧ s.directBackend then
      match s.backendFile.bind fun file =>
          driver.readFileRange backend file s.position (min toCopy driver.maxDirectReadBytes) with
      | none => ((0, []), { s with error := true })
      | some (bytes, file) =>
        let position := s.position + bytes.length
        ((bytes.length, bytes), { s with
          backendFile := some file, position := position, eof := decide (position ≥ s.size) })
    else
      let bytes := (s.data.map fun data => data.bytes s.position toCopy).getD []
      let position := s.position + toCopy
      ((toCopy, bytes), { s with position := position, eof := decide (position ≥ s.size) })

/-- The part of `file_write` that fills the hole before a position behind the end. -/
def KernelStream.fillHole (s : KernelStream δ) (heap : Heap) :
    Option (Option (KernelStream δ)) :=
  if s.position > s.size then
    match s.ensureCapacity s.position heap with
    | none => some none
    | some s =>
      s.ownedBuffer.map fun buffer =>
        some { s with
          ownedBuffer := some (buffer.zero s.size (s.position - s.size)), size := s.position }
  else some (some s)

/-- The start of `file_write`: in append mode the position goes to the end. -/
def KernelStream.positioned (s : KernelStream δ) : KernelStream δ :=
  if s.append then { s with position := s.size } else s

/-- The end of `file_write`: the growth up to the end of the data, and the copy. -/
def KernelStream.putBytes (s : KernelStream δ) (data : List UInt8) (heap : Heap) :
    Option ((Nat × Bool) × KernelStream δ) :=
  let endPosition := add64 s.position data.length
  if endPosition < s.position then some ((0, false), { s with error := true })
  else
    match s.ensureCapacity endPosition heap with
    | none => some ((0, false), { s with error := true })
    | some s =>
      let done (buffer : Option Buffer) : (Nat × Bool) × KernelStream δ :=
        let size := max s.size endPosition
        ((data.length, true), { s with
          ownedBuffer := buffer, position := endPosition, size := size, dirty := true,
          eof := decide (endPosition ≥ size) })
      if data = [] then some (done s.ownedBuffer)
      else s.ownedBuffer.map fun buffer => done (some (buffer.store s.position data))

/-- `file_write`, after the handle has been looked up. The result is the count, and whether
the call got through: a failed call and a call with no bytes both return 0. -/
def KernelStream.write (s : KernelStream δ) (data : List UInt8) (heap : Heap) :
    Option ((Nat × Bool) × KernelStream δ) :=
  if ¬ s.writable then some ((0, false), s)
  else
    match s.positioned.fillHole heap with
    | none => none
    | some none => some ((0, false), { s.positioned with error := true })
    | some (some s) => s.putBytes data heap

/-- The value of a `u64` read as an `i64`, and sums of such. -/
def toI64 (n : Int) : Int := Int.bmod n (2 ^ 64)

/-- `file_seek`, after the handle has been looked up. -/
def KernelStream.seek (s : KernelStream δ) (offset whence : Int) : Int × KernelStream δ :=
  let base : Option Int :=
    if whence = 0 then some 0
    else if whence = 1 then some (toI64 s.position)
    else if whence = 2 then some (toI64 s.size)
    else none
  match base with
  | none => (-1, { s with error := true })
  | some base =>
    let next := toI64 (base + offset)
    if next < 0 then (-1, { s with error := true })
    else
      let position := next.toNat
      (0, { s with position := position, eof := decide (position ≥ s.size) })

/-- `file_tell`, after the handle has been looked up. -/
def KernelStream.tell (s : KernelStream δ) : Int := toI64 s.position

/-- `file_truncate`, after the handle has been looked up. -/
def KernelStream.truncate (s : KernelStream δ) (length : Int) (heap : Heap) :
    Option (Int × KernelStream δ) :=
  if ¬ s.writable ∨ length < 0 then some (-1, s)
  else
    let nextSize := length.toNat
    let grown : Option (Option (KernelStream δ)) :=
      if nextSize > s.size then
        match s.ensureCapacity nextSize heap with
        | none => some none
        | some s =>
          s.ownedBuffer.map fun buffer =>
            some { s with ownedBuffer := some (buffer.zero s.size (nextSize - s.size)) }
      else some (some s)
    grown.map fun
      | none => (-1, { s with error := true })
      | some s =>
        let position := min s.position nextSize
        (0, { s with
          size := nextSize, position := position, dirty := true,
          eof := decide (position ≥ nextSize) })

/-- The bytes of the stream: `size` of them from its data on. -/
def KernelStream.content (s : KernelStream δ) : List UInt8 :=
  if s.size > 0 then (s.data.map fun data => data.bytes 0 s.size).getD [] else []

/-- The bytes that `close_stream` hands to the driver: none of them for a stream that is not
dirty. -/
def KernelStream.handed (s : KernelStream δ) : Option (List UInt8) :=
  if s.driver ∧ s.dirty then some s.content else none

/-- `close_stream`. -/
def KernelStream.close (driver : FilesystemDriver σ δ) (backend : σ) (s : KernelStream δ) :
    Int × σ × KernelStream δ :=
  match s.handed with
  | none => (0, backend, {})
  | some bytes =>
    match driver.writeFile backend s.path bytes with
    | (true, backend) => (0, backend, {})
    | (false, backend) => (-1, backend, { s with error := true })

/-- What `file_open` does with a free stream for a writable mode, with `none` for the failed
handle 0. -/
def openWritable (driver : FilesystemDriver σ δ) (backend : σ) (mode : OpenMode)
    (path : List UInt8) : Option (KernelStream δ) :=
  if ¬ driver.isMounted backend then none
  else
    let s : KernelStream δ :=
      { inUse := true, readable := mode.readable, writable := mode.writable,
        append := mode.append, path := path, driver := true }
    match driver.readFile backend path with
    | none => if mode.create then some s else none
    | some content =>
      if mode.truncate then some s
      else
        some { s with
          ownedBuffer := if content = [] then none else some fun i => content.getD i 0
          size := content.length
          capacity := content.length
          position := if mode.append then content.length else 0 }

/-- What `file_open` does with a free stream for reading only. -/
def openDirect (driver : FilesystemDriver σ δ) (backend : σ) (mode : OpenMode)
    (path : List UInt8) : Option (KernelStream δ) :=
  (driver.openFile backend path).map fun file =>
    let size := driver.fileSize backend path
    { inUse := true, readable := mode.readable, writable := mode.writable, append := mode.append,
      path := path, driver := driver.isMounted backend, backendFile := some file,
      directBackend := true, size := size, capacity := size, eof := decide (size = 0) }

/-- `file_open`, on a free stream. -/
def openStream (driver : FilesystemDriver σ δ) (backend : σ) (path : List UInt8)
    (modeString : List Char) : Option (KernelStream δ) :=
  let mode := parseMode modeString
  let path := normalizePath path
  if ¬ mode.valid ∨ path = [] ∨ path.length ≥ 256 then none
  else if mode.writable then openWritable driver backend mode path
  else openDirect driver backend mode path

end Streams

end VKernel.Fs

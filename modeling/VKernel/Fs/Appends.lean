import VKernel.Fs.Streams
import VKernel.Lib.Transition
import VKernel.Lib.Shuffle

/-!
# `VKernel.Fs.Appends`: sessions that append to one file

The table `s_streams` with the calls of any number of sessions on one file, each opened in
append mode. A session is what happens on a slot of the table between its `file_open` and a
`file_close` that returns 0. One label is one call. `file_open` may find the heap too full for
the buffer that `read_file` needs, and then sees no file.

Next to the table, the state keeps a history that no call reads: the chunks that each open
session has written, those of the closed sessions, and how often the file was replaced.
-/

set_option autoImplicit false

namespace VKernel.Fs

open VKernel.Lib

/-- `MAX_STREAMS`. -/
def MAX_STREAMS : Nat := 64

section Table

variable {σ δ : Type}

/-- The driver under the answer of the heap to the buffer that `read_file` asks for: without
the buffer, `read_file` returns null. -/
def FilesystemDriver.withBuffer (driver : FilesystemDriver σ δ) (granted : Bool) :
    FilesystemDriver σ δ :=
  { driver with
    readFile := fun backend path => if granted then driver.readFile backend path else none }

/-- The history of an open session: the chunks that were written, the number of times the file
had been replaced before the session was opened, and whether the open found the file. -/
structure Session where
  chunks : List (List UInt8) := []
  openedAt : Nat := 0
  found : Bool := false
  deriving DecidableEq

/-- The backend and the table, with the history: `session i` belongs to the stream in slot `i`,
`replaced` counts the closes that have written the file, and `closed` has the chunks of the
sessions that were closed. -/
structure StreamTable (σ δ : Type) where
  backend : σ
  streams : Nat → KernelStream δ
  session : Nat → Session
  replaced : Nat
  closed : List (List (List UInt8))

/-- The slot that `file_open` takes. -/
def StreamTable.freeSlot (t : StreamTable σ δ) : Option Nat :=
  (List.range MAX_STREAMS).find? fun i => !(t.streams i).inUse

/-- `file_open`. A stream that cannot be opened leaves its slot free. -/
def StreamTable.fileOpen (driver : FilesystemDriver σ δ) (t : StreamTable σ δ)
    (path : List UInt8) (modeString : List Char) (granted : Bool) : StreamTable σ δ :=
  match t.freeSlot with
  | none => t
  | some i =>
    match openStream (driver.withBuffer granted) t.backend path modeString with
    | none => t
    | some stream =>
      let found := ((driver.withBuffer granted).readFile t.backend (normalizePath path)).isSome
      { t with
        streams := Function.update t.streams i stream
        session := Function.update t.session i ⟨[], t.replaced, found⟩ }

/-- The table with another stream in slot `i`. -/
def StreamTable.setStream (t : StreamTable σ δ) (i : Nat) (stream : KernelStream δ) :
    StreamTable σ δ :=
  { t with streams := Function.update t.streams i stream }

/-- `handle_from_id`: the slot holds an open stream. -/
def StreamTable.IsOpen (t : StreamTable σ δ) (i : Nat) : Prop :=
  i < MAX_STREAMS ∧ (t.streams i).inUse = true

instance (t : StreamTable σ δ) (i : Nat) : Decidable (t.IsOpen i) :=
  inferInstanceAs (Decidable (_ ∧ _))

/-- `file_write`, on an open stream. `none` is a fault. -/
def StreamTable.fileWrite (t : StreamTable σ δ) (i : Nat) (data : List UInt8) (heap : Heap) :
    Option (StreamTable σ δ) :=
  ((t.streams i).write data heap).map fun ((_, ok), stream) =>
    let chunks := (t.session i).chunks ++ if ok then [data] else []
    { t with
      streams := Function.update t.streams i stream
      session := Function.update t.session i { t.session i with chunks := chunks } }

/-- `file_close`, on an open stream, when it returns 0. -/
def StreamTable.fileClose (driver : FilesystemDriver σ δ) (t : StreamTable σ δ) (i : Nat) :
    Option (StreamTable σ δ) :=
  match (t.streams i).close driver t.backend with
  | (0, backend, stream) =>
    some { t with
      backend := backend
      streams := Function.update t.streams i stream
      replaced := if (t.streams i).dirty then t.replaced + 1 else t.replaced
      closed := t.closed ++ [(t.session i).chunks] }
  | _ => none

/-- A call of a session. The mode of an open has an `a` first. -/
inductive SessionCall where
  | openAppend (path : List UInt8) (modeString : List Char) (granted : Bool)
  | read (i bufSize : Nat)
  | seek (i : Nat) (offset whence : Int)
  | write (i : Nat) (data : List UInt8) (heap : Heap)
  | close (i : Nat)

/-- One call on the file with the normalized name `file`. `none` is a call that no session of
the file makes, a close that does not return 0, or a fault. -/
def StreamTable.next (driver : FilesystemDriver σ δ) (file : List UInt8) (t : StreamTable σ δ) :
    SessionCall → Option (StreamTable σ δ)
  | .openAppend path modeString granted =>
    if normalizePath path = file ∧ (parseMode modeString).append then
      some (t.fileOpen driver path modeString granted)
    else none
  | .read i bufSize =>
    if t.IsOpen i then some (t.setStream i ((t.streams i).read driver t.backend bufSize).2)
    else none
  | .seek i offset whence =>
    if t.IsOpen i then some (t.setStream i ((t.streams i).seek offset whence).2) else none
  | .write i data heap =>
    if t.IsOpen i ∧ data.length < U64 then t.fileWrite i data heap else none
  | .close i => if t.IsOpen i then t.fileClose driver i else none

/-- The runs of sessions on a file that has the content `initial` at first. `files` is what the
backend has stored under the name. -/
def appendSystem (driver : FilesystemDriver σ δ) (file : List UInt8)
    (files : σ → Option (List UInt8)) (initial : List UInt8) :
    TransitionSystem (StreamTable σ δ) SessionCall :=
  .ofFun (fun t => files t.backend = some initial ∧ (∀ i, t.streams i = {}) ∧ t.replaced = 0 ∧
    t.closed = []) (StreamTable.next driver file)

/-- The file has its first content, and behind it the chunks of all closed sessions, those of
each session in their order. -/
def Appended (files : σ → Option (List UInt8)) (initial : List UInt8) (t : StreamTable σ δ) :
    Prop :=
  ∃ merged, Shuffle t.closed merged ∧ files t.backend = some (initial ++ merged.flatten)

/-- A session that has written is closed only when its open has found the file and no other
close has replaced the file since. -/
def UpToDate (t : StreamTable σ δ) : SessionCall → Prop
  | .close i => (t.streams i).dirty = true →
      (t.session i).found = true ∧ (t.session i).openedAt = t.replaced
  | _ => True

instance (t : StreamTable σ δ) : ∀ call, Decidable (UpToDate t call)
  | .close i => inferInstanceAs (Decidable ((t.streams i).dirty = true →
      (t.session i).found = true ∧ (t.session i).openedAt = t.replaced))
  | .openAppend _ _ _ => inferInstanceAs (Decidable True)
  | .read _ _ => inferInstanceAs (Decidable True)
  | .seek _ _ _ => inferInstanceAs (Decidable True)
  | .write _ _ _ => inferInstanceAs (Decidable True)

end Table

end VKernel.Fs

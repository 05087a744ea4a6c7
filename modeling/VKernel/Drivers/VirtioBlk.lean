import VKernel.Lib.ByteRange
import VKernel.Lib.Transition
import VKernel.Types

/-!
# `VKernel.Drivers.VirtioBlk`: the virtio block driver and its device

`virtio_blk_transfer` cuts a transfer into requests of at most 128 sectors, and
`submit_request` puts one request at a time on the ring. All requests use the descriptors
0, 1 and 2, one request header, one status byte and one bounce buffer, and a completion is
recognised only by a change of the used index.

The driver runs under `s_request_lock`, so one transfer is in progress at a time. Its steps
are the points of `Phase`; the device can act between any two of them. The device takes the
entries of the available ring in order and reads the header and the length then; it completes
each taken request once, at any later time and in any order, and then reads or writes the data
buffer and writes the status byte and the used ring. It may also fail a request.

The driver only ever publishes descriptor chain 0, and its descriptors point to the header,
the bounce buffer and the status byte, so a chain is the header and the length of its data.
Requests are numbered in the order they are published (`submitted`), which is what `serial`
refers to. The results of the calls are kept in `returned` and `finished`.
-/

set_option autoImplicit false

namespace VKernel.Drivers

open VKernel.Lib

/-- `VIRTIO_BLK_SECTOR_SIZE`. -/
def VIRTIO_BLK_SECTOR_SIZE : Nat := 512

/-- `VIRTIO_BLK_MAX_SECTORS_PER_REQUEST`. -/
def VIRTIO_BLK_MAX_SECTORS_PER_REQUEST : Nat := 128

/-- `VIRTIO_BLK_TIMEOUT_SPINS`. -/
def VIRTIO_BLK_TIMEOUT_SPINS : Nat := 10000000

/-- `VIRTIO_BLK_S_OK`. -/
def VIRTIO_BLK_S_OK : UInt8 := 0

/-- The range of the 16-bit ring indices. -/
def U16 : Nat := 2 ^ 16

/-- `VIRTIO_BLK_T_IN` and `VIRTIO_BLK_T_OUT`. -/
inductive ReqType
  | input | output
  deriving DecidableEq, Repr

/-- `virtio_blk_req_header`. -/
structure ReqHeader where
  type : ReqType
  sector : Nat
  deriving DecidableEq, Repr

/-- A request that the device has taken from the available ring. -/
structure Taken where
  serial : Nat
  header : ReqHeader
  len : Nat
  deriving DecidableEq, Repr

/-- The arguments of `virtio_blk_transfer`. For a write, `buffer` is what the caller's buffer
holds. -/
structure Transfer where
  write : Bool
  lba : Nat
  count : Nat
  buffer : List UInt8
  deriving DecidableEq, Repr

/-- The locals of `virtio_blk_transfer`, and what a read has copied to the caller so far. -/
structure Progress where
  call : Transfer
  currentLba : Nat
  remaining : Nat
  received : List UInt8
  deriving DecidableEq, Repr

/-- `chunk`. -/
def Progress.chunk (p : Progress) : Nat := min p.remaining VIRTIO_BLK_MAX_SECTORS_PER_REQUEST

/-- `bytes`. -/
def Progress.bytes (p : Progress) : Nat := p.chunk * VIRTIO_BLK_SECTOR_SIZE

/-- How far `current_buffer` is into the caller's buffer. -/
def Progress.offset (p : Progress) : Nat :=
  (p.call.count - p.remaining) * VIRTIO_BLK_SECTOR_SIZE

/-- The bytes of the caller's buffer that the chunk covers. -/
def Progress.chunkBytes (p : Progress) : List UInt8 := (p.call.buffer.drop p.offset).take p.bytes

/-- Where the driver is. -/
inductive Phase
  /-- No transfer is in progress. -/
  | idle
  /-- At the head of the loop of `virtio_blk_transfer`. -/
  | loop (p : Progress)
  /-- At the start of `submit_request`. -/
  | prepare (p : Progress)
  /-- The header, the descriptors and the status byte are written. -/
  | publish (p : Progress)
  /-- Polling the used index. -/
  | polling (p : Progress) (spin : Nat)
  /-- The used index has changed. -/
  | consume (p : Progress)
  /-- `submit_request` has returned true. -/
  | copyOut (p : Progress)
  deriving DecidableEq, Repr

/-- A transfer that has returned: its result, what a read gave the caller, and what the disk
held then. -/
structure Finished where
  call : Transfer
  result : Bool
  received : List UInt8
  disk : Nat → UInt8

/-- The driver, the memory it shares with the device, and the device. -/
structure Machine where
  queueSize : Nat
  header : ReqHeader
  dataLen : Nat
  requestStatus : UInt8
  bounce : Nat → UInt8
  availIdx : Nat
  usedIdx : Nat
  usedRing : Nat → Nat
  lastUsedIdx : Nat
  phase : Phase
  disk : Nat → UInt8
  /-- The device's place in the available ring. -/
  takenIdx : Nat
  inFlight : List Taken
  submitted : Nat
  taken : Nat
  /-- The completed requests, with their status. -/
  completed : List (Nat × UInt8)
  /-- The requests that `submit_request` has returned for, with its result. -/
  returned : List (Nat × Bool)
  finished : List Finished

/-- The machine after `setup_queue`. -/
def Machine.initial (queueSize : Nat) (disk : Nat → UInt8) : Machine where
  queueSize := queueSize
  header := ⟨.input, 0⟩
  dataLen := 0
  requestStatus := 0xFF
  bounce := fun _ => 0
  availIdx := 0
  usedIdx := 0
  usedRing := fun _ => 0
  lastUsedIdx := 0
  phase := .idle
  disk := disk
  takenIdx := 0
  inFlight := []
  submitted := 0
  taken := 0
  completed := []
  returned := []
  finished := []

/-! ### The driver -/

/-- The transfer returns. -/
def Machine.finish (m : Machine) (p : Progress) (result : Bool) : Machine :=
  { m with
    phase := .idle
    finished := m.finished ++ [⟨p.call, result, p.received, m.disk⟩] }

/-- `submit_request` returns. The request is the last one that was published. -/
def Machine.submitReturns (m : Machine) (result : Bool) : Machine :=
  { m with returned := m.returned ++ [(m.submitted - 1, result)] }

/-- A call of `virtio_blk_transfer`. -/
def Machine.transfer (m : Machine) (t : Transfer) : Machine :=
  if t.count = 0 then m.finish ⟨t, t.lba, 0, []⟩ false
  else { m with phase := .loop ⟨t, t.lba, t.count, []⟩ }

/-- One step of the driver. -/
def Machine.driverStep (m : Machine) : Machine :=
  match m.phase with
  | .idle => m
  | .loop p =>
    if p.remaining = 0 then m.finish p true
    else if p.call.write then
      { m with bounce := writeBytes m.bounce 0 p.chunkBytes, phase := .prepare p }
    else { m with phase := .prepare p }
  | .prepare p =>
    { m with
      header := ⟨if p.call.write then .output else .input, p.currentLba⟩
      dataLen := p.bytes
      requestStatus := 0xFF
      phase := .publish p }
  | .publish p =>
    { m with
      availIdx := (m.availIdx + 1) % U16
      submitted := m.submitted + 1
      phase := .polling p 0 }
  | .polling p spin =>
    if spin ≥ VIRTIO_BLK_TIMEOUT_SPINS then (m.submitReturns false).finish p false
    else if m.usedIdx ≠ m.lastUsedIdx then { m with phase := .consume p }
    else { m with phase := .polling p (spin + 1) }
  | .consume p =>
    let id := m.usedRing (m.lastUsedIdx % m.queueSize)
    let result := id == 0 && m.requestStatus == VIRTIO_BLK_S_OK
    let m := ({ m with lastUsedIdx := (m.lastUsedIdx + 1) % U16 }).submitReturns result
    if result then { m with phase := .copyOut p } else m.finish p false
  | .copyOut p =>
    { m with
      phase := .loop ⟨p.call, add64 p.currentLba p.chunk, p.remaining - p.chunk,
        if p.call.write then p.received else p.received ++ readBytes m.bounce 0 p.bytes⟩ }

/-! ### The device -/

/-- The device takes the next entry of the available ring and reads its header. -/
def Machine.take (m : Machine) : Machine :=
  { m with
    takenIdx := (m.takenIdx + 1) % U16
    taken := m.taken + 1
    inFlight := m.inFlight ++ [⟨m.taken, m.header, m.dataLen⟩] }

/-- The byte range of a request on the disk. -/
def Taken.base (r : Taken) : Nat := r.header.sector * VIRTIO_BLK_SECTOR_SIZE

/-- The data part of a request that succeeds. -/
def Machine.moveData (m : Machine) (r : Taken) : Machine :=
  match r.header.type with
  | .input => { m with bounce := writeBytes m.bounce 0 (readBytes m.disk r.base r.len) }
  | .output => { m with disk := writeBytes m.disk r.base (readBytes m.bounce 0 r.len) }

/-- The data part of a request that fails: the target holds anything. -/
def Machine.spoilData (m : Machine) (r : Taken) (garbage : List UInt8) : Machine :=
  match r.header.type with
  | .input => { m with bounce := writeBytes m.bounce 0 (garbage.take r.len) }
  | .output => { m with disk := writeBytes m.disk r.base (garbage.take r.len) }

/-- The completion of a taken request: data, status and used ring. -/
def Machine.complete (m : Machine) (r : Taken) (status : UInt8) (garbage : List UInt8) : Machine :=
  let m := if status = VIRTIO_BLK_S_OK then m.moveData r else m.spoilData r garbage
  { m with
    requestStatus := status
    usedRing := fun i => if i = m.usedIdx % m.queueSize then 0 else m.usedRing i
    usedIdx := (m.usedIdx + 1) % U16
    inFlight := m.inFlight.erase r
    completed := m.completed ++ [(r.serial, status)] }

/-! ### The system -/

/-- The steps of the system. -/
inductive Label
  | call (t : Transfer)
  | driver
  | take
  | complete (r : Taken) (status : UInt8) (garbage : List UInt8)
  deriving DecidableEq, Repr

/-- What a caller may pass: a 64-bit sector, a 32-bit count, and a buffer of that size. -/
structure Transfer.Ok (t : Transfer) : Prop where
  lba : t.lba < U64
  count : t.count < 2 ^ 32
  buffer : t.write = true → t.buffer.length = t.count * VIRTIO_BLK_SECTOR_SIZE

instance (t : Transfer) : Decidable t.Ok :=
  decidable_of_iff (t.lba < U64 ∧ t.count < 2 ^ 32 ∧
      (t.write = true → t.buffer.length = t.count * VIRTIO_BLK_SECTOR_SIZE))
    ⟨fun h => ⟨h.1, h.2.1, h.2.2⟩, fun h => ⟨h.lba, h.count, h.buffer⟩⟩

/-- When a step is possible. A request succeeds only inside the `capacity` of the device, in
sectors. -/
def Machine.Enabled (capacity : Nat) (m : Machine) : Label → Prop
  | .call t => m.phase = .idle ∧ t.Ok
  | .driver => m.phase ≠ .idle
  | .take => m.takenIdx ≠ m.availIdx
  | .complete r status _ => r ∈ m.inFlight ∧
      (status = VIRTIO_BLK_S_OK → r.base + r.len ≤ capacity * VIRTIO_BLK_SECTOR_SIZE)

instance (capacity : Nat) (m : Machine) : ∀ l, Decidable (m.Enabled capacity l)
  | .call t => inferInstanceAs (Decidable (m.phase = .idle ∧ t.Ok))
  | .driver => inferInstanceAs (Decidable (m.phase ≠ .idle))
  | .take => inferInstanceAs (Decidable (m.takenIdx ≠ m.availIdx))
  | .complete r status _ => inferInstanceAs (Decidable (r ∈ m.inFlight ∧
      (status = VIRTIO_BLK_S_OK → r.base + r.len ≤ capacity * VIRTIO_BLK_SECTOR_SIZE)))

/-- One step. -/
def Machine.next (m : Machine) : Label → Machine
  | .call t => m.transfer t
  | .driver => m.driverStep
  | .take => m.take
  | .complete r status garbage => m.complete r status garbage

/-- The driver and a device of a given capacity, with any disk. -/
def virtioSystem (queueSize capacity : Nat) : TransitionSystem Machine Label where
  init m := ∃ disk, m = Machine.initial queueSize disk
  step m l m' := m.Enabled capacity l ∧ m' = m.next l

end VKernel.Drivers

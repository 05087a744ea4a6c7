import VKernel.Lib.ByteRange
import VKernel.Lib.Transition
import VKernel.Lib.TurnQueue

/-!
# `VKernel.Drivers.VirtioNet`: the two queues of the virtio network driver

`virtio_net_poll_packet` and `transmit_packet`, each with the device on the other side of its
queue. The two queues share nothing, and each function runs under a lock of its own, so they
are two systems.

Both functions use descriptor 0 of their queue at the head of the only chain they ever offer,
and one buffer. The receive buffer is offered by `prime_receive_buffer`, once in `init_device`
and once at the end of each poll that found a frame. A transmission offers the transmit buffer
and polls the used index for a number of rounds; what the device has not given back by then
stays on the queue.

The device acts between any two steps of the driver. Into the receive buffer it writes a
header and a frame that fits behind it, and a frame for which there is no buffer or no room is
not accepted. Of the transmit buffer it reads the bytes of the second descriptor at some point
after it was offered. `accepted`, `results`, `wire` and `returned` are not in the source: they
record the frames and the results of the calls.
-/

set_option autoImplicit false

namespace VKernel.Drivers.VirtioNet

open VKernel.Lib

/-- The range of the 16-bit ring indices. -/
def INDEX_RANGE : Nat := 0x10000

/-- `sizeof(virtio_net_hdr)`. -/
def HEADER_BYTES : Nat := 10

/-- `VIRTIO_NET_RX_BUFFER_BYTES`. -/
def VIRTIO_NET_RX_BUFFER_BYTES : Nat := 4096

/-- `VIRTIO_NET_TX_BUFFER_BYTES`. -/
def VIRTIO_NET_TX_BUFFER_BYTES : Nat := 4096

/-- `VIRTIO_NET_TX_TIMEOUT_SPINS`. -/
def VIRTIO_NET_TX_TIMEOUT_SPINS : Nat := 10000000

/-- `vring_used_elem`. -/
structure UsedElem where
  id : Nat
  len : Nat
  deriving DecidableEq, Repr

/-! ### The receive queue -/

/-- What `virtio_net_poll_packet` reports for a buffer that it found used: its result,
`*packet_length_out`, and the bytes at `packet_out`. -/
structure PollResult where
  capacity : Nat
  ok : Bool
  length : Nat
  bytes : List UInt8
  deriving DecidableEq, Repr

/-- Where `virtio_net_poll_packet` is, with its argument `packet_capacity`. -/
inductive RxPhase
  | idle
  /-- The used index has changed. -/
  | found (capacity : Nat)
  /-- The entry was read. -/
  | copy (capacity : Nat) (used : UsedElem)
  /-- In front of `prime_receive_buffer`. -/
  | prime (result : PollResult)
  deriving DecidableEq, Repr

structure Rx where
  queue : TurnQueue UsedElem
  buffer : Nat → UInt8
  phase : RxPhase
  /-- The frame that the device is writing. -/
  inFlight : Option (List UInt8)
  accepted : List (List UInt8)
  results : List PollResult

/-- The queue after `init_device`, with the buffer offered. -/
def Rx.initial (queueSize : Nat) : Rx where
  queue := TurnQueue.offer INDEX_RANGE ⟨queueSize, 0, 0, 0, 0, fun _ => ⟨0, 0⟩⟩
  buffer := fun _ => 0
  phase := .idle
  inFlight := none
  accepted := []
  results := []

/-- What `virtio_net_poll_packet` makes of a used entry. -/
def Rx.result (m : Rx) (capacity : Nat) (used : UsedElem) : PollResult :=
  if used.id = 0 ∧ used.len > HEADER_BYTES then
    let payloadLength := used.len - HEADER_BYTES
    if payloadLength ≤ capacity then
      ⟨capacity, true, payloadLength, readBytes m.buffer HEADER_BYTES payloadLength⟩
    else ⟨capacity, false, payloadLength, []⟩
  else ⟨capacity, false, 0, []⟩

/-- The steps of the receive queue. -/
inductive RxOp
  | poll (capacity : Nat)
  | driver
  /-- The device takes the buffer and writes a header and a frame to it. -/
  | receive (header frame : List UInt8)
  | complete
  deriving DecidableEq, Repr

/-- One step. `none` means that it is not possible. -/
def Rx.next (m : Rx) : RxOp → Option Rx
  | .poll capacity =>
    if m.phase = .idle then
      -- A poll that finds nothing returns false with the length 0.
      if capacity ≠ 0 ∧ m.queue.HasUsed then some { m with phase := .found capacity }
      else some m
    else none
  | .driver =>
    match m.phase with
    | .idle => none
    | .found capacity =>
      some { m with
        queue := m.queue.collect INDEX_RANGE, phase := .copy capacity m.queue.note }
    | .copy capacity used => some { m with phase := .prime (m.result capacity used) }
    | .prime result =>
      some { m with
        queue := m.queue.offer INDEX_RANGE
        phase := .idle
        results := m.results ++ [result] }
  | .receive header frame =>
    if m.queue.CanTake ∧ header.length = HEADER_BYTES ∧
        HEADER_BYTES + frame.length ≤ VIRTIO_NET_RX_BUFFER_BYTES then
      some { m with
        queue := m.queue.take INDEX_RANGE
        buffer := writeBytes m.buffer 0 (header ++ frame)
        inFlight := some frame }
    else none
  | .complete =>
    match m.inFlight with
    | none => none
    | some frame =>
      some { m with
        queue := m.queue.giveBack INDEX_RANGE ⟨0, HEADER_BYTES + frame.length⟩
        inFlight := none
        accepted := m.accepted ++ [frame] }

/-- The receive queue from `init_device` on. -/
def rxSystem (queueSize : Nat) : TransitionSystem Rx RxOp :=
  TransitionSystem.ofFun (fun m => m = Rx.initial queueSize) Rx.next

/-! ### The transmit queue -/

/-- Where `transmit_packet` is, with the frame it was called with. -/
inductive TxPhase
  | idle
  /-- Behind the argument checks. -/
  | load (frame : List UInt8)
  /-- The buffer and the descriptors are written. -/
  | publish (frame : List UInt8)
  | polling (frame : List UInt8) (spin : Nat)
  /-- The used index has changed. -/
  | found (frame : List UInt8)
  deriving DecidableEq, Repr

structure Tx where
  queue : TurnQueue Nat
  buffer : Nat → UInt8
  /-- `desc[1].len`. -/
  descLen : Nat
  phase : TxPhase
  /-- The chains that the device has taken and not given back. -/
  inFlight : Nat
  wire : List (List UInt8)
  returned : List (List UInt8 × Bool)

/-- The queue after `init_device`. -/
def Tx.initial (queueSize : Nat) : Tx where
  queue := ⟨queueSize, 0, 0, 0, 0, fun _ => 0⟩
  buffer := fun _ => 0
  descLen := 0
  phase := .idle
  inFlight := 0
  wire := []
  returned := []

/-- `transmit_packet` returns. -/
def Tx.finish (m : Tx) (frame : List UInt8) (result : Bool) : Tx :=
  { m with phase := .idle, returned := m.returned ++ [(frame, result)] }

/-- The steps of the transmit queue. -/
inductive TxOp
  | transmit (frame : List UInt8)
  | driver
  /-- The device takes a chain and sends what its descriptors point to. -/
  | take
  | complete
  deriving DecidableEq, Repr

/-- One step. `none` means that it is not possible. -/
def Tx.next (m : Tx) : TxOp → Option Tx
  | .transmit frame =>
    if m.phase = .idle then
      if frame = [] ∨ m.queue.size < 2 ∨
          frame.length > VIRTIO_NET_TX_BUFFER_BYTES - HEADER_BYTES then
        some (m.finish frame false)
      else some { m with phase := .load frame }
    else none
  | .driver =>
    match m.phase with
    | .idle => none
    | .load frame =>
      some { m with
        buffer := writeBytes m.buffer 0 (List.replicate HEADER_BYTES 0 ++ frame)
        descLen := frame.length
        phase := .publish frame }
    | .publish frame =>
      some { m with queue := m.queue.offer INDEX_RANGE, phase := .polling frame 0 }
    | .polling frame spin =>
      if spin ≥ VIRTIO_NET_TX_TIMEOUT_SPINS then some (m.finish frame false)
      else if m.queue.HasUsed then some { m with phase := .found frame }
      else some { m with phase := .polling frame (spin + 1) }
    | .found frame =>
      some ({ m with queue := m.queue.collect INDEX_RANGE }.finish frame (m.queue.note == 0))
  | .take =>
    if m.queue.CanTake then
      some { m with
        queue := m.queue.take INDEX_RANGE
        inFlight := m.inFlight + 1
        wire := m.wire ++ [readBytes m.buffer HEADER_BYTES m.descLen] }
    else none
  | .complete =>
    if m.inFlight = 0 then none
    else
      some { m with queue := m.queue.giveBack INDEX_RANGE 0, inFlight := m.inFlight - 1 }

/-- The transmit queue from `init_device` on. -/
def txSystem (queueSize : Nat) : TransitionSystem Tx TxOp :=
  TransitionSystem.ofFun (fun m => m = Tx.initial queueSize) Tx.next

end VKernel.Drivers.VirtioNet

import VKernel.Lib.ByteRange
import VKernel.Lib.Ledger
import VKernel.Memory.KernelHeap

/-!
# `VKernel.Net.TxQueue`: the transmit queue of `net.cpp`

Any number of tasks call `queue_packet`, and the task of `background_tx_task` takes what they
put into `s_tx_queue`. One label is one atomic piece of code: a call of the heap, the copy of the
packet, a section under `s_tx_queue_lock`, a call of the device, a free. The pieces of all tasks
interleave in any order.

A call is known by its ticket, and `phase` says how far it is; a task in the middle of a call is a
ticket with such a phase. `start_background_worker` runs once, during boot and before the first
task that calls `queue_packet` is created, so `started` is the same through a run. Where it is false
`queue_packet` goes to the device itself.

The heap is the kernel heap itself, with the calls that other code makes of it in between
(`other`). The rest of the state is not in the source: the tickets of the queued packets, what was
accepted, what the devices were called with, and the ledger of the buffers.
-/

set_option autoImplicit false

namespace VKernel.Net

open VKernel.Lib VKernel.Memory

/-- `NET_TX_QUEUE_CAPACITY`. -/
def NET_TX_QUEUE_CAPACITY : Nat := 64

/-- A `net_device` as far as `send_packet` reads it: `canSend` says that neither `ops` nor
`ops->send_packet` is null. -/
structure TxDevice where
  id : Nat
  canSend : Bool
  deriving DecidableEq, Repr

/-- A packet for a device. A null pointer to a device is `none`. -/
structure Frame where
  dev : Option TxDevice
  bytes : List UInt8
  deriving DecidableEq, Repr

/-- The arguments of `queue_packet`, with `none` for a null pointer. A packet that is there has as
many bytes as the `u32` says. -/
structure QueueCall where
  dev : Option TxDevice
  packet : Option (List UInt8)
  length : Nat
  lengthFits : length < 2 ^ 32
  packetCovers : ∀ bytes ∈ packet, bytes.length = length

/-- The first check of `queue_packet`: the packet to go on with. -/
def QueueCall.checked (c : QueueCall) : Option Frame :=
  if c.dev = none ∨ c.packet = none ∨ c.length = 0 then none else some ⟨c.dev, c.packet.getD []⟩

/-- The checks of `send_packet`, for a packet that is not null: whether the device's own function
is called. -/
def Frame.reaches (f : Frame) : Bool := f.bytes.length != 0 && f.dev.any TxDevice.canSend

/-- `queued_packet`, with the ticket of the call that filled it in. -/
structure QueuedPacket where
  dev : Option TxDevice
  buffer : Nat
  length : Nat
  ticket : Nat
  deriving DecidableEq, Repr

/-- The `queued_packet` of `{}`. -/
def QueuedPacket.blank : QueuedPacket := ⟨none, 0, 0, 0⟩

/-- The frame that `send_packet` gets for a queued packet: the bytes are what the buffer holds by
then. -/
def QueuedPacket.frame (mem : Nat → UInt8) (e : QueuedPacket) : Frame :=
  ⟨e.dev, readBytes mem e.buffer e.length⟩

/-- How far a call of `queue_packet` is. -/
inductive CallPhase
  /-- There is no such call yet. -/
  | notCalled
  /-- In `send_packet`: there is no background task. -/
  | sending (f : Frame)
  /-- In `g_kernel_heap.allocate`. -/
  | allocating (f : Frame)
  /-- In front of `memory::copy`. -/
  | copying (f : Frame) (buffer : Nat)
  /-- In front of `s_tx_queue_lock.acquire`. -/
  | locking (f : Frame) (buffer : Nat)
  /-- The queue was full. -/
  | dropping (f : Frame) (buffer : Nat)
  /-- Back at the caller. The packet is `none` when the first check failed. -/
  | returned (f : Option Frame) (result : Bool)
  deriving DecidableEq, Repr

/-- Where the background task is. -/
inductive WorkerPhase
  /-- At the head of the loop. -/
  | loop
  /-- In `sched::sleep`. -/
  | sleeping
  /-- In front of `send_packet`. -/
  | taken (entry : QueuedPacket)
  /-- In front of `g_kernel_heap.free`. -/
  | sent (entry : QueuedPacket)
  deriving DecidableEq, Repr

/-- The packet that the task has taken and not sent. -/
def WorkerPhase.unsent : WorkerPhase → List QueuedPacket
  | .taken e => [e]
  | _ => []

/-- The packet whose buffer is with the task. -/
def WorkerPhase.holds : WorkerPhase → List QueuedPacket
  | .taken e => [e]
  | .sent e => [e]
  | _ => []

/-- A call of a device's own send function, and what it returned. -/
structure DeviceCall where
  ticket : Nat
  frame : Frame
  result : Bool
  deriving DecidableEq, Repr

/-- The queue, the tasks and the memory. -/
structure TxState where
  heap : HeapState
  mem : Nat → UInt8
  /-- `s_background_tx_started`. -/
  started : Bool
  queue : List QueuedPacket
  head : Nat
  tail : Nat
  phase : Nat → CallPhase
  worker : WorkerPhase
  /-- The packets that `queue_packet` returned true for, in the order that it did. -/
  accepted : List (Nat × Frame)
  /-- The calls of the devices' send functions, in order. -/
  passed : List DeviceCall
  /-- What the heap granted the calls, and what was freed for them. -/
  ledger : Ledger Nat Nat

/-- The packets that were sent: those that the background task passed to their device, and those
that a device took when there was no background task. -/
def TxState.sent (s : TxState) : List (Nat × Frame) :=
  (s.passed.filter fun p => s.started || p.result).map fun p => (p.ticket, p.frame)

def TxState.setPhase (s : TxState) (ticket : Nat) (p : CallPhase) : TxState :=
  { s with phase := Function.update s.phase ticket p }

/-- What `send_packet` adds to the calls of the device. -/
def deviceCalls (ticket : Nat) (f : Frame) (answer : Bool) : List DeviceCall :=
  if f.reaches then [⟨ticket, f, answer⟩] else []

/-- `tx_queue_empty`. -/
def TxState.txQueueEmpty (s : TxState) : Bool := s.head == s.tail

/-- `tx_queue_full`. -/
def TxState.txQueueFull (s : TxState) : Bool := (s.head + 1) % NET_TX_QUEUE_CAPACITY == s.tail

/-- One atomic piece of code. -/
inductive TxStep
  /-- A task calls `queue_packet`. -/
  | call (ticket : Nat) (c : QueueCall)
  /-- The device answers a call that goes to it directly. -/
  | direct (ticket : Nat) (answer : Bool)
  /-- The heap answers. The list holds what the physical allocator gives it. -/
  | allocate (ticket : Nat) (answers : List Nat)
  /-- `memory::copy`. `junk` is how the heap's headers would read in the buffer afterwards. -/
  | copy (ticket : Nat) (junk : Store Header)
  /-- The section under the lock in `queue_packet`. -/
  | push (ticket : Nat)
  /-- The free after a full queue. -/
  | drop (ticket : Nat)
  /-- The section under the lock in `background_tx_task`. -/
  | take
  /-- `sched::sleep` returns. -/
  | wake
  /-- `send_packet`, with the answer of the device if it is called. -/
  | send (answer : Bool)
  /-- The free after a send. -/
  | release
  /-- Other code calls the heap, and writes to memory. -/
  | other (op : HeapOp) (mem : Nat → UInt8)

/-- `g_kernel_heap.free` for a ticket. -/
def TxState.free (s : TxState) (ticket buffer : Nat) : Option TxState :=
  (s.heap.next (.free buffer)).map fun heap =>
    { s with heap := heap, ledger := s.ledger.giveBack ticket buffer }

/-- The state after one piece of code, or `none` if it is nobody's turn to run it. -/
def TxState.next (s : TxState) : TxStep → Option TxState
  | .call ticket c =>
    match s.phase ticket with
    | .notCalled =>
      match c.checked with
      | none => some (s.setPhase ticket (.returned none false))
      | some f =>
        some (s.setPhase ticket (if s.started then .allocating f else .sending f))
    | _ => none
  | .direct ticket answer =>
    match s.phase ticket with
    | .sending f =>
      let result := f.reaches && answer
      some
        { s.setPhase ticket (.returned (some f) result) with
          passed := s.passed ++ deviceCalls ticket f answer
          accepted := s.accepted ++ if result then [(ticket, f)] else [] }
    | _ => none
  | .allocate ticket answers =>
    match s.phase ticket with
    | .allocating f =>
      (s.heap.heap.allocate f.bytes.length answers).map fun r =>
        let s' := { s with heap := s.heap.grant f.bytes.length r }
        if r.2 = 0 then s'.setPhase ticket (.returned (some f) false)
        else { s'.setPhase ticket (.copying f r.2) with ledger := s.ledger.grant ticket r.2 }
    | _ => none
  | .copy ticket junk =>
    match s.phase ticket with
    | .copying f buffer =>
      (s.heap.next (.write buffer f.bytes.length junk)).map fun heap =>
        { s.setPhase ticket (.locking f buffer) with
          heap := heap, mem := writeBytes s.mem buffer f.bytes }
    | _ => none
  | .push ticket =>
    match s.phase ticket with
    | .locking f buffer =>
      if s.txQueueFull then some (s.setPhase ticket (.dropping f buffer))
      else some
        { s.setPhase ticket (.returned (some f) true) with
          queue := s.queue.set s.head ⟨f.dev, buffer, f.bytes.length, ticket⟩
          head := (s.head + 1) % NET_TX_QUEUE_CAPACITY
          accepted := s.accepted ++ [(ticket, f)] }
    | _ => none
  | .drop ticket =>
    match s.phase ticket with
    | .dropping f buffer => (s.setPhase ticket (.returned (some f) false)).free ticket buffer
    | _ => none
  | .take =>
    match s.worker with
    | .loop =>
      if s.started = false then none
      else if s.txQueueEmpty then some { s with worker := .sleeping }
      else
        let entry := s.queue.getD s.tail .blank
        some
          { s with
            queue := s.queue.set s.tail .blank
            tail := (s.tail + 1) % NET_TX_QUEUE_CAPACITY
            worker := if entry.buffer = 0 then .sleeping else .taken entry }
    | _ => none
  | .wake =>
    match s.worker with
    | .sleeping => some { s with worker := .loop }
    | _ => none
  | .send answer =>
    match s.worker with
    | .taken entry =>
      some
        { s with
          passed := s.passed ++ deviceCalls entry.ticket (entry.frame s.mem) answer
          worker := .sent entry }
    | _ => none
  | .release =>
    match s.worker with
    | .sent entry => { s with worker := .loop }.free entry.ticket entry.buffer
    | _ => none
  | .other op mem => (s.heap.next op).map fun heap => { s with heap := heap, mem := mem }

/-- Other code leaves the buffers of the queue alone, and does not set up the heap anew. -/
def LeavesBuffers (s : TxState) : HeapOp → Prop
  | .init _ _ => False
  | .free ptr => ∀ ticket, ¬ s.ledger.Open ticket ptr
  | .write ptr _ _ => ∀ ticket, ¬ s.ledger.Open ticket ptr
  | _ => True

/-- What the pieces of code may rely on. The physical allocator hands out disjoint pages, and
other code uses the heap as it may, and writes no buffer of the queue. The frees of the queue are
not restricted. -/
def TxState.Allowed (s : TxState) : TxStep → Prop
  | .allocate ticket answers =>
    ∀ f, s.phase ticket = .allocating f →
      ∀ grow ∈ expandRequest (alignUp f.bytes.length HEAP_MIN_ALIGNMENT) HEAP_MIN_ALIGNMENT,
        AnswersOk grow.1 s.heap.heap.regions answers
  | .other op mem =>
    s.heap.Allowed op ∧ LeavesBuffers s op ∧
      ∀ g ∈ s.heap.live, ∀ ticket, s.ledger.Open ticket g.1 →
        readBytes mem g.1 g.2 = readBytes s.mem g.1 g.2
  | _ => True

/-- Before the first call of `queue_packet` the queue is empty and the background task, if there is
one, is at the head of its loop. Other code has used the heap. -/
structure TxState.Initial (s : TxState) : Prop where
  heap : heapSystem.Reachable s.heap
  queue : s.queue = List.replicate NET_TX_QUEUE_CAPACITY .blank
  head : s.head = 0
  tail : s.tail = 0
  phase : ∀ ticket, s.phase ticket = .notCalled
  worker : s.worker = .loop
  accepted : s.accepted = []
  passed : s.passed = []
  ledger : s.ledger = Ledger.empty

/-- The transmit queue with all its tasks. -/
def txSystem : TransitionSystem TxState TxStep :=
  (TransitionSystem.ofFun TxState.Initial TxState.next).restrict TxState.Allowed

/-- A call whose packet is going to be queued names a device with a send function. -/
def TxState.NamesSender (s : TxState) : TxStep → Prop
  | .call _ c => s.started = true → ∀ f ∈ c.checked, f.dev.any TxDevice.canSend = true
  | _ => True

/-- The step is one of the background task. -/
def TxStep.byWorker : TxStep → Bool
  | .take => true
  | .wake => true
  | .send _ => true
  | .release => true
  | _ => false

end VKernel.Net

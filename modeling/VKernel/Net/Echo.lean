import VKernel.Lib.ByteRange
import VKernel.Net.Ipv4

/-!
# `VKernel.Net.Echo`: sending ICMP echo messages, from `icmp.cpp`

`sendEcho` builds a message in a buffer from the heap. The length of the message is a `u16`, and
so is what the heap is asked for, while the payload is copied with its own length. The buffer is
memory with the first byte at address 0, and the writes are kept in a list: each with its offset
and its bytes, whether the buffer goes that far or not.

`replyTo` is the part of `observe_packet` that answers a request.
-/

set_option autoImplicit false

namespace VKernel.Net

open VKernel.Lib

/-- A write into the packet buffer: where it starts and what is written. -/
structure BufferWrite where
  offset : Nat
  bytes : List UInt8
  deriving DecidableEq, Repr

/-- The write ends inside a buffer of this size. -/
def BufferWrite.Inside (w : BufferWrite) (size : Nat) : Prop := w.offset + w.bytes.length ≤ size

/-- The memory after some writes. -/
def applyWrites (mem : Nat → UInt8) (writes : List BufferWrite) : Nat → UInt8 :=
  writes.foldl (fun mem w => writeBytes mem w.offset w.bytes) mem

/-- What the heap answers a request for `size` bytes. It has nothing of size 0. -/
def heapAllocates (size : Nat) (available : Bool) : Bool := size != 0 && available

/-- The writes of `send_echo` in front of the checksum: the fields of an `icmp_echo_header`, and
the payload behind it. -/
def echoWrites (type : UInt8) (identifier sequence : UInt16) (payload : List UInt8) :
    List BufferWrite :=
  [⟨0, [type]⟩, ⟨1, [0]⟩, ⟨2, store16 0⟩, ⟨4, store16 (bswap16 identifier)⟩,
    ⟨6, store16 (bswap16 sequence)⟩] ++
  if payload.length > 0 then [⟨ICMP_ECHO_HEADER_BYTES, payload⟩] else []

/-- A call of `send_echo`: the size of the buffer that it asks for, its writes there, and what
the IPv4 layer makes of the message. -/
structure EchoCall where
  packetLength : Nat
  writes : List BufferWrite
  sent : Option (List UInt8) × Ipv4State

/-- `send_echo`. `mem` is what the buffer and the memory behind it hold before the call, and
`available` says whether the heap has a block of the size. -/
def sendEcho (s : Ipv4State) (env : SendEnv) (mem : Nat → UInt8) (available : Bool) (devId : Nat)
    (dev : NetDevice) (type : UInt8) (srcIp dstIp : Ipv4Address) (identifier sequence : UInt16)
    (payload : List UInt8) : EchoCall :=
  let packetLength := (UInt16.ofNat (ICMP_ECHO_HEADER_BYTES + payload.length)).toNat
  if heapAllocates packetLength available = false then ⟨packetLength, [], (none, s)⟩
  else
    let writes := echoWrites type identifier sequence payload
    let filled := applyWrites mem writes
    let sum := internetChecksum (readBytes filled 0 packetLength)
    let checksum : BufferWrite := ⟨2, store16 (bswap16 sum)⟩
    let packet := readBytes (applyWrites filled [checksum]) 0 packetLength
    ⟨packetLength, writes ++ [checksum],
      sendImpl s env devId dev ⟨srcIp, dstIp, PROTOCOL_ICMP, 64⟩ packet⟩

/-- The reply that `observe_packet` sends for a packet from `srcIp` to `dstIp`. -/
def replyTo (s : Ipv4State) (env : SendEnv) (mem : Nat → UInt8) (available : Bool) (devId : Nat)
    (dev : NetDevice) (srcIp dstIp : Ipv4Address) (packet : List UInt8) : Option EchoCall :=
  match observePacket packet with
  | some (.echoRequest identifier sequence payload) =>
    some (sendEcho s env mem available devId dev ICMP_ECHO_REPLY dstIp srcIp identifier sequence
      payload)
  | _ => none

end VKernel.Net

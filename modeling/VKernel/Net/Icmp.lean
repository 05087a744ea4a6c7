import VKernel.Net.Wire

/-!
# `VKernel.Net.Icmp`: the ICMP handler of `icmp.cpp`

`observe_packet` is the only protocol handler that `ipv4::observe_frame` calls. What it does
with a packet is the `IcmpEvent`: the log line or the reply it goes on to send.
-/

set_option autoImplicit false

namespace VKernel.Net

/-- `ICMP_HEADER_BYTES`. -/
def ICMP_HEADER_BYTES : Nat := 4

/-- `ICMP_ECHO_HEADER_BYTES`. -/
def ICMP_ECHO_HEADER_BYTES : Nat := 8

/-- `icmp::type::echo_reply`. -/
def ICMP_ECHO_REPLY : UInt8 := 0

/-- `icmp::type::echo_request`. -/
def ICMP_ECHO_REQUEST : UInt8 := 8

/-- What `icmp::observe_packet` makes of a packet that it handles. -/
inductive IcmpEvent
  /-- The checksum over the packet is not 0: the packet is dropped with a log line. -/
  | badChecksum
  /-- An echo message with a code, or one that is too short: nothing happens. -/
  | malformedEcho
  /-- An echo request. The handler goes on to queue a reply with these values. -/
  | echoRequest (identifier sequence : UInt16) (payload : List UInt8)
  /-- An echo reply is logged. -/
  | echoReply (identifier sequence : UInt16) (payloadLength : Nat)
  /-- Any other type is logged. -/
  | other (type code : UInt8)
  deriving DecidableEq, Repr

/-- `icmp::observe_packet`. `none` is the result `false`: the packet is too short to be
handled. -/
def observePacket (packet : List UInt8) : Option IcmpEvent :=
  let type := byteAt packet 0
  let code := byteAt packet 1
  let malformed := code ≠ 0 ∨ packet.length < ICMP_ECHO_HEADER_BYTES
  let identifier := bswap16 (load16 packet 4)
  let sequence := bswap16 (load16 packet 6)
  if packet.length < ICMP_HEADER_BYTES then none
  else if internetChecksum packet ≠ 0 then some .badChecksum
  else if type = ICMP_ECHO_REQUEST then
    if malformed then some .malformedEcho
    else some (.echoRequest identifier sequence (packet.drop ICMP_ECHO_HEADER_BYTES))
  else if type = ICMP_ECHO_REPLY then
    if malformed then some .malformedEcho
    else some (.echoReply identifier sequence (packet.length - ICMP_ECHO_HEADER_BYTES))
  else some (.other type code)

end VKernel.Net

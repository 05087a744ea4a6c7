import VKernel.Net.Icmp

/-!
# `VKernel.Net.Ipv4`: sending and receiving IPv4 packets, from `ipv4.cpp`

`sendImpl` builds a header of 20 bytes in front of the payload and hands it to
`transmitEthernet`; `observeFrame` takes a frame apart again. Both work on the global state
of the file: the next identification and the table of configured device addresses.

The outcome of the two heap allocations and of `arp::resolve` on a call are arguments
(`SendEnv`): any answer of the heap and of the ARP exchange is allowed.
-/

set_option autoImplicit false

namespace VKernel.Net

/-! ### The state -/

/-- `MAX_IPV4_DEVICE_CONFIGS`. -/
def MAX_IPV4_DEVICE_CONFIGS : Nat := 8

/-- `device_ipv4_config`. A device is named by its place in the registry. -/
structure DeviceIpv4Config where
  dev : Nat
  valid : Bool
  localIp : Ipv4Address
  deriving DecidableEq, Repr

/-- The file's globals: `s_next_identification` and `s_device_configs`. -/
structure Ipv4State where
  nextIdentification : UInt16
  configs : List DeviceIpv4Config
  deriving DecidableEq, Repr

/-- The state before the first call. -/
def Ipv4State.initial : Ipv4State :=
  ⟨1, List.replicate MAX_IPV4_DEVICE_CONFIGS ⟨0, false, zeroIpv4⟩⟩

/-- `next_identification`. The identification 0 is skipped. -/
def Ipv4State.takeIdentification (s : Ipv4State) : UInt16 × Ipv4State :=
  let next := s.nextIdentification + 1
  (s.nextIdentification, { s with nextIdentification := if next = 0 then 1 else next })

/-- The entry of a device in the table. -/
def DeviceIpv4Config.isFor (dev : Nat) (c : DeviceIpv4Config) : Bool := c.valid && c.dev == dev

/-- `configured_address`. -/
def Ipv4State.configuredAddress (s : Ipv4State) (dev : Nat) : Option Ipv4Address :=
  (s.configs.find? (DeviceIpv4Config.isFor dev)).map DeviceIpv4Config.localIp

/-- The table with the first entry that passes the test replaced. -/
def replaceFirst (p : DeviceIpv4Config → Bool) (c : DeviceIpv4Config) :
    List DeviceIpv4Config → List DeviceIpv4Config
  | [] => []
  | d :: ds => if p d then c :: ds else d :: replaceFirst p c ds

/-- `configure_device`: the device's own entry is updated, else the first invalid entry is
taken. `none` is the result `false`. -/
def Ipv4State.configureDevice (s : Ipv4State) (dev : Nat) (localIp : Ipv4Address) :
    Option Ipv4State :=
  if s.configs.any (DeviceIpv4Config.isFor dev) then
    some { s with
      configs := replaceFirst (DeviceIpv4Config.isFor dev) ⟨dev, true, localIp⟩ s.configs }
  else if s.configs.any fun c => !c.valid then
    some { s with configs := replaceFirst (fun c => !c.valid) ⟨dev, true, localIp⟩ s.configs }
  else none

/-! ### The header -/

/-- `IPV4_HEADER_BYTES`. -/
def IPV4_HEADER_BYTES : Nat := 20

/-- `IPV4_MAX_HEADER_BYTES`. -/
def IPV4_MAX_HEADER_BYTES : Nat := 60

/-- `IPV4_VERSION`. -/
def IPV4_VERSION : UInt8 := 4

/-- `IPV4_IHL_WORDS`. -/
def IPV4_IHL_WORDS : UInt8 := 5

/-- `IPV4_FLAG_DF`. -/
def IPV4_FLAG_DF : UInt16 := 0x4000

/-- `protocol::icmp`. -/
def PROTOCOL_ICMP : UInt8 := 1

/-- `ipv4_header`. The `Be` fields hold the value as it is loaded from memory. -/
structure Ipv4Header where
  versionIhl : UInt8
  dscpEcn : UInt8
  totalLengthBe : UInt16
  identificationBe : UInt16
  flagsFragmentBe : UInt16
  ttl : UInt8
  protocol : UInt8
  headerChecksumBe : UInt16
  srcIp : Ipv4Address
  dstIp : Ipv4Address
  deriving DecidableEq, Repr

/-- The header in memory. -/
def Ipv4Header.toBytes (h : Ipv4Header) : List UInt8 :=
  [h.versionIhl, h.dscpEcn] ++ store16 h.totalLengthBe ++ store16 h.identificationBe ++
    store16 h.flagsFragmentBe ++ [h.ttl, h.protocol] ++ store16 h.headerChecksumBe ++
    h.srcIp.bytes.toList ++ h.dstIp.bytes.toList

/-- The header at an offset of a frame. -/
def ipv4HeaderAt (bytes : List UInt8) (i : Nat) : Ipv4Header where
  versionIhl := byteAt bytes i
  dscpEcn := byteAt bytes (i + 1)
  totalLengthBe := load16 bytes (i + 2)
  identificationBe := load16 bytes (i + 4)
  flagsFragmentBe := load16 bytes (i + 6)
  ttl := byteAt bytes (i + 8)
  protocol := byteAt bytes (i + 9)
  headerChecksumBe := load16 bytes (i + 10)
  srcIp := ipv4At bytes (i + 12)
  dstIp := ipv4At bytes (i + 16)

/-! ### Sending -/

/-- `send_params`. -/
structure SendParams where
  srcIp : Ipv4Address
  dstIp : Ipv4Address
  proto : UInt8
  ttl : UInt8
  deriving DecidableEq, Repr

/-- The answers a call of `send_impl` gets: whether the packet buffer and the frame buffer
can be allocated, and what `arp::resolve` returns for a source and a destination. -/
structure SendEnv where
  packetBuffer : Bool
  frameBuffer : Bool
  resolve : Ipv4Address → Ipv4Address → Option MacAddress

/-- The source address of a packet: the one asked for, or the device's own. -/
def Ipv4State.sourceAddress (s : Ipv4State) (devId : Nat) (p : SendParams) : Option Ipv4Address :=
  if p.srcIp = zeroIpv4 then s.configuredAddress devId else some p.srcIp

/-- The header that `send_impl` fills in, with its checksum field still 0. -/
def sendHeader (p : SendParams) (srcIp : Ipv4Address) (totalLength identification : UInt16) :
    Ipv4Header where
  versionIhl := (IPV4_VERSION <<< 4) ||| IPV4_IHL_WORDS
  dscpEcn := 0
  totalLengthBe := bswap16 totalLength
  identificationBe := bswap16 identification
  flagsFragmentBe := bswap16 IPV4_FLAG_DF
  ttl := p.ttl
  protocol := p.proto
  headerChecksumBe := 0
  srcIp := srcIp
  dstIp := p.dstIp

/-- `send_impl`: the frame that reaches the device layer, and the new state. `none` is a
result `false` before the frame is handed over. -/
def sendImpl (s : Ipv4State) (env : SendEnv) (devId : Nat) (dev : NetDevice) (p : SendParams)
    (payload : List UInt8) : Option (List UInt8) × Ipv4State :=
  if IPV4_HEADER_BYTES + payload.length > dev.mtu.toNat then (none, s)
  else if env.packetBuffer = false then (none, s)
  else
    match s.sourceAddress devId p with
    | none => (none, s)
    | some srcIp =>
      match env.resolve srcIp p.dstIp with
      | none => (none, s)
      | some dstMac =>
        let totalLength := UInt16.ofNat (IPV4_HEADER_BYTES + payload.length)
        let id := s.takeIdentification
        let header := sendHeader p srcIp totalLength id.1
        let header :=
          { header with headerChecksumBe := bswap16 (internetChecksum header.toBytes) }
        (transmitEthernet dev env.frameBuffer dstMac .ipv4 (header.toBytes ++ payload), id.2)

/-! ### Receiving -/

/-- What `observe_frame` takes out of an accepted frame: the values it passes to
`arp::insert` and to the protocol switch. -/
structure Ipv4Packet where
  srcMac : MacAddress
  srcIp : Ipv4Address
  dstIp : Ipv4Address
  protocol : UInt8
  payload : List UInt8
  deriving DecidableEq, Repr

/-- The protocol switch: ICMP has a handler, other protocols are only logged. -/
def Ipv4Packet.handle (p : Ipv4Packet) : Option IcmpEvent :=
  if p.protocol = PROTOCOL_ICMP then observePacket p.payload else none

/-- The three ways out of `observe_frame`. -/
inductive Observed
  /-- The result `false`. -/
  | ignored
  /-- The header checksum test failed: the packet is dropped, the result is `true`. -/
  | badChecksum
  /-- The packet went through the protocol switch, where a handler may have taken it; the
  result is `true`. -/
  | accepted (packet : Ipv4Packet) (handled : Option IcmpEvent)
  deriving DecidableEq, Repr

/-- The header bytes with the checksum field cleared. -/
def clearChecksum (header : List UInt8) : List UInt8 := (header.set 10 0).set 11 0

/-- The header of a frame as it was received, with its options. -/
def receivedHeader (frame : List UInt8) : List UInt8 :=
  (frame.drop ETHERNET_HEADER_BYTES).take ((byteAt frame ETHERNET_HEADER_BYTES &&& 0x0F).toNat * 4)

/-- The value of the checksum field of a header. -/
def checksumField (header : List UInt8) : UInt16 := bswap16 (load16 header 10)

/-- `observe_frame` on device `devId`. -/
def observeFrame (s : Ipv4State) (devId : Nat) (frame : List UInt8) : Observed :=
  let header := ipv4HeaderAt frame ETHERNET_HEADER_BYTES
  let version := header.versionIhl >>> 4
  let ihlWords := header.versionIhl &&& 0x0F
  let headerBytes := ihlWords.toNat * 4
  let totalLength := (bswap16 header.totalLengthBe).toNat
  let headerCopy := (frame.drop ETHERNET_HEADER_BYTES).take headerBytes
  let packet : Ipv4Packet :=
    ⟨macAt frame 6, header.srcIp, header.dstIp, header.protocol,
      (frame.drop (ETHERNET_HEADER_BYTES + headerBytes)).take (totalLength - headerBytes)⟩
  if frame.length < ETHERNET_HEADER_BYTES + IPV4_HEADER_BYTES then .ignored
  else if bswap16 (load16 frame 12) ≠ EtherType.ipv4.toUInt16 then .ignored
  else if version ≠ IPV4_VERSION ∨ ihlWords < IPV4_IHL_WORDS then .ignored
  else if headerBytes > IPV4_MAX_HEADER_BYTES then .ignored
  else if frame.length < ETHERNET_HEADER_BYTES + headerBytes ∨ totalLength < headerBytes ∨
      frame.length < ETHERNET_HEADER_BYTES + totalLength then .ignored
  else if s.configuredAddress devId ≠ some header.dstIp then .ignored
  else if internetChecksum (clearChecksum headerCopy) ≠ bswap16 header.headerChecksumBe then
    .badChecksum
  else .accepted packet packet.handle

end VKernel.Net

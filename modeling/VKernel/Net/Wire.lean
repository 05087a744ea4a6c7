import Mathlib.Data.UInt
import VKernel.Types

/-!
# `VKernel.Net.Wire`: packets as bytes, from `net.h`, `net_wire.h` and `net_packet.cpp`

A packet is the list of its bytes. The packed header structs of `net_wire.h` are read and
written through pointers, so a 16-bit field sits in memory with its low byte first, and the
`_be` fields hold the byte-swapped value: `load16` and `store16` are the memory accesses,
`bswap16` is the code's own conversion.

`transmitEthernet` is `transmit_ethernet` up to the call into the device layer: its result
is the frame that is handed to `send_packet` or `queue_packet`, or `none` when it returns
before that. The log is left out, and so are the null checks of arguments that are values here.
-/

set_option autoImplicit false

namespace VKernel.Net

/-! ### Addresses and byte order -/

/-- `mac_address`. -/
structure MacAddress where
  bytes : Vector UInt8 6
  deriving DecidableEq, Repr

/-- `ipv4_address`. -/
structure Ipv4Address where
  bytes : Vector UInt8 4
  deriving DecidableEq, Repr

/-- `make_mac`. -/
def makeMac (b0 b1 b2 b3 b4 b5 : UInt8) : MacAddress := ⟨#v[b0, b1, b2, b3, b4, b5]⟩

/-- `make_ipv4`. -/
def makeIpv4 (a b c d : UInt8) : Ipv4Address := ⟨#v[a, b, c, d]⟩

/-- `zero_ipv4`. -/
def zeroIpv4 : Ipv4Address := makeIpv4 0 0 0 0

/-- `bswap16`. -/
def bswap16 (value : UInt16) : UInt16 := (value <<< 8) ||| (value >>> 8)

/-- The byte at an offset of a packet. Every caller has checked the length. -/
def byteAt (bytes : List UInt8) (i : Nat) : UInt8 := bytes.getD i 0

/-- A 16-bit load at an offset of a packet. -/
def load16 (bytes : List UInt8) (i : Nat) : UInt16 :=
  (byteAt bytes i).toUInt16 ||| ((byteAt bytes (i + 1)).toUInt16 <<< 8)

/-- The two bytes of a 16-bit store. -/
def store16 (value : UInt16) : List UInt8 := [value.toUInt8, (value >>> 8).toUInt8]

/-- A `mac_address` field at an offset of a packet. -/
def macAt (bytes : List UInt8) (i : Nat) : MacAddress :=
  makeMac (byteAt bytes i) (byteAt bytes (i + 1)) (byteAt bytes (i + 2)) (byteAt bytes (i + 3))
    (byteAt bytes (i + 4)) (byteAt bytes (i + 5))

/-- An `ipv4_address` field at an offset of a packet. -/
def ipv4At (bytes : List UInt8) (i : Nat) : Ipv4Address :=
  makeIpv4 (byteAt bytes i) (byteAt bytes (i + 1)) (byteAt bytes (i + 2)) (byteAt bytes (i + 3))

/-! ### The internet checksum -/

/-- One addition of the loop of `internet_checksum`, with the carry folded back in. -/
def addWord (sum : UInt32) (word : UInt16) : UInt32 :=
  let sum := sum + word.toUInt32
  if sum > 0xFFFF then (sum &&& 0xFFFF) + 1 else sum

/-- The loop of `internet_checksum`. An odd last byte is the high byte of a word. -/
def checksumFrom (sum : UInt32) : List UInt8 → UInt32
  | [] => sum
  | [a] => addWord sum (a.toUInt16 <<< 8)
  | a :: b :: rest => checksumFrom (addWord sum ((a.toUInt16 <<< 8) ||| b.toUInt16)) rest

/-- `internet_checksum`. -/
def internetChecksum (bytes : List UInt8) : UInt16 := (~~~ (checksumFrom 0 bytes)).toUInt16

/-- The 16-bit words of a byte string with the high byte first. An odd last byte is padded with
zero. -/
def bigEndianWords : List UInt8 → List Nat
  | [] => []
  | [a] => [a.toNat * 256]
  | a :: b :: rest => (a.toNat * 256 + b.toNat) :: bigEndianWords rest

theorem le_of_mem_bigEndianWords (bytes : List UInt8) : ∀ x ∈ bigEndianWords bytes, x ≤ 65535 := by
  induction bytes using bigEndianWords.induct with
  | case1 => simp [bigEndianWords]
  | case2 a =>
    have ha := a.toNat_lt
    rw [bigEndianWords, List.forall_mem_singleton]
    omega
  | case3 a b rest ih =>
    have ha := a.toNat_lt
    have hb := b.toNat_lt
    rw [bigEndianWords, List.forall_mem_cons]
    exact ⟨by omega, ih⟩

/-! ### Ethernet frames -/

/-- `ETHERNET_HEADER_BYTES`. -/
def ETHERNET_HEADER_BYTES : Nat := 14

/-- `ETHERNET_MIN_FRAME_BYTES`. -/
def ETHERNET_MIN_FRAME_BYTES : Nat := 60

/-- `ether_type`. -/
inductive EtherType
  | ipv4 | arp
  deriving DecidableEq, Repr

/-- The value of an `ether_type`. -/
def EtherType.toUInt16 : EtherType → UInt16
  | .ipv4 => 0x0800
  | .arp => 0x0806

/-- `net_device`, the fields that building a frame and the object tree read. -/
structure NetDevice where
  name : StaticString 32
  mac : MacAddress
  mtu : UInt16
  deriving DecidableEq, Repr

/-- The bytes of an `ethernet_header`. -/
def ethernetHeader (dst src : MacAddress) (etherTypeBe : UInt16) : List UInt8 :=
  dst.bytes.toList ++ src.bytes.toList ++ store16 etherTypeBe

/-- `transmit_ethernet`. `frameBuffer` says whether the frame buffer could be allocated. -/
def transmitEthernet (dev : NetDevice) (frameBuffer : Bool) (dst : MacAddress)
    (type : EtherType) (payload : List UInt8) : Option (List UInt8) :=
  if payload.length > dev.mtu.toNat then none
  else if frameBuffer = false then none
  else
    let unpadded := ETHERNET_HEADER_BYTES + payload.length
    let frameLength :=
      if unpadded < ETHERNET_MIN_FRAME_BYTES then ETHERNET_MIN_FRAME_BYTES else unpadded
    some (ethernetHeader dst dev.mac (bswap16 type.toUInt16) ++ payload ++
      List.replicate (frameLength - unpadded) 0)

end VKernel.Net

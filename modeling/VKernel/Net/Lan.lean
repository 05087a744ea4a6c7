import Mathlib.Logic.Function.Basic
import VKernel.Lib.Transition
import VKernel.Net.Arp
import VKernel.Net.Echo

/-!
# `VKernel.Net.Lan`: hosts on one network

Several hosts run the network code of the kernel, and whatever one of them hands to a device is
on the wire for all of them. A frame on the wire may reach any device, at any time and any number
of times, or no device at all. There may also be hosts of another kind: `foreign` puts any bytes
on the wire.

A host has one task that takes frames from its devices (`background_rx_task`) and any number of
tasks that send echo requests. `send_impl` waits in `arp::resolve` for an answer that the receive
task has to process, so a call of it is a `SendCall` that takes one step for each access to the
cache. The receive task sends its own replies the same way and takes no frame in the meantime.

The transmit queue and the driver belong to the wire: a frame that they drop, or send late or
twice, is one that arrives like that.
-/

set_option autoImplicit false

namespace VKernel.Net

open VKernel.Lib

/-! ### ARP frames, from `net_packet.cpp` -/

/-- `arp_operation`. -/
inductive ArpOperation
  | request | reply
  deriving DecidableEq, Repr

/-- The value of an `arp_operation`. -/
def ArpOperation.toUInt16 : ArpOperation → UInt16
  | .request => 1
  | .reply => 2

/-- `broadcast_mac`. -/
def broadcastMac : MacAddress := makeMac 0xFF 0xFF 0xFF 0xFF 0xFF 0xFF

/-- `zero_mac`. -/
def zeroMac : MacAddress := makeMac 0 0 0 0 0 0

/-- The bytes of an `arp_ethernet_ipv4_packet`. -/
def arpPacket (op : ArpOperation) (senderMac : MacAddress) (senderIp : Ipv4Address)
    (targetMac : MacAddress) (targetIp : Ipv4Address) : List UInt8 :=
  store16 (bswap16 ARP_ETHERNET_HTYPE) ++ store16 (bswap16 EtherType.ipv4.toUInt16) ++
    [ARP_HLEN_ETHERNET, ARP_PLEN_IPV4] ++ store16 (bswap16 op.toUInt16) ++
    senderMac.bytes.toList ++ senderIp.bytes.toList ++ targetMac.bytes.toList ++
    targetIp.bytes.toList

/-- `send_arp_impl`, up to the call into the device layer. -/
def sendArpImpl (dev : NetDevice) (frameBuffer : Bool) (op : ArpOperation)
    (targetMac : MacAddress) (senderIp targetIp : Ipv4Address) : Option (List UInt8) :=
  transmitEthernet dev frameBuffer (if op = .request then broadcastMac else targetMac) .arp
    (arpPacket op dev.mac senderIp targetMac targetIp)

/-- `send_arp_request`. -/
def sendArpRequest (dev : NetDevice) (frameBuffer : Bool) (senderIp targetIp : Ipv4Address) :
    Option (List UInt8) :=
  sendArpImpl dev frameBuffer .request zeroMac senderIp targetIp

/-- `queue_arp_reply`. -/
def queueArpReply (dev : NetDevice) (frameBuffer : Bool) (targetMac : MacAddress)
    (senderIp targetIp : Ipv4Address) : Option (List UInt8) :=
  sendArpImpl dev frameBuffer .reply targetMac senderIp targetIp

/-! ### A call of `send_impl`, step by step -/

/-- How far a call is. -/
inductive SendPhase
  /-- In front of the first `lookup` of `arp::resolve`. -/
  | lookup
  /-- In front of `send_arp_request`. -/
  | request
  /-- In the loop that waits for the reply. -/
  | polling
  /-- `arp::resolve` has returned `true`. -/
  | found (dstMac : MacAddress)
  deriving DecidableEq, Repr

/-- A call of `send_impl` that has picked its source address: `params.srcIp` is the address
that goes into the header. -/
structure SendCall where
  devId : Nat
  params : SendParams
  payload : List UInt8
  phase : SendPhase
  deriving DecidableEq, Repr

/-- `send_impl` in front of `arp::resolve`. `packetBuffer` says whether the packet buffer could
be allocated. -/
def startSend (s : Ipv4State) (devId : Nat) (dev : NetDevice) (packetBuffer : Bool)
    (p : SendParams) (payload : List UInt8) : Option SendCall :=
  if IPV4_HEADER_BYTES + payload.length > dev.mtu.toNat then none
  else if packetBuffer = false then none
  else (s.sourceAddress devId p).map fun srcIp =>
    ⟨devId, { p with srcIp := srcIp }, payload, .lookup⟩

/-- `send_impl` behind `arp::resolve`. -/
def sendResolved (s : Ipv4State) (dev : NetDevice) (frameBuffer : Bool) (p : SendParams)
    (dstMac : MacAddress) (payload : List UInt8) : Option (List UInt8) × Ipv4State :=
  let totalLength := UInt16.ofNat (IPV4_HEADER_BYTES + payload.length)
  let id := s.takeIdentification
  let header := sendHeader p p.srcIp totalLength id.1
  let header := { header with headerChecksumBe := bswap16 (internetChecksum header.toBytes) }
  (transmitEthernet dev frameBuffer dstMac .ipv4 (header.toBytes ++ payload), id.2)

/-- Both parts, with the answer of `arp::resolve` between them. -/
def sendAll (s : Ipv4State) (env : SendEnv) (dev : NetDevice) (c : SendCall) :
    Option (List UInt8) × Ipv4State :=
  (env.resolve c.params.srcIp c.params.dstIp).elim (none, s) fun dstMac =>
    sendResolved s dev env.frameBuffer c.params dstMac c.payload

/-- The two parts are `send_impl`. -/
theorem sendImpl_eq (s : Ipv4State) (env : SendEnv) (devId : Nat) (dev : NetDevice)
    (p : SendParams) (payload : List UInt8) :
    sendImpl s env devId dev p payload =
      (startSend s devId dev env.packetBuffer p payload).elim (none, s) (sendAll s env dev) := by
  rw [sendImpl, startSend]
  by_cases hmtu : IPV4_HEADER_BYTES + payload.length > dev.mtu.toNat
  · rw [if_pos hmtu, if_pos hmtu]
    rfl
  · rw [if_neg hmtu, if_neg hmtu]
    by_cases hbuffer : env.packetBuffer = false
    · rw [if_pos hbuffer, if_pos hbuffer]
      rfl
    · rw [if_neg hbuffer, if_neg hbuffer]
      cases s.sourceAddress devId p with
      | none => rfl
      | some srcIp =>
        dsimp only [Option.map_some, Option.elim_some, sendAll]
        cases env.resolve srcIp p.dstIp with
        | none => rfl
        | some dstMac => rfl

/-- What a step of a call finds: whether a frame buffer can be allocated, whether the device
takes the frame, and whether `ARP_RESOLVE_TIMEOUT_TICKS` have passed. -/
structure Answers where
  frameBuffer : Bool
  accepted : Bool
  timedOut : Bool
  deriving DecidableEq, Repr

/-- What a step of a call does: the identification counter behind it, the rest of the call, and a
frame for the device. -/
structure CallStep where
  ipv4 : Ipv4State
  next : Option SendCall
  frame : Option (List UInt8)
  deriving DecidableEq, Repr

/-- One step of `send_impl`. -/
def SendCall.step (arp : ArpState) (ipv4 : Ipv4State) (dev : NetDevice) (a : Answers)
    (c : SendCall) : CallStep :=
  let answer := arp.cacheLookupLocked c.params.dstIp
  match c.phase with
  | .lookup => ⟨ipv4, some { c with phase := answer.elim .request .found }, none⟩
  | .request =>
    let frame := sendArpRequest dev a.frameBuffer c.params.srcIp c.params.dstIp
    ⟨ipv4, if frame.isSome ∧ a.accepted = true then some { c with phase := .polling } else none,
      frame⟩
  | .polling =>
    if a.timedOut then ⟨ipv4, none, none⟩
    else ⟨ipv4, some { c with phase := answer.elim .polling .found }, none⟩
  | .found dstMac =>
    let sent := sendResolved ipv4 dev a.frameBuffer c.params dstMac c.payload
    ⟨sent.2, none, sent.1⟩

/-! ### Echo messages -/

/-- The bytes that `send_echo` hands to the IPv4 layer. `mem` is what the buffer and the memory
behind it hold before the call. -/
def echoBytes (mem : Nat → UInt8) (type : UInt8) (identifier sequence : UInt16)
    (payload : List UInt8) : List UInt8 :=
  let packetLength := (UInt16.ofNat (ICMP_ECHO_HEADER_BYTES + payload.length)).toNat
  let filled := applyWrites mem (echoWrites type identifier sequence payload)
  let sum := internetChecksum (readBytes filled 0 packetLength)
  readBytes (applyWrites filled [⟨2, store16 (bswap16 sum)⟩]) 0 packetLength

/-- What the allocations of a call find: the buffers of the echo message, of the IPv4 packet and
of the frame, and what the first of these held before. -/
structure Buffers where
  echo : Bool
  packet : Bool
  frame : Bool
  mem : Nat → UInt8

/-- `send_echo`, up to `arp::resolve`. -/
def startEcho (s : Ipv4State) (devId : Nat) (dev : NetDevice) (b : Buffers) (type : UInt8)
    (srcIp dstIp : Ipv4Address) (identifier sequence : UInt16) (payload : List UInt8) :
    Option SendCall :=
  let packetLength := (UInt16.ofNat (ICMP_ECHO_HEADER_BYTES + payload.length)).toNat
  if heapAllocates packetLength b.echo = false then none
  else startSend s devId dev b.packet ⟨srcIp, dstIp, PROTOCOL_ICMP, 64⟩
    (echoBytes b.mem type identifier sequence payload)

/-- The parts of an echo message that is sent in steps are those of `send_echo`. -/
theorem sendEcho_eq (s : Ipv4State) (env : SendEnv) (b : Buffers)
    (hpacket : b.packet = env.packetBuffer) (devId : Nat) (dev : NetDevice) (type : UInt8)
    (srcIp dstIp : Ipv4Address) (identifier sequence : UInt16) (payload : List UInt8) :
    (sendEcho s env b.mem b.echo devId dev type srcIp dstIp identifier sequence payload).sent =
      (startEcho s devId dev b type srcIp dstIp identifier sequence payload).elim (none, s)
        (sendAll s env dev) := by
  rw [sendEcho, startEcho]
  by_cases hheap : heapAllocates
      (UInt16.ofNat (ICMP_ECHO_HEADER_BYTES + payload.length)).toNat b.echo = false
  · rw [if_pos hheap, if_pos hheap]
    rfl
  · rw [if_neg hheap, if_neg hheap, hpacket]
    exact sendImpl_eq s env devId dev _ _

/-! ### A received frame, from `net.cpp` -/

/-- A host: the globals of `arp.cpp` and `ipv4.cpp`, the reply that the receive task is sending,
and the calls of the other tasks. -/
structure Host where
  arp : ArpState
  ipv4 : Ipv4State
  rx : Option SendCall
  calls : List SendCall

/-- What a received frame leads to. `asked` says that it was a request to this device. -/
structure Dispatch where
  arp : ArpState
  rx : Option SendCall
  frame : Option (List UInt8)
  asked : Bool

/-- `owns_address`. -/
def Ipv4State.ownsAddress (s : Ipv4State) (devId : Nat) (ip : Ipv4Address) : Bool :=
  s.configuredAddress devId == some ip

/-- `arp::observe_frame`. -/
def arpObserveFrame (h : Host) (devId : Nat) (dev : NetDevice) (b : Buffers)
    (frame : List UInt8) : Dispatch :=
  (parseArpFrame frame).elim ⟨h.arp, none, none, false⟩ fun parsed =>
    let arp := h.arp.cacheInsertLocked parsed.senderIp parsed.senderMac
    if parsed.operation = ArpOperation.request.toUInt16 ∧
        h.ipv4.ownsAddress devId parsed.targetIp = true then
      ⟨arp, none, queueArpReply dev b.frame parsed.senderMac parsed.targetIp parsed.senderIp, true⟩
    else ⟨arp, none, none, false⟩

/-- `ipv4::observe_frame`, with the handler of `icmp.cpp`. -/
def ipv4ObserveFrame (h : Host) (devId : Nat) (dev : NetDevice) (b : Buffers)
    (frame : List UInt8) : Dispatch :=
  match observeFrame h.ipv4 devId frame with
  | .accepted packet handled =>
    let arp := h.arp.cacheInsertLocked packet.srcIp packet.srcMac
    match handled with
    | some (.echoRequest identifier sequence payload) =>
      ⟨arp, startEcho h.ipv4 devId dev b ICMP_ECHO_REPLY packet.dstIp packet.srcIp identifier
        sequence payload, none, true⟩
    | _ => ⟨arp, none, none, false⟩
  | _ => ⟨h.arp, none, none, false⟩

/-- The type field of the Ethernet header of a frame. -/
def etherTypeOf (frame : List UInt8) : UInt16 := bswap16 (load16 frame 12)

/-- `dispatch_frame`. -/
def dispatchFrame (h : Host) (devId : Nat) (dev : NetDevice) (b : Buffers) (frame : List UInt8) :
    Dispatch :=
  if frame.length < ETHERNET_HEADER_BYTES then ⟨h.arp, none, none, false⟩
  else if etherTypeOf frame = EtherType.arp.toUInt16 then arpObserveFrame h devId dev b frame
  else if etherTypeOf frame = EtherType.ipv4.toUInt16 then ipv4ObserveFrame h devId dev b frame
  else ⟨h.arp, none, none, false⟩

/-! ### The network -/

/-- A call of `send_echo_request`, with the address of the device it was made on. -/
structure Ping where
  mac : MacAddress
  dstIp : Ipv4Address
  identifier : UInt16
  sequence : UInt16
  payload : List UInt8
  deriving DecidableEq, Repr

/-- The hosts and the wire. The rest is only for statements: which address was configured on
which device, the frames of other hosts, the echo requests that were asked for, and how many
requests were answered. -/
structure Lan (H : Type) where
  hosts : H → Host
  wire : List (List UInt8)
  configured : List (Ipv4Address × MacAddress)
  foreign : List (List UInt8)
  pings : List Ping
  answered : Nat

/-- What happens on the network. -/
inductive LanOp (H : Type)
  /-- `ipv4::configure_device`. -/
  | configure (h : H) (devId : Nat) (ip : Ipv4Address)
  /-- `send_echo_request` is called. -/
  | ping (h : H) (devId : Nat) (b : Buffers) (dstIp : Ipv4Address) (identifier sequence : UInt16)
      (payload : List UInt8)
  /-- A call takes a step. -/
  | call (h : H) (i : Nat) (a : Answers)
  /-- The receive task takes a step of its reply. -/
  | reply (h : H) (a : Answers)
  /-- The receive task takes a frame. -/
  | deliver (h : H) (devId i : Nat) (b : Buffers)
  /-- Another host sends a frame. -/
  | foreign (frame : List UInt8)

namespace Lan

variable {H : Type} [DecidableEq H]

/-- The network after a step of a call, whose rest goes back to the host as `put` says. -/
def afterCall (m : Lan H) (h : H) (r : CallStep) (put : Host → Host) : Lan H :=
  { m with
    hosts := Function.update m.hosts h (put { m.hosts h with ipv4 := r.ipv4 })
    wire := m.wire ++ r.frame.toList }

/-- One step. `devices` are the registered devices of each host. -/
def next (devices : H → Nat → Option NetDevice) (m : Lan H) : LanOp H → Option (Lan H)
  | .configure h devId ip =>
    (devices h devId).bind fun dev =>
      ((m.hosts h).ipv4.configureDevice devId ip).map fun ipv4 =>
        { m with
          hosts := Function.update m.hosts h { m.hosts h with ipv4 := ipv4 }
          configured := (ip, dev.mac) :: m.configured }
  | .ping h devId b dstIp identifier sequence payload =>
    (devices h devId).map fun dev =>
      let call := startEcho (m.hosts h).ipv4 devId dev b ICMP_ECHO_REQUEST zeroIpv4 dstIp
        identifier sequence payload
      { m with
        hosts := Function.update m.hosts h
          { m.hosts h with calls := (m.hosts h).calls ++ call.toList }
        pings := ⟨dev.mac, dstIp, identifier, sequence, payload⟩ :: m.pings }
  | .call h i a =>
    (m.hosts h).calls[i]?.bind fun c => (devices h c.devId).map fun dev =>
      let r := c.step (m.hosts h).arp (m.hosts h).ipv4 dev a
      m.afterCall h r fun host =>
        { host with calls := r.next.elim (host.calls.eraseIdx i) (host.calls.set i) }
  | .reply h a =>
    (m.hosts h).rx.bind fun c => (devices h c.devId).map fun dev =>
      let r := c.step (m.hosts h).arp (m.hosts h).ipv4 dev a
      m.afterCall h r fun host => { host with rx := r.next }
  | .deliver h devId i b =>
    if (m.hosts h).rx.isSome then none
    else m.wire[i]?.bind fun frame => (devices h devId).map fun dev =>
      let r := dispatchFrame (m.hosts h) devId dev b frame
      { m with
        hosts := Function.update m.hosts h { m.hosts h with arp := r.arp, rx := r.rx }
        wire := m.wire ++ r.frame.toList
        answered := m.answered + if r.asked then 1 else 0 }
  | .foreign frame => some { m with wire := m.wire ++ [frame], foreign := frame :: m.foreign }

/-- Every host as it is after `init`, and nothing on the wire. -/
def initial : Lan H := ⟨fun _ => ⟨ArpState.initial, Ipv4State.initial, none, []⟩, [], [], [], [], 0⟩

end Lan

/-- Hosts with these devices on one network. -/
def lanSystem {H : Type} [DecidableEq H] (devices : H → Nat → Option NetDevice) :
    TransitionSystem (Lan H) (LanOp H) :=
  .ofFun (· = Lan.initial) (Lan.next devices)

/-- The length of an echo message is a `u16`, and no request is longer. -/
def EchoFits {H : Type} (_ : Lan H) : LanOp H → Prop
  | .ping _ _ _ _ _ _ payload => ICMP_ECHO_HEADER_BYTES + payload.length < 0x10000
  | _ => True

instance {H : Type} (m : Lan H) : DecidablePred (EchoFits m)
  | .ping _ _ _ _ _ _ _ => inferInstanceAs (Decidable (_ < _))
  | .configure _ _ _ => inferInstanceAs (Decidable True)
  | .call _ _ _ => inferInstanceAs (Decidable True)
  | .reply _ _ => inferInstanceAs (Decidable True)
  | .deliver _ _ _ _ => inferInstanceAs (Decidable True)
  | .foreign _ => inferInstanceAs (Decidable True)

/-! ### What a frame says -/

/-- The bindings that some host could take out of a frame. -/
def claimsOf (frame : List UInt8) : List (Ipv4Address × MacAddress) :=
  if etherTypeOf frame = EtherType.ipv4.toUInt16 then
    [((ipv4HeaderAt frame ETHERNET_HEADER_BYTES).srcIp, macAt frame 6)]
  else (arpInsert frame).toList

/-- Whom a frame is for: the protocol address it names, and the device it is addressed to. A
request of ARP is for everybody. -/
def addressee (frame : List UInt8) : Option (Ipv4Address × MacAddress) :=
  if etherTypeOf frame = EtherType.ipv4.toUInt16 then
    some ((ipv4HeaderAt frame ETHERNET_HEADER_BYTES).dstIp, macAt frame 0)
  else (parseArpFrame frame).bind fun parsed =>
    if parsed.operation = ArpOperation.request.toUInt16 then none
    else some (parsed.targetIp, macAt frame 0)

/-- The address was configured on a device with this MAC, or another host says so. -/
def Lan.Claimed {H : Type} (m : Lan H) (e : Ipv4Address × MacAddress) : Prop :=
  e ∈ m.configured ∨ ∃ frame ∈ m.foreign, e ∈ claimsOf frame

end VKernel.Net

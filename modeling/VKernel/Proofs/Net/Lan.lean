import VKernel.Net.Lan
import VKernel.Proofs.Net.Arp
import VKernel.Proofs.Net.Echo

/-!
# `VKernel.Proofs.Net.Lan`: what the hosts tell each other is true

`lan_safe` holds in every state of every run, whatever the wire loses, repeats or delays. A
binding that a host has cached was configured on a device with that address, unless a host of
another kind said so; what a host sends goes to the device that has the protocol address, in the
same sense. The receive task never waits for an answer that only it could process. An echo reply
answers a request that was on the wire, and a request was asked for.

It rests on what can be read out of a frame that was built: the claims of a frame are those of
its sender. The invariant of a host is `HostOk`, that of a call in progress `CallOk`, and both
are kept when the network `Grows`.
-/

set_option autoImplicit false

namespace VKernel.Proofs.Net

open VKernel.Lib VKernel.Net

/-! ### Frames that are built and taken apart -/

section Frames

variable {dev : NetDevice} {frame payload pad : List UInt8} {dst src : MacAddress}

/-- What `transmit_ethernet` hands to the device. -/
theorem transmitEthernet_some {frameBuffer : Bool} {type : EtherType}
    (h : transmitEthernet dev frameBuffer dst type payload = some frame) :
    payload.length ≤ dev.mtu.toNat ∧
      ∃ pad, frame = ethernetHeader dst dev.mac (bswap16 type.toUInt16) ++ payload ++ pad := by
  rw [transmitEthernet] at h
  split at h
  · cases h
  · rename_i hmtu
    split at h
    · cases h
    · exact ⟨not_lt.mp hmtu, _, (Option.some.inj h).symm⟩

/-- A frame around a packet of ARP. -/
def arpFrameOf (dst src : MacAddress) (op : ArpOperation) (senderIp : Ipv4Address)
    (targetMac : MacAddress) (targetIp : Ipv4Address) (pad : List UInt8) : List UInt8 :=
  ethernetHeader dst src (bswap16 EtherType.arp.toUInt16) ++
    arpPacket op src senderIp targetMac targetIp ++ pad

section Arp

variable (dst src : MacAddress) (op : ArpOperation) (senderIp : Ipv4Address)
  (targetMac : MacAddress) (targetIp : Ipv4Address) (pad : List UInt8)

theorem length_arpFrameOf : (arpFrameOf dst src op senderIp targetMac targetIp pad).length =
    ETHERNET_HEADER_BYTES + ARP_ETHERNET_IPV4_BYTES + pad.length := by
  have hpacket : (arpPacket op src senderIp targetMac targetIp).length =
      ARP_ETHERNET_IPV4_BYTES := by
    simp [arpPacket, store16, ARP_ETHERNET_IPV4_BYTES]
  rw [arpFrameOf, List.length_append, List.length_append, length_ethernetHeader, hpacket]

/-- The headers of such a frame. -/
theorem arpFrameOf_headers :
    load16 (arpFrameOf dst src op senderIp targetMac targetIp pad) 12 =
        bswap16 EtherType.arp.toUInt16 ∧
      load16 (arpFrameOf dst src op senderIp targetMac targetIp pad) 14 =
        bswap16 ARP_ETHERNET_HTYPE ∧
      load16 (arpFrameOf dst src op senderIp targetMac targetIp pad) 16 =
        bswap16 EtherType.ipv4.toUInt16 ∧
      byteAt (arpFrameOf dst src op senderIp targetMac targetIp pad) 18 = ARP_HLEN_ETHERNET ∧
      byteAt (arpFrameOf dst src op senderIp targetMac targetIp pad) 19 = ARP_PLEN_IPV4 ∧
      load16 (arpFrameOf dst src op senderIp targetMac targetIp pad) 20 =
        bswap16 op.toUInt16 := by
  obtain ⟨a, b, c, d, e, f, rfl⟩ := exists_makeMac dst
  obtain ⟨a', b', c', d', e', f', rfl⟩ := exists_makeMac src
  exact ⟨load16_store16 _, load16_store16 _, load16_store16 _, rfl, rfl, load16_store16 _⟩

/-- The addresses in such a frame. -/
theorem arpFrameOf_addresses :
    macAt (arpFrameOf dst src op senderIp targetMac targetIp pad) 0 = dst ∧
      macAt (arpFrameOf dst src op senderIp targetMac targetIp pad) 22 = src ∧
      ipv4At (arpFrameOf dst src op senderIp targetMac targetIp pad) 28 = senderIp ∧
      ipv4At (arpFrameOf dst src op senderIp targetMac targetIp pad) 38 = targetIp := by
  obtain ⟨a, b, c, d, e, f, rfl⟩ := exists_makeMac dst
  obtain ⟨a', b', c', d', e', f', rfl⟩ := exists_makeMac src
  obtain ⟨s0, s1, s2, s3, rfl⟩ := exists_makeIpv4 senderIp
  obtain ⟨m0, m1, m2, m3, m4, m5, rfl⟩ := exists_makeMac targetMac
  obtain ⟨t0, t1, t2, t3, rfl⟩ := exists_makeIpv4 targetIp
  exact ⟨rfl, rfl, rfl, rfl⟩

/-- `parse_arp_frame` reads back what `send_arp_impl` wrote. -/
theorem parseArpFrame_arpFrameOf :
    parseArpFrame (arpFrameOf dst src op senderIp targetMac targetIp pad) =
      some ⟨senderIp, src, targetIp, op.toUInt16⟩ := by
  have hlength := length_arpFrameOf dst src op senderIp targetMac targetIp pad
  obtain ⟨htype, hhardware, hprotocol, hhlen, hplen, hop⟩ :=
    arpFrameOf_headers dst src op senderIp targetMac targetIp pad
  obtain ⟨-, hsender, hsenderIp, htargetIp⟩ :=
    arpFrameOf_addresses dst src op senderIp targetMac targetIp pad
  have hheader : ETHERNET_HEADER_BYTES = 14 := rfl
  have hwell : ¬ (bswap16 (load16 (arpFrameOf dst src op senderIp targetMac targetIp pad) 14) ≠
        ARP_ETHERNET_HTYPE ∨
      bswap16 (load16 (arpFrameOf dst src op senderIp targetMac targetIp pad) 16) ≠
        EtherType.ipv4.toUInt16 ∨
      byteAt (arpFrameOf dst src op senderIp targetMac targetIp pad) 18 ≠ ARP_HLEN_ETHERNET ∨
      byteAt (arpFrameOf dst src op senderIp targetMac targetIp pad) 19 ≠ ARP_PLEN_IPV4) := by
    rw [hhardware, hprotocol, hhlen, hplen, bswap16_bswap16, bswap16_bswap16]
    simp
  rw [parseArpFrame, if_neg (by omega), if_neg (by rw [htype, bswap16_bswap16]; simp)]
  simp only [hheader, Nat.reduceAdd, hwell, if_false, hsender, hsenderIp, htargetIp, hop,
    bswap16_bswap16]

theorem etherTypeOf_arpFrameOf :
    etherTypeOf (arpFrameOf dst src op senderIp targetMac targetIp pad) =
      EtherType.arp.toUInt16 := by
  rw [etherTypeOf, (arpFrameOf_headers dst src op senderIp targetMac targetIp pad).1,
    bswap16_bswap16]

/-- What such a frame says, and to whom. -/
theorem arpFrameOf_reads :
    claimsOf (arpFrameOf dst src op senderIp targetMac targetIp pad) = [(senderIp, src)] ∧
      addressee (arpFrameOf dst src op senderIp targetMac targetIp pad) =
        if op = .request then none else some (targetIp, dst) := by
  have hother : EtherType.arp.toUInt16 ≠ EtherType.ipv4.toUInt16 := by decide
  rw [claimsOf, addressee, etherTypeOf_arpFrameOf, if_neg hother, if_neg hother, arpInsert,
    parseArpFrame_arpFrameOf, (arpFrameOf_addresses dst src op senderIp targetMac targetIp pad).1]
  refine ⟨rfl, ?_⟩
  cases op with
  | request => rfl
  | reply => rfl

end Arp

/-- A chain of tests that ends behind the first branch. -/
theorem ite_eq_of_ne {α : Type} {p : Prop} [Decidable p] {a b c : α}
    (h : (if p then a else b) = c) (hne : a ≠ c) : ¬ p ∧ b = c := by
  by_cases hp : p
  · rw [if_pos hp] at h
    exact absurd h hne
  · rw [if_neg hp] at h
    exact ⟨hp, h⟩

/-- What a receiver of IPv4 takes out of a frame is what the frame says. -/
theorem observeFrame_accepted {r : Ipv4State} {devId : Nat} {packet : Ipv4Packet}
    {handled : Option IcmpEvent} (h : observeFrame r devId frame = .accepted packet handled) :
    etherTypeOf frame = EtherType.ipv4.toUInt16 ∧
      claimsOf frame = [(packet.srcIp, packet.srcMac)] ∧
      r.configuredAddress devId = some packet.dstIp ∧ handled = packet.handle ∧
      packet.payload.length < 0x10000 ∧
      packet.dstIp = (ipv4HeaderAt frame ETHERNET_HEADER_BYTES).dstIp := by
  have hignored : Observed.ignored ≠ .accepted packet handled := Observed.noConfusion
  have hbad : Observed.badChecksum ≠ .accepted packet handled := Observed.noConfusion
  rw [observeFrame] at h
  obtain ⟨-, h⟩ := ite_eq_of_ne h hignored
  obtain ⟨htype, h⟩ := ite_eq_of_ne h hignored
  obtain ⟨-, h⟩ := ite_eq_of_ne h hignored
  obtain ⟨-, h⟩ := ite_eq_of_ne h hignored
  obtain ⟨-, h⟩ := ite_eq_of_ne h hignored
  obtain ⟨hown, h⟩ := ite_eq_of_ne h hignored
  obtain ⟨-, h⟩ := ite_eq_of_ne h hbad
  cases h
  have htype' : etherTypeOf frame = EtherType.ipv4.toUInt16 := not_not.mp htype
  refine ⟨htype', ?_, not_not.mp hown, rfl, ?_, rfl⟩
  · rw [claimsOf, if_pos htype']
  · -- The payload is not longer than the length field says.
    refine Nat.lt_of_le_of_lt (List.length_take_le _ _) (Nat.lt_of_le_of_lt (Nat.sub_le _ _) ?_)
    exact UInt16.toNat_lt _

/-- A frame of `send_impl` says what the call was about, and no receiver takes anything else out
of it. -/
theorem sendResolved_reads {s : Ipv4State} {frameBuffer : Bool} {p : SendParams}
    {dstMac : MacAddress} (h : (sendResolved s dev frameBuffer p dstMac payload).1 = some frame) :
    claimsOf frame = [(p.srcIp, dev.mac)] ∧ addressee frame = some (p.dstIp, dstMac) ∧
      ∀ r devId packet handled, observeFrame r devId frame = .accepted packet handled →
        packet = ⟨dev.mac, p.srcIp, p.dstIp, p.proto, payload⟩ ∧ handled = packet.handle := by
  obtain ⟨hmtu, pad, hframe⟩ := transmitEthernet_some h
  rw [List.length_append, length_toBytes] at hmtu
  generalize hheader : ({ sendHeader p p.srcIp (UInt16.ofNat (IPV4_HEADER_BYTES + payload.length))
      s.takeIdentification.1 with
    headerChecksumBe := bswap16 (internetChecksum (sendHeader p p.srcIp
      (UInt16.ofNat (IPV4_HEADER_BYTES + payload.length)) s.takeIdentification.1).toBytes) } :
    Ipv4Header) = header at hframe
  obtain rfl : frame = frameOf dstMac dev.mac header payload pad := hframe
  obtain ⟨htype, hsrcMac⟩ := ethernet_fields dstMac dev.mac header payload pad
  have hread := ipv4HeaderAt_frame dstMac dev.mac header payload pad
  have hdstMac : macAt (frameOf dstMac dev.mac header payload pad) 0 = dstMac := by
    obtain ⟨a, b, c, d, e, f, rfl⟩ := exists_makeMac dstMac
    rfl
  have hipv4 : etherTypeOf (frameOf dstMac dev.mac header payload pad) =
      EtherType.ipv4.toUInt16 := by
    rw [etherTypeOf, htype, bswap16_bswap16]
  have hsrc : header.srcIp = p.srcIp := by rw [← hheader]; rfl
  have hdst : header.dstIp = p.dstIp := by rw [← hheader]; rfl
  have hproto : header.protocol = p.proto := by rw [← hheader]; rfl
  refine ⟨?_, ?_, fun r devId packet handled hacc => ?_⟩
  · rw [claimsOf, if_pos hipv4, hread, hsrcMac, hsrc]
  · rw [addressee, if_pos hipv4, hread, hdstMac, hdst]
  · obtain ⟨-, -, hown, hhandle, -, hdst'⟩ := observeFrame_accepted hacc
    rw [hread] at hdst'
    -- The length field does not wrap, since the MTU is a 16-bit value.
    have hlen : (UInt16.ofNat (IPV4_HEADER_BYTES + payload.length)).toNat =
        IPV4_HEADER_BYTES + payload.length :=
      UInt16.toNat_ofNat_of_lt' (Nat.lt_of_le_of_lt hmtu dev.mtu.toNat_lt)
    have htaken := @observeFrame_frameOf r devId dstMac dev.mac header payload pad
      (by rw [← hheader]; rfl)
      (by rw [← hheader]; exact (congrArg _ (bswap16_bswap16 _)).trans hlen) (hdst' ▸ hown)
      (by rw [← hheader]; exact (bswap16_bswap16 _).symm)
    rw [hacc] at htaken
    injection htaken with hpacket
    rw [hsrc, hdst, hproto] at hpacket
    exact ⟨hpacket, hhandle⟩

end Frames

/-! ### Echo messages -/

section Messages

variable {identifier sequence : UInt16} {payload : List UInt8}

/-- Within the length of a `u16` the message is what it should be. -/
theorem echoBytes_eq (mem : Nat → UInt8) (type : UInt8)
    (hlength : ICMP_ECHO_HEADER_BYTES + payload.length < 0x10000) :
    echoBytes mem type identifier sequence payload =
      echoPacket type identifier sequence payload := by
  have hsize : (UInt16.ofNat (ICMP_ECHO_HEADER_BYTES + payload.length)).toNat =
      ICMP_ECHO_HEADER_BYTES + payload.length := UInt16.toNat_ofNat_of_lt' hlength
  have hread : ∀ checksumBe, readBytes
      (writeBytes mem 0 (echoMessage type checksumBe identifier sequence payload)) 0
      (ICMP_ECHO_HEADER_BYTES + payload.length) =
      echoMessage type checksumBe identifier sequence payload := by
    intro checksumBe
    rw [← length_echoMessage checksumBe, readBytes_writeBytes]
  -- The checksum goes into the field that was written as 0.
  have hinsert : ∀ checksumBe, applyWrites
      (writeBytes mem 0 (echoMessage type 0 identifier sequence payload))
      [⟨2, store16 checksumBe⟩] =
      writeBytes mem 0 (echoMessage type checksumBe identifier sequence payload) :=
    fun checksumBe => writeBytes_inside mem 0 [type, 0] (store16 0) (store16 checksumBe) _ rfl
  simp only [echoBytes, hsize, applyWrites_echoWrites, hread, hinsert]
  rfl

/-- What the other side reads from a request. -/
theorem observePacket_echoRequest :
    observePacket (echoPacket ICMP_ECHO_REQUEST identifier sequence payload) =
      some (.echoRequest identifier sequence payload) := by
  have hbytes : ICMP_ECHO_HEADER_BYTES = 8 := rfl
  have hshort : ICMP_HEADER_BYTES = 4 := rfl
  have hlength : (echoPacket ICMP_ECHO_REQUEST identifier sequence payload).length =
      ICMP_ECHO_HEADER_BYTES + payload.length := length_echoMessage _
  have hidentifier : load16 (echoPacket ICMP_ECHO_REQUEST identifier sequence payload) 4 =
      bswap16 identifier := load16_store16 _
  have hsequence : load16 (echoPacket ICMP_ECHO_REQUEST identifier sequence payload) 6 =
      bswap16 sequence := load16_store16 _
  have htype : byteAt (echoPacket ICMP_ECHO_REQUEST identifier sequence payload) 0 =
      ICMP_ECHO_REQUEST := rfl
  have hcode : byteAt (echoPacket ICMP_ECHO_REQUEST identifier sequence payload) 1 = 0 := rfl
  have hbody : (echoPacket ICMP_ECHO_REQUEST identifier sequence payload).drop
      ICMP_ECHO_HEADER_BYTES = payload := rfl
  rw [observePacket]
  simp only [htype, hcode, hlength, hidentifier, hsequence, bswap16_bswap16, hbody,
    internetChecksum_echoPacket, ne_eq, not_true_eq_false, if_false]
  rw [if_neg (by omega), if_pos trivial, if_neg (by simp)]

/-- A message of `send_echo` that has its source address. -/
theorem startEcho_some {s : Ipv4State} {devId : Nat} {dev : NetDevice} {b : Buffers} {type : UInt8}
    {srcIp dstIp : Ipv4Address} {c : SendCall}
    (h : startEcho s devId dev b type srcIp dstIp identifier sequence payload = some c) :
    ∃ ip, s.sourceAddress devId ⟨srcIp, dstIp, PROTOCOL_ICMP, 64⟩ = some ip ∧
      c = ⟨devId, ⟨ip, dstIp, PROTOCOL_ICMP, 64⟩,
        echoBytes b.mem type identifier sequence payload, .lookup⟩ := by
  have hnone : none ≠ some c := (Option.some_ne_none c).symm
  rw [startEcho] at h
  obtain ⟨-, h⟩ := ite_eq_of_ne h hnone
  rw [startSend] at h
  obtain ⟨-, h⟩ := ite_eq_of_ne h hnone
  obtain ⟨-, h⟩ := ite_eq_of_ne h hnone
  obtain ⟨ip, hip, rfl⟩ := Option.map_eq_some_iff.mp h
  exact ⟨ip, hip, rfl⟩

end Messages

/-! ### The invariant -/

section Invariant

variable {H : Type} {devices : H → Nat → Option NetDevice}

/-- A request was on the wire that some host would take for one with these values. -/
def RequestSeen (m : Lan H) (srcIp dstIp : Ipv4Address) (body : List UInt8) : Prop :=
  ∃ frame ∈ m.wire, ∃ r devId packet identifier sequence payload,
    observeFrame r devId frame =
        .accepted packet (some (.echoRequest identifier sequence payload)) ∧
      packet.srcIp = srcIp ∧ packet.dstIp = dstIp ∧ packet.payload.drop 4 = body

/-- A message of a host: a request that was asked for, or a reply to one that was seen. -/
def Meant (m : Lan H) (mac : MacAddress) (srcIp dstIp : Ipv4Address) (message : List UInt8) :
    Prop :=
  ∃ identifier sequence payload,
    (message = echoPacket ICMP_ECHO_REQUEST identifier sequence payload ∧
      ⟨mac, dstIp, identifier, sequence, payload⟩ ∈ m.pings) ∨
    (message = echoPacket ICMP_ECHO_REPLY identifier sequence payload ∧
      RequestSeen m dstIp srcIp (message.drop 4))

/-- A frame that a host has sent. -/
structure OwnFrame (m : Lan H) (frame : List UInt8) : Prop where
  claims : ∀ e ∈ claimsOf frame, m.Claimed e
  addressed : ∀ e, addressee frame = some e → m.Claimed e
  meant : ∀ r devId packet handled, observeFrame r devId frame = .accepted packet handled →
    handled = packet.handle ∧ packet.protocol = PROTOCOL_ICMP ∧
      Meant m packet.srcMac packet.srcIp packet.dstIp packet.payload

/-- A call of `send_impl` in progress on a host. -/
structure CallOk (devices : H → Nat → Option NetDevice) (m : Lan H) (h : H) (c : SendCall) :
    Prop where
  proto : c.params.proto = PROTOCOL_ICMP
  source : ∀ dev, devices h c.devId = some dev → m.Claimed (c.params.srcIp, dev.mac)
  found : ∀ dstMac, c.phase = .found dstMac → m.Claimed (c.params.dstIp, dstMac)
  meant : ∀ dev, devices h c.devId = some dev →
    Meant m dev.mac c.params.srcIp c.params.dstIp c.payload

/-- A host. The reply of the receive task finds its address in the cache. -/
structure HostOk (devices : H → Nat → Option NetDevice) (m : Lan H) (h : H) (host : Host) :
    Prop where
  cache : CacheOk host.arp
  bindings : ∀ e ∈ entries host.arp, m.Claimed e
  configs : ∀ c ∈ host.ipv4.configs, c.valid = true → ∀ dev, devices h c.dev = some dev →
    (c.localIp, dev.mac) ∈ m.configured
  calls : ∀ c ∈ host.calls, CallOk devices m h c
  rx : ∀ c, host.rx = some c → CallOk devices m h c
  ready : ∀ c, host.rx = some c →
    (c.phase = .lookup ∧ ∃ mac, host.arp.cacheLookupLocked c.params.dstIp = some mac) ∨
      ∃ mac, c.phase = .found mac

/-- The network: the frames that no other host has sent are frames of hosts. -/
structure LanInv (devices : H → Nat → Option NetDevice) (m : Lan H) : Prop where
  hosts : ∀ h, HostOk devices m h (m.hosts h)
  wire : ∀ frame ∈ m.wire, frame ∈ m.foreign ∨ OwnFrame m frame

/-- Nothing is taken back. -/
structure Grows (m n : Lan H) : Prop where
  wire : m.wire ⊆ n.wire
  configured : m.configured ⊆ n.configured
  foreign : m.foreign ⊆ n.foreign
  pings : m.pings ⊆ n.pings

variable {m n : Lan H} {h : H}

/-- What was claimed stays so. -/
theorem Grows.claimed (hg : Grows m n) {e : Ipv4Address × MacAddress} (he : m.Claimed e) :
    n.Claimed e := by
  rcases he with hconf | ⟨frame, hframe, hclaim⟩
  · exact Or.inl (hg.configured hconf)
  · exact Or.inr ⟨frame, hg.foreign hframe, hclaim⟩

/-- What was meant stays so. -/
theorem Grows.meant (hg : Grows m n) {mac : MacAddress} {srcIp dstIp : Ipv4Address}
    {message : List UInt8} (hm : Meant m mac srcIp dstIp message) :
    Meant n mac srcIp dstIp message := by
  obtain ⟨identifier, sequence, payload, hcase⟩ := hm
  refine ⟨identifier, sequence, payload, ?_⟩
  rcases hcase with ⟨hmessage, hping⟩ | ⟨hmessage, frame, hframe, hseen⟩
  · exact Or.inl ⟨hmessage, hg.pings hping⟩
  · exact Or.inr ⟨hmessage, frame, hg.wire hframe, hseen⟩

/-- A frame of a host stays one. -/
theorem OwnFrame.grows {frame : List UInt8} (hf : OwnFrame m frame) (hg : Grows m n) :
    OwnFrame n frame where
  claims e he := hg.claimed (hf.claims e he)
  addressed e he := hg.claimed (hf.addressed e he)
  meant r devId packet handled hacc := by
    obtain ⟨hhandled, hproto, hmeant⟩ := hf.meant r devId packet handled hacc
    exact ⟨hhandled, hproto, hg.meant hmeant⟩

/-- A call stays fine. -/
theorem CallOk.grows {c : SendCall} (hc : CallOk devices m h c) (hg : Grows m n) :
    CallOk devices n h c where
  proto := hc.proto
  source dev hdev := hg.claimed (hc.source dev hdev)
  found dstMac hphase := hg.claimed (hc.found dstMac hphase)
  meant dev hdev := hg.meant (hc.meant dev hdev)

/-- A host stays fine. -/
theorem HostOk.grows {host : Host} (hh : HostOk devices m h host) (hg : Grows m n) :
    HostOk devices n h host where
  cache := hh.cache
  bindings e he := hg.claimed (hh.bindings e he)
  configs c hc hvalid dev hdev := hg.configured (hh.configs c hc hvalid dev hdev)
  calls c hc := (hh.calls c hc).grows hg
  rx c hc := (hh.rx c hc).grows hg
  ready := hh.ready

/-- A step at one host keeps the invariant when this host is as it should be and what is new on
the wire is a frame of a host or comes from elsewhere. -/
theorem LanInv.at_host [DecidableEq H] (hi : LanInv devices m) (hg : Grows m n) {host : Host}
    (hhosts : n.hosts = Function.update m.hosts h host) (hhost : HostOk devices n h host)
    (hwire : ∀ frame ∈ n.wire, frame ∈ m.wire ∨ OwnFrame n frame) : LanInv devices n where
  hosts k := by
    rw [hhosts]
    by_cases hk : k = h
    · rw [hk, Function.update_self]
      exact hhost
    · rw [Function.update_of_ne hk]
      exact (hi.hosts k).grows hg
  wire frame hframe := by
    rcases hwire frame hframe with hold | hown
    · exact (hi.wire frame hold).imp (fun hf => hg.foreign hf) fun hf => hf.grows hg
    · exact Or.inr hown

/-- The claims of everything on the wire. -/
theorem LanInv.claims (hi : LanInv devices m) {frame : List UInt8} (hframe : frame ∈ m.wire)
    {e : Ipv4Address × MacAddress} (he : e ∈ claimsOf frame) : m.Claimed e := by
  rcases hi.wire frame hframe with hforeign | hown
  · exact Or.inr ⟨frame, hforeign, he⟩
  · exact hown.claims e he

/-! ### What a host knows -/

variable {host : Host}

/-- A lookup gives a binding that was claimed. -/
theorem HostOk.lookup (hh : HostOk devices m h host) {ip : Ipv4Address} {mac : MacAddress}
    (hlookup : host.arp.cacheLookupLocked ip = some mac) : m.Claimed (ip, mac) := by
  rw [cacheLookupLocked_eq hh.cache, fifoGet_eq_some hh.cache.nodup] at hlookup
  exact hh.bindings _ hlookup

/-- The address of a device was configured there. -/
theorem HostOk.own_address (hh : HostOk devices m h host) {devId : Nat} {ip : Ipv4Address}
    (hip : host.ipv4.configuredAddress devId = some ip) {dev : NetDevice}
    (hdev : devices h devId = some dev) : m.Claimed (ip, dev.mac) := by
  obtain ⟨c, hfind, rfl⟩ := Option.map_eq_some_iff.mp hip
  have hfor : DeviceIpv4Config.isFor devId c = true := List.find?_some hfind
  rw [DeviceIpv4Config.isFor, Bool.and_eq_true, beq_iff_eq] at hfor
  refine Or.inl (hh.configs c (List.mem_of_find?_eq_some hfind) hfor.1 dev ?_)
  rw [hfor.2]
  exact hdev

/-- An address that was just inserted is found. -/
theorem lookup_insert {s : ArpState} (hs : CacheOk s) (ip : Ipv4Address) (mac : MacAddress) :
    (s.cacheInsertLocked ip mac).cacheLookupLocked ip = some mac := by
  obtain ⟨hput, hok⟩ := entries_cacheInsertLocked hs ip mac
  rw [cacheLookupLocked_eq hok, hput]
  exact fifoGet_put_self (e := (ip, mac)) (by decide) hs.nodup

/-- The cache after a binding that was claimed. -/
theorem HostOk.insert (hh : HostOk devices m h host) {ip : Ipv4Address} {mac : MacAddress}
    (hclaim : m.Claimed (ip, mac)) (hidle : host.rx = none) :
    HostOk devices m h { host with arp := host.arp.cacheInsertLocked ip mac } where
  cache := (entries_cacheInsertLocked hh.cache ip mac).2
  bindings e he := by
    rw [(entries_cacheInsertLocked hh.cache ip mac).1] at he
    rcases mem_fifoPut he with rfl | hold
    · exact hclaim
    · exact hh.bindings e hold
  configs := hh.configs
  calls := hh.calls
  rx c hc := nomatch hidle.symm.trans hc
  ready c hc := nomatch hidle.symm.trans hc

/-- The entries after a replacement. -/
theorem mem_replaceFirst {p : DeviceIpv4Config → Bool} {c d : DeviceIpv4Config}
    {l : List DeviceIpv4Config} (hd : d ∈ replaceFirst p c l) : d = c ∨ d ∈ l := by
  induction l with
  | nil => exact Or.inr hd
  | cons e l ih =>
    rw [replaceFirst] at hd
    split at hd
    · exact (List.mem_cons.mp hd).imp_right (List.mem_cons_of_mem e)
    · rcases List.mem_cons.mp hd with rfl | hrest
      · exact Or.inr List.mem_cons_self
      · exact (ih hrest).imp_right (List.mem_cons_of_mem e)

/-- The table after `configure_device` has one new entry. -/
theorem mem_configureDevice {s t : Ipv4State} {devId : Nat} {ip : Ipv4Address}
    (ht : s.configureDevice devId ip = some t) {c : DeviceIpv4Config} (hc : c ∈ t.configs) :
    c = ⟨devId, true, ip⟩ ∨ c ∈ s.configs := by
  rw [Ipv4State.configureDevice] at ht
  split at ht
  · cases ht
    exact mem_replaceFirst hc
  · split at ht
    · cases ht
      exact mem_replaceFirst hc
    · cases ht

/-! ### A step of a call -/

variable {c : SendCall} {dev : NetDevice} {a : Answers}

/-- A call that goes on. -/
theorem CallOk.at_phase (hc : CallOk devices m h c) {phase : SendPhase}
    (hphase : ∀ dstMac, phase = .found dstMac → m.Claimed (c.params.dstIp, dstMac)) :
    CallOk devices m h { c with phase := phase } where
  proto := hc.proto
  source := hc.source
  found := hphase
  meant := hc.meant

/-- A frame of ARP that was sent from an address of its device, and if it is a reply to a
device that is said to have the target address. -/
theorem ownFrame_arp {frame : List UInt8} {frameBuffer : Bool} {op : ArpOperation}
    {targetMac : MacAddress} {senderIp targetIp : Ipv4Address}
    (hframe : sendArpImpl dev frameBuffer op targetMac senderIp targetIp = some frame)
    (hsource : m.Claimed (senderIp, dev.mac))
    (htarget : op ≠ .request → m.Claimed (targetIp, targetMac)) : OwnFrame m frame := by
  obtain ⟨-, pad, hbytes⟩ := transmitEthernet_some hframe
  obtain rfl : frame = arpFrameOf (if op = .request then broadcastMac else targetMac) dev.mac op
      senderIp targetMac targetIp pad := hbytes
  constructor
  · intro e he
    rw [(arpFrameOf_reads _ _ _ _ _ _ _).1, List.mem_singleton] at he
    exact he ▸ hsource
  · intro e he
    rw [(arpFrameOf_reads _ _ _ _ _ _ _).2] at he
    split at he
    · cases he
    · rename_i hop
      cases he
      exact htarget hop
  · intro r devId packet handled hacc
    have htype := (observeFrame_accepted hacc).1
    rw [etherTypeOf_arpFrameOf] at htype
    exact absurd htype (by decide)

/-- What a step of a call leaves to do, and what it puts on the wire. -/
theorem CallOk.step (hc : CallOk devices m h c) (hh : HostOk devices m h host)
    (hdev : devices h c.devId = some dev) :
    (∀ d, (c.step host.arp host.ipv4 dev a).next = some d → CallOk devices m h d) ∧
      (∀ frame, (c.step host.arp host.ipv4 dev a).frame = some frame → OwnFrame m frame) ∧
      (c.step host.arp host.ipv4 dev a).ipv4.configs = host.ipv4.configs := by
  -- An address comes from the cache only.
  have hanswer : ∀ none' dstMac, (∀ mac, none' ≠ SendPhase.found mac) →
      (host.arp.cacheLookupLocked c.params.dstIp).elim none' SendPhase.found = .found dstMac →
      m.Claimed (c.params.dstIp, dstMac) := by
    intro none' dstMac hnone hphase
    cases hlookup : host.arp.cacheLookupLocked c.params.dstIp with
    | none =>
      rw [hlookup] at hphase
      exact absurd hphase (hnone dstMac)
    | some mac =>
      rw [hlookup] at hphase
      cases hphase
      exact hh.lookup hlookup
  rw [SendCall.step]
  cases hphase : c.phase with
  | lookup =>
    refine ⟨fun d hd => ?_, nofun, rfl⟩
    cases hd
    exact hc.at_phase fun dstMac => hanswer _ dstMac nofun
  | request =>
    refine ⟨fun d hd => ?_, fun frame hframe => ?_, rfl⟩
    · dsimp only at hd
      split at hd
      · cases hd
        exact hc.at_phase nofun
      · cases hd
    · exact ownFrame_arp hframe (hc.source dev hdev) fun hop => absurd rfl hop
  | polling =>
    dsimp only
    split
    · exact ⟨nofun, nofun, rfl⟩
    · refine ⟨fun d hd => ?_, nofun, rfl⟩
      cases hd
      exact hc.at_phase fun dstMac => hanswer _ dstMac nofun
  | found dstMac =>
    refine ⟨nofun, fun frame hframe => ?_, rfl⟩
    obtain ⟨hclaims, haddressee, htaken⟩ := sendResolved_reads hframe
    constructor
    · intro e he
      rw [hclaims, List.mem_singleton] at he
      exact he ▸ hc.source dev hdev
    · intro e he
      rw [haddressee] at he
      cases he
      exact hc.found dstMac hphase
    · intro r devId packet handled hacc
      obtain ⟨rfl, hhandled⟩ := htaken r devId packet handled hacc
      exact ⟨hhandled, hc.proto, hc.meant dev hdev⟩

/-! ### A received frame -/

/-- A host that has nothing to reply. -/
theorem HostOk.no_reply (hh : HostOk devices m h host) (hidle : host.rx = none) :
    HostOk devices m h { host with arp := host.arp, rx := none } := by
  rw [← hidle]
  exact hh

/-- What `arp::observe_frame` does with a frame whose claims are accounted for. -/
theorem HostOk.arpObserveFrame (hh : HostOk devices m h host) {devId : Nat}
    (hdev : devices h devId = some dev) (hidle : host.rx = none) (b : Buffers)
    {frame : List UInt8} (htype : etherTypeOf frame = EtherType.arp.toUInt16)
    (hclaims : ∀ e ∈ claimsOf frame, m.Claimed e) :
    HostOk devices m h { host with
        arp := (arpObserveFrame host devId dev b frame).arp
        rx := (arpObserveFrame host devId dev b frame).rx } ∧
      ∀ f, (arpObserveFrame host devId dev b frame).frame = some f → OwnFrame m f := by
  rw [VKernel.Net.arpObserveFrame]
  cases hparse : parseArpFrame frame with
  | none => exact ⟨hh.no_reply hidle, nofun⟩
  | some parsed =>
    have hsender : m.Claimed (parsed.senderIp, parsed.senderMac) := by
      refine hclaims _ ?_
      rw [claimsOf, htype, if_neg (by decide), arpInsert, hparse]
      exact List.mem_singleton_self _
    have hinsert := (hh.insert hsender hidle).no_reply hidle
    rw [Option.elim_some]
    dsimp only
    split
    · rename_i hask
      have hown : host.ipv4.configuredAddress devId = some parsed.targetIp := eq_of_beq hask.2
      exact ⟨hinsert, fun f hf =>
        ownFrame_arp hf (hh.own_address hown hdev) fun _ => hsender⟩
    · exact ⟨hinsert, nofun⟩

/-- The source address of a reply is the address that the request was sent to. -/
theorem sourceAddress_own {s : Ipv4State} {devId : Nat} {p : SendParams}
    (hown : s.configuredAddress devId = some p.srcIp) :
    s.sourceAddress devId p = some p.srcIp := by
  rw [Ipv4State.sourceAddress]
  split
  · exact hown
  · rfl

/-- The reply to a request on the wire, which finds the address of the sender in the cache. -/
theorem CallOk.of_request (hh : HostOk devices m h host) {devId : Nat} {b : Buffers}
    {frame : List UInt8} (hframe : frame ∈ m.wire)
    {packet : Ipv4Packet} {identifier sequence : UInt16} {payload : List UInt8}
    (hacc : observeFrame host.ipv4 devId frame =
      .accepted packet (some (.echoRequest identifier sequence payload)))
    (hcall : startEcho host.ipv4 devId dev b ICMP_ECHO_REPLY packet.dstIp packet.srcIp identifier
      sequence payload = some c) :
    CallOk devices m h c ∧ c.phase = .lookup ∧ c.params.dstIp = packet.srcIp := by
  obtain ⟨-, -, hown, hhandle, hlength, -⟩ := observeFrame_accepted hacc
  obtain ⟨ip, hip, rfl⟩ := startEcho_some hcall
  rw [sourceAddress_own (p := ⟨packet.dstIp, _, _, _⟩) hown] at hip
  cases hip
  refine ⟨⟨rfl, fun d hd => hh.own_address hown hd, nofun, fun d hd => ?_⟩, rfl, rfl⟩
  rw [Ipv4Packet.handle] at hhandle
  split at hhandle
  · obtain ⟨hbytes, rfl, rfl, rfl⟩ := echoRequest_of_observePacket hhandle.symm
    have hfits : ICMP_ECHO_HEADER_BYTES + (packet.payload.drop ICMP_ECHO_HEADER_BYTES).length <
        0x10000 := by
      rw [List.length_drop]
      omega
    refine ⟨_, _, _, Or.inr ⟨echoBytes_eq b.mem ICMP_ECHO_REPLY hfits, frame, hframe,
      host.ipv4, devId, packet, _, _, _, hacc, rfl, rfl, ?_⟩⟩
    rw [echoBytes_eq b.mem ICMP_ECHO_REPLY hfits]
    exact (drop_echoPacket hbytes).symm
  · cases hhandle

/-- What `ipv4::observe_frame` does with a frame whose claims are accounted for. -/
theorem HostOk.ipv4ObserveFrame (hh : HostOk devices m h host) {devId : Nat}
    (hidle : host.rx = none) (b : Buffers)
    {frame : List UInt8} (hframe : frame ∈ m.wire) (hclaims : ∀ e ∈ claimsOf frame, m.Claimed e) :
    HostOk devices m h { host with
        arp := (ipv4ObserveFrame host devId dev b frame).arp
        rx := (ipv4ObserveFrame host devId dev b frame).rx } ∧
      (ipv4ObserveFrame host devId dev b frame).frame = none := by
  rw [VKernel.Net.ipv4ObserveFrame]
  split
  · rename_i packet handled hacc
    -- The sender is cached before the reply looks for it.
    have hsender : m.Claimed (packet.srcIp, packet.srcMac) := by
      refine hclaims _ ?_
      rw [(observeFrame_accepted hacc).2.1]
      exact List.mem_singleton_self _
    have hinsert := hh.insert hsender hidle
    dsimp only
    split
    · rename_i identifier sequence payload
      refine ⟨⟨hinsert.cache, hinsert.bindings, hinsert.configs, hinsert.calls, fun c hc => ?_,
        fun c hc => ?_⟩, rfl⟩
      · exact (CallOk.of_request hh hframe hacc hc).1
      · obtain ⟨-, hphase, hdst⟩ := CallOk.of_request hh hframe hacc hc
        exact Or.inl ⟨hphase, packet.srcMac, hdst ▸ lookup_insert hh.cache _ _⟩
    · exact ⟨hinsert.no_reply hidle, rfl⟩
  · exact ⟨hh.no_reply hidle, rfl⟩

/-- What `dispatch_frame` does with a frame from the wire. -/
theorem HostOk.dispatchFrame (hh : HostOk devices m h host) {devId : Nat}
    (hdev : devices h devId = some dev) (hidle : host.rx = none) (b : Buffers)
    {frame : List UInt8} (hframe : frame ∈ m.wire) (hclaims : ∀ e ∈ claimsOf frame, m.Claimed e) :
    HostOk devices m h { host with
        arp := (dispatchFrame host devId dev b frame).arp
        rx := (dispatchFrame host devId dev b frame).rx } ∧
      ∀ f, (dispatchFrame host devId dev b frame).frame = some f → OwnFrame m f := by
  rw [VKernel.Net.dispatchFrame]
  split
  · exact ⟨hh.no_reply hidle, nofun⟩
  · split
    · rename_i htype
      exact hh.arpObserveFrame hdev hidle b htype hclaims
    · split
      · obtain ⟨hhost, hnone⟩ := hh.ipv4ObserveFrame hidle b hframe hclaims
        exact ⟨hhost, fun f hf => nomatch hnone.symm.trans hf⟩
      · exact ⟨hh.no_reply hidle, nofun⟩

/-! ### Every step -/

/-- A request that was asked for, on a device that has an address. -/
theorem CallOk.of_ping (hh : HostOk devices m h host) {devId : Nat}
    (hdev : devices h devId = some dev) {b : Buffers} {dstIp : Ipv4Address}
    {identifier sequence : UInt16} {payload : List UInt8}
    (hfits : ICMP_ECHO_HEADER_BYTES + payload.length < 0x10000)
    (hping : ⟨dev.mac, dstIp, identifier, sequence, payload⟩ ∈ m.pings)
    (hcall : startEcho host.ipv4 devId dev b ICMP_ECHO_REQUEST zeroIpv4 dstIp identifier sequence
      payload = some c) : CallOk devices m h c := by
  obtain ⟨ip, hip, rfl⟩ := startEcho_some hcall
  rw [Ipv4State.sourceAddress, if_pos rfl] at hip
  refine ⟨rfl, fun d hd => hh.own_address hip hd, nofun, fun d hd => ?_⟩
  obtain rfl := Option.some.inj (hd.symm.trans hdev)
  exact ⟨_, _, _, Or.inl ⟨echoBytes_eq b.mem ICMP_ECHO_REQUEST hfits, hping⟩⟩

/-- A call that finds its address in the cache does not wait. -/
theorem found_of_ready {d : SendCall} {arp : ArpState} {ipv4 : Ipv4State}
    (hready : (c.phase = .lookup ∧ ∃ mac, arp.cacheLookupLocked c.params.dstIp = some mac) ∨
      ∃ mac, c.phase = .found mac)
    (hd : (c.step arp ipv4 dev a).next = some d) : ∃ mac, d.phase = .found mac := by
  rcases hready with ⟨hphase, mac, hlookup⟩ | ⟨mac, hphase⟩
  · rw [SendCall.step, hphase] at hd
    cases hd
    exact ⟨mac, by rw [hlookup]; rfl⟩
  · rw [SendCall.step, hphase] at hd
    cases hd

/-- A new frame of a host on the wire. -/
theorem mem_wire_append {frame : Option (List UInt8)} (hown : ∀ f, frame = some f → OwnFrame n f)
    (hwire : n.wire = m.wire ++ frame.toList) :
    ∀ f ∈ n.wire, f ∈ m.wire ∨ OwnFrame n f := by
  intro f hf
  rw [hwire] at hf
  exact (List.mem_append.mp hf).imp_right fun h => hown f (Option.mem_toList.mp h)

/-- The invariant holds at the start. -/
theorem LanInv.init : LanInv devices (Lan.initial : Lan H) where
  hosts h := by
    refine ⟨cacheOk_initial, fun e he => ?_, fun c hc hvalid => ?_, nofun, nofun, nofun⟩
    · exact absurd (show e ∈ entries ArpState.initial from he)
        (by rw [entries_initial]; exact List.not_mem_nil)
    · -- No entry of the table is in use.
      have hc' : c ∈ List.replicate MAX_IPV4_DEVICE_CONFIGS ⟨0, false, zeroIpv4⟩ := hc
      rw [List.eq_of_mem_replicate hc'] at hvalid
      cases hvalid
  wire := nofun

variable [DecidableEq H]

/-- A step of a call, when what is left of it is put back where it belongs. -/
theorem LanInv.afterCall (hi : LanInv devices m) {r : CallStep} {put : Host → Host}
    (hframe : ∀ f, r.frame = some f → OwnFrame m f)
    (hput : HostOk devices m h (put { m.hosts h with ipv4 := r.ipv4 })) :
    LanInv devices (m.afterCall h r put) := by
  have hg : Grows m (m.afterCall h r put) :=
    ⟨List.subset_append_left _ _, fun _ hx => hx, fun _ hx => hx, fun _ hx => hx⟩
  exact hi.at_host hg rfl (hput.grows hg)
    (mem_wire_append (fun f hf => (hframe f hf).grows hg) rfl)

/-- Each step keeps the invariant. -/
theorem LanInv.step (hi : LanInv devices m) {op : LanOp H} (hfits : EchoFits m op)
    (hstep : m.next devices op = some n) : LanInv devices n := by
  cases op with
  | configure h devId ip =>
    obtain ⟨dev, hdev, hstep⟩ := Option.bind_eq_some_iff.mp hstep
    obtain ⟨ipv4, hipv4, rfl⟩ := Option.map_eq_some_iff.mp hstep
    have hg : Grows m { m with
        hosts := Function.update m.hosts h { m.hosts h with ipv4 := ipv4 }
        configured := (ip, dev.mac) :: m.configured } :=
      ⟨fun _ hx => hx, List.subset_cons_self _ _, fun _ hx => hx, fun _ hx => hx⟩
    have hh := (hi.hosts h).grows hg
    refine hi.at_host hg rfl ⟨hh.cache, hh.bindings, ?_, hh.calls, hh.rx, hh.ready⟩
      fun f hf => Or.inl hf
    intro c hc hvalid d hd
    rcases mem_configureDevice hipv4 hc with rfl | hold
    · obtain rfl := Option.some.inj (hd.symm.trans hdev)
      exact List.mem_cons_self
    · exact hh.configs c hold hvalid d hd
  | ping h devId b dstIp identifier sequence payload =>
    obtain ⟨dev, hdev, hn⟩ := Option.map_eq_some_iff.mp hstep
    have hhosts : n.hosts = Function.update m.hosts h { m.hosts h with
        calls := (m.hosts h).calls ++ (startEcho (m.hosts h).ipv4 devId dev b ICMP_ECHO_REQUEST
          zeroIpv4 dstIp identifier sequence payload).toList } := by
      rw [← hn]
    have hpings : n.pings = ⟨dev.mac, dstIp, identifier, sequence, payload⟩ :: m.pings := by
      rw [← hn]
    have hwire : n.wire = m.wire := by rw [← hn]
    have hg : Grows m n := by
      refine ⟨?_, ?_, ?_, ?_⟩
      · rw [hwire]
        exact fun _ hx => hx
      · rw [← hn]
        exact fun _ hx => hx
      · rw [← hn]
        exact fun _ hx => hx
      · rw [hpings]
        exact List.subset_cons_self _ _
    have hh := (hi.hosts h).grows hg
    refine hi.at_host hg hhosts ⟨hh.cache, hh.bindings, hh.configs, fun c hc => ?_, hh.rx,
      hh.ready⟩ fun f hf => Or.inl (hwire ▸ hf)
    rcases List.mem_append.mp (show c ∈ (m.hosts h).calls ++ _ from hc) with hold | hnew
    · exact hh.calls c hold
    · refine .of_ping hh hdev hfits ?_ (Option.mem_toList.mp hnew)
      rw [hpings]
      exact List.mem_cons_self
  | call h i a =>
    obtain ⟨c, hc, hstep⟩ := Option.bind_eq_some_iff.mp hstep
    obtain ⟨dev, hdev, rfl⟩ := Option.map_eq_some_iff.mp hstep
    have hh := hi.hosts h
    obtain ⟨hnext, hframe, hconfigs⟩ :=
      (hh.calls c (List.mem_of_getElem? hc)).step (a := a) hh hdev
    refine hi.afterCall hframe ⟨hh.cache, hh.bindings, fun d hd => ?_, fun d hd => ?_, hh.rx,
      hh.ready⟩
    · exact hh.configs d (hconfigs ▸ hd)
    · -- The call is replaced by what is left of it, or taken out.
      dsimp only at hd
      cases hrest : (c.step (m.hosts h).arp (m.hosts h).ipv4 dev a).next with
      | none =>
        rw [hrest] at hd
        exact hh.calls d (List.mem_of_mem_eraseIdx hd)
      | some rest =>
        rw [hrest] at hd
        rcases List.mem_or_eq_of_mem_set hd with hold | rfl
        · exact hh.calls d hold
        · exact hnext d hrest
  | reply h a =>
    obtain ⟨c, hc, hstep⟩ := Option.bind_eq_some_iff.mp hstep
    obtain ⟨dev, hdev, rfl⟩ := Option.map_eq_some_iff.mp hstep
    have hh := hi.hosts h
    obtain ⟨hnext, hframe, hconfigs⟩ := (hh.rx c hc).step (a := a) hh hdev
    refine hi.afterCall hframe ⟨hh.cache, hh.bindings, fun d hd => ?_, hh.calls, hnext,
      fun d hd => Or.inr (found_of_ready (hh.ready c hc) hd)⟩
    exact hh.configs d (hconfigs ▸ hd)
  | deliver h devId i b =>
    rw [Lan.next] at hstep
    split at hstep
    · cases hstep
    · -- The receive task takes a frame only after it has sent its reply.
      rename_i hidle
      obtain ⟨frame, hframe, hstep⟩ := Option.bind_eq_some_iff.mp hstep
      obtain ⟨dev, hdev, hn⟩ := Option.map_eq_some_iff.mp hstep
      have hmem : frame ∈ m.wire := List.mem_of_getElem? hframe
      have hnone : (m.hosts h).rx = none := by
        rwa [Option.not_isSome_iff_eq_none] at hidle
      obtain ⟨hhost, hsent⟩ := (hi.hosts h).dispatchFrame hdev hnone b hmem
        fun e he => hi.claims hmem he
      have hwire : n.wire = m.wire ++
          (VKernel.Net.dispatchFrame (m.hosts h) devId dev b frame).frame.toList := by
        rw [← hn]
      have hg : Grows m n := by
        refine ⟨?_, ?_, ?_, ?_⟩
        · rw [hwire]
          exact List.subset_append_left _ _
        all_goals
          rw [← hn]
          exact fun _ hx => hx
      exact hi.at_host hg (by rw [← hn]) (hhost.grows hg)
        (mem_wire_append (fun f hf => (hsent f hf).grows hg) hwire)
  | foreign frame =>
    cases hstep
    have hg : Grows m { m with wire := m.wire ++ [frame], foreign := frame :: m.foreign } :=
      ⟨List.subset_append_left _ _, fun _ hx => hx, List.subset_cons_self _ _, fun _ hx => hx⟩
    refine ⟨fun k => (hi.hosts k).grows hg, fun f hf => ?_⟩
    rcases List.mem_append.mp hf with hold | hnew
    · exact (hi.wire f hold).imp (fun h => hg.foreign h) fun h => h.grows hg
    · exact Or.inl (List.mem_singleton.mp hnew ▸ List.mem_cons_self)

/-- It holds in every run. -/
theorem LanInv.of_reachable (hm : ((lanSystem devices).restrict EchoFits).Reachable m) :
    LanInv devices m := by
  refine hm.invariant (fun m hinit => ?_) fun _ _ _ _ h hstep => h.step hstep.1 hstep.2
  rw [show m = Lan.initial from hinit]
  exact .init

/-! ### A run of two hosts -/

/-- Two hosts with one device each. -/
def twoHosts (h : Bool) (devId : Nat) : Option NetDevice :=
  if devId = 0 then
    some ⟨⟨[], by decide⟩, makeMac 2 0 0 0 0 (if h then 2 else 1), 1500⟩
  else none

/-- An allocation that succeeds. -/
def freshBuffers : Buffers := ⟨true, true, true, fun _ => 0⟩

/-- One host resolves the address of the other, sends a request, and the other answers. -/
def pingRun : List (LanOp Bool) :=
  [.configure false 0 (makeIpv4 10 0 0 1), .configure true 0 (makeIpv4 10 0 0 2),
    .ping false 0 freshBuffers (makeIpv4 10 0 0 2) 7 1 [5],
    .call false 0 ⟨true, true, false⟩, .call false 0 ⟨true, true, false⟩,
    .deliver true 0 0 freshBuffers, .deliver false 0 1 freshBuffers,
    .call false 0 ⟨true, true, false⟩, .call false 0 ⟨true, true, false⟩,
    .deliver true 0 2 freshBuffers, .reply true ⟨true, true, false⟩,
    .reply true ⟨true, true, false⟩, .deliver false 0 3 freshBuffers]

/-- The run of the ping, and what it leaves. -/
theorem pingRun_reachable : ∃ m, ((lanSystem twoHosts).restrict EchoFits).Reachable m ∧
    m.wire.length = 4 ∧ m.answered = 2 ∧
      (m.hosts false).arp.cacheLookupLocked (makeIpv4 10 0 0 2) =
        some (makeMac 2 0 0 0 0 2) := by
  have hrun : (TransitionSystem.run (TransitionSystem.guarded (Lan.next twoHosts) EchoFits)
      Lan.initial pingRun).any (fun m => decide (m.wire.length = 4 ∧ m.answered = 2 ∧
        (m.hosts false).arp.cacheLookupLocked (makeIpv4 10 0 0 2) =
          some (makeMac 2 0 0 0 0 2))) = true := by
    with_unfolding_all decide
  obtain ⟨m, hm, hfacts⟩ := (Option.any_eq_true _ _).mp hrun
  exact ⟨m, TransitionSystem.reachable_of_guarded_run (.init rfl) hm, of_decide_eq_true hfacts⟩

/-! ### What holds of the network -/

/-- What the hosts may rely on. -/
structure LanSafe (m : Lan H) : Prop where
  /-- A cached binding was configured on a device with that address, or another host claims it. -/
  bindings : ∀ h ip mac, (m.hosts h).arp.cacheLookupLocked ip = some mac → m.Claimed (ip, mac)
  /-- So are the bindings that a frame of a host tells, and the one that it is addressed by. -/
  frames : ∀ frame ∈ m.wire, frame ∉ m.foreign →
    (∀ e ∈ claimsOf frame, m.Claimed e) ∧ ∀ e, addressee frame = some e → m.Claimed e
  /-- The receive task never waits for an answer that it would have to process. -/
  neverWaits : ∀ h c, (m.hosts h).rx = some c → c.phase ≠ .request ∧ c.phase ≠ .polling
  /-- An echo request of a host was asked for, on the device that has sent it. -/
  asked : ∀ frame ∈ m.wire, frame ∉ m.foreign → ∀ r devId packet identifier sequence payload,
    observeFrame r devId frame =
        .accepted packet (some (.echoRequest identifier sequence payload)) →
      ⟨packet.srcMac, packet.dstIp, identifier, sequence, payload⟩ ∈ m.pings
  /-- An echo reply of a host answers a request on the wire, with the same identifier, sequence
  number and data, and the addresses the other way round. -/
  answers : ∀ frame ∈ m.wire, frame ∉ m.foreign → ∀ r devId packet identifier sequence length,
    observeFrame r devId frame =
        .accepted packet (some (.echoReply identifier sequence length)) →
      RequestSeen m packet.dstIp packet.srcIp (packet.payload.drop 4)

omit [DecidableEq H] in
/-- A frame that is accepted was meant for the host. -/
theorem OwnFrame.observed {frame : List UInt8} (hf : OwnFrame m frame) {r : Ipv4State}
    {devId : Nat} {packet : Ipv4Packet} {event : IcmpEvent}
    (hacc : observeFrame r devId frame = .accepted packet (some event)) :
    observePacket packet.payload = some event ∧
      Meant m packet.srcMac packet.srcIp packet.dstIp packet.payload := by
  obtain ⟨hhandled, hproto, hmeant⟩ := hf.meant r devId packet _ hacc
  rw [Ipv4Packet.handle, if_pos hproto] at hhandled
  exact ⟨hhandled.symm, hmeant⟩

/-- In every run of hosts that configure addresses, resolve them, send echo requests and answer
what arrives, on a wire that loses, repeats and delays frames and that others write to. -/
theorem lan_safe (m : Lan H) (hm : ((lanSystem devices).restrict EchoFits).Reachable m) :
    LanSafe m := by
  have hi := LanInv.of_reachable hm
  have hown : ∀ frame ∈ m.wire, frame ∉ m.foreign → OwnFrame m frame :=
    fun frame hframe hforeign => (hi.wire frame hframe).resolve_left hforeign
  constructor
  · exact fun h ip mac hlookup => (hi.hosts h).lookup hlookup
  · intro frame hframe hforeign
    have hf := hown frame hframe hforeign
    exact ⟨hf.claims, hf.addressed⟩
  · intro h c hc
    rcases (hi.hosts h).ready c hc with ⟨hphase, -⟩ | ⟨mac, hphase⟩
    · rw [hphase]
      exact ⟨SendPhase.noConfusion, SendPhase.noConfusion⟩
    · rw [hphase]
      exact ⟨SendPhase.noConfusion, SendPhase.noConfusion⟩
  · intro frame hframe hforeign r devId packet identifier sequence payload hacc
    obtain ⟨hevent, i, s, p, hcase⟩ := (hown frame hframe hforeign).observed hacc
    rcases hcase with ⟨hmessage, hping⟩ | ⟨hmessage, -⟩
    · rw [hmessage, observePacket_echoRequest] at hevent
      cases hevent
      exact hping
    · rw [hmessage, observePacket_echoPacket] at hevent
      cases hevent
  · intro frame hframe hforeign r devId packet identifier sequence length hacc
    obtain ⟨hevent, i, s, p, hcase⟩ := (hown frame hframe hforeign).observed hacc
    rcases hcase with ⟨hmessage, -⟩ | ⟨-, hseen⟩
    · rw [hmessage, observePacket_echoRequest] at hevent
      cases hevent
    · exact hseen

/-- Two hosts, and one of them pings the other. -/
theorem lan_safe_ping : ∃ m, ((lanSystem twoHosts).restrict EchoFits).Reachable m ∧
    (m.hosts false).arp.cacheLookupLocked (makeIpv4 10 0 0 2) = some (makeMac 2 0 0 0 0 2) ∧
      LanSafe m := by
  obtain ⟨m, hreach, -, -, hlookup⟩ := pingRun_reachable
  exact ⟨m, hreach, hlookup, lan_safe m hreach⟩

end Invariant

end VKernel.Proofs.Net

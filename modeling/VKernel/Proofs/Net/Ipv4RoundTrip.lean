import VKernel.Net.Ipv4

/-!
# `VKernel.Proofs.Net.Ipv4RoundTrip`: what IPv4 sends, IPv4 receives

`send_impl` and `observe_frame` are two separate paths over one wire format. The proof goes
by the layers of the frame: a 16-bit field read back from its two bytes (`load16_store16`,
`bswap16_bswap16`), the header read back from its bytes (`ipv4HeaderAt_frame`), and the
header bytes with the checksum field cleared, which are the bytes the sender summed
(`clearChecksum_toBytes`). The checksum itself is never looked into: both sides apply one
function to one list of bytes, so its value, 0 or 0xFFFF included, does not matter.

The length field counts header and payload only. The padding to 60 bytes lies behind it,
and `observe_frame` cuts it off with `totalLength - headerBytes`.
-/

set_option autoImplicit false

namespace VKernel.Proofs.Net

open VKernel.Net

/-! ### Fields -/

/-- A 16-bit load puts the two bytes together. -/
theorem toNat_load16 (hi lo : UInt8) :
    (lo.toUInt16 ||| (hi.toUInt16 <<< 8)).toNat = hi.toNat * 256 + lo.toNat := by
  have hhi := hi.toNat_lt
  have hlo := lo.toNat_lt
  have h8 : UInt16.toNat 8 % 16 = 8 := rfl
  have hshift : hi.toNat <<< 8 % 2 ^ 16 = hi.toNat <<< 8 := by
    rw [Nat.shiftLeft_eq]
    omega
  rw [UInt16.toNat_or, Nat.or_comm, UInt16.toNat_shiftLeft, h8, UInt8.toNat_toUInt16,
    UInt8.toNat_toUInt16, hshift, ← Nat.shiftLeft_add_eq_or_of_lt (by omega), Nat.shiftLeft_eq]

/-- The bytes of a 16-bit store are read back. -/
theorem load16_store16 (v : UInt16) :
    v.toUInt8.toUInt16 ||| ((v >>> 8).toUInt8.toUInt16 <<< 8) = v := by
  have hv := v.toNat_lt
  have h8 : UInt16.toNat 8 % 16 = 8 := rfl
  rw [← UInt16.toNat_inj, toNat_load16, UInt16.toNat_toUInt8, UInt16.toNat_toUInt8,
    UInt16.toNat_shiftRight, h8, Nat.shiftRight_eq_div_pow]
  omega

/-- `bswap16` exchanges the two bytes of a value. -/
theorem toNat_bswap16 (v : UInt16) :
    (bswap16 v).toNat = v.toNat % 256 * 256 + v.toNat / 256 := by
  have hv := v.toNat_lt
  have h8 : UInt16.toNat 8 % 16 = 8 := rfl
  have hshift : v.toNat * 2 ^ 8 % 2 ^ 16 = (v.toNat % 256) <<< 8 := by
    rw [Nat.shiftLeft_eq]
    omega
  unfold bswap16
  rw [UInt16.toNat_or, UInt16.toNat_shiftLeft, UInt16.toNat_shiftRight, h8,
    Nat.shiftRight_eq_div_pow, Nat.shiftLeft_eq, hshift,
    ← Nat.shiftLeft_add_eq_or_of_lt (by omega), Nat.shiftLeft_eq]

/-- Swapping twice gives the value back. -/
@[simp] theorem bswap16_bswap16 (v : UInt16) : bswap16 (bswap16 v) = v := by
  have hv := v.toNat_lt
  rw [← UInt16.toNat_inj, toNat_bswap16, toNat_bswap16]
  omega

/-- An address is its four bytes. -/
theorem exists_makeIpv4 (ip : Ipv4Address) : ∃ a b c d, ip = makeIpv4 a b c d :=
  ⟨ip.bytes[0], ip.bytes[1], ip.bytes[2], ip.bytes[3], by
    obtain ⟨v⟩ := ip
    refine congrArg Ipv4Address.mk (Vector.ext fun i hi => ?_)
    obtain rfl | rfl | rfl | rfl : i = 0 ∨ i = 1 ∨ i = 2 ∨ i = 3 := by omega
    all_goals rfl⟩

/-- A hardware address is its six bytes. -/
theorem exists_makeMac (mac : MacAddress) :
    ∃ a b c d e f, mac = makeMac a b c d e f :=
  ⟨mac.bytes[0], mac.bytes[1], mac.bytes[2], mac.bytes[3], mac.bytes[4], mac.bytes[5], by
    obtain ⟨v⟩ := mac
    refine congrArg MacAddress.mk (Vector.ext fun i hi => ?_)
    obtain rfl | rfl | rfl | rfl | rfl | rfl :
      i = 0 ∨ i = 1 ∨ i = 2 ∨ i = 3 ∨ i = 4 ∨ i = 5 := by omega
    all_goals rfl⟩

/-! ### The address table -/

/-- The search for `q` finds the entry that replaced the first `p` one, when no entry
before it can be what is searched for. -/
theorem find?_replaceFirst {p q : DeviceIpv4Config → Bool} {c : DeviceIpv4Config}
    {l : List DeviceIpv4Config} (hqp : ∀ x ∈ l, q x = true → p x = true) (hc : q c = true)
    (hany : l.any p = true) : (replaceFirst p c l).find? q = some c := by
  induction l with
  | nil => simp at hany
  | cons d ds ih =>
    unfold replaceFirst
    by_cases hp : p d = true
    · rw [if_pos hp, List.find?_cons_of_pos hc]
    · have hq : ¬ q d = true := fun h => hp (hqp d List.mem_cons_self h)
      rw [if_neg hp, List.find?_cons_of_neg hq]
      refine ih (fun x hx => hqp x (List.mem_cons_of_mem _ hx)) ?_
      simpa [hp] using hany

/-- After `configure_device` the device has the address it was given. -/
theorem configuredAddress_configureDevice {s s' : Ipv4State} {dev : Nat} {ip : Ipv4Address}
    (h : s.configureDevice dev ip = some s') : s'.configuredAddress dev = some ip := by
  have hc : DeviceIpv4Config.isFor dev ⟨dev, true, ip⟩ = true := by
    simp [DeviceIpv4Config.isFor]
  unfold Ipv4State.configureDevice at h
  unfold Ipv4State.configuredAddress
  split at h
  · rename_i hany
    rw [← Option.some.inj h]
    show Option.map _ ((replaceFirst _ _ s.configs).find? _) = _
    rw [find?_replaceFirst (fun _ _ hx => hx) hc hany]
    rfl
  · rename_i hnone
    split at h
    · rename_i hany
      rw [← Option.some.inj h]
      show Option.map _ ((replaceFirst _ _ s.configs).find? _) = _
      rw [find?_replaceFirst (fun x hx hq => ?_) hc hany]
      · rfl
      · exact absurd (List.any_eq_true.mpr ⟨x, hx, hq⟩) hnone
    · exact absurd h (by simp)

/-! ### The frame -/

/-- A frame around a header, a payload and padding. -/
def frameOf (dst src : MacAddress) (h : Ipv4Header) (payload pad : List UInt8) : List UInt8 :=
  ethernetHeader dst src (bswap16 EtherType.ipv4.toUInt16) ++ (h.toBytes ++ payload) ++ pad

theorem length_ethernetHeader (dst src : MacAddress) (t : UInt16) :
    (ethernetHeader dst src t).length = ETHERNET_HEADER_BYTES := by
  simp [ethernetHeader, store16, ETHERNET_HEADER_BYTES]

theorem length_toBytes (h : Ipv4Header) : h.toBytes.length = IPV4_HEADER_BYTES := by
  simp [Ipv4Header.toBytes, store16, IPV4_HEADER_BYTES]

/-- The fields of the Ethernet header of a frame. -/
theorem ethernet_fields (dst src : MacAddress) (h : Ipv4Header) (payload pad : List UInt8) :
    load16 (frameOf dst src h payload pad) 12 = bswap16 EtherType.ipv4.toUInt16 ∧
      macAt (frameOf dst src h payload pad) 6 = src := by
  obtain ⟨a, b, c, d, e, f, rfl⟩ := exists_makeMac dst
  obtain ⟨a', b', c', d', e', f', rfl⟩ := exists_makeMac src
  refine ⟨?_, rfl⟩
  exact load16_store16 _

/-- The header behind the Ethernet header is the one that was put there. -/
theorem ipv4HeaderAt_frame (dst src : MacAddress) (h : Ipv4Header) (payload pad : List UInt8) :
    ipv4HeaderAt (frameOf dst src h payload pad) ETHERNET_HEADER_BYTES = h := by
  obtain ⟨a, b, c, d, e, f, rfl⟩ := exists_makeMac dst
  obtain ⟨a', b', c', d', e', f', rfl⟩ := exists_makeMac src
  obtain ⟨vi, de, tl, id, ff, ttl, pr, hc, sip, dip⟩ := h
  obtain ⟨s0, s1, s2, s3, rfl⟩ := exists_makeIpv4 sip
  obtain ⟨d0, d1, d2, d3, rfl⟩ := exists_makeIpv4 dip
  -- Every field is read from the place it was written to; only the 16-bit ones are made up
  -- of two bytes.
  show Ipv4Header.mk vi de (tl.toUInt8.toUInt16 ||| ((tl >>> 8).toUInt8.toUInt16 <<< 8))
    (id.toUInt8.toUInt16 ||| ((id >>> 8).toUInt8.toUInt16 <<< 8))
    (ff.toUInt8.toUInt16 ||| ((ff >>> 8).toUInt8.toUInt16 <<< 8)) ttl pr
    (hc.toUInt8.toUInt16 ||| ((hc >>> 8).toUInt8.toUInt16 <<< 8))
    (makeIpv4 s0 s1 s2 s3) (makeIpv4 d0 d1 d2 d3) = _
  rw [load16_store16, load16_store16, load16_store16, load16_store16]

/-- Clearing the checksum field gives the bytes that the sender summed. -/
theorem clearChecksum_toBytes (h : Ipv4Header) :
    clearChecksum h.toBytes = { h with headerChecksumBe := 0 }.toBytes := by
  simp [clearChecksum, Ipv4Header.toBytes, store16]

/-- The bytes behind the Ethernet header, header and payload apart. -/
theorem drop_frame (dst src : MacAddress) (h : Ipv4Header) (payload pad : List UInt8) :
    ((frameOf dst src h payload pad).drop ETHERNET_HEADER_BYTES).take IPV4_HEADER_BYTES
        = h.toBytes ∧
      (frameOf dst src h payload pad).drop (ETHERNET_HEADER_BYTES + IPV4_HEADER_BYTES)
        = payload ++ pad := by
  have he := length_ethernetHeader dst src (bswap16 EtherType.ipv4.toUInt16)
  have hb := length_toBytes h
  have hdrop : (frameOf dst src h payload pad).drop ETHERNET_HEADER_BYTES =
      h.toBytes ++ (payload ++ pad) := by
    rw [frameOf, List.append_assoc, ← he, List.drop_left, List.append_assoc]
  refine ⟨?_, ?_⟩
  · rw [hdrop, ← hb, List.take_left]
  · rw [← List.drop_drop, hdrop, ← hb, List.drop_left]

theorem length_frameOf (dst src : MacAddress) (h : Ipv4Header) (payload pad : List UInt8) :
    (frameOf dst src h payload pad).length =
      ETHERNET_HEADER_BYTES + (IPV4_HEADER_BYTES + payload.length) + pad.length := by
  rw [frameOf, List.length_append, List.length_append, List.length_append,
    length_ethernetHeader, length_toBytes]

/-! ### The round trip -/

/-- `observe_frame` accepts a frame with a 20-byte header whose length field counts header
and payload, whose checksum field is the checksum of the other bytes, and whose destination
is the device's own address. -/
theorem observeFrame_frameOf {r : Ipv4State} {rxId : Nat} (dst src : MacAddress)
    {h : Ipv4Header} {payload : List UInt8} (pad : List UInt8) (hv : h.versionIhl = 0x45)
    (hlen : (bswap16 h.totalLengthBe).toNat = IPV4_HEADER_BYTES + payload.length)
    (hdst : r.configuredAddress rxId = some h.dstIp)
    (hsum : internetChecksum { h with headerChecksumBe := 0 }.toBytes =
      bswap16 h.headerChecksumBe) :
    observeFrame r rxId (frameOf dst src h payload pad) =
      .accepted ⟨src, h.srcIp, h.dstIp, h.protocol, payload⟩
        (Ipv4Packet.handle ⟨src, h.srcIp, h.dstIp, h.protocol, payload⟩) := by
  obtain ⟨htype, hmac⟩ := ethernet_fields dst src h payload pad
  obtain ⟨hheader, hpayload⟩ := drop_frame dst src h payload pad
  have hframe := length_frameOf dst src h payload pad
  have hihl : ((0x45 : UInt8) &&& 0x0F).toNat * 4 = IPV4_HEADER_BYTES := rfl
  have hcut : (payload ++ pad).take (IPV4_HEADER_BYTES + payload.length - IPV4_HEADER_BYTES) =
      payload := by
    rw [Nat.add_sub_cancel_left, List.take_left]
  simp only [hv] at hsum
  unfold observeFrame
  simp only [ipv4HeaderAt_frame, hv, hlen, hihl, hheader, hpayload, hmac, htype, hdst, hcut,
    clearChecksum_toBytes, hsum, bswap16_bswap16]
  -- Each test of the chain is now about lengths or about closed values.
  rw [if_neg (by omega), if_neg (by decide), if_neg (by decide), if_neg (by decide),
    if_neg (by omega), if_neg (by simp), if_neg (by simp)]

/-- The frame that a successful send hands over. -/
theorem sendImpl_some {s : Ipv4State} {env : SendEnv} {devId : Nat} {dev : NetDevice}
    {p : SendParams} {payload frame : List UInt8}
    (h : (sendImpl s env devId dev p payload).1 = some frame) :
    ∃ srcIp dstMac pad, IPV4_HEADER_BYTES + payload.length ≤ dev.mtu.toNat ∧
      s.sourceAddress devId p = some srcIp ∧
      pad.length = ETHERNET_MIN_FRAME_BYTES -
        (ETHERNET_HEADER_BYTES + (IPV4_HEADER_BYTES + payload.length)) ∧
      frame = frameOf dstMac dev.mac
        { sendHeader p srcIp (UInt16.ofNat (IPV4_HEADER_BYTES + payload.length))
            s.nextIdentification with
          headerChecksumBe := bswap16 (internetChecksum
            (sendHeader p srcIp (UInt16.ofNat (IPV4_HEADER_BYTES + payload.length))
              s.nextIdentification).toBytes) }
        payload pad := by
  unfold sendImpl at h
  split at h
  · exact absurd h (by simp)
  · rename_i hmtu
    split at h
    · exact absurd h (by simp)
    · cases hsrc : s.sourceAddress devId p with
      | none => simp [hsrc] at h
      | some srcIp =>
        cases hmac : env.resolve srcIp p.dstIp with
        | none => simp [hsrc, hmac] at h
        | some dstMac =>
          simp only [hsrc, hmac, transmitEthernet] at h
          split at h
          · exact absurd h (by simp)
          · split at h
            · exact absurd h (by simp)
            · refine ⟨srcIp, dstMac, _, by omega, rfl, ?_, (Option.some.inj h).symm⟩
              rw [List.length_replicate, List.length_append, length_toBytes]
              split <;> omega

/-- A frame that `send_impl` hands over is accepted by `observe_frame` on a device that is
configured with the destination address. It passes the checksum test, and the protocol
switch gets exactly the payload, without the padding of a short frame. And a frame is handed
over whenever header and payload are within the MTU, the buffers can be allocated, and the
source address and the hardware address of the destination are known. -/
theorem observeFrame_sendImpl (s : Ipv4State) (env : SendEnv) (devId : Nat) (dev : NetDevice)
    (p : SendParams) (payload : List UInt8) (r : Ipv4State) (rxId : Nat)
    (hrx : r.configuredAddress rxId = some p.dstIp) :
    (∀ frame, (sendImpl s env devId dev p payload).1 = some frame →
      ∃ srcIp, s.sourceAddress devId p = some srcIp ∧
        frame.length = max 60 (34 + payload.length) ∧
        observeFrame r rxId frame =
          .accepted ⟨dev.mac, srcIp, p.dstIp, p.proto, payload⟩
            (if p.proto = PROTOCOL_ICMP then observePacket payload else none)) ∧
    (∀ srcIp dstMac, 20 + payload.length ≤ dev.mtu.toNat → env.packetBuffer = true →
      env.frameBuffer = true → s.sourceAddress devId p = some srcIp →
      env.resolve srcIp p.dstIp = some dstMac →
      ∃ frame, (sendImpl s env devId dev p payload).1 = some frame) := by
  refine ⟨?_, ?_⟩
  · -- The receiver skips the padding and checks what the sender computed.
    intro frame hsend
    obtain ⟨srcIp, dstMac, pad, hmtu, hsrc, hpad, rfl⟩ := sendImpl_some hsend
    refine ⟨srcIp, hsrc, ?_, ?_⟩
    · rw [length_frameOf, hpad]
      unfold ETHERNET_HEADER_BYTES IPV4_HEADER_BYTES ETHERNET_MIN_FRAME_BYTES
      omega
    · -- The length field does not wrap, since the MTU is a 16-bit value.
      have hbound : IPV4_HEADER_BYTES + payload.length < 2 ^ 16 :=
        Nat.lt_of_le_of_lt hmtu dev.mtu.toNat_lt
      have hlen : (UInt16.ofNat (IPV4_HEADER_BYTES + payload.length)).toNat =
          IPV4_HEADER_BYTES + payload.length := UInt16.toNat_ofNat_of_lt' hbound
      refine observeFrame_frameOf dstMac dev.mac pad rfl ?_ hrx ?_
      · show (bswap16 (bswap16 (UInt16.ofNat (IPV4_HEADER_BYTES + payload.length)))).toNat = _
        rw [bswap16_bswap16, hlen]
      · exact (bswap16_bswap16 _).symm
  · -- With buffers, an address and a MAC nothing is left that fails.
    intro srcIp dstMac hmtu hbuf hframe hsrc hmac
    have hmtu' : ¬ (IPV4_HEADER_BYTES + payload.length > dev.mtu.toNat) := by
      unfold IPV4_HEADER_BYTES
      omega
    unfold sendImpl transmitEthernet
    simp only [hmtu', if_false, hbuf, Bool.true_eq_false, hsrc, hmac, hframe, List.length_append,
      length_toBytes]
    exact ⟨_, rfl⟩

/-- The loopback of an ICMP packet of eight zero bytes between 10.0.0.1 and 10.0.0.2: the
receiving side is configured through `configure_device`. -/
theorem observeFrame_sendImpl_loopback :
    ∃ r frame, Ipv4State.initial.configureDevice 0 (makeIpv4 10 0 0 2) = some r ∧
      (sendImpl Ipv4State.initial ⟨true, true, fun _ _ => some (makeMac 2 0 0 0 0 2)⟩ 1
        ⟨⟨[], by decide⟩, makeMac 2 0 0 0 0 1, 1500⟩
        ⟨makeIpv4 10 0 0 1, makeIpv4 10 0 0 2, 1, 64⟩ (List.replicate 8 0)).1 = some frame ∧
      ∃ handled, observeFrame r 0 frame =
        .accepted ⟨makeMac 2 0 0 0 0 1, makeIpv4 10 0 0 1, makeIpv4 10 0 0 2, 1,
          List.replicate 8 0⟩ handled := by
  have hconf : Ipv4State.initial.configureDevice 0 (makeIpv4 10 0 0 2) = some
      ⟨1, ⟨0, true, makeIpv4 10 0 0 2⟩ :: List.replicate 7 ⟨0, false, zeroIpv4⟩⟩ := by decide
  have hrx := configuredAddress_configureDevice hconf
  obtain ⟨hobs, hsend⟩ := observeFrame_sendImpl Ipv4State.initial
    ⟨true, true, fun _ _ => some (makeMac 2 0 0 0 0 2)⟩ 1
    ⟨⟨[], by decide⟩, makeMac 2 0 0 0 0 1, 1500⟩
    ⟨makeIpv4 10 0 0 1, makeIpv4 10 0 0 2, 1, 64⟩ (List.replicate 8 0)
    ⟨1, ⟨0, true, makeIpv4 10 0 0 2⟩ :: List.replicate 7 ⟨0, false, zeroIpv4⟩⟩ 0 hrx
  obtain ⟨frame, hframe⟩ := hsend (makeIpv4 10 0 0 1) (makeMac 2 0 0 0 0 2) (by decide) rfl rfl
    (by decide) rfl
  obtain ⟨srcIp, hsrc, -, hacc⟩ := hobs frame hframe
  have hsrc' : srcIp = makeIpv4 10 0 0 1 := by
    have h : Ipv4State.initial.sourceAddress 1 ⟨makeIpv4 10 0 0 1, makeIpv4 10 0 0 2, 1, 64⟩ =
        some (makeIpv4 10 0 0 1) := by decide
    exact Option.some.inj (hsrc.symm.trans h)
  rw [hsrc'] at hacc
  exact ⟨_, frame, hconf, hframe, _, hacc⟩

end VKernel.Proofs.Net

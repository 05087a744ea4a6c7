import VKernel.Net.Echo
import VKernel.Proofs.Net.Checksum

/-!
# `VKernel.Proofs.Net.Echo`: echo replies, and the buffer of `send_echo`

The writes of `send_echo` lie next to each other, so up to the checksum they are one write of the
message (`applyWrites_echoWrites`). Where the length of the message fits into 16 bits, the bytes
handed to the IPv4 layer are that message with its checksum put in (`sendEcho_packet`). A reply is
then read back by the two handlers that would read it.

From 65529 bytes of payload on the length wraps. The heap is asked for a buffer of less than a
header, and all of the payload is copied behind the header (`echoWrites_inside_iff`).
-/

set_option autoImplicit false

namespace VKernel.Proofs.Net

open VKernel.Lib VKernel.Net

section Message

variable {s : Ipv4State} {env : SendEnv} {mem : Nat → UInt8} {available : Bool} {devId : Nat}
  {dev : NetDevice} {type : UInt8} {srcIp dstIp : Ipv4Address} {identifier sequence : UInt16}
  {payload : List UInt8}

/-- An echo message behind its checksum field. -/
def echoBody (identifier sequence : UInt16) (payload : List UInt8) : List UInt8 :=
  store16 (bswap16 identifier) ++ store16 (bswap16 sequence) ++ payload

/-- The bytes of an echo message. -/
def echoMessage (type : UInt8) (checksumBe identifier sequence : UInt16) (payload : List UInt8) :
    List UInt8 :=
  [type, 0] ++ store16 checksumBe ++ echoBody identifier sequence payload

theorem length_echoMessage (checksumBe : UInt16) :
    (echoMessage type checksumBe identifier sequence payload).length =
      ICMP_ECHO_HEADER_BYTES + payload.length := by
  have hbytes : ICMP_ECHO_HEADER_BYTES = 8 := rfl
  simp only [echoMessage, echoBody, store16, List.length_append, List.length_cons, List.length_nil]
  omega

/-- The fields and the payload are written next to each other. -/
theorem applyWrites_echoWrites :
    applyWrites mem (echoWrites type identifier sequence payload) =
      writeBytes mem 0 (echoMessage type 0 identifier sequence payload) := by
  have hcode : writeBytes (writeBytes mem 0 [type]) 1 [0] = writeBytes mem 0 [type, 0] :=
    writeBytes_append mem 0 [type] [0]
  have hchecksum : writeBytes (writeBytes mem 0 [type, 0]) 2 (store16 0) =
      writeBytes mem 0 ([type, 0] ++ store16 0) := writeBytes_append mem 0 [type, 0] (store16 0)
  have hidentifier : writeBytes (writeBytes mem 0 ([type, 0] ++ store16 0)) 4
      (store16 (bswap16 identifier)) =
      writeBytes mem 0 ([type, 0] ++ store16 0 ++ store16 (bswap16 identifier)) :=
    writeBytes_append mem 0 ([type, 0] ++ store16 0) (store16 (bswap16 identifier))
  have hsequence : writeBytes (writeBytes mem 0
      ([type, 0] ++ store16 0 ++ store16 (bswap16 identifier))) 6 (store16 (bswap16 sequence)) =
      writeBytes mem 0 ([type, 0] ++ store16 0 ++ store16 (bswap16 identifier) ++
        store16 (bswap16 sequence)) :=
    writeBytes_append mem 0 ([type, 0] ++ store16 0 ++ store16 (bswap16 identifier))
      (store16 (bswap16 sequence))
  have hpayload : writeBytes (writeBytes mem 0 ([type, 0] ++ store16 0 ++
      store16 (bswap16 identifier) ++ store16 (bswap16 sequence))) 8 payload =
      writeBytes mem 0 ([type, 0] ++ store16 0 ++ store16 (bswap16 identifier) ++
        store16 (bswap16 sequence) ++ payload) :=
    writeBytes_append mem 0 _ payload
  have hmessage : [type, 0] ++ store16 0 ++ store16 (bswap16 identifier) ++
      store16 (bswap16 sequence) ++ payload = echoMessage type 0 identifier sequence payload := by
    simp only [echoMessage, echoBody, List.append_assoc]
  rw [applyWrites, echoWrites, List.foldl_append]
  simp only [List.foldl_cons, List.foldl_nil, hcode, hchecksum, hidentifier, hsequence]
  by_cases hempty : payload.length > 0
  · rw [if_pos hempty, List.foldl_cons, List.foldl_nil, ← hmessage]
    exact hpayload
  · -- There is no write for an empty payload.
    have hnil : payload = [] := List.length_eq_zero_iff.mp (by omega)
    rw [if_neg hempty, List.foldl_nil, ← hmessage, hnil, List.append_nil]

/-- The message with its checksum. -/
def echoPacket (type : UInt8) (identifier sequence : UInt16) (payload : List UInt8) :
    List UInt8 :=
  echoMessage type (bswap16 (internetChecksum (echoMessage type 0 identifier sequence payload)))
    identifier sequence payload

/-- A message whose length does not wrap is sent as it should be. -/
theorem sendEcho_packet (hlength : ICMP_ECHO_HEADER_BYTES + payload.length < 2 ^ 16) :
    (sendEcho s env mem true devId dev type srcIp dstIp identifier sequence payload).sent =
      sendImpl s env devId dev ⟨srcIp, dstIp, PROTOCOL_ICMP, 64⟩
        (echoPacket type identifier sequence payload) := by
  have hbytes : ICMP_ECHO_HEADER_BYTES = 8 := rfl
  have hsize : (UInt16.ofNat (ICMP_ECHO_HEADER_BYTES + payload.length)).toNat =
      ICMP_ECHO_HEADER_BYTES + payload.length := UInt16.toNat_ofNat_of_lt' hlength
  have hheap : heapAllocates (ICMP_ECHO_HEADER_BYTES + payload.length) true = true := by
    rw [heapAllocates, Bool.and_true, bne_iff_ne]
    omega
  have hread : ∀ checksumBe, readBytes
      (writeBytes mem 0 (echoMessage type checksumBe identifier sequence payload)) 0
      (ICMP_ECHO_HEADER_BYTES + payload.length) =
      echoMessage type checksumBe identifier sequence payload := by
    intro checksumBe
    have hend : ICMP_ECHO_HEADER_BYTES + payload.length =
        (echoMessage type checksumBe identifier sequence payload).length :=
      (length_echoMessage checksumBe).symm
    rw [hend, readBytes_writeBytes]
  -- The checksum goes into the field that was written as 0.
  have hinsert : ∀ checksumBe, writeBytes
      (writeBytes mem 0 (echoMessage type 0 identifier sequence payload)) 2 (store16 checksumBe) =
      writeBytes mem 0 (echoMessage type checksumBe identifier sequence payload) :=
    fun checksumBe => writeBytes_inside mem 0 [type, 0] (store16 0) (store16 checksumBe) _ rfl
  have hstep : ∀ checksumBe, applyWrites
      (writeBytes mem 0 (echoMessage type 0 identifier sequence payload))
      [⟨2, store16 checksumBe⟩] =
      writeBytes mem 0 (echoMessage type checksumBe identifier sequence payload) := hinsert
  rw [sendEcho]
  simp only [hsize, hheap, Bool.true_eq_false, if_false, applyWrites_echoWrites, hread, hstep]
  rfl

/-- The checksum of a message is right for every length. -/
theorem internetChecksum_echoPacket :
    internetChecksum (echoPacket type identifier sequence payload) = 0 := by
  have heven : [type, 0].length % 2 = 0 := by simp
  exact internetChecksum_insert heven

/-- What the other side reads from a reply. -/
theorem observePacket_echoPacket :
    observePacket (echoPacket ICMP_ECHO_REPLY identifier sequence payload) =
      some (.echoReply identifier sequence payload.length) := by
  have hbytes : ICMP_ECHO_HEADER_BYTES = 8 := rfl
  have hshort : ICMP_HEADER_BYTES = 4 := rfl
  have hlength : (echoPacket ICMP_ECHO_REPLY identifier sequence payload).length =
      ICMP_ECHO_HEADER_BYTES + payload.length := length_echoMessage _
  have hidentifier : load16 (echoPacket ICMP_ECHO_REPLY identifier sequence payload) 4 =
      bswap16 identifier := load16_store16 _
  have hsequence : load16 (echoPacket ICMP_ECHO_REPLY identifier sequence payload) 6 =
      bswap16 sequence := load16_store16 _
  have htype : byteAt (echoPacket ICMP_ECHO_REPLY identifier sequence payload) 0 =
      ICMP_ECHO_REPLY := rfl
  have hcode : byteAt (echoPacket ICMP_ECHO_REPLY identifier sequence payload) 1 = 0 := rfl
  rw [observePacket]
  simp only [htype, hcode, hlength, hidentifier, hsequence, bswap16_bswap16,
    internetChecksum_echoPacket, ne_eq, not_true_eq_false, if_false]
  rw [if_neg (by omega), if_neg (by decide), if_pos trivial, if_neg (by simp),
    Nat.add_sub_cancel_left]

/-- The reply is the request behind its checksum field. -/
theorem drop_echoPacket {packet : List UInt8}
    (hlength : ICMP_ECHO_HEADER_BYTES ≤ packet.length) :
    (echoPacket type (bswap16 (load16 packet 4)) (bswap16 (load16 packet 6))
      (packet.drop ICMP_ECHO_HEADER_BYTES)).drop 4 = packet.drop 4 := by
  have hbytes : ICMP_ECHO_HEADER_BYTES = 8 := rfl
  rw [hbytes] at hlength
  have hbody : (echoPacket type (bswap16 (load16 packet 4)) (bswap16 (load16 packet 6))
      (packet.drop ICMP_ECHO_HEADER_BYTES)).drop 4 =
      echoBody (bswap16 (load16 packet 4)) (bswap16 (load16 packet 6))
        (packet.drop ICMP_ECHO_HEADER_BYTES) := rfl
  rw [hbody, echoBody, bswap16_bswap16, bswap16_bswap16, load16, load16, store16_load16,
    store16_load16, byteAt_getElem (by omega), byteAt_getElem (by omega),
    byteAt_getElem (by omega), byteAt_getElem (by omega),
    List.drop_eq_getElem_cons (by omega : 4 < packet.length),
    List.drop_eq_getElem_cons (by omega : 5 < packet.length),
    List.drop_eq_getElem_cons (by omega : 6 < packet.length),
    List.drop_eq_getElem_cons (by omega : 7 < packet.length)]
  rfl

/-- A packet that is taken for a request. -/
theorem echoRequest_of_observePacket {packet : List UInt8}
    (h : observePacket packet = some (.echoRequest identifier sequence payload)) :
    ICMP_ECHO_HEADER_BYTES ≤ packet.length ∧ identifier = bswap16 (load16 packet 4) ∧
      sequence = bswap16 (load16 packet 6) ∧ payload = packet.drop ICMP_ECHO_HEADER_BYTES := by
  rw [observePacket] at h
  split at h
  · cases h
  · split at h
    · cases h
    · split at h
      · split at h
        · cases h
        · rename_i hformed
          cases h
          exact ⟨not_lt.mp (not_or.mp hformed).2, rfl, rfl, rfl⟩
      · split at h
        · split at h
          · cases h
          · cases h
        · cases h

/-- Where the heap gives a buffer, the header, the payload and the checksum are written. -/
theorem sendEcho_writes (hheap : heapAllocates
      (UInt16.ofNat (ICMP_ECHO_HEADER_BYTES + payload.length)).toNat available = true) :
    ∃ sum, (sendEcho s env mem available devId dev type srcIp dstIp identifier sequence
      payload).writes = echoWrites type identifier sequence payload ++ [⟨2, store16 sum⟩] := by
  rw [sendEcho]
  simp only [hheap, Bool.true_eq_false, if_false]
  exact ⟨_, rfl⟩

theorem sendEcho_noBuffer (hheap : heapAllocates
      (UInt16.ofNat (ICMP_ECHO_HEADER_BYTES + payload.length)).toNat available = false) :
    (sendEcho s env mem available devId dev type srcIp dstIp identifier sequence payload).writes =
        [] ∧
      (sendEcho s env mem available devId dev type srcIp dstIp identifier sequence payload).sent =
        (none, s) := by
  rw [sendEcho]
  simp only [hheap, if_true, and_self]

theorem sendEcho_packetLength :
    (sendEcho s env mem available devId dev type srcIp dstIp identifier sequence
      payload).packetLength = (ICMP_ECHO_HEADER_BYTES + payload.length) % 2 ^ 16 := by
  rw [sendEcho]
  dsimp only
  split
  · rfl
  · rfl

/-- A buffer with room for the message has room for its writes. -/
theorem echoWrites_inside {size : Nat} (hsize : ICMP_ECHO_HEADER_BYTES + payload.length ≤ size)
    (sum : UInt16) :
    ∀ w ∈ echoWrites type identifier sequence payload ++ [⟨2, store16 sum⟩], w.Inside size := by
  have hbytes : ICMP_ECHO_HEADER_BYTES = 8 := rfl
  have hfields : ∀ offset bytes, offset + bytes.length ≤ 8 →
      (⟨offset, bytes⟩ : BufferWrite).Inside size := by
    intro offset bytes h
    show offset + bytes.length ≤ size
    omega
  have hpayload : (⟨ICMP_ECHO_HEADER_BYTES, payload⟩ : BufferWrite).Inside size := hsize
  rw [echoWrites, List.forall_mem_append, List.forall_mem_append, List.forall_mem_singleton]
  refine ⟨⟨?_, ?_⟩, hfields _ _ (by simp [store16])⟩
  · simp only [List.forall_mem_cons, List.not_mem_nil, false_imp_iff, implies_true, and_true]
    exact ⟨hfields _ _ (by simp), hfields _ _ (by simp), hfields _ _ (by simp [store16]),
      hfields _ _ (by simp [store16]), hfields _ _ (by simp [store16])⟩
  · split
    · rw [List.forall_mem_singleton]
      exact hpayload
    · exact fun w hw => absurd hw List.not_mem_nil

/-- The writes end in the buffer unless the length of the message wraps to a positive number. -/
theorem echoWrites_inside_iff (hlength : payload.length < 2 ^ 16) :
    (∀ w ∈ (sendEcho s env mem available devId dev type srcIp dstIp identifier sequence
        payload).writes,
      w.Inside (sendEcho s env mem available devId dev type srcIp dstIp identifier sequence
        payload).packetLength) ↔
      payload.length ≤ 65528 ∨ available = false := by
  have hbytes : ICMP_ECHO_HEADER_BYTES = 8 := rfl
  have hsize : (UInt16.ofNat (ICMP_ECHO_HEADER_BYTES + payload.length)).toNat =
      (ICMP_ECHO_HEADER_BYTES + payload.length) % 2 ^ 16 := rfl
  rw [sendEcho_packetLength]
  cases hheap : heapAllocates
      (UInt16.ofNat (ICMP_ECHO_HEADER_BYTES + payload.length)).toNat available with
  | false =>
    rw [(sendEcho_noBuffer hheap).1]
    refine ⟨fun _ => ?_, fun _ w hw => absurd hw List.not_mem_nil⟩
    -- The heap has no block, or it is asked for one of size 0.
    rw [heapAllocates, hsize, Bool.and_eq_false_iff, bne_eq_false_iff_eq] at hheap
    rcases hheap with hzero | hnone
    · exact .inl (by omega)
    · exact .inr hnone
  | true =>
    rw [heapAllocates, hsize, Bool.and_eq_true, bne_iff_ne] at hheap
    have hheap' : heapAllocates
        (UInt16.ofNat (ICMP_ECHO_HEADER_BYTES + payload.length)).toNat available = true := by
      rw [heapAllocates, hsize, Bool.and_eq_true, bne_iff_ne]
      exact hheap
    obtain ⟨sum, hwrites⟩ := @sendEcho_writes s env mem available devId dev type srcIp dstIp
      identifier sequence payload hheap'
    rw [hwrites]
    constructor
    · intro h
      by_contra hcontra
      rw [not_or] at hcontra
      have hpositive : payload.length > 0 := by omega
      have hpayload : ⟨ICMP_ECHO_HEADER_BYTES, payload⟩ ∈
          echoWrites type identifier sequence payload := by
        rw [echoWrites, if_pos hpositive]
        exact List.mem_append_right _ (List.mem_singleton.mpr rfl)
      have hinside : ICMP_ECHO_HEADER_BYTES + payload.length ≤
          (ICMP_ECHO_HEADER_BYTES + payload.length) % 2 ^ 16 :=
        h _ (List.mem_append_left _ hpayload)
      omega
    · rintro (hshort | hnone)
      · exact echoWrites_inside (by omega) sum
      · rw [hnone] at hheap
        exact absurd hheap.2 (by decide)

end Message

/-- The reply to a request that fits the MTU has its identifier, its sequence number and its
payload, goes back to its source, passes both checksum tests there, and is sent whenever the
buffers and the addresses can be had. The writes of `send_echo` lie in its buffer if and only if
the payload has at most 65528 bytes, or there is no buffer. -/
theorem echo_reply_correct (s : Ipv4State) (env : SendEnv) (mem : Nat → UInt8) (available : Bool)
    (devId : Nat) (dev : NetDevice) (srcIp dstIp : Ipv4Address) :
    (∀ packet identifier sequence payload, packet.length < 2 ^ 16 →
      observePacket packet = some (.echoRequest identifier sequence payload) →
      IPV4_HEADER_BYTES + packet.length ≤ dev.mtu.toNat →
      ∃ call, replyTo s env mem available devId dev srcIp dstIp packet = some call ∧
        (∀ frame, call.sent.1 = some frame → ∀ r rxId, r.configuredAddress rxId = some srcIp →
          ∃ ip reply, observeFrame r rxId frame =
              .accepted ⟨dev.mac, ip, srcIp, PROTOCOL_ICMP, reply⟩
                (some (.echoReply identifier sequence payload.length)) ∧
            reply.drop 4 = packet.drop 4 ∧ internetChecksum reply = 0) ∧
        (available = true → env.packetBuffer = true → env.frameBuffer = true →
          ∀ ip mac, s.sourceAddress devId ⟨dstIp, srcIp, PROTOCOL_ICMP, 64⟩ = some ip →
            env.resolve ip srcIp = some mac → ∃ frame, call.sent.1 = some frame)) ∧
    ∀ type identifier sequence payload, payload.length < 2 ^ 16 →
      ((∀ w ∈ (sendEcho s env mem available devId dev type srcIp dstIp identifier sequence
          payload).writes,
        w.Inside (sendEcho s env mem available devId dev type srcIp dstIp identifier sequence
          payload).packetLength) ↔
      payload.length ≤ 65528 ∨ available = false) := by
  refine ⟨?_, fun _ _ _ _ hlength => echoWrites_inside_iff hlength⟩
  intro packet identifier sequence payload hpacket hrequest hmtu
  obtain ⟨hheader, rfl, rfl, rfl⟩ := echoRequest_of_observePacket hrequest
  have hlength : ICMP_ECHO_HEADER_BYTES + (packet.drop ICMP_ECHO_HEADER_BYTES).length =
      packet.length := by
    rw [List.length_drop]
    omega
  refine ⟨_, by rw [replyTo, hrequest], ?_, ?_⟩
  · intro frame hframe r rxId hrx
    cases available with
    | false =>
      -- Without a buffer nothing is sent.
      have hheap : ∀ size, heapAllocates size false = false := fun size => Bool.and_false _
      rw [(sendEcho_noBuffer (hheap _)).2] at hframe
      cases hframe
    | true =>
      rw [sendEcho_packet (by omega)] at hframe
      obtain ⟨ip, -, -, hobserved⟩ :=
        (observeFrame_sendImpl s env devId dev ⟨dstIp, srcIp, PROTOCOL_ICMP, 64⟩ _ r rxId
          hrx).1 frame hframe
      rw [if_pos rfl, observePacket_echoPacket] at hobserved
      exact ⟨ip, _, hobserved, drop_echoPacket hheader, internetChecksum_echoPacket⟩
  · rintro rfl hbuffer hframe ip mac hip hmac
    rw [sendEcho_packet (by omega)]
    refine (observeFrame_sendImpl s env devId dev ⟨dstIp, srcIp, PROTOCOL_ICMP, 64⟩ _
      ⟨0, [⟨0, true, srcIp⟩]⟩ 0 rfl).2 ip mac ?_ hbuffer hframe hip hmac
    have hbytes : IPV4_HEADER_BYTES = 20 := rfl
    have hsame : (echoPacket ICMP_ECHO_REPLY (bswap16 (load16 packet 4)) (bswap16 (load16 packet 6))
        (packet.drop ICMP_ECHO_HEADER_BYTES)).length = packet.length :=
      (length_echoMessage _).trans hlength
    omega

/-- A request with one byte is answered, and its sender accepts the reply. -/
theorem echo_reply_correct_byte :
    ∃ call frame, replyTo Ipv4State.initial ⟨true, true, fun _ _ => some (makeMac 2 0 0 0 0 1)⟩
        (fun _ => 0) true 0 ⟨⟨[], by decide⟩, makeMac 2 0 0 0 0 2, 1500⟩ (makeIpv4 10 0 0 1)
        (makeIpv4 10 0 0 2) (echoPacket ICMP_ECHO_REQUEST 1 2 [3]) = some call ∧
      call.sent.1 = some frame ∧ ∃ r, r.configuredAddress 0 = some (makeIpv4 10 0 0 1) ∧
        ∃ ip reply, observeFrame r 0 frame =
          .accepted ⟨makeMac 2 0 0 0 0 2, ip, makeIpv4 10 0 0 1, PROTOCOL_ICMP, reply⟩
            (some (.echoReply 1 2 1)) := by
  obtain ⟨call, hcall, hreply, hsent⟩ := (echo_reply_correct Ipv4State.initial
    ⟨true, true, fun _ _ => some (makeMac 2 0 0 0 0 1)⟩ (fun _ => 0) true 0
    ⟨⟨[], by decide⟩, makeMac 2 0 0 0 0 2, 1500⟩ (makeIpv4 10 0 0 1) (makeIpv4 10 0 0 2)).1
    (echoPacket ICMP_ECHO_REQUEST 1 2 [3]) 1 2 [3] (by decide) (by decide) (by decide)
  obtain ⟨frame, hframe⟩ := hsent rfl rfl rfl (makeIpv4 10 0 0 2) (makeMac 2 0 0 0 0 1)
    (by decide) rfl
  have hconf : Ipv4State.initial.configureDevice 0 (makeIpv4 10 0 0 1) = some
      ⟨1, ⟨0, true, makeIpv4 10 0 0 1⟩ :: List.replicate 7 ⟨0, false, zeroIpv4⟩⟩ := by
    decide
  have hrx := configuredAddress_configureDevice hconf
  obtain ⟨ip, reply, hobserved, -⟩ := hreply frame hframe _ 0 hrx
  exact ⟨call, frame, hcall, hframe, _, hrx, ip, reply, hobserved⟩

/-- With 65529 bytes the heap is asked for one byte, and the payload goes behind it. -/
theorem echo_payload_overruns :
    ¬ ∀ w ∈ (sendEcho Ipv4State.initial ⟨true, true, fun _ _ => none⟩ (fun _ => 0) true 0
        ⟨⟨[], by decide⟩, makeMac 2 0 0 0 0 1, 1500⟩ ICMP_ECHO_REQUEST zeroIpv4
        (makeIpv4 10 0 0 2) 1 1 (List.replicate 65529 0)).writes,
      w.Inside (sendEcho Ipv4State.initial ⟨true, true, fun _ _ => none⟩ (fun _ => 0) true 0
        ⟨⟨[], by decide⟩, makeMac 2 0 0 0 0 1, 1500⟩ ICMP_ECHO_REQUEST zeroIpv4
        (makeIpv4 10 0 0 2) 1 1 (List.replicate 65529 0)).packetLength := by
  have hlength : (List.replicate 65529 (0 : UInt8)).length = 65529 := List.length_replicate
  rw [echoWrites_inside_iff (by omega), hlength, not_or]
  exact ⟨by omega, by decide⟩

end VKernel.Proofs.Net

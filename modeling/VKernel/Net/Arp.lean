import VKernel.Net.Ipv4

/-!
# `VKernel.Net.Arp`: the cache of `arp.cpp`

The cache is an array of slots, and each of the three loops of `cache_insert_locked` works on the
first slot that passes its test: the slot of the address, else a free slot. When there is neither,
the slot at `s_next_replace` is taken and the cursor moves on.

A received frame inserts at most one address: an ARP frame that is well formed that of its sender,
an IPv4 packet that `observe_frame` accepts that of its source.
-/

set_option autoImplicit false

namespace VKernel.Net

/-! ### The cache -/

/-- `arp_cache_entry`. -/
structure ArpCacheEntry where
  valid : Bool
  ip : Ipv4Address
  mac : MacAddress
  deriving DecidableEq, Repr

/-- `arp::MAX_CACHE_ENTRIES`. -/
def MAX_CACHE_ENTRIES : Nat := 16

/-- The file's globals `s_cache` and `s_next_replace`. -/
structure ArpState where
  cache : List ArpCacheEntry
  nextReplace : Nat
  size : cache.length = MAX_CACHE_ENTRIES
  inRange : nextReplace < MAX_CACHE_ENTRIES
  deriving DecidableEq, Repr

/-- The state after `init`. -/
def ArpState.initial : ArpState where
  cache := List.replicate MAX_CACHE_ENTRIES ⟨false, zeroIpv4, makeMac 0 0 0 0 0 0⟩
  nextReplace := 0
  size := List.length_replicate
  inRange := by decide

/-- The valid entry of an address. -/
def isEntryOf (ip : Ipv4Address) (e : ArpCacheEntry) : Bool := e.valid && e.ip == ip

/-- A loop that changes the first slot that passes the test, and returns. -/
def modifyFirst (p : ArpCacheEntry → Bool) (f : ArpCacheEntry → ArpCacheEntry) :
    List ArpCacheEntry → List ArpCacheEntry
  | [] => []
  | e :: rest => if p e then f e :: rest else e :: modifyFirst p f rest

theorem length_modifyFirst (p : ArpCacheEntry → Bool) (f : ArpCacheEntry → ArpCacheEntry)
    (l : List ArpCacheEntry) : (modifyFirst p f l).length = l.length := by
  induction l with
  | nil => rfl
  | cons e rest ih =>
    rw [modifyFirst]
    split
    · rfl
    · rw [List.length_cons, ih, List.length_cons]

/-- `cache_insert_locked`. -/
def ArpState.cacheInsertLocked (s : ArpState) (ip : Ipv4Address) (mac : MacAddress) : ArpState :=
  if s.cache.any (isEntryOf ip) then
    { s with
      cache := modifyFirst (isEntryOf ip) (fun e => { e with mac := mac }) s.cache
      size := (length_modifyFirst _ _ _).trans s.size }
  else if s.cache.any fun e => !e.valid then
    { s with
      cache := modifyFirst (fun e => !e.valid) (fun _ => ⟨true, ip, mac⟩) s.cache
      size := (length_modifyFirst _ _ _).trans s.size }
  else
    { cache := s.cache.set s.nextReplace ⟨true, ip, mac⟩
      nextReplace := (s.nextReplace + 1) % MAX_CACHE_ENTRIES
      size := List.length_set.trans s.size
      inRange := Nat.mod_lt _ (by decide) }

/-- `cache_lookup_locked`. -/
def ArpState.cacheLookupLocked (s : ArpState) (ip : Ipv4Address) : Option MacAddress :=
  (s.cache.find? (isEntryOf ip)).map ArpCacheEntry.mac

/-- Several calls of `insert`. -/
def ArpState.insertAll (s : ArpState) (inserts : List (Ipv4Address × MacAddress)) : ArpState :=
  inserts.foldl (fun s e => s.cacheInsertLocked e.1 e.2) s

/-- The addresses that were absent when they were inserted. -/
def ArpState.absentAtInsertion (s : ArpState) :
    List (Ipv4Address × MacAddress) → List Ipv4Address
  | [] => []
  | e :: inserts =>
    if s.cacheLookupLocked e.1 = none then
      e.1 :: (s.cacheInsertLocked e.1 e.2).absentAtInsertion inserts
    else (s.cacheInsertLocked e.1 e.2).absentAtInsertion inserts

/-! ### Received frames -/

/-- `ARP_ETHERNET_IPV4_BYTES`. -/
def ARP_ETHERNET_IPV4_BYTES : Nat := 28

/-- `ARP_ETHERNET_HTYPE`. -/
def ARP_ETHERNET_HTYPE : UInt16 := 1

/-- `ARP_HLEN_ETHERNET`. -/
def ARP_HLEN_ETHERNET : UInt8 := 6

/-- `ARP_PLEN_IPV4`. -/
def ARP_PLEN_IPV4 : UInt8 := 4

/-- `parsed_arp_frame`. -/
structure ParsedArpFrame where
  senderIp : Ipv4Address
  senderMac : MacAddress
  targetIp : Ipv4Address
  operation : UInt16
  deriving DecidableEq, Repr

/-- `parse_arp_frame`. -/
def parseArpFrame (frame : List UInt8) : Option ParsedArpFrame :=
  let arp := ETHERNET_HEADER_BYTES
  if frame.length < ETHERNET_HEADER_BYTES + ARP_ETHERNET_IPV4_BYTES then none
  else if bswap16 (load16 frame 12) ≠ EtherType.arp.toUInt16 then none
  else if bswap16 (load16 frame arp) ≠ ARP_ETHERNET_HTYPE ∨
      bswap16 (load16 frame (arp + 2)) ≠ EtherType.ipv4.toUInt16 ∨
      byteAt frame (arp + 4) ≠ ARP_HLEN_ETHERNET ∨ byteAt frame (arp + 5) ≠ ARP_PLEN_IPV4 then none
  else some ⟨ipv4At frame (arp + 14), macAt frame (arp + 8), ipv4At frame (arp + 24),
    bswap16 (load16 frame (arp + 6))⟩

/-- The insert that `observe_frame` of `arp.cpp` makes. -/
def arpInsert (frame : List UInt8) : Option (Ipv4Address × MacAddress) :=
  (parseArpFrame frame).map fun parsed => (parsed.senderIp, parsed.senderMac)

/-- The insert that `observe_frame` of `ipv4.cpp` makes. -/
def ipv4Insert (s : Ipv4State) (devId : Nat) (frame : List UInt8) :
    Option (Ipv4Address × MacAddress) :=
  match observeFrame s devId frame with
  | .accepted packet _ => some (packet.srcIp, packet.srcMac)
  | _ => none

/-- A frame on its way to one of the two handlers, with the IPv4 state that it meets. -/
inductive ReceivedFrame
  | arp (frame : List UInt8)
  | ipv4 (s : Ipv4State) (devId : Nat) (frame : List UInt8)

/-- The insert that a frame leads to. -/
def ReceivedFrame.insert : ReceivedFrame → Option (Ipv4Address × MacAddress)
  | .arp frame => arpInsert frame
  | .ipv4 s devId frame => ipv4Insert s devId frame

/-- What a received frame does to the cache. -/
def ArpState.observe (s : ArpState) (f : ReceivedFrame) : ArpState :=
  match f.insert with
  | some e => s.cacheInsertLocked e.1 e.2
  | none => s

end VKernel.Net

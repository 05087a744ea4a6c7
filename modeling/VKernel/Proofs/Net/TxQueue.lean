import VKernel.Lib.Ring
import VKernel.Net.TxQueue
import VKernel.Proofs.Memory.HeapRuns

/-!
# `VKernel.Proofs.Net.TxQueue`: every accepted packet is sent once, in order

The packets that `queue_packet` accepted are those that are done with, the one that the background
task holds, and those in the ring, in this order (`TxInv.accepted`). The bytes of the last two are
read off the memory, so the equation also says that nobody writes to a buffer that is in use: the
buffers are live allocations of the heap, each with one ticket (`Ledger.Exclusive`), and live
allocations lie apart (`live_apart`).

What holds of a ticket depends on how far its call is (`TicketOk`), and a step changes one ticket:
for the others it is enough to see that what they rest on is kept (`SameTicket`). Each step of the
background task then raises `3 * gone.length + rank` by one, until nothing is left
(`Advances`).
-/

set_option autoImplicit false

namespace VKernel.Proofs.Net

open VKernel VKernel.Net VKernel.Lib VKernel.Memory VKernel.Proofs.Memory

/-! ### The ring -/

/-- `s_tx_queue` from `s_tx_queue_tail` on is the queue `q`, and one slot at least is not in use. -/
structure TxRing (queue : List QueuedPacket) (head tail : Nat) (q : List QueuedPacket) : Prop where
  holds : ∃ unused, RingHolds queue tail q unused ∧ unused ≠ []
  length : queue.length = NET_TX_QUEUE_CAPACITY
  tail_lt : tail < NET_TX_QUEUE_CAPACITY
  head_eq : head = (tail + q.length) % NET_TX_QUEUE_CAPACITY

section Ring

variable {queue q : List QueuedPacket} {head tail : Nat} {e : QueuedPacket}

theorem TxRing.length_lt (h : TxRing queue head tail q) : q.length < NET_TX_QUEUE_CAPACITY := by
  obtain ⟨unused, hring, hne⟩ := h.holds
  have hlen := hring.length
  have hpos := List.length_pos_iff.mpr hne
  have hsize := h.length
  omega

/-- `tx_queue_empty` is exact. -/
theorem TxRing.empty_iff (h : TxRing queue head tail q) : head = tail ↔ q = [] := by
  have hlt := h.length_lt
  have htail := h.tail_lt
  rw [h.head_eq, ← List.length_eq_zero_iff]
  unfold NET_TX_QUEUE_CAPACITY at *
  omega

/-- `tx_queue_full` is exact: one slot stays unused. -/
theorem TxRing.full_iff (h : TxRing queue head tail q) :
    (head + 1) % NET_TX_QUEUE_CAPACITY = tail ↔ q.length + 1 = NET_TX_QUEUE_CAPACITY := by
  have hlt := h.length_lt
  have htail := h.tail_lt
  rw [h.head_eq]
  unfold NET_TX_QUEUE_CAPACITY at *
  omega

/-- A push into a ring that is not full. -/
theorem TxRing.push (h : TxRing queue head tail q)
    (hfull : (head + 1) % NET_TX_QUEUE_CAPACITY ≠ tail) :
    TxRing (queue.set head e) ((head + 1) % NET_TX_QUEUE_CAPACITY) tail (q ++ [e]) := by
  obtain ⟨unused, hring, hne⟩ := h.holds
  have hroom : q.length + 1 ≠ NET_TX_QUEUE_CAPACITY := fun heq => hfull (h.full_iff.mpr heq)
  have hlt := h.length_lt
  have hlen := hring.length
  rw [h.length] at hlen
  cases unused with
  | nil => exact absurd rfl hne
  | cons y rest =>
    have hpush := hring.push e
    rw [h.length, ← h.head_eq] at hpush
    refine ⟨⟨rest, hpush, ?_⟩, ?_, h.tail_lt, ?_⟩
    · -- Two slots were unused.
      rintro rfl
      rw [List.length_singleton] at hlen
      omega
    · rw [List.length_set, h.length]
    · rw [h.head_eq, List.length_append, List.length_singleton, Nat.mod_add_mod, Nat.add_assoc]

/-- What the background task finds in the slot at the tail, and the ring afterwards. -/
theorem TxRing.pop (h : TxRing queue head tail (e :: q)) :
    queue.getD tail .blank = e ∧
      TxRing (queue.set tail .blank) head ((tail + 1) % NET_TX_QUEUE_CAPACITY) q := by
  obtain ⟨unused, hring, -⟩ := h.holds
  have htail : tail < queue.length := by
    rw [h.length]
    exact h.tail_lt
  have hget := hring.head htail
  have hpop := hring.pop htail .blank
  rw [h.length] at hpop
  refine ⟨?_, ⟨⟨_, hpop, by simp⟩, ?_, Nat.mod_lt _ (by decide), ?_⟩⟩
  · rw [List.getD_eq_getElem?_getD, hget, Option.getD_some]
  · rw [List.length_set, h.length]
  · rw [h.head_eq, List.length_cons, Nat.mod_add_mod]
    congr 1
    omega

theorem txRing_blank : TxRing (List.replicate NET_TX_QUEUE_CAPACITY .blank) 0 0 [] := by
  refine ⟨⟨List.replicate NET_TX_QUEUE_CAPACITY .blank, ?_, by decide⟩, by simp, by decide, rfl⟩
  exact List.rotate_zero _

end Ring

/-! ### The heap -/

section Heap

variable {h h' : HeapState} {op : HeapOp} {ptr n : Nat}

/-- Two live allocations share no byte. -/
theorem live_apart (hs : heapSystem.Reachable h) : h.live.Pairwise Apart := by
  obtain ⟨l, hl⟩ := heap_wellFormed_of_run h hs
  refine hl.liveApart.imp_of_mem fun {g g'} hg hg' hblocks => ?_
  obtain ⟨-, b, hb, -, hptr, hsize⟩ := hl.live g hg
  obtain ⟨-, b', hb', -, hptr', hsize'⟩ := hl.live g' hg'
  have hdis := hblocks b hb b' hb' hptr hptr'
  unfold Apart at *
  simp only at hdis
  omega

/-- Null is not live. -/
theorem live_ne_zero (hs : heapSystem.Reachable h) (hlive : (ptr, n) ∈ h.live) : ptr ≠ 0 := by
  obtain ⟨l, hl⟩ := heap_wellFormed_of_run h hs
  obtain ⟨-, b, -, -, hptr, -⟩ := hl.live _ hlive
  unfold HEADER_SIZE at hptr
  simp only at hptr
  omega

instance : Std.Symm Apart := ⟨fun _ _ h => h.symm⟩

theorem apart_of_mem (hs : heapSystem.Reachable h) {g g' : Nat × Nat} (hg : g ∈ h.live)
    (hg' : g' ∈ h.live) (hne : g ≠ g') : Apart g g' :=
  (live_apart hs).forall hg hg' hne

/-- What other code does to the heap leaves the live allocations alone that it may not free. -/
theorem live_of_next (hop : ∀ base size, op ≠ .init base size) (hfree : op ≠ .free ptr)
    (hlive : (ptr, n) ∈ h.live) (hnext : h.next op = some h') : (ptr, n) ∈ h'.live := by
  -- An allocation adds to the list, if anything.
  have hgrant : ∀ size (r : KernelHeap × Nat), (ptr, n) ∈ (h.grant size r).live := by
    intro size r
    show (ptr, n) ∈ if r.2 = 0 then h.live else (r.2, size) :: h.live
    split
    · exact hlive
    · exact List.mem_cons_of_mem _ hlive
  cases op with
  | init base size => exact absurd rfl (hop base size)
  | addRegion base size =>
    simp only [HeapState.next, Option.some.injEq] at hnext
    rw [← hnext]
    exact hlive
  | allocate size answers =>
    obtain ⟨r, -, rfl⟩ := Option.map_eq_some_iff.mp hnext
    exact hgrant size r
  | allocateZero size answers =>
    obtain ⟨r, -, rfl⟩ := Option.map_eq_some_iff.mp hnext
    exact hgrant size r
  | free p =>
    simp only [HeapState.next, Option.some.injEq] at hnext
    rw [← hnext]
    refine List.mem_filter.mpr ⟨hlive, ?_⟩
    have hne : ptr ≠ p := by
      rintro rfl
      exact hfree rfl
    simpa using hne
  | write p size junk =>
    simp only [HeapState.next, Option.some.injEq] at hnext
    rw [← hnext]
    exact hlive

end Heap

/-! ### The invariant -/

/-- The packets in use: the one of the background task, and those in the ring. -/
def inUse (s : TxState) (q : List QueuedPacket) : List QueuedPacket := s.worker.holds ++ q

/-- The packet whose buffer the background task has still to free. -/
def justSent : WorkerPhase → List QueuedPacket
  | .sent e => [e]
  | _ => []

/-- A queued packet as the pair of its ticket and its frame. -/
def ticketed (mem : Nat → UInt8) (e : QueuedPacket) : Nat × Frame := (e.ticket, e.frame mem)

/-- A packet with a buffer of its own. -/
structure Buffered (s : TxState) (ticket buffer length : Nat) : Prop where
  out : s.ledger.Open ticket buffer
  live : (buffer, length) ∈ s.heap.live
  length : 0 < length

/-- Nothing is known of the ticket but its packet. -/
structure Fresh (s : TxState) (ticket : Nat) : Prop where
  granted : s.ledger.granted ticket = none
  accepted : ∀ f, (ticket, f) ∉ s.accepted
  passed : ∀ p ∈ s.passed, p.ticket ≠ ticket

/-- The call holds a buffer for its packet. -/
structure Holding (s : TxState) (ticket : Nat) (f : Frame) (buffer : Nat) : Prop where
  buffered : Buffered s ticket buffer f.bytes.length
  accepted : ∀ g, (ticket, g) ∉ s.accepted
  passed : ∀ p ∈ s.passed, p.ticket ≠ ticket
  started : s.started = true

/-- The packet is one that `queue_packet` goes on with. -/
def ValidFrame (f : Frame) : Prop := 0 < f.bytes.length ∧ f.bytes.length < 2 ^ 32

/-- What holds of a ticket whose call is that far. -/
def TicketOk (s : TxState) (q : List QueuedPacket) (ticket : Nat) : CallPhase → Prop
  | .notCalled => Fresh s ticket
  | .sending f => Fresh s ticket ∧ ValidFrame f ∧ s.started = false
  | .allocating f => Fresh s ticket ∧ ValidFrame f ∧ s.started = true
  | .copying f buffer => Holding s ticket f buffer
  | .locking f buffer =>
    Holding s ticket f buffer ∧ readBytes s.mem buffer f.bytes.length = f.bytes
  | .dropping f buffer => Holding s ticket f buffer
  | .returned f true =>
    (∃ g, f = some g ∧ (ticket, g) ∈ s.accepted) ∧
      ∀ buffer, s.ledger.Open ticket buffer → ∃ e ∈ inUse s q, e.ticket = ticket
  | .returned _ false =>
    (∀ g, (ticket, g) ∉ s.accepted) ∧ (∀ buffer, ¬ s.ledger.Open ticket buffer) ∧
      ∀ p ∈ s.passed, p.ticket = ticket → s.started = false ∧ p.result = false

/-- `gone` are the packets that are sent and whose buffers are free again, and `q` are the packets
in the ring. -/
structure TxInv (s : TxState) (q : List QueuedPacket) (gone : List (Nat × Frame)) : Prop where
  heap : heapSystem.Reachable s.heap
  ring : TxRing s.queue s.head s.tail q
  balanced : s.ledger.Balanced
  exclusive : s.ledger.Exclusive
  tickets : ∀ ticket, TicketOk s q ticket (s.phase ticket)
  packets : ∀ e ∈ inUse s q, e.buffer ≠ 0 ∧ Buffered s e.ticket e.buffer e.length
  accepted : s.accepted = gone ++ (inUse s q).map (ticketed s.mem)
  acceptedPhase : ∀ p ∈ s.accepted, s.phase p.1 = .returned (some p.2) true
  acceptedOnce : (s.accepted.map Prod.fst).Nodup
  sent : s.sent =
    (gone ++ (justSent s.worker).map (ticketed s.mem)).filter fun p => p.2.reaches
  passedOnce : (s.passed.map DeviceCall.ticket).Nodup
  idle : s.started = false → s.worker = .loop ∧ q = []

/-- What the facts about a ticket rest on is kept from `s` to `t`. -/
structure SameTicket (s t : TxState) (q q' : List QueuedPacket) (ticket : Nat) : Prop where
  granted : t.ledger.granted ticket = s.ledger.granted ticket
  returned : t.ledger.returned ticket = s.ledger.returned ticket
  started : t.started = s.started
  accepted : ∀ f, (ticket, f) ∈ t.accepted ↔ (ticket, f) ∈ s.accepted
  passed : ∀ p ∈ t.passed, p.ticket = ticket → p ∈ s.passed
  live : ∀ buffer n, s.ledger.Open ticket buffer → (buffer, n) ∈ s.heap.live →
    (buffer, n) ∈ t.heap.live ∧ readBytes t.mem buffer n = readBytes s.mem buffer n
  used : (∃ e ∈ inUse s q, e.ticket = ticket) → ∃ e ∈ inUse t q', e.ticket = ticket

section Same

variable {s t : TxState} {q q' : List QueuedPacket} {ticket : Nat}

theorem SameTicket.open_iff (h : SameTicket s t q q' ticket) (buffer : Nat) :
    t.ledger.Open ticket buffer ↔ s.ledger.Open ticket buffer := by
  unfold Ledger.Open
  rw [h.granted, h.returned]

theorem SameTicket.fresh (h : SameTicket s t q q' ticket) (hf : Fresh s ticket) :
    Fresh t ticket where
  granted := h.granted.trans hf.granted
  accepted f hmem := hf.accepted f ((h.accepted f).mp hmem)
  passed p hp heq := hf.passed p (h.passed p hp heq) heq

theorem SameTicket.buffered (h : SameTicket s t q q' ticket) {buffer n : Nat}
    (hb : Buffered s ticket buffer n) : Buffered t ticket buffer n where
  out := (h.open_iff buffer).mpr hb.out
  live := (h.live buffer n hb.out hb.live).1
  length := hb.length

theorem SameTicket.holding (h : SameTicket s t q q' ticket) {f : Frame} {buffer : Nat}
    (hh : Holding s ticket f buffer) : Holding t ticket f buffer where
  buffered := h.buffered hh.buffered
  accepted g hmem := hh.accepted g ((h.accepted g).mp hmem)
  passed p hp heq := hh.passed p (h.passed p hp heq) heq
  started := h.started.trans hh.started

/-- A ticket that a step is not about is as it was. -/
theorem SameTicket.ticketOk (h : SameTicket s t q q' ticket) {p : CallPhase}
    (hp : TicketOk s q ticket p) : TicketOk t q' ticket p := by
  cases p with
  | notCalled => exact h.fresh hp
  | sending f => exact ⟨h.fresh hp.1, hp.2.1, h.started.trans hp.2.2⟩
  | allocating f => exact ⟨h.fresh hp.1, hp.2.1, h.started.trans hp.2.2⟩
  | copying f buffer => exact h.holding hp
  | locking f buffer =>
    have hb := hp.1.buffered
    exact ⟨h.holding hp.1, (h.live _ _ hb.out hb.live).2.trans hp.2⟩
  | dropping f buffer => exact h.holding hp
  | returned f result =>
    cases result with
    | true =>
      obtain ⟨⟨g, hg, hmem⟩, hopen⟩ := hp
      exact ⟨⟨g, hg, (h.accepted g).mpr hmem⟩,
        fun buffer hb => h.used (hopen buffer ((h.open_iff buffer).mp hb))⟩
    | false =>
      obtain ⟨hacc, hopen, hpassed⟩ := hp
      refine ⟨fun g hmem => hacc g ((h.accepted g).mp hmem),
        fun buffer hb => hopen buffer ((h.open_iff buffer).mp hb), fun p hmem heq => ?_⟩
      rw [h.started]
      exact hpassed p (h.passed p hmem heq) heq

end Same

/-! ### What the invariant says of buffers and tickets -/

section Facts

variable {s : TxState} {q : List QueuedPacket} {gone : List (Nat × Frame)} {ticket buffer : Nat}
  {e : QueuedPacket}

/-- A packet in use is accepted. -/
theorem TxInv.mem_accepted (h : TxInv s q gone) (he : e ∈ inUse s q) :
    ticketed s.mem e ∈ s.accepted := by
  rw [h.accepted]
  exact List.mem_append_right _ (List.mem_map_of_mem he)

/-- What is out is live. -/
theorem TxInv.buffered (h : TxInv s q gone) (hopen : s.ledger.Open ticket buffer) :
    ∃ n, Buffered s ticket buffer n := by
  have hgranted : s.ledger.granted ticket ≠ none := by
    rw [hopen.1]
    exact Option.some_ne_none _
  have hholding : ∀ f b, Holding s ticket f b → ∃ n, Buffered s ticket buffer n := by
    intro f b hh
    rw [hopen.unique hh.buffered.out]
    exact ⟨_, hh.buffered⟩
  have hok := h.tickets ticket
  cases hphase : s.phase ticket with
  | notCalled =>
    rw [hphase] at hok
    exact absurd hok.granted hgranted
  | sending f =>
    rw [hphase] at hok
    exact absurd hok.1.granted hgranted
  | allocating f =>
    rw [hphase] at hok
    exact absurd hok.1.granted hgranted
  | copying f b =>
    rw [hphase] at hok
    exact hholding f b hok
  | locking f b =>
    rw [hphase] at hok
    exact hholding f b hok.1
  | dropping f b =>
    rw [hphase] at hok
    exact hholding f b hok
  | returned f result =>
    rw [hphase] at hok
    cases result with
    | true =>
      -- The packet is in use, and its buffer is the one that is out.
      obtain ⟨e, he, rfl⟩ := hok.2 buffer hopen
      have hb := (h.packets e he).2
      rw [hopen.unique hb.out]
      exact ⟨_, hb⟩
    | false => exact absurd hopen (hok.2.1 buffer)

/-- A ticket in use is not done with. -/
theorem TxInv.not_gone (h : TxInv s q gone) (he : e ∈ inUse s q) (f : Frame) :
    (e.ticket, f) ∉ gone := by
  intro hmem
  have hnodup := h.acceptedOnce
  rw [h.accepted, List.map_append] at hnodup
  have hin : (ticketed s.mem e).1 ∈ ((inUse s q).map (ticketed s.mem)).map Prod.fst :=
    List.mem_map_of_mem (List.mem_map_of_mem he)
  exact List.disjoint_of_nodup_append hnodup (List.mem_map_of_mem hmem) hin

/-- The packets in use have a ticket each. -/
theorem TxInv.usedOnce (h : TxInv s q gone) :
    ((inUse s q).map QueuedPacket.ticket).Nodup := by
  have hnodup := h.acceptedOnce
  rw [h.accepted, List.map_append, List.map_map] at hnodup
  exact (List.nodup_append.mp hnodup).2.1

/-- There is a background task where a packet is in use. -/
theorem TxInv.started (h : TxInv s q gone) (he : e ∈ inUse s q) : s.started = true := by
  by_contra hne
  obtain ⟨hworker, rfl⟩ := h.idle (by simpa using hne)
  rw [inUse, hworker] at he
  exact absurd he (List.not_mem_nil)

end Facts

/-! ### Steps of a call -/

section Calls

variable {s : TxState} {q : List QueuedPacket} {gone : List (Nat × Frame)} {ticket : Nat}

/-- A step that leaves the queue and the packets in it alone. -/
theorem TxInv.rebuild (h : TxInv s q gone) {heap : HeapState} {mem : Nat → UInt8}
    {phase : Nat → CallPhase} {ledger : Ledger Nat Nat} {t : TxState}
    (ht : t = { s with heap := heap, mem := mem, phase := phase, ledger := ledger })
    (hheap : heapSystem.Reachable heap) (hbalanced : ledger.Balanced)
    (hexclusive : ledger.Exclusive) (htickets : ∀ k, TicketOk t q k (phase k))
    (hused : ∀ e ∈ inUse s q, SameTicket s t q q e.ticket)
    (hphase : ∀ p ∈ s.accepted, phase p.1 = s.phase p.1) : TxInv t q gone := by
  have hmem : (inUse s q).map (ticketed mem) = (inUse s q).map (ticketed s.mem) := by
    refine List.map_congr_left fun e he => ?_
    have hb := (h.packets e he).2
    have hread := ((hused e he).live _ _ hb.out hb.live).2
    rw [ht] at hread
    show (e.ticket, (⟨e.dev, _⟩ : Frame)) = (e.ticket, ⟨e.dev, _⟩)
    rw [hread]
  have hsent : ∀ e ∈ justSent s.worker, e ∈ inUse s q := by
    intro e he
    cases hw : s.worker with
    | sent e' =>
      rw [hw] at he
      rw [inUse, hw]
      exact List.mem_append_left _ he
    | loop | sleeping | taken e' =>
      rw [hw] at he
      exact absurd he List.not_mem_nil
  have hmemSent : (justSent s.worker).map (ticketed mem) =
      (justSent s.worker).map (ticketed s.mem) := by
    refine List.map_congr_left fun e he => ?_
    have hb := (h.packets e (hsent e he)).2
    have hread := ((hused e (hsent e he)).live _ _ hb.out hb.live).2
    rw [ht] at hread
    show (e.ticket, (⟨e.dev, _⟩ : Frame)) = (e.ticket, ⟨e.dev, _⟩)
    rw [hread]
  subst ht
  exact
    { heap := hheap
      ring := h.ring
      balanced := hbalanced
      exclusive := hexclusive
      tickets := htickets
      packets := fun e he => ⟨(h.packets e he).1, (hused e he).buffered (h.packets e he).2⟩
      accepted := h.accepted.trans (by rw [← hmem]; rfl)
      acceptedPhase := fun p hp => (hphase p hp).trans (h.acceptedPhase p hp)
      acceptedOnce := h.acceptedOnce
      sent := h.sent.trans (by rw [← hmemSent])
      passedOnce := h.passedOnce
      idle := h.idle }

/-- A step of one call that has not been accepted. -/
theorem TxInv.setTicket (h : TxInv s q gone) {heap : HeapState} {mem : Nat → UInt8}
    {p : CallPhase} {ledger : Ledger Nat Nat} {t : TxState}
    (ht : t = { s with
      heap := heap, mem := mem, phase := Function.update s.phase ticket p, ledger := ledger })
    (hheap : heapSystem.Reachable heap) (hbalanced : ledger.Balanced)
    (hexclusive : ledger.Exclusive) (hok : TicketOk t q ticket p)
    (hothers : ∀ k, k ≠ ticket → SameTicket s t q q k)
    (hnot : ∀ f, (ticket, f) ∉ s.accepted) : TxInv t q gone := by
  refine h.rebuild ht hheap hbalanced hexclusive (fun k => ?_) (fun e he => ?_) fun p hp => ?_
  · by_cases hk : k = ticket
    · subst hk
      rw [Function.update_self]
      exact hok
    · rw [Function.update_of_ne hk]
      exact (hothers k hk).ticketOk (h.tickets k)
  · refine hothers e.ticket fun heq => hnot (e.frame s.mem) ?_
    rw [← heq]
    exact h.mem_accepted he
  · refine Function.update_of_ne (fun heq => hnot p.2 ?_) _ _
    rw [← heq]
    exact hp

/-- A step that only changes how far one call is. -/
theorem TxInv.setPhase (h : TxInv s q gone) {p : CallPhase} (hok : TicketOk s q ticket p)
    (hnot : ∀ f, (ticket, f) ∉ s.accepted) : TxInv (s.setPhase ticket p) q gone := by
  have hsame : ∀ k, SameTicket s (s.setPhase ticket p) q q k := by
    intro k
    exact ⟨rfl, rfl, rfl, fun _ => Iff.rfl, fun _ hp _ => hp, fun _ _ _ hl => ⟨hl, rfl⟩, id⟩
  exact h.setTicket rfl h.heap h.balanced h.exclusive ((hsame ticket).ticketOk hok)
    (fun k _ => hsame k) hnot

/-- The packets that pass the first check. -/
theorem validFrame_of_checked {c : QueueCall} {f : Frame} (h : c.checked = some f) :
    ValidFrame f := by
  unfold QueueCall.checked at h
  split at h
  · cases h
  · rename_i hgood
    rw [not_or, not_or] at hgood
    obtain ⟨-, hpacket, hlength⟩ := hgood
    cases hc : c.packet with
    | none => exact absurd hc hpacket
    | some bytes =>
      have hlen := c.packetCovers bytes hc
      have hfits := c.lengthFits
      rw [hc, Option.some.injEq] at h
      rw [← h]
      show 0 < bytes.length ∧ bytes.length < 2 ^ 32
      omega

/-- A call begins. -/
theorem TxInv.call (h : TxInv s q gone) {t : TxState} {c : QueueCall}
    (hnext : s.next (.call ticket c) = some t) : TxInv t q gone := by
  have hok := h.tickets ticket
  unfold TxState.next at hnext
  cases hphase : s.phase ticket with
  | notCalled =>
    rw [hphase] at hok
    have hfresh : Fresh s ticket := hok
    simp only [hphase] at hnext
    cases hchecked : c.checked with
    | none =>
      rw [hchecked] at hnext
      simp only [Option.some.injEq] at hnext
      rw [← hnext]
      refine h.setPhase ⟨hfresh.accepted, fun buffer hopen => ?_, fun p hp heq => ?_⟩
        hfresh.accepted
      · rw [Ledger.Open, hfresh.granted] at hopen
        cases hopen.1
      · exact absurd heq (hfresh.passed p hp)
    | some f =>
      have hvalid := validFrame_of_checked hchecked
      rw [hchecked] at hnext
      simp only [Option.some.injEq] at hnext
      rw [← hnext]
      by_cases hstarted : s.started = true
      · rw [if_pos hstarted]
        exact h.setPhase ⟨hfresh, hvalid, hstarted⟩ hfresh.accepted
      · rw [if_neg hstarted]
        exact h.setPhase ⟨hfresh, hvalid, by simpa using hstarted⟩ hfresh.accepted
  | sending f | allocating f | copying f b | locking f b | dropping f b | returned f r =>
    simp [hphase] at hnext

/-- The heap answers a call. -/
theorem TxInv.allocate (h : TxInv s q gone) {t : TxState} {answers : List Nat}
    (hok : s.Allowed (.allocate ticket answers))
    (hnext : s.next (.allocate ticket answers) = some t) : TxInv t q gone := by
  have hticket := h.tickets ticket
  unfold TxState.next at hnext
  cases hphase : s.phase ticket with
  | allocating f =>
    rw [hphase] at hticket
    obtain ⟨hfresh, hvalid, hstarted⟩ := hticket
    simp only [hphase] at hnext
    obtain ⟨r, halloc, hr⟩ := Option.map_eq_some_iff.mp hnext
    -- The step of the heap.
    have hsize : f.bytes.length + HEAP_MIN_ALIGNMENT ≤ U64 := by
      have hlt := hvalid.2
      rw [U64_eq]
      unfold HEAP_MIN_ALIGNMENT
      omega
    have hheap : heapSystem.Reachable (s.heap.grant f.bytes.length r) := by
      refine h.heap.step (l := .allocate f.bytes.length answers) ⟨⟨hsize, hok f hphase⟩, ?_⟩
      show (s.heap.heap.allocate f.bytes.length answers).map _ = _
      rw [halloc]
      rfl
    by_cases hnull : r.2 = 0
    · have hlive : (s.heap.grant f.bytes.length r).live = s.heap.live := if_pos hnull
      rw [if_pos hnull] at hr
      rw [← hr]
      refine h.setTicket rfl hheap h.balanced h.exclusive
        ⟨hfresh.accepted, fun buffer hopen => ?_, fun p hp heq => ?_⟩ (fun k _ => ?_)
        hfresh.accepted
      · have hgranted : s.ledger.granted ticket = some buffer := hopen.1
        rw [hfresh.granted] at hgranted
        cases hgranted
      · exact absurd heq (hfresh.passed p hp)
      · refine ⟨rfl, rfl, rfl, fun _ => Iff.rfl, fun _ hp _ => hp, fun _ _ _ hl => ⟨?_, rfl⟩, id⟩
        exact hlive ▸ hl
    · have hlive : (s.heap.grant f.bytes.length r).live =
          (r.2, f.bytes.length) :: s.heap.live := if_neg hnull
      have hapart := live_apart hheap
      rw [hlive, List.pairwise_cons] at hapart
      -- No buffer that is out begins where the new one does.
      have hnew : ∀ k, ¬ s.ledger.Open k r.2 := by
        intro k hopen
        obtain ⟨n, hb⟩ := h.buffered hopen
        have hdis := hapart.1 _ hb.live
        have hpos := hb.length
        have hpos' := hvalid.1
        unfold Apart at hdis
        simp only at hdis
        omega
      rw [if_neg hnull] at hr
      rw [← hr]
      refine h.setTicket rfl hheap (Ledger.balanced_grant h.balanced hfresh.granted)
        (Ledger.exclusive_grant h.balanced hfresh.granted h.exclusive hnew)
        ⟨⟨?_, ?_, hvalid.1⟩, hfresh.accepted, hfresh.passed, hstarted⟩ (fun k hk => ?_)
        hfresh.accepted
      · exact (Ledger.open_grant_self h.balanced hfresh.granted).mpr rfl
      · show (r.2, f.bytes.length) ∈ (s.heap.grant f.bytes.length r).live
        rw [hlive]
        exact List.mem_cons_self
      · refine ⟨Function.update_of_ne hk _ _, rfl, rfl, fun _ => Iff.rfl, fun _ hp _ => hp,
          fun _ _ _ hl => ⟨?_, rfl⟩, id⟩
        show _ ∈ (s.heap.grant f.bytes.length r).live
        rw [hlive]
        exact List.mem_cons_of_mem _ hl
  | notCalled | sending f | copying f b | locking f b | dropping f b | returned f r =>
    simp [hphase] at hnext

/-- A call copies its packet. -/
theorem TxInv.copy (h : TxInv s q gone) {t : TxState} {junk : Store Header}
    (hnext : s.next (.copy ticket junk) = some t) : TxInv t q gone := by
  have hticket := h.tickets ticket
  unfold TxState.next at hnext
  cases hphase : s.phase ticket with
  | copying f buffer =>
    rw [hphase] at hticket
    have hholding : Holding s ticket f buffer := hticket
    have hb := hholding.buffered
    simp only [hphase] at hnext
    obtain ⟨heap, hwrite, hr⟩ := Option.map_eq_some_iff.mp hnext
    have hheap : heapSystem.Reachable heap := h.heap.step (l := .write _ _ junk) ⟨hb.live, hwrite⟩
    have hlive : heap.live = s.heap.live := by
      simp only [HeapState.next, Option.some.injEq] at hwrite
      rw [← hwrite]
    rw [← hr]
    refine h.setTicket rfl hheap h.balanced h.exclusive
      ⟨⟨⟨hb.out, ?_, hb.length⟩, hholding.accepted, hholding.passed, hholding.started⟩, ?_⟩
      (fun k hk => ?_) hholding.accepted
    · show _ ∈ heap.live
      rw [hlive]
      exact hb.live
    · exact readBytes_writeBytes s.mem buffer f.bytes
    · refine ⟨rfl, rfl, rfl, fun _ => Iff.rfl, fun _ hp _ => hp, fun b n hopen hl => ⟨?_, ?_⟩, id⟩
      · show _ ∈ heap.live
        rw [hlive]
        exact hl
      · -- The copy stays inside its own buffer.
        have hne : (b, n) ≠ (buffer, f.bytes.length) := by
          intro heq
          have hbuf : b = buffer := congrArg Prod.fst heq
          subst hbuf
          exact hk (h.exclusive k ticket b hopen hb.out)
        exact readBytes_writeBytes_of_disjoint s.mem (apart_of_mem h.heap hl hb.live hne)
  | notCalled | sending f | allocating f | locking f b | dropping f b | returned f r =>
    simp [hphase] at hnext

/-- The buffers of other tickets stay live when a buffer that is out is freed. -/
theorem TxInv.live_free (h : TxInv s q gone) {k buffer b n : Nat} {heap : HeapState}
    (hopen : s.ledger.Open ticket buffer) (hfree : s.heap.next (.free buffer) = some heap)
    (hk : k ≠ ticket) (hopen' : s.ledger.Open k b) (hlive : (b, n) ∈ s.heap.live) :
    (b, n) ∈ heap.live := by
  refine live_of_next (fun _ _ heq => by cases heq) ?_ hlive hfree
  intro heq
  injection heq with hbuf
  subst hbuf
  exact hk (h.exclusive k ticket buffer hopen' hopen)

/-- A call frees its buffer because the queue was full. -/
theorem TxInv.drop (h : TxInv s q gone) {t : TxState} (hnext : s.next (.drop ticket) = some t) :
    TxInv t q gone := by
  have hticket := h.tickets ticket
  unfold TxState.next at hnext
  cases hphase : s.phase ticket with
  | dropping f buffer =>
    rw [hphase] at hticket
    have hholding : Holding s ticket f buffer := hticket
    have hb := hholding.buffered
    simp only [hphase] at hnext
    obtain ⟨heap, hfree, hr⟩ := Option.map_eq_some_iff.mp hnext
    have hfree' : s.heap.next (.free buffer) = some heap := hfree
    have hheap : heapSystem.Reachable heap :=
      h.heap.step (l := .free buffer) ⟨Or.inr ⟨_, hb.live, rfl⟩, hfree'⟩
    rw [← hr]
    refine h.setTicket rfl hheap (Ledger.balanced_giveBack h.balanced hb.out)
      (Ledger.exclusive_giveBack h.exclusive)
      ⟨hholding.accepted, fun b hopen => ?_, fun p hp heq => ?_⟩ (fun k hk => ?_)
      hholding.accepted
    · exact (Ledger.open_giveBack_iff.mp hopen).1 rfl
    · exact absurd heq (hholding.passed p hp)
    · exact ⟨rfl, Function.update_of_ne hk _ _, rfl, fun _ => Iff.rfl, fun _ hp _ => hp,
        fun b n hopen hl => ⟨h.live_free hb.out hfree' hk hopen hl, rfl⟩, id⟩
  | notCalled | sending f | allocating f | copying f b | locking f b | returned f r =>
    simp [hphase] at hnext

/-- A call puts its packet into the ring, or finds it full. -/
theorem TxInv.push (h : TxInv s q gone) {t : TxState} (hnext : s.next (.push ticket) = some t) :
    ∃ q', TxInv t q' gone := by
  have hticket := h.tickets ticket
  unfold TxState.next at hnext
  cases hphase : s.phase ticket with
  | locking f buffer =>
    rw [hphase] at hticket
    obtain ⟨hholding, hbytes⟩ := hticket
    have hb := hholding.buffered
    simp only [hphase] at hnext
    by_cases hfull : s.txQueueFull = true
    · rw [if_pos hfull, Option.some.injEq] at hnext
      rw [← hnext]
      exact ⟨q, h.setPhase hholding hholding.accepted⟩
    · rw [if_neg hfull, Option.some.injEq] at hnext
      have hroom : (s.head + 1) % NET_TX_QUEUE_CAPACITY ≠ s.tail := by
        intro heq
        exact hfull (beq_iff_eq.mpr heq)
      let entry : QueuedPacket := ⟨f.dev, buffer, f.bytes.length, ticket⟩
      have hentry : ticketed s.mem entry = (ticket, f) := by
        show (ticket, (⟨f.dev, readBytes s.mem buffer f.bytes.length⟩ : Frame)) = (ticket, f)
        rw [hbytes]
      have huse : inUse t (q ++ [entry]) = inUse s q ++ [entry] := by
        rw [← hnext]
        exact (List.append_assoc _ _ _).symm
      have hothers : ∀ k, k ≠ ticket → SameTicket s t q (q ++ [entry]) k := by
        intro k hk
        rw [← hnext] at huse ⊢
        refine ⟨rfl, rfl, rfl, fun g => ?_, fun _ hp _ => hp, fun _ _ _ hl => ⟨hl, rfl⟩, ?_⟩
        · simp [hk]
        · rintro ⟨e, he, hek⟩
          refine ⟨e, ?_, hek⟩
          rw [huse]
          exact List.mem_append_left _ he
      have hused : ∀ e ∈ inUse s q, e.ticket ≠ ticket := by
        intro e he heq
        refine hholding.accepted (e.frame s.mem) ?_
        rw [← heq]
        exact h.mem_accepted he
      have hnot : ∀ p ∈ s.accepted, p.1 ≠ ticket := by
        intro p hp heq
        exact hholding.accepted p.2 (heq ▸ hp)
      have hthis : t.phase ticket = .returned (some f) true := by
        rw [← hnext]
        exact Function.update_self _ _ _
      have hphases : ∀ k, k ≠ ticket → t.phase k = s.phase k := by
        intro k hk
        rw [← hnext]
        exact Function.update_of_ne hk _ _
      have haccepted : t.accepted = s.accepted ++ [(ticket, f)] := by
        rw [← hnext]
      have hstate : t.heap = s.heap ∧ t.mem = s.mem ∧ t.worker = s.worker ∧ t.sent = s.sent ∧
          t.ledger = s.ledger ∧ t.passed = s.passed ∧ t.started = s.started := by
        rw [← hnext]
        exact ⟨rfl, rfl, rfl, rfl, rfl, rfl, rfl⟩
      obtain ⟨hheap, hmem, hworker, hsent, hledger, hpassed, hstarted⟩ := hstate
      refine ⟨q ++ [entry], ⟨hheap ▸ h.heap, ?_, hledger ▸ h.balanced, hledger ▸ h.exclusive,
        fun k => ?_, fun e he => ?_, ?_, fun p hp => ?_, ?_, ?_, hpassed ▸ h.passedOnce, ?_⟩⟩
      · rw [← hnext]
        exact h.ring.push hroom
      · by_cases hk : k = ticket
        · subst hk
          rw [hthis]
          refine ⟨⟨f, rfl, ?_⟩, fun b _ => ⟨entry, ?_, rfl⟩⟩
          · rw [haccepted]
            exact List.mem_append_right _ (List.mem_singleton.mpr rfl)
          · rw [huse]
            exact List.mem_append_right _ (List.mem_singleton.mpr rfl)
        · rw [hphases k hk]
          exact (hothers k hk).ticketOk (h.tickets k)
      · rw [huse] at he
        rcases List.mem_append.mp he with he | he
        · have hp := h.packets e he
          exact ⟨hp.1, (hothers _ (hused e he)).buffered hp.2⟩
        · rw [List.mem_singleton.mp he]
          refine ⟨live_ne_zero h.heap hb.live, ⟨?_, ?_, hb.length⟩⟩
          · rw [hledger]
            exact hb.out
          · rw [hheap]
            exact hb.live
      · rw [haccepted, huse, List.map_append, ← List.append_assoc, hmem, ← h.accepted,
          List.map_singleton, hentry]
      · rw [haccepted] at hp
        rcases List.mem_append.mp hp with hp | hp
        · rw [hphases _ (hnot p hp)]
          exact h.acceptedPhase p hp
        · rw [List.mem_singleton.mp hp]
          exact hthis
      · rw [haccepted, List.map_append, List.map_singleton]
        refine List.nodup_append.mpr ⟨h.acceptedOnce, List.nodup_singleton _, ?_⟩
        intro a ha b hb' heq
        obtain ⟨p, hp, rfl⟩ := List.mem_map.mp ha
        exact hnot p hp (heq.trans (List.mem_singleton.mp hb'))
      · rw [hsent, h.sent, hworker, hmem]
      · intro hf
        rw [hstarted, hholding.started] at hf
        cases hf
  | notCalled | sending f | allocating f | copying f b | dropping f b | returned f r =>
    simp [hphase] at hnext

/-- Without the background task a call goes to the device itself. -/
theorem TxInv.direct (h : TxInv s q gone) {t : TxState} {answer : Bool}
    (hnext : s.next (.direct ticket answer) = some t) :
    ∃ gone', TxInv t [] gone' ∧ gone <+: gone' := by
  have hticket := h.tickets ticket
  unfold TxState.next at hnext
  cases hphase : s.phase ticket with
  | sending f =>
    rw [hphase] at hticket
    obtain ⟨hfresh, -, hstarted⟩ := hticket
    obtain ⟨hworker, rfl⟩ := h.idle hstarted
    have hnone : inUse s [] = [] := by
      rw [inUse, hworker]
      rfl
    have hgone : s.accepted = gone := by
      rw [h.accepted, hnone]
      exact List.append_nil _
    have hsent : s.sent = gone.filter fun p => p.2.reaches := by
      rw [h.sent, hworker]
      exact congrArg _ (List.append_nil _)
    have hnot : ∀ p ∈ s.accepted, p.1 ≠ ticket := by
      intro p hp heq
      exact hfresh.accepted p.2 (heq ▸ hp)
    simp only [hphase, Option.some.injEq] at hnext
    let new : List (Nat × Frame) := if (f.reaches && answer) = true then [(ticket, f)] else []
    -- What the call adds, and what it does not.
    have hpassed : t.passed = s.passed ++ deviceCalls ticket f answer := by
      rw [← hnext]
    have haccepted : t.accepted = s.accepted ++ new := by
      rw [← hnext]
    have hthis : t.phase ticket = .returned (some f) (f.reaches && answer) := by
      rw [← hnext]
      exact Function.update_self _ _ _
    have hphases : ∀ k, k ≠ ticket → t.phase k = s.phase k := by
      intro k hk
      rw [← hnext]
      exact Function.update_of_ne hk _ _
    have hnew : ∀ p ∈ new, p = (ticket, f) ∧ f.reaches = true ∧ answer = true := by
      intro p hp
      by_cases hresult : (f.reaches && answer) = true
      · rw [show new = [(ticket, f)] from if_pos hresult] at hp
        exact ⟨List.mem_singleton.mp hp, by simpa using hresult⟩
      · rw [show new = [] from if_neg hresult] at hp
        cases hp
    have hcalls : ∀ p ∈ deviceCalls ticket f answer, p = ⟨ticket, f, answer⟩ ∧
        f.reaches = true := by
      intro p hp
      by_cases hreach : f.reaches = true
      · rw [deviceCalls, if_pos hreach] at hp
        exact ⟨List.mem_singleton.mp hp, hreach⟩
      · rw [deviceCalls, if_neg hreach] at hp
        cases hp
    have huse : inUse t [] = [] := by
      rw [← hnext]
      exact hnone
    have hothers : ∀ k, k ≠ ticket → SameTicket s t [] [] k := by
      intro k hk
      have hmem : ∀ g, (k, g) ∈ t.accepted ↔ (k, g) ∈ s.accepted := by
        intro g
        rw [haccepted, List.mem_append]
        refine ⟨fun hor => hor.resolve_right fun hin => ?_, Or.inl⟩
        exact hk (congrArg Prod.fst (hnew _ hin).1)
      have hpass : ∀ p ∈ t.passed, p.ticket = k → p ∈ s.passed := by
        intro p hp heq
        rw [hpassed] at hp
        refine (List.mem_append.mp hp).resolve_right fun hin => hk ?_
        rw [← heq, (hcalls p hin).1]
      refine ⟨?_, ?_, ?_, hmem, hpass, fun b n _ hl => ⟨?_, ?_⟩, fun hu => ?_⟩
      · rw [← hnext]
        rfl
      · rw [← hnext]
        rfl
      · rw [← hnext]
        rfl
      · rw [← hnext]
        exact hl
      · rw [← hnext]
        rfl
      · rw [hnone] at hu
        obtain ⟨e, he, -⟩ := hu
        cases he
    have hstate : t.heap = s.heap ∧ t.ledger = s.ledger ∧ t.worker = s.worker ∧
        t.started = s.started ∧ t.mem = s.mem := by
      rw [← hnext]
      exact ⟨rfl, rfl, rfl, rfl, rfl⟩
    obtain ⟨hheap, hledger, hworker', hstarted', -⟩ := hstate
    refine ⟨gone ++ new, ⟨hheap ▸ h.heap, ?_, hledger ▸ h.balanced, hledger ▸ h.exclusive,
      fun k => ?_, fun e he => ?_, ?_, fun p hp => ?_, ?_, ?_, ?_, fun _ => ?_⟩,
      List.prefix_append _ _⟩
    · rw [← hnext]
      exact h.ring
    · by_cases hk : k = ticket
      · subst hk
        rw [hthis]
        have hopen : ∀ b, ¬ t.ledger.Open k b := by
          intro b hb
          rw [hledger, Ledger.Open, hfresh.granted] at hb
          cases hb.1
        cases hresult : f.reaches && answer with
        | true =>
          refine ⟨⟨f, rfl, ?_⟩, fun b hb => absurd hb (hopen b)⟩
          rw [haccepted, show new = [(k, f)] from if_pos hresult]
          exact List.mem_append_right _ (List.mem_singleton.mpr rfl)
        | false =>
          refine ⟨fun g hmem => ?_, hopen, fun p hp heq => ?_⟩
          · rw [haccepted, show new = [] from if_neg (by simp [hresult]), List.append_nil] at hmem
            exact hfresh.accepted g hmem
          · rw [hpassed] at hp
            rcases List.mem_append.mp hp with hp | hp
            · exact absurd heq (hfresh.passed p hp)
            · obtain ⟨rfl, hreach⟩ := hcalls p hp
              refine ⟨hstarted'.trans hstarted, ?_⟩
              simpa [hreach] using hresult
      · rw [hphases k hk]
        exact (hothers k hk).ticketOk (h.tickets k)
    · rw [huse] at he
      cases he
    · rw [haccepted, hgone, huse]
      exact (List.append_nil _).symm
    · rw [haccepted] at hp
      rcases List.mem_append.mp hp with hp | hp
      · rw [hphases _ (hnot p hp)]
        exact h.acceptedPhase p hp
      · obtain ⟨rfl, hreach, hanswer⟩ := hnew p hp
        rw [hthis, hreach, hanswer]
        rfl
    · rw [haccepted, List.map_append]
      refine List.nodup_append.mpr ⟨h.acceptedOnce, ?_, ?_⟩
      · by_cases hresult : (f.reaches && answer) = true
        · rw [show new = [(ticket, f)] from if_pos hresult]
          exact List.nodup_singleton _
        · rw [show new = [] from if_neg hresult]
          exact List.nodup_nil
      · intro a ha b hb heq
        obtain ⟨p, hp, rfl⟩ := List.mem_map.mp ha
        obtain ⟨p', hp', rfl⟩ := List.mem_map.mp hb
        rw [(hnew p' hp').1] at heq
        exact hnot p hp heq
    · -- A packet that the device refuses is passed to it, and is not sent.
      have hsent' : t.sent = s.sent ++ new := by
        unfold TxState.sent
        rw [hpassed, hstarted', hstarted, List.filter_append, List.map_append]
        congr 1
        by_cases hreach : f.reaches = true
        · cases answer with
          | true => simp [deviceCalls, hreach, new]
          | false => simp [deviceCalls, hreach, new]
        · simp [deviceCalls, hreach, new]
      rw [hsent', hsent, hworker', hworker]
      simp only [justSent, List.map_nil, List.append_nil, List.filter_append]
      congr 1
      refine (List.filter_eq_self.mpr fun p hp => ?_).symm
      obtain ⟨rfl, hreach, -⟩ := hnew p hp
      exact hreach
    · rw [hpassed, List.map_append]
      refine List.nodup_append.mpr ⟨h.passedOnce, ?_, ?_⟩
      · by_cases hreach : f.reaches = true
        · rw [deviceCalls, if_pos hreach]
          exact List.nodup_singleton _
        · rw [deviceCalls, if_neg hreach]
          exact List.nodup_nil
      · intro a ha b hb heq
        obtain ⟨p, hp, rfl⟩ := List.mem_map.mp ha
        obtain ⟨p', hp', rfl⟩ := List.mem_map.mp hb
        rw [(hcalls p' hp').1] at heq
        exact hfresh.passed p hp heq
    · exact ⟨hworker'.trans hworker, rfl⟩
  | notCalled | allocating f | copying f b | locking f b | dropping f b | returned f r =>
    simp [hphase] at hnext

/-- Other code runs. -/
theorem TxInv.other (h : TxInv s q gone) {t : TxState} {op : HeapOp} {mem : Nat → UInt8}
    (hok : s.Allowed (.other op mem)) (hnext : s.next (.other op mem) = some t) :
    TxInv t q gone := by
  obtain ⟨hallowed, hleaves, hmem⟩ := hok
  obtain ⟨heap, hheap, hr⟩ := Option.map_eq_some_iff.mp hnext
  have hinit : ∀ base size, op ≠ .init base size := by
    rintro base size rfl
    exact hleaves
  have hsame : ∀ k, SameTicket s t q q k := by
    intro k
    rw [← hr]
    refine ⟨rfl, rfl, rfl, fun _ => Iff.rfl, fun _ hp _ => hp, fun b n hopen hl => ⟨?_, ?_⟩, id⟩
    · refine live_of_next hinit ?_ hl hheap
      rintro rfl
      exact hleaves k hopen
    · exact hmem _ hl k hopen
  refine h.rebuild hr.symm (h.heap.step ⟨hallowed, hheap⟩) h.balanced h.exclusive (fun k => ?_)
    (fun e _ => hsame e.ticket) fun _ _ => rfl
  exact (hsame k).ticketOk (h.tickets k)

end Calls

/-! ### Steps of the background task -/

section Worker

variable {s t : TxState} {q : List QueuedPacket} {gone : List (Nat × Frame)}

/-- The background task goes on, with the packets in use and their buffers as they are. -/
theorem TxInv.ofWorker (h : TxInv s q gone) {queue q' : List QueuedPacket} {tail : Nat}
    {worker : WorkerPhase} (ht : t = { s with queue := queue, tail := tail, worker := worker })
    (hstarted : s.started = true) (hring : TxRing queue s.head tail q')
    (huse : inUse t q' = inUse s q) (hsent : justSent worker = justSent s.worker) :
    TxInv t q' gone := by
  have hsame : ∀ k, SameTicket s t q q' k := by
    intro k
    subst ht
    refine ⟨rfl, rfl, rfl, fun _ => Iff.rfl, fun _ hp _ => hp, fun _ _ _ hl => ⟨hl, rfl⟩, ?_⟩
    rw [huse]
    exact id
  subst ht
  refine ⟨h.heap, hring, h.balanced, h.exclusive, fun k => (hsame k).ticketOk (h.tickets k),
    fun e he => ?_, ?_, h.acceptedPhase, h.acceptedOnce, ?_, h.passedOnce, fun hf => ?_⟩
  · rw [huse] at he
    exact ⟨(h.packets e he).1, (hsame _).buffered (h.packets e he).2⟩
  · rw [huse]
    exact h.accepted
  · rw [hsent]
    exact h.sent
  · rw [show s.started = false from hf] at hstarted
    cases hstarted

/-- The background task takes a packet from the ring, or sleeps when there is none. -/
theorem TxInv.take (h : TxInv s q gone) (hnext : s.next .take = some t) :
    ∃ q', TxInv t q' gone ∧ s.worker = .loop ∧
      (t.worker = .sleeping ∧ gone.length = s.accepted.length ∨ ∃ e, t.worker = .taken e) := by
  unfold TxState.next at hnext
  cases hworker : s.worker with
  | loop =>
    simp only [hworker] at hnext
    by_cases hstarted : s.started = false
    · rw [if_pos hstarted] at hnext
      cases hnext
    · rw [if_neg hstarted] at hnext
      have hstarted' : s.started = true := by simpa using hstarted
      cases q with
      | nil =>
        have hempty : s.txQueueEmpty = true := beq_iff_eq.mpr (h.ring.empty_iff.mpr rfl)
        rw [if_pos hempty, Option.some.injEq] at hnext
        have huse : inUse t [] = inUse s [] := by
          rw [inUse, inUse, ← hnext, hworker]
          rfl
        refine ⟨[], h.ofWorker hnext.symm hstarted' h.ring huse (by rw [hworker]; rfl), rfl,
          Or.inl ⟨?_, ?_⟩⟩
        · rw [← hnext]
        · rw [h.accepted, inUse, hworker]
          simp [WorkerPhase.holds]
      | cons e q =>
        have hfull : ¬ s.txQueueEmpty = true := by
          intro hempty
          have hnil := h.ring.empty_iff.mp (beq_iff_eq.mp hempty)
          cases hnil
        obtain ⟨hslot, hring⟩ := h.ring.pop
        have hbuffer : e.buffer ≠ 0 :=
          (h.packets e (List.mem_append_right _ List.mem_cons_self)).1
        simp only [if_neg hfull, hslot, if_neg hbuffer, Option.some.injEq] at hnext
        have huse : inUse t q = inUse s (e :: q) := by
          rw [inUse, inUse, ← hnext, hworker]
          rfl
        refine ⟨q, h.ofWorker hnext.symm hstarted' hring huse (by rw [hworker]; rfl), rfl,
          Or.inr ⟨e, ?_⟩⟩
        rw [← hnext]
  | sleeping | taken e | sent e => simp [hworker] at hnext

/-- The sleep of the background task ends. -/
theorem TxInv.wake (h : TxInv s q gone) (hnext : s.next .wake = some t) :
    TxInv t q gone ∧ s.worker = .sleeping ∧ t.worker = .loop := by
  unfold TxState.next at hnext
  cases hworker : s.worker with
  | sleeping =>
    simp only [hworker, Option.some.injEq] at hnext
    have hstarted : s.started = true := by
      by_contra hne
      obtain ⟨hloop, -⟩ := h.idle (by simpa using hne)
      rw [hworker] at hloop
      cases hloop
    have huse : inUse t q = inUse s q := by
      rw [inUse, inUse, ← hnext, hworker]
      rfl
    refine ⟨h.ofWorker hnext.symm hstarted h.ring huse (by rw [hworker]; rfl), rfl, ?_⟩
    rw [← hnext]
  | loop | taken e | sent e => simp [hworker] at hnext

/-- The background task sends the packet it has taken. -/
theorem TxInv.send (h : TxInv s q gone) {answer : Bool} (hnext : s.next (.send answer) = some t) :
    TxInv t q gone ∧ ∃ e, s.worker = .taken e ∧ t.worker = .sent e := by
  unfold TxState.next at hnext
  cases hworker : s.worker with
  | taken e =>
    simp only [hworker, Option.some.injEq] at hnext
    have he : e ∈ inUse s q := by
      rw [inUse, hworker]
      exact List.mem_append_left _ (List.mem_singleton.mpr rfl)
    have hstarted := h.started he
    have hphase := h.acceptedPhase _ (h.mem_accepted he)
    have huse : inUse t q = inUse s q := by
      rw [inUse, inUse, ← hnext, hworker]
      rfl
    have hsentBefore : s.sent = gone.filter fun p => p.2.reaches := by
      rw [h.sent, hworker]
      exact congrArg _ (List.append_nil _)
    -- The packet has not been passed before: it would be done with.
    have hfirst : ∀ p ∈ s.passed, p.ticket ≠ e.ticket := by
      intro p hp heq
      have hmem : (p.ticket, p.frame) ∈ s.sent := by
        refine List.mem_map.mpr ⟨p, List.mem_filter.mpr ⟨hp, ?_⟩, rfl⟩
        rw [hstarted]
        rfl
      rw [hsentBefore, heq] at hmem
      exact h.not_gone he p.frame (List.mem_of_mem_filter hmem)
    have hcalls : ∀ p ∈ deviceCalls e.ticket (e.frame s.mem) answer, p.ticket = e.ticket := by
      intro p hp
      unfold deviceCalls at hp
      split at hp
      · rw [List.mem_singleton.mp hp]
      · cases hp
    have hothers : ∀ k, k ≠ e.ticket → SameTicket s t q q k := by
      intro k hk
      subst hnext
      refine ⟨rfl, rfl, rfl, fun _ => Iff.rfl, fun p hp heq => ?_, fun _ _ _ hl => ⟨hl, rfl⟩, ?_⟩
      · refine (List.mem_append.mp hp).resolve_right fun hin => hk ?_
        rw [← heq]
        exact hcalls p hin
      · rw [huse]
        exact id
    subst hnext
    refine ⟨⟨h.heap, h.ring, h.balanced, h.exclusive, fun k => ?_, fun e' he' => ?_, ?_,
      h.acceptedPhase, h.acceptedOnce, ?_, ?_, fun hf => ?_⟩, e, rfl, rfl⟩
    · by_cases hk : k = e.ticket
      · rw [hk, show s.phase e.ticket = _ from hphase]
        refine ⟨⟨_, rfl, h.mem_accepted he⟩, fun b _ => ⟨e, ?_, rfl⟩⟩
        rw [huse]
        exact he
      · exact (hothers k hk).ticketOk (h.tickets k)
    · rw [huse] at he'
      obtain ⟨hne, hb⟩ := h.packets e' he'
      exact ⟨hne, hb.out, hb.live, hb.length⟩
    · rw [huse]
      exact h.accepted
    · -- The device is called with what the buffer holds, if it has a send function.
      have hsent : ∀ calls, (TxState.sent { s with passed := s.passed ++ calls }) =
          s.sent ++ calls.map fun p => (p.ticket, p.frame) := by
        intro calls
        unfold TxState.sent
        rw [hstarted, List.filter_append, List.map_append]
        congr 2
        exact List.filter_eq_self.mpr fun _ _ => rfl
      refine (hsent _).trans ?_
      rw [hsentBefore]
      simp only [justSent, List.map_singleton, List.filter_append]
      congr 1
      unfold deviceCalls ticketed
      by_cases hreach : (e.frame s.mem).reaches = true
      · simp [hreach]
      · simp [hreach]
    · show ((s.passed ++ deviceCalls e.ticket (e.frame s.mem) answer).map DeviceCall.ticket).Nodup
      rw [List.map_append]
      refine List.nodup_append.mpr ⟨h.passedOnce, ?_, ?_⟩
      · unfold deviceCalls
        split
        · exact List.nodup_singleton _
        · exact List.nodup_nil
      · intro a ha b hb heq
        obtain ⟨p, hp, rfl⟩ := List.mem_map.mp ha
        obtain ⟨p', hp', rfl⟩ := List.mem_map.mp hb
        exact hfirst p hp (heq.trans (hcalls p' hp'))
    · rw [show s.started = false from hf] at hstarted
      cases hstarted
  | loop | sleeping | sent e => simp [hworker] at hnext

/-- The background task frees the buffer of the packet it has sent. -/
theorem TxInv.release (h : TxInv s q gone) (hnext : s.next .release = some t) :
    ∃ e, s.worker = .sent e ∧ t.worker = .loop ∧ TxInv t q (gone ++ [ticketed s.mem e]) := by
  unfold TxState.next at hnext
  cases hworker : s.worker with
  | sent e =>
    simp only [hworker] at hnext
    obtain ⟨heap, hfree, hr⟩ := Option.map_eq_some_iff.mp hnext
    have hfree' : s.heap.next (.free e.buffer) = some heap := hfree
    have huse : inUse s q = e :: q := by
      rw [inUse, hworker]
      rfl
    have he : e ∈ inUse s q := by
      rw [huse]
      exact List.mem_cons_self
    have hb := (h.packets e he).2
    have hphase := h.acceptedPhase _ (h.mem_accepted he)
    have huse' : inUse t q = q := by
      rw [inUse, ← hr]
      rfl
    have honce := h.usedOnce
    rw [huse, List.map_cons, List.nodup_cons] at honce
    have hother : ∀ e' ∈ q, e'.ticket ≠ e.ticket := by
      intro e' he' heq
      refine honce.1 ?_
      rw [← heq]
      exact List.mem_map_of_mem he'
    have hothers : ∀ k, k ≠ e.ticket → SameTicket s t q q k := by
      intro k hk
      subst hr
      refine ⟨rfl, Function.update_of_ne hk _ _, rfl, fun _ => Iff.rfl, fun _ hp _ => hp,
        fun b n hopen hl => ⟨h.live_free hb.out hfree' hk hopen hl, rfl⟩, ?_⟩
      rintro ⟨e', he', hek⟩
      rw [huse] at he'
      rcases List.mem_cons.mp he' with rfl | he'
      · exact absurd hek.symm hk
      · exact ⟨e', by rw [huse']; exact he', hek⟩
    subst hr
    refine ⟨e, rfl, rfl, h.heap.step (l := .free e.buffer) ⟨Or.inr ⟨_, hb.live, rfl⟩, hfree'⟩,
      h.ring, Ledger.balanced_giveBack h.balanced hb.out, Ledger.exclusive_giveBack h.exclusive,
      fun k => ?_, fun e' he' => ?_, ?_, h.acceptedPhase, h.acceptedOnce, ?_, h.passedOnce,
      fun hf => ?_⟩
    · by_cases hk : k = e.ticket
      · rw [hk, show s.phase e.ticket = _ from hphase]
        refine ⟨⟨_, rfl, h.mem_accepted he⟩, fun b hopen => ?_⟩
        exact absurd rfl (Ledger.open_giveBack_iff.mp hopen).1
      · exact (hothers k hk).ticketOk (h.tickets k)
    · rw [huse'] at he'
      have hp := h.packets e' (by rw [huse]; exact List.mem_cons_of_mem _ he')
      exact ⟨hp.1, (hothers _ (hother e' he')).buffered hp.2⟩
    · rw [huse']
      refine h.accepted.trans ?_
      rw [huse, List.map_cons, List.append_assoc]
      rfl
    · refine h.sent.trans ?_
      rw [hworker]
      simp only [justSent, List.map_singleton, List.map_nil, List.append_nil]
    · have hstarted := h.started he
      rw [show s.started = false from hf] at hstarted
      cases hstarted
  | loop | sleeping | taken e => simp [hworker] at hnext

end Worker

/-! ### Runs -/

/-- How far the background task is with a packet. -/
def rank : WorkerPhase → Nat
  | .sleeping => 0
  | .loop => 1
  | .taken _ => 2
  | .sent _ => 3

/-- A step takes nothing back. One of the background task gets on with the packets, unless there are
none. -/
structure Advances (s t : TxState) (step : TxStep) (before after : List (Nat × Frame)) : Prop where
  gone : before <+: after
  accepted : s.accepted <+: t.accepted
  rank : before.length = s.accepted.length ∨
    3 * before.length + rank s.worker + (if step.byWorker then 1 else 0) ≤
      3 * after.length + rank t.worker

/-- The invariant where it is left open what is in the ring, and what is done with. -/
def Sound (s : TxState) : Prop := ∃ q gone, TxInv s q gone

section Runs

variable {s t : TxState} {q : List QueuedPacket} {gone : List (Nat × Frame)} {step : TxStep}

theorem txInv_initial (h : s.Initial) : TxInv s [] [] := by
  have hopen : ∀ k b, ¬ s.ledger.Open k b := by
    intro k b hb
    rw [h.ledger] at hb
    cases hb.1
  have huse : inUse s [] = [] := by
    rw [inUse, h.worker]
    rfl
  refine ⟨h.heap, ?_, ?_, fun k _ b hb => absurd hb (hopen k b), fun k => ?_, fun e he => ?_, ?_,
    fun p hp => ?_, ?_, ?_, ?_, fun _ => ⟨h.worker, rfl⟩⟩
  · rw [h.queue, h.head, h.tail]
    exact txRing_blank
  · rw [h.ledger]
    exact fun k => Or.inl rfl
  · rw [h.phase k]
    refine ⟨?_, fun f => ?_, ?_⟩
    · rw [h.ledger]
      rfl
    · rw [h.accepted]
      exact List.not_mem_nil
    · rw [h.passed]
      exact fun p hp => absurd hp List.not_mem_nil
  · rw [huse] at he
    cases he
  · rw [h.accepted, huse]
    rfl
  · rw [h.accepted] at hp
    cases hp
  · rw [h.accepted]
    exact List.nodup_nil
  · rw [TxState.sent, h.passed, h.worker]
    rfl
  · rw [h.passed]
    exact List.nodup_nil

/-- No step takes an acceptance back, and only the background task moves itself. -/
theorem next_frame (hnext : s.next step = some t) :
    s.accepted <+: t.accepted ∧ (step.byWorker = false → t.worker = s.worker) := by
  cases step with
  | call ticket c | direct ticket answer | push ticket | take | wake | send answer =>
    simp only [TxState.next] at hnext
    repeat' split at hnext
    all_goals cases hnext
    all_goals exact ⟨by simp [TxState.setPhase], by simp [TxStep.byWorker, TxState.setPhase]⟩
  | allocate ticket answers =>
    simp only [TxState.next] at hnext
    split at hnext
    · obtain ⟨r, -, rfl⟩ := Option.map_eq_some_iff.mp hnext
      split
      · exact ⟨List.prefix_rfl, fun _ => rfl⟩
      · exact ⟨List.prefix_rfl, fun _ => rfl⟩
    · cases hnext
  | copy ticket junk | drop ticket =>
    simp only [TxState.next] at hnext
    split at hnext
    · obtain ⟨heap, -, rfl⟩ := Option.map_eq_some_iff.mp hnext
      exact ⟨List.prefix_rfl, fun _ => rfl⟩
    · cases hnext
  | release =>
    simp only [TxState.next] at hnext
    split at hnext
    · obtain ⟨heap, -, rfl⟩ := Option.map_eq_some_iff.mp hnext
      exact ⟨List.prefix_rfl, fun hstep => by cases hstep⟩
    · cases hnext
  | other op mem =>
    obtain ⟨heap, -, rfl⟩ := Option.map_eq_some_iff.mp hnext
    exact ⟨List.prefix_rfl, fun _ => rfl⟩

/-- A step of a call keeps the invariant, and what is done with stays so. -/
theorem TxInv.step_call (h : TxInv s q gone) (hok : s.Allowed step) (hstep : step.byWorker = false)
    (hnext : s.next step = some t) : ∃ q' gone', TxInv t q' gone' ∧ gone <+: gone' := by
  cases step with
  | call ticket c => exact ⟨q, gone, h.call hnext, List.prefix_rfl⟩
  | direct ticket answer =>
    obtain ⟨gone', h', hpre⟩ := h.direct hnext
    exact ⟨[], gone', h', hpre⟩
  | allocate ticket answers => exact ⟨q, gone, h.allocate hok hnext, List.prefix_rfl⟩
  | copy ticket junk => exact ⟨q, gone, h.copy hnext, List.prefix_rfl⟩
  | push ticket =>
    obtain ⟨q', h'⟩ := h.push hnext
    exact ⟨q', gone, h', List.prefix_rfl⟩
  | drop ticket => exact ⟨q, gone, h.drop hnext, List.prefix_rfl⟩
  | other op mem => exact ⟨q, gone, h.other hok hnext, List.prefix_rfl⟩
  | take | wake | send answer | release => cases hstep

/-- A step keeps the invariant and gets on. -/
theorem TxInv.next (h : TxInv s q gone) (hok : s.Allowed step) (hnext : s.next step = some t) :
    ∃ q' gone', TxInv t q' gone' ∧ Advances s t step gone gone' := by
  obtain ⟨haccepted, hworker⟩ := next_frame hnext
  by_cases hstep : step.byWorker = false
  · obtain ⟨q', gone', h', hpre⟩ := h.step_call hok hstep hnext
    refine ⟨q', gone', h', hpre, haccepted, Or.inr ?_⟩
    have hlen := hpre.length_le
    rw [hworker hstep, hstep]
    simp only [Bool.false_eq_true, if_false]
    omega
  · cases step with
    | take =>
      obtain ⟨q', h', hloop, hrest⟩ := h.take hnext
      refine ⟨q', gone, h', List.prefix_rfl, haccepted, ?_⟩
      rcases hrest with ⟨-, hall⟩ | ⟨e, htaken⟩
      · exact Or.inl hall
      · right
        rw [hloop, htaken]
        exact Nat.le_refl _
    | wake =>
      obtain ⟨h', hsleep, hloop⟩ := h.wake hnext
      refine ⟨q, gone, h', List.prefix_rfl, haccepted, Or.inr ?_⟩
      rw [hsleep, hloop]
      exact Nat.le_refl _
    | send answer =>
      obtain ⟨h', e, htaken, hsent⟩ := h.send hnext
      refine ⟨q, gone, h', List.prefix_rfl, haccepted, Or.inr ?_⟩
      rw [htaken, hsent]
      exact Nat.le_refl _
    | release =>
      obtain ⟨e, hsent, hloop, h'⟩ := h.release hnext
      refine ⟨q, _, h', List.prefix_append _ _, haccepted, Or.inr ?_⟩
      rw [hsent, hloop, List.length_append, List.length_singleton]
      simp only [rank, TxStep.byWorker, if_true]
      omega
    | call ticket c | direct ticket answer | allocate ticket answers | copy ticket junk
      | push ticket | drop ticket | other op mem => exact absurd rfl hstep

/-- The invariant holds of every reachable state. -/
theorem sound_of_reachable (hs : txSystem.Reachable s) : Sound s := by
  refine hs.invariant (P := Sound)
    (fun s h0 => ⟨[], [], txInv_initial h0⟩) fun s step t _ h hstep => ?_
  obtain ⟨q, gone, hinv⟩ := h
  obtain ⟨q', gone', hinv', -⟩ := hinv.next hstep.1 hstep.2
  exact ⟨q', gone', hinv'⟩

/-- In a run the background task gets on by one for each of its steps, until it is done with
everything that was accepted before. -/
theorem TxInv.path (h : TxInv s q gone) {steps : List TxStep} (hpath : txSystem.Path s steps t) :
    ∃ q' gone', TxInv t q' gone' ∧ s.accepted <+: t.accepted ∧ gone <+: gone' ∧
      (s.accepted.length ≤ gone'.length ∨
        3 * gone.length + rank s.worker + steps.countP TxStep.byWorker ≤
          3 * gone'.length + rank t.worker) := by
  induction hpath with
  | refl => exact ⟨q, gone, h, List.prefix_rfl, List.prefix_rfl, Or.inr (Nat.le_refl _)⟩
  | @step steps u v step _ hstep ih =>
    obtain ⟨q₁, gone₁, h₁, hacc₁, hpre₁, hrank₁⟩ := ih
    obtain ⟨q₂, gone₂, h₂, hadv⟩ := h₁.next hstep.1 hstep.2
    refine ⟨q₂, gone₂, h₂, hacc₁.trans hadv.accepted, hpre₁.trans hadv.gone, ?_⟩
    have hlen := hadv.gone.length_le
    have hacc := hacc₁.length_le
    rw [List.countP_append, List.countP_singleton]
    rcases hrank₁ with hdone | hrank₁
    · exact Or.inl (Nat.le_trans hdone hlen)
    · rcases hadv.rank with hall | hrank
      · left
        omega
      · right
        omega

end Runs

/-! ### Devices without a send function -/

/-- The packet that a call is about to queue. -/
def toQueue : CallPhase → Option Frame
  | .allocating f => some f
  | .copying f _ => some f
  | .locking f _ => some f
  | _ => none

/-- Every packet that is accepted or about to be queued is for a device with a send function. -/
structure Reaching (s : TxState) : Prop where
  queueing : ∀ ticket f, toQueue (s.phase ticket) = some f → f.reaches = true
  accepted : ∀ p ∈ s.accepted, p.2.reaches = true

section Reaching

variable {s t : TxState} {ticket : Nat} {step : TxStep}

/-- A call that goes on leaves the other calls alone. -/
theorem Reaching.setPhase (h : Reaching s) {phase : CallPhase}
    (hphase : ∀ f, toQueue phase = some f → f.reaches = true)
    (ht : t.phase = (s.setPhase ticket phase).phase)
    (hacc : ∀ p ∈ t.accepted, p ∈ s.accepted ∨ p.2.reaches = true) : Reaching t := by
  constructor
  · intro k f hk
    rw [ht] at hk
    by_cases heq : k = ticket
    · have hself : (s.setPhase ticket phase).phase k = phase := by
        rw [heq]
        exact Function.update_self ..
      rw [hself] at hk
      exact hphase f hk
    · have hother : (s.setPhase ticket phase).phase k = s.phase k := Function.update_of_ne heq ..
      rw [hother] at hk
      exact h.queueing k f hk
  · intro p hp
    rcases hacc p hp with hold | hreach
    · exact h.accepted p hold
    · exact hreach

/-- A step that changes no call. -/
theorem Reaching.same (h : Reaching s) (hphase : t.phase = s.phase)
    (hacc : t.accepted = s.accepted) : Reaching t := by
  constructor
  · rw [hphase]
    exact h.queueing
  · rw [hacc]
    exact h.accepted

/-- What the first check lets through reaches a device that has a send function. -/
theorem reaches_of_checked {c : QueueCall} {f : Frame} (hf : c.checked = some f)
    (hsend : f.dev.any TxDevice.canSend = true) : f.reaches = true := by
  have hpos := (validFrame_of_checked hf).1
  have hlength : (f.bytes.length != 0) = true := by simpa using Nat.ne_of_gt hpos
  rw [Frame.reaches, hlength, hsend]
  rfl

/-- A step keeps that, when a call that begins names a device with a send function. -/
theorem Reaching.next (h : Reaching s) (hsender : s.NamesSender step)
    (hnext : s.next step = some t) : Reaching t := by
  cases step with
  | call ticket c =>
    simp only [TxState.next] at hnext
    split at hnext
    case h_1 hphase =>
      split at hnext
      case h_1 hchecked =>
        cases hnext
        exact h.setPhase (fun f hf => by cases hf) rfl fun p hp => Or.inl hp
      case h_2 f hchecked =>
        cases hnext
        refine h.setPhase (fun f' hf => ?_) rfl fun p hp => Or.inl hp
        by_cases hstarted : s.started = true
        · rw [if_pos hstarted] at hf
          cases hf
          exact reaches_of_checked hchecked (hsender hstarted f hchecked)
        · rw [if_neg hstarted] at hf
          cases hf
    case h_2 => cases hnext
  | direct ticket answer =>
    simp only [TxState.next] at hnext
    split at hnext
    case h_1 f hphase =>
      cases hnext
      refine h.setPhase (fun f' hf => by cases hf) rfl fun p hp => ?_
      rcases List.mem_append.mp hp with hold | hnew
      · exact Or.inl hold
      · right
        by_cases hresult : (f.reaches && answer) = true
        · rw [if_pos hresult, List.mem_singleton] at hnew
          rw [hnew]
          exact ((Bool.and_eq_true _ _).mp hresult).1
        · rw [if_neg hresult] at hnew
          cases hnew
    case h_2 => cases hnext
  | allocate ticket answers =>
    simp only [TxState.next] at hnext
    split at hnext
    case h_1 f hphase =>
      obtain ⟨r, -, rfl⟩ := Option.map_eq_some_iff.mp hnext
      have hf : f.reaches = true := h.queueing ticket f (by rw [hphase]; rfl)
      by_cases hnull : r.2 = 0
      · rw [if_pos hnull]
        exact h.setPhase (fun f' hf' => by cases hf') rfl fun p hp => Or.inl hp
      · rw [if_neg hnull]
        refine h.setPhase (fun f' hf' => ?_) rfl fun p hp => Or.inl hp
        cases hf'
        exact hf
    case h_2 => cases hnext
  | copy ticket junk =>
    simp only [TxState.next] at hnext
    split at hnext
    case h_1 f buffer hphase =>
      obtain ⟨heap, -, rfl⟩ := Option.map_eq_some_iff.mp hnext
      have hf : f.reaches = true := h.queueing ticket f (by rw [hphase]; rfl)
      refine h.setPhase (fun f' hf' => ?_) rfl fun p hp => Or.inl hp
      cases hf'
      exact hf
    case h_2 => cases hnext
  | push ticket =>
    simp only [TxState.next] at hnext
    split at hnext
    case h_1 f buffer hphase =>
      have hf : f.reaches = true := h.queueing ticket f (by rw [hphase]; rfl)
      split at hnext
      · cases hnext
        exact h.setPhase (fun f' hf' => by cases hf') rfl fun p hp => Or.inl hp
      · cases hnext
        refine h.setPhase (fun f' hf' => by cases hf') rfl fun p hp => ?_
        rcases List.mem_append.mp hp with hold | hnew
        · exact Or.inl hold
        · rw [List.mem_singleton.mp hnew]
          exact Or.inr hf
    case h_2 => cases hnext
  | drop ticket =>
    simp only [TxState.next] at hnext
    split at hnext
    case h_1 f buffer hphase =>
      obtain ⟨heap, -, rfl⟩ := Option.map_eq_some_iff.mp hnext
      exact h.setPhase (fun f' hf' => by cases hf') rfl fun p hp => Or.inl hp
    case h_2 => cases hnext
  | take | wake | send answer =>
    simp only [TxState.next] at hnext
    repeat' split at hnext
    all_goals cases hnext
    all_goals exact h.same rfl rfl
  | release =>
    simp only [TxState.next] at hnext
    split at hnext
    · obtain ⟨heap, -, rfl⟩ := Option.map_eq_some_iff.mp hnext
      exact h.same rfl rfl
    · cases hnext
  | other op mem =>
    obtain ⟨heap, -, rfl⟩ := Option.map_eq_some_iff.mp hnext
    exact h.same rfl rfl

/-- It holds in every state of a run whose packets name such devices. -/
theorem reaching_of_reachable (hs : (txSystem.restrict TxState.NamesSender).Reachable s) :
    Reaching s := by
  refine hs.invariant (P := Reaching) (fun s h0 => ?_) fun s step t _ h hstep => ?_
  · constructor
    · intro ticket f hf
      rw [h0.phase ticket] at hf
      cases hf
    · rw [h0.accepted]
      exact fun p hp => absurd hp List.not_mem_nil
  · exact h.next hstep.1 hstep.2.2

end Reaching

/-! ### Once, unmodified and in order -/

/-- What holds in every state of a run. -/
structure SendsOnce (s : TxState) : Prop where
  /-- The packets that `queue_packet` returned true for are the accepted ones, with the bytes of
  the call. -/
  accepted : ∀ ticket f, s.phase ticket = .returned (some f) true ↔ (ticket, f) ∈ s.accepted
  /-- What was sent are the first of them, in the same order. Without the background task nothing
  waits. -/
  order : ∃ waiting, s.accepted = s.sent ++ waiting ∧ (s.started = false → waiting = [])
  /-- No packet is accepted twice, and none is passed to a device twice. -/
  acceptedOnce : (s.accepted.map Prod.fst).Nodup
  passedOnce : (s.passed.map DeviceCall.ticket).Nodup
  /-- A packet that `queue_packet` returned false for is not sent. Where there is a background task
  no device was called with it. -/
  refused : ∀ ticket f, s.phase ticket = .returned f false → ∀ p ∈ s.passed, p.ticket = ticket →
    s.started = false ∧ p.result = false
  /-- A buffer is freed once, and only after it was granted. -/
  freedOnce : s.ledger.Balanced
  /-- The buffer of a packet that was refused is free. -/
  freedRefused : ∀ ticket f, s.phase ticket = .returned f false → ∀ buffer,
    s.ledger.granted ticket = some buffer → s.ledger.returned ticket = [buffer]

/-- The packets accepted in `s` are done with in `t`: they were sent, and their buffers are
free. -/
def DoneWith (s t : TxState) : Prop :=
  ∀ p ∈ s.accepted, p ∈ t.sent ∧
    ∀ buffer, t.ledger.granted p.1 = some buffer → t.ledger.returned p.1 = [buffer]

section Once

variable {s : TxState} {q : List QueuedPacket} {gone : List (Nat × Frame)}

/-- A buffer that was granted and is not out is free. -/
theorem returned_of_not_open {l : Ledger Nat Nat} (hl : l.Balanced) {ticket buffer : Nat}
    (hgranted : l.granted ticket = some buffer) (hopen : ¬ l.Open ticket buffer) :
    l.returned ticket = [buffer] := by
  rcases hl ticket with hnone | ⟨b, hb, hback⟩
  · exact absurd ⟨hgranted, hnone⟩ hopen
  · rw [hgranted, Option.some.injEq] at hb
    rw [hb]
    exact hback

theorem TxInv.sendsOnce (h : TxInv s q gone) (hreach : ∀ p ∈ s.accepted, p.2.reaches = true) :
    SendsOnce s where
  accepted ticket f := by
    constructor
    · intro hphase
      have hok := h.tickets ticket
      rw [hphase] at hok
      obtain ⟨g, hg, hmem⟩ := hok.1
      rw [Option.some.inj hg]
      exact hmem
    · exact h.acceptedPhase _
  order := by
    -- The packet that is sent and still holds its buffer is the first of those in use.
    have hsplit : inUse s q = justSent s.worker ++ (s.worker.unsent ++ q) := by
      unfold inUse
      cases s.worker with
      | loop | sleeping | taken e | sent e => rfl
    have hwhole : s.accepted = gone ++ (justSent s.worker).map (ticketed s.mem) ++
        (s.worker.unsent ++ q).map (ticketed s.mem) := by
      rw [h.accepted, hsplit, List.map_append, List.append_assoc]
    refine ⟨(s.worker.unsent ++ q).map (ticketed s.mem), ?_, fun hf => ?_⟩
    · rw [h.sent, List.filter_eq_self.mpr fun p hp => hreach p ?_, ← hwhole]
      rw [hwhole]
      exact List.mem_append_left _ hp
    · obtain ⟨hworker, rfl⟩ := h.idle hf
      rw [hworker]
      rfl
  acceptedOnce := h.acceptedOnce
  passedOnce := h.passedOnce
  refused ticket f hphase := by
    have hok := h.tickets ticket
    rw [hphase] at hok
    exact hok.2.2
  freedOnce := h.balanced
  freedRefused ticket f hphase buffer hgranted := by
    have hok := h.tickets ticket
    rw [hphase] at hok
    exact returned_of_not_open h.balanced hgranted (hok.2.1 buffer)

/-- What is done with was sent, and holds no buffer. -/
theorem TxInv.doneWith (h : TxInv s q gone) {p : Nat × Frame} (hp : p ∈ gone) :
    (p.2.reaches = true → p ∈ s.sent) ∧
      ∀ buffer, s.ledger.granted p.1 = some buffer → s.ledger.returned p.1 = [buffer] := by
  have hmem : p ∈ s.accepted := by
    rw [h.accepted]
    exact List.mem_append_left _ hp
  refine ⟨fun hreach => ?_, fun buffer hgranted => returned_of_not_open h.balanced hgranted ?_⟩
  · rw [h.sent]
    exact List.mem_filter.mpr ⟨List.mem_append_left _ hp, hreach⟩
  · intro hopen
    have hok := h.tickets p.1
    rw [h.acceptedPhase p hmem] at hok
    obtain ⟨e, he, heq⟩ := hok.2 buffer hopen
    refine h.not_gone he p.2 ?_
    rw [heq]
    exact hp

/-- The background task can go on. -/
theorem worker_enabled (s : TxState) (hstarted : s.started = true) :
    ∃ step t, step.byWorker = true ∧ txSystem.step s step t := by
  have hstep : ∀ step, step.byWorker = true → s.Allowed step → (s.next step).isSome = true →
      ∃ step t, step.byWorker = true ∧ txSystem.step s step t := by
    intro step hworker hok hsome
    exact ⟨step, (s.next step).get hsome, hworker, hok, (Option.some_get hsome).symm⟩
  cases hworker : s.worker with
  | loop =>
    refine hstep .take rfl trivial ?_
    have hnot : ¬ s.started = false := by simp [hstarted]
    simp only [TxState.next, hworker, if_neg hnot]
    split
    · rfl
    · rfl
  | sleeping => exact hstep .wake rfl trivial (by simp [TxState.next, hworker])
  | taken e => exact hstep (.send true) rfl trivial (by simp [TxState.next, hworker])
  | sent e =>
    exact hstep .release rfl trivial (by simp [TxState.next, hworker, TxState.free, HeapState.next])

/-- A packet for a device without a send function is not sent, in this state or a later one, once
it has been accepted. -/
theorem TxInv.not_sent (h : TxInv s q gone) {ticket : Nat} {f : Frame}
    (hacc : (ticket, f) ∈ s.accepted) (hf : f.reaches = false) {steps : List TxStep} {t : TxState}
    (hpath : txSystem.Path s steps t) : ∀ p ∈ t.sent, p.1 ≠ ticket := by
  obtain ⟨q', gone', h', haccepted, -, -⟩ := h.path hpath
  intro p hp heq
  rw [h'.sent] at hp
  obtain ⟨hmem, hreach⟩ := List.mem_filter.mp hp
  have hpacc : p ∈ t.accepted := by
    rw [h'.accepted, inUse]
    rcases List.mem_append.mp hmem with hgone | hjust
    · exact List.mem_append_left _ hgone
    · refine List.mem_append_right _ (List.map_subset _ ?_ hjust)
      intro e he
      refine List.mem_append_left _ ?_
      cases hworker : t.worker with
      | loop | sleeping | taken e' =>
        rw [hworker] at he
        cases he
      | sent e' =>
        rw [hworker] at he
        exact he
  have hphase := h'.acceptedPhase p hpacc
  rw [heq, h'.acceptedPhase _ (haccepted.subset hacc)] at hphase
  injection hphase with hframe
  rw [← Option.some.inj hframe, hf] at hreach
  cases hreach

/-- In every run of `queue_packet` calls, for devices with a send function, and of the background
task, each packet that was accepted is passed to its device once, unmodified and in the order of
acceptance, a packet that was refused is not sent, and each buffer is freed once. The background
task can always go on, and after `3 * 64 + 1` of its steps everything that had been accepted
before is sent and free. -/
theorem tx_queue_sends_once (s : TxState)
    (hs : (txSystem.restrict TxState.NamesSender).Reachable s) :
    SendsOnce s ∧
      (s.started = true → ∃ step t, step.byWorker = true ∧ txSystem.step s step t) ∧
      ∀ steps t, txSystem.Path s steps t →
        3 * NET_TX_QUEUE_CAPACITY < steps.countP TxStep.byWorker → DoneWith s t := by
  obtain ⟨q, gone, h⟩ := sound_of_reachable hs.of_restrict
  have hreach := (reaching_of_reachable hs).accepted
  refine ⟨h.sendsOnce hreach, worker_enabled s, fun steps t hpath hcount p hp => ?_⟩
  obtain ⟨q', gone', h', haccepted, -, hrank⟩ := h.path hpath
  -- At most 64 packets are in use.
  have hlen : s.accepted.length ≤ gone.length + NET_TX_QUEUE_CAPACITY := by
    have hq := h.ring.length_lt
    have hw : s.worker.holds.length ≤ 1 := by
      cases s.worker with
      | loop | sleeping | taken e | sent e => simp [WorkerPhase.holds]
    rw [h.accepted, List.length_append, List.length_map, inUse, List.length_append]
    omega
  have hall : s.accepted.length ≤ gone'.length := by
    rcases hrank with hdone | hrank
    · exact hdone
    · have hr : rank t.worker ≤ 3 := by
        cases t.worker with
        | loop | sleeping | taken e | sent e => simp [rank]
      omega
  have hgone : s.accepted <+: gone' := by
    refine List.prefix_of_prefix_length_le haccepted ?_ hall
    rw [h'.accepted]
    exact List.prefix_append _ _
  obtain ⟨hsent, hfree⟩ := h'.doneWith (hgone.subset hp)
  exact ⟨hsent (hreach p hp), hfree⟩

end Once

/-- A heap with one region of a page. -/
def onePage : HeapState :=
  ⟨((KernelHeap.empty fun _ => ⟨⟨0, false⟩, 0, 0⟩).init 0x100000 0x1000).1, []⟩

/-- The queue after the start of the background task. -/
def txBoot : TxState where
  heap := onePage
  mem _ := 0
  started := true
  queue := List.replicate NET_TX_QUEUE_CAPACITY .blank
  head := 0
  tail := 0
  phase _ := .notCalled
  worker := .loop
  accepted := []
  passed := []
  ledger := .empty

theorem txBoot_initial : txBoot.Initial := by
  refine ⟨?_, rfl, rfl, rfl, fun _ => rfl, rfl, rfl, rfl, rfl⟩
  refine .step (l := .init 0x100000 0x1000) (.init ⟨fun _ => ⟨⟨0, false⟩, 0, 0⟩, rfl⟩) ⟨?_, rfl⟩
  show SubheapOk [] (0x100000, 0x1000)
  with_unfolding_all decide

/-- A call with three bytes. -/
def threeBytes : QueueCall := ⟨some ⟨0, true⟩, some [1, 2, 3], 3, by decide, by simp⟩

/-- The packet of a call from the call to the free. -/
def oneCall (c : QueueCall) : List TxStep :=
  [.call 7 c, .allocate 7 [], .copy 7 fun _ => ⟨⟨0, false⟩, 0, 0⟩, .push 7, .take, .send true,
    .release]

def onePacket : List TxStep := oneCall threeBytes

/-- One packet, sent by the worker. -/
theorem tx_queue_sends_once_packet :
    ∃ s, (txSystem.restrict TxState.NamesSender).Reachable s ∧
      s.sent = [(7, ⟨some ⟨0, true⟩, [1, 2, 3]⟩)] ∧ s.ledger.returned 7 = [0x100020] ∧
      SendsOnce s := by
  have hrun : (TransitionSystem.run TxState.next txBoot onePacket).any (fun s =>
      decide (s.sent = [(7, ⟨some ⟨0, true⟩, [1, 2, 3]⟩)] ∧ s.ledger.returned 7 = [0x100020])) =
        true := by
    with_unfolding_all decide
  obtain ⟨s, hs, hfacts⟩ := (Option.any_eq_true _ _).mp hrun
  obtain ⟨hsent, hfreed⟩ := of_decide_eq_true hfacts
  have hok : ∀ step ∈ onePacket, ∀ u : TxState, u.Allowed step ∧ u.NamesSender step := by
    intro step hstep u
    simp only [onePacket, oneCall, List.mem_cons, List.not_mem_nil, or_false] at hstep
    rcases hstep with rfl | rfl | rfl | rfl | rfl | rfl | rfl
    · refine ⟨trivial, fun _ f hf => ?_⟩
      cases hf
      rfl
    · exact ⟨fun _ _ _ _ => trivial, trivial⟩
    all_goals exact ⟨trivial, trivial⟩
  have hreach : (txSystem.restrict TxState.NamesSender).Reachable s :=
    (TransitionSystem.reachable_of_free_run hok (.init txBoot_initial) hs).restrict_and
  exact ⟨s, hreach, hsent, hfreed, (tx_queue_sends_once s hreach).1⟩

/-- The same packet for a device without a send function is accepted and freed, and passed to no
device, then or later. -/
theorem accepted_not_sent : ∃ s f, txSystem.Reachable s ∧ s.phase 7 = .returned (some f) true ∧
    s.ledger.returned 7 = [0x100020] ∧
    ∀ steps t, txSystem.Path s steps t → ∀ p ∈ t.sent, p.1 ≠ 7 := by
  let packets := oneCall ⟨some ⟨0, false⟩, some [1, 2, 3], 3, by decide, by simp⟩
  have hrun : (TransitionSystem.run TxState.next txBoot packets).any (fun s =>
      decide (s.phase 7 = .returned (some ⟨some ⟨0, false⟩, [1, 2, 3]⟩) true ∧
        s.accepted = [(7, ⟨some ⟨0, false⟩, [1, 2, 3]⟩)] ∧
        s.ledger.returned 7 = [0x100020])) = true := by
    with_unfolding_all decide
  obtain ⟨s, hs, hfacts⟩ := (Option.any_eq_true _ _).mp hrun
  obtain ⟨hphase, haccepted, hfreed⟩ := of_decide_eq_true hfacts
  have hok : ∀ step ∈ packets, ∀ u : TxState, u.Allowed step := by
    intro step hstep u
    simp only [packets, oneCall, List.mem_cons, List.not_mem_nil, or_false] at hstep
    rcases hstep with rfl | rfl | rfl | rfl | rfl | rfl | rfl
    · trivial
    · exact fun _ _ _ _ => trivial
    all_goals trivial
  have hreach : txSystem.Reachable s :=
    TransitionSystem.reachable_of_free_run hok (.init txBoot_initial) hs
  obtain ⟨q, gone, h⟩ := sound_of_reachable hreach
  exact ⟨s, _, hreach, hphase, hfreed, fun steps t hpath =>
    h.not_sent (by rw [haccepted]; exact List.mem_singleton_self _) rfl hpath⟩

end VKernel.Proofs.Net

import Mathlib.Data.List.Forall2
import Mathlib.Tactic.SplitIfs
import VKernel.Drivers.VirtioNet

/-!
# `VKernel.Proofs.Drivers.VirtioNet`: frames in and frames out

`rx_delivers` is about the receive queue. Every frame that the device accepts is reported by
one poll, in the order of arrival, with its length and, if it fits, its bytes; and the buffer
is always with somebody who acts on it, so the queue does not get stuck.

`tx_faithful` is about the transmit queue, in the runs in which no transmission starts behind
one that was given up. There the frames on the wire are the frames that `transmit_packet`
reported as sent, in order and once each, and at most one more. `resent_after_timeout` is a run
outside of this: the frame that was given up never leaves, and the one behind it leaves twice.

Both proofs follow one entry through the turns of its queue (`Lib.TurnQueue`). What is added
here is which frame the buffer holds in each turn.
-/

set_option autoImplicit false

namespace VKernel.Proofs.Drivers.VirtioNet

open VKernel.Lib VKernel.Lib.TurnQueue VKernel.Drivers.VirtioNet

theorem two_le_range : 2 ≤ INDEX_RANGE := by decide

/-- The payload behind a header of the right length. -/
theorem readBytes_payload {buffer : Nat → UInt8} {header frame : List UInt8}
    (hlen : header.length = HEADER_BYTES) :
    readBytes (writeBytes buffer 0 (header ++ frame)) HEADER_BYTES frame.length = frame := by
  have hall := readBytes_writeBytes buffer 0 (header ++ frame)
  rw [List.length_append, readBytes_add, hlen, Nat.zero_add] at hall
  exact (List.append_inj hall (by rw [length_readBytes, hlen])).2

/-! ### Receiving -/

/-- What a poll with room for `capacity` bytes has to report for a frame. -/
def expected (capacity : Nat) (frame : List UInt8) : PollResult :=
  if frame = [] then ⟨capacity, false, 0, []⟩
  else if frame.length ≤ capacity then ⟨capacity, true, frame.length, frame⟩
  else ⟨capacity, false, frame.length, []⟩

/-- The results are those of the frames, one for each and in order. -/
def Reported (frames : List (List UInt8)) (results : List PollResult) : Prop :=
  List.Forall₂ (fun frame r => r = expected r.capacity frame) frames results

/-- The payload of the receive buffer. -/
def RxHolds (m : Rx) (frame : List UInt8) : Prop :=
  readBytes m.buffer HEADER_BYTES frame.length = frame

/-- The note of the device for a frame. -/
def usedOf (frame : List UInt8) : UsedElem := ⟨0, HEADER_BYTES + frame.length⟩

/-- All frames but the last were reported. -/
def RxPending (m : Rx) (frame : List UInt8) : Prop :=
  ∃ frames, m.accepted = frames ++ [frame] ∧ Reported frames m.results

/-- What holds in each turn of the receive queue, for the place of the driver. -/
inductive RxState (m : Rx) : Turn UsedElem → RxPhase → Prop
  | offered (hnone : m.inFlight = none) (hall : Reported m.accepted m.results) :
      RxState m .offered .idle
  | device (frame : List UInt8) (hsome : m.inFlight = some frame) (hbuf : RxHolds m frame)
      (hall : Reported m.accepted m.results) : RxState m .device .idle
  | back (frame : List UInt8) (phase : RxPhase) (hnone : m.inFlight = none)
      (hbuf : RxHolds m frame) (hpend : RxPending m frame)
      (hphase : phase = .idle ∨ ∃ capacity, phase = .found capacity) :
      RxState m (.back (usedOf frame)) phase
  | copy (frame : List UInt8) (capacity : Nat) (hnone : m.inFlight = none)
      (hbuf : RxHolds m frame) (hpend : RxPending m frame) :
      RxState m .producer (.copy capacity (usedOf frame))
  | prime (frame : List UInt8) (capacity : Nat) (hnone : m.inFlight = none)
      (hpend : RxPending m frame) : RxState m .producer (.prime (expected capacity frame))

/-- The invariant of the receive queue. -/
def RxInv (m : Rx) : Prop :=
  ∃ t, HasTurn INDEX_RANGE m.queue t ∧ RxState m t m.phase

/-- The poll reports the frame that the buffer holds. -/
theorem result_usedOf {m : Rx} {frame : List UInt8} (hbuf : RxHolds m frame) (capacity : Nat) :
    m.result capacity (usedOf frame) = expected capacity frame := by
  unfold Rx.result expected usedOf
  by_cases hempty : frame = []
  · subst hempty
    simp
  · have hpos : 0 < frame.length := List.length_pos_iff.mpr hempty
    have hsub : HEADER_BYTES + frame.length - HEADER_BYTES = frame.length := by omega
    rw [if_pos ⟨rfl, by show HEADER_BYTES + frame.length > HEADER_BYTES; omega⟩, if_neg hempty]
    simp only [hsub]
    rw [show readBytes m.buffer HEADER_BYTES frame.length = frame from hbuf]

section Receive

variable {m m' : Rx}

/-- A poll that finds a frame. -/
theorem RxInv.poll {capacity : Nat} (h : RxInv m) (hidle : m.phase = .idle)
    (hused : m.queue.HasUsed) : RxInv { m with phase := .found capacity } := by
  obtain ⟨t, hturn, hstate⟩ := h
  obtain ⟨x, rfl⟩ := (hturn.hasUsed_iff two_le_range).mp hused
  rw [hidle] at hstate
  cases hstate with
  | back frame _ hnone hbuf hpend _ =>
    exact ⟨_, hturn, .back frame _ hnone hbuf hpend (Or.inr ⟨capacity, rfl⟩)⟩

/-- The steps of a poll. By cases on where it is. -/
theorem RxInv.driver (h : RxInv m) (hstep : m.next .driver = some m') : RxInv m' := by
  obtain ⟨t, hturn, hstate⟩ := h
  simp only [Rx.next] at hstep
  cases hphase : m.phase with
  | idle => simp [hphase] at hstep
  | found capacity =>
    simp only [hphase, Option.some.injEq] at hstep
    subst hstep
    rw [hphase] at hstate
    cases hstate with
    | back frame _ hnone hbuf hpend _ =>
      refine ⟨_, hturn.collect, ?_⟩
      show RxState _ .producer (.copy capacity m.queue.note)
      rw [hturn.note _ rfl]
      exact .copy frame capacity hnone hbuf hpend
  | copy capacity used =>
    simp only [hphase, Option.some.injEq] at hstep
    subst hstep
    rw [hphase] at hstate
    cases hstate with
    | back _ _ _ _ _ hcase =>
      -- A used entry is collected before this point.
      rcases hcase with hcase | ⟨_, hcase⟩ <;> cases hcase
    | copy frame _ hnone hbuf hpend =>
      refine ⟨_, hturn, ?_⟩
      show RxState _ .producer (.prime (m.result capacity (usedOf frame)))
      rw [result_usedOf hbuf]
      exact .prime frame capacity hnone hpend
  | prime result =>
    simp only [hphase, Option.some.injEq] at hstep
    subst hstep
    rw [hphase] at hstate
    cases hstate with
    | back _ _ _ _ _ hcase => rcases hcase with hcase | ⟨_, hcase⟩ <;> cases hcase
    | prime frame capacity hnone hpend =>
      refine ⟨_, hturn.offer, .offered hnone ?_⟩
      obtain ⟨frames, hacc, hrep⟩ := hpend
      show Reported m.accepted (m.results ++ [expected capacity frame])
      rw [hacc]
      refine List.rel_append hrep (.cons ?_ .nil)
      -- The result remembers the capacity that it was made for.
      unfold expected
      split_ifs <;> rfl

/-- The device takes a buffer and fills it. -/
theorem RxInv.receive {header frame : List UInt8} (h : RxInv m) (htake : m.queue.CanTake)
    (hlen : header.length = HEADER_BYTES) :
    RxInv { m with
      queue := m.queue.take INDEX_RANGE
      buffer := writeBytes m.buffer 0 (header ++ frame)
      inFlight := some frame } := by
  obtain ⟨t, hturn, hstate⟩ := h
  obtain rfl := (hturn.canTake_iff two_le_range).mp htake
  generalize hphase : m.phase = phase at hstate
  cases hstate with
  | offered hnone hall =>
    exact ⟨_, hturn.take, .device frame rfl (readBytes_payload hlen) hall⟩

/-- The device gives the buffer back. -/
theorem RxInv.complete {frame : List UInt8} (h : RxInv m) (hsome : m.inFlight = some frame) :
    RxInv { m with
      queue := m.queue.giveBack INDEX_RANGE (usedOf frame)
      inFlight := none
      accepted := m.accepted ++ [frame] } := by
  obtain ⟨t, hturn, hstate⟩ := h
  generalize hphase : m.phase = phase at hstate
  cases hstate with
  | device frame' hsome' hbuf hall =>
    obtain rfl : frame' = frame := Option.some.inj (hsome'.symm.trans hsome)
    exact ⟨_, hturn.giveBack _, .back frame' _ rfl hbuf ⟨m.accepted, rfl, hall⟩ (Or.inl rfl)⟩
  | offered hnone _ => rw [hnone] at hsome; cases hsome
  | back _ _ hnone _ _ _ => rw [hnone] at hsome; cases hsome
  | copy _ _ hnone _ _ => rw [hnone] at hsome; cases hsome
  | prime _ _ hnone _ => rw [hnone] at hsome; cases hsome

/-- One step of the driver, of the device or of the network. -/
theorem RxInv.step {op : RxOp} (h : RxInv m) (hstep : m.next op = some m') : RxInv m' := by
  cases op with
  | poll capacity =>
    simp only [Rx.next] at hstep
    split_ifs at hstep with hidle hfound
    · cases hstep
      exact h.poll hidle hfound.2
    · cases hstep
      exact h
  | driver => exact h.driver hstep
  | receive header frame =>
    simp only [Rx.next] at hstep
    split_ifs at hstep with hok
    cases hstep
    exact h.receive hok.1 hok.2.1
  | complete =>
    simp only [Rx.next] at hstep
    cases hsome : m.inFlight with
    | none => simp [hsome] at hstep
    | some frame =>
      simp only [hsome, Option.some.injEq] at hstep
      subst hstep
      exact h.complete hsome

/-- The invariant holds in every run. -/
theorem RxInv.of_reachable {queueSize : Nat} (hm : (rxSystem queueSize).Reachable m) :
    RxInv m := by
  refine hm.invariant (fun m hinit => ?_) fun _ _ _ _ h hstep => h.step hstep
  subst hinit
  exact ⟨_, (hasTurn_producer (by decide) _ _).offer, .offered rfl .nil⟩

end Receive

/-- What the receive queue guarantees. -/
structure RxDelivers (m : Rx) : Prop where
  /-- The polls have reported the accepted frames in order, but for at most the last one. -/
  reported : ∃ frames pending, m.accepted = frames ++ pending ∧ pending.length ≤ 1 ∧
    Reported frames m.results
  /-- When a poll would find nothing, all were reported. -/
  drained : m.phase = .idle → ¬ m.queue.HasUsed → Reported m.accepted m.results
  /-- Between two polls the buffer is offered, with the device, or filled. -/
  alive : m.phase = .idle → m.queue.CanTake ∨ m.inFlight ≠ none ∨ m.queue.HasUsed

/-- In every run of polls, with buffers of any size, against a device that acts at any time:
each frame that the device accepts is reported by exactly one poll, in order and unchanged. -/
theorem rx_delivers (queueSize : Nat) (m : Rx) (hm : (rxSystem queueSize).Reachable m) :
    RxDelivers m := by
  obtain ⟨t, hturn, hstate⟩ := RxInv.of_reachable hm
  have htake := hturn.canTake_iff two_le_range
  have hused := hturn.hasUsed_iff two_le_range
  have hpending : ∀ frame, RxPending m frame → ∃ frames pending,
      m.accepted = frames ++ pending ∧ pending.length ≤ 1 ∧ Reported frames m.results := by
    rintro frame ⟨frames, hacc, hrep⟩
    exact ⟨frames, [frame], hacc, Nat.le_refl 1, hrep⟩
  generalize hphase : m.phase = phase at hstate
  cases hstate with
  | offered hnone hall =>
    exact ⟨⟨m.accepted, [], (List.append_nil _).symm, Nat.zero_le _, hall⟩, fun _ _ => hall,
      fun _ => Or.inl (htake.mpr rfl)⟩
  | device frame hsome hbuf hall =>
    refine ⟨⟨m.accepted, [], (List.append_nil _).symm, Nat.zero_le _, hall⟩, fun _ _ => hall,
      fun _ => Or.inr (Or.inl ?_)⟩
    rw [hsome]
    exact Option.some_ne_none frame
  | back frame _ hnone hbuf hpend hcase =>
    have hfound : m.queue.HasUsed := hused.mpr ⟨_, rfl⟩
    exact ⟨hpending frame hpend, fun _ hno => absurd hfound hno,
      fun _ => Or.inr (Or.inr hfound)⟩
  | copy frame capacity hnone hbuf hpend =>
    refine ⟨hpending frame hpend, fun hidle => ?_, fun hidle => ?_⟩ <;>
      exact absurd (hphase.symm.trans hidle) RxPhase.noConfusion
  | prime frame capacity hnone hpend =>
    refine ⟨hpending frame hpend, fun hidle => ?_, fun hidle => ?_⟩ <;>
      exact absurd (hphase.symm.trans hidle) RxPhase.noConfusion

/-- Two frames, the second one too long for the poll, with the driver late. -/
def receiveRun : List RxOp :=
  [.poll 2, .receive (List.replicate 10 0) [1, 2], .complete, .poll 2, .driver, .driver, .driver,
    .receive (List.replicate 10 7) [3, 4, 5], .complete, .poll 2, .driver, .driver, .driver]

/-- A run with two frames: one is read, and one is longer than the reader's buffer. -/
theorem rx_delivers_two : ∃ m, (rxSystem 256).Reachable m ∧
    m.results = [⟨2, true, 2, [1, 2]⟩, ⟨2, false, 3, []⟩] ∧ RxDelivers m := by
  have hrun : (TransitionSystem.run Rx.next (Rx.initial 256) receiveRun).any (fun m =>
      decide (m.results = [⟨2, true, 2, [1, 2]⟩, ⟨2, false, 3, []⟩])) = true := by
    with_unfolding_all decide
  obtain ⟨m, hm, hfacts⟩ := (Option.any_eq_true _ _).mp hrun
  have hreach : (rxSystem 256).Reachable m := TransitionSystem.reachable_of_run (.init rfl) hm
  exact ⟨m, hreach, of_decide_eq_true hfacts, rx_delivers 256 m hreach⟩

/-! ### Sending -/

/-- The frames that `transmit_packet` has reported as sent. -/
def sent (m : Tx) : List (List UInt8) := (m.returned.filter Prod.snd).map Prod.fst

/-- The driver is about to write to the transmit buffer. -/
def atLoad (m : Tx) : Bool :=
  match m.phase with
  | .load _ => true
  | _ => false

/-- When a transmission writes to the buffer, everything that was offered before has been
collected. -/
def NoneGivenUp (m : Tx) : TxOp → Prop
  | .driver => atLoad m = true → m.queue.avail = m.queue.last
  | _ => True

instance (m : Tx) : ∀ op, Decidable (NoneGivenUp m op)
  | .driver => inferInstanceAs (Decidable (atLoad m = true → m.queue.avail = m.queue.last))
  | .transmit _ => inferInstanceAs (Decidable True)
  | .take => inferInstanceAs (Decidable True)
  | .complete => inferInstanceAs (Decidable True)

/-- The transmit buffer and the second descriptor hold a frame. -/
structure Loaded (m : Tx) (frame : List UInt8) : Prop where
  bytes : readBytes m.buffer HEADER_BYTES m.descLen = frame

/-- A frame on the queue: before the device takes it, and with the device or behind it. -/
inductive OnQueue (m : Tx) (frame : List UInt8) : Turn Nat → Prop
  | offered (hload : Loaded m frame) (hfree : m.inFlight = 0) (hwire : m.wire = sent m) :
      OnQueue m frame .offered
  | device (hone : m.inFlight = 1) (hwire : m.wire = sent m ++ [frame]) : OnQueue m frame .device
  | back (hfree : m.inFlight = 0) (hwire : m.wire = sent m ++ [frame]) :
      OnQueue m frame (.back 0)

/-- What holds in each turn of the transmit queue, for the place of the driver. A frame that was
given up stays on the queue, and no other joins it. -/
inductive TxState (m : Tx) : Turn Nat → TxPhase → Prop
  | quiet (phase : TxPhase) (hfree : m.inFlight = 0) (hwire : m.wire = sent m)
      (hphase : phase = .idle ∨ ∃ frame, phase = .load frame) : TxState m .producer phase
  | loaded (frame : List UInt8) (hload : Loaded m frame) (hfree : m.inFlight = 0)
      (hwire : m.wire = sent m) : TxState m .producer (.publish frame)
  | polling (frame : List UInt8) (spin : Nat) (t : Turn Nat) (hqueue : OnQueue m frame t) :
      TxState m t (.polling frame spin)
  | found (frame : List UInt8) (hqueue : OnQueue m frame (.back 0)) :
      TxState m (.back 0) (.found frame)
  | stale (frame : List UInt8) (t : Turn Nat) (phase : TxPhase) (hqueue : OnQueue m frame t)
      (hgiven : (frame, false) ∈ m.returned)
      (hphase : phase = .idle ∨ ∃ other, phase = .load other) : TxState m t phase

/-- The invariant of the transmit queue. -/
def TxInv (m : Tx) : Prop :=
  ∃ t, HasTurn INDEX_RANGE m.queue t ∧ TxState m t m.phase

section Send

variable {m m' : Tx} {frame : List UInt8} {t : Turn Nat}

/-- A frame on the queue is not with the driver. -/
theorem OnQueue.ne_producer (h : OnQueue m frame t) : t ≠ .producer := by
  cases h <;> exact nofun

/-- A call that reports a failure sends nothing. -/
theorem sent_append_false {m m' : Tx} {frame : List UInt8}
    (h : m'.returned = m.returned ++ [(frame, false)]) : sent m' = sent m := by
  unfold sent
  rw [h, List.filter_append, List.map_append]
  simp

/-- The frame on the queue does not depend on the driver's place, nor on failures. -/
theorem OnQueue.congr (h : OnQueue m frame t) (hbuf : m'.buffer = m.buffer)
    (hlen : m'.descLen = m.descLen) (hfly : m'.inFlight = m.inFlight) (hwire : m'.wire = m.wire)
    (hsent : sent m' = sent m) : OnQueue m' frame t := by
  cases h with
  | offered hload hfree hw =>
    refine .offered ⟨?_⟩ (hfly.trans hfree) (by rw [hwire, hsent, hw])
    rw [hbuf, hlen]
    exact hload.bytes
  | device hone hw => exact .device (hfly.trans hone) (by rw [hwire, hsent, hw])
  | back hfree hw => exact .back (hfly.trans hfree) (by rw [hwire, hsent, hw])

/-- A frame that is refused. -/
theorem TxInv.reject (h : TxInv m) (hidle : m.phase = .idle) : TxInv (m.finish frame false) := by
  obtain ⟨t, hturn, hstate⟩ := h
  have hsent : sent (m.finish frame false) = sent m := sent_append_false rfl
  refine ⟨t, hturn, ?_⟩
  show TxState _ t .idle
  rw [hidle] at hstate
  cases hstate with
  | quiet _ hfree hwire _ => exact .quiet _ hfree (by rw [hsent]; exact hwire) (Or.inl rfl)
  | stale given _ _ hqueue hgiven _ =>
    exact .stale given t _ (hqueue.congr rfl rfl rfl rfl hsent)
      (List.mem_append_left _ hgiven) (Or.inl rfl)

/-- A call that starts. -/
theorem TxInv.begin (h : TxInv m) (hidle : m.phase = .idle) :
    TxInv { m with phase := .load frame } := by
  obtain ⟨t, hturn, hstate⟩ := h
  rw [hidle] at hstate
  refine ⟨t, hturn, ?_⟩
  cases hstate with
  | quiet _ hfree hwire _ => exact .quiet _ hfree hwire (Or.inr ⟨frame, rfl⟩)
  | stale given _ _ hqueue hgiven _ =>
    exact .stale given t _ (hqueue.congr rfl rfl rfl rfl rfl) hgiven (Or.inr ⟨frame, rfl⟩)

/-- The buffer is written only while nothing is on the queue. -/
theorem TxInv.load (h : TxInv m) (hphase : m.phase = .load frame)
    (hok : m.queue.avail = m.queue.last) :
    TxInv { m with
      buffer := writeBytes m.buffer 0 (List.replicate HEADER_BYTES 0 ++ frame)
      descLen := frame.length
      phase := .publish frame } := by
  obtain ⟨t, hturn, hstate⟩ := h
  obtain rfl := (hturn.avail_eq_last_iff two_le_range).mp hok
  refine ⟨_, hturn, ?_⟩
  rw [hphase] at hstate
  cases hstate with
  | quiet _ hfree hwire _ =>
    exact .loaded frame ⟨readBytes_payload List.length_replicate⟩ hfree hwire
  | stale _ _ _ hqueue _ _ => exact absurd rfl hqueue.ne_producer

/-- The frame is offered to the device. -/
theorem TxInv.publish (h : TxInv m) (hphase : m.phase = .publish frame) :
    TxInv { m with queue := m.queue.offer INDEX_RANGE, phase := .polling frame 0 } := by
  obtain ⟨t, hturn, hstate⟩ := h
  rw [hphase] at hstate
  cases hstate with
  | quiet _ _ _ hcase => rcases hcase with hcase | ⟨_, hcase⟩ <;> cases hcase
  | loaded _ hload hfree hwire =>
    exact ⟨_, hturn.offer, .polling frame 0 _ (.offered ⟨hload.bytes⟩ hfree hwire)⟩
  | stale _ _ _ _ _ hcase => rcases hcase with hcase | ⟨_, hcase⟩ <;> cases hcase

/-- In the polling loop the frame of the call is on the queue. -/
theorem TxState.of_polling {spin : Nat} (h : TxState m t (.polling frame spin)) :
    OnQueue m frame t := by
  cases h with
  | quiet _ _ _ hcase => rcases hcase with hcase | ⟨_, hcase⟩ <;> cases hcase
  | polling _ _ _ hqueue => exact hqueue
  | stale _ _ _ _ _ hcase => rcases hcase with hcase | ⟨_, hcase⟩ <;> cases hcase

/-- The driver stops waiting. This is what leaves a frame behind. -/
theorem TxInv.giveUp {spin : Nat} (h : TxInv m) (hphase : m.phase = .polling frame spin) :
    TxInv (m.finish frame false) := by
  obtain ⟨t, hturn, hstate⟩ := h
  rw [hphase] at hstate
  have hsent : sent (m.finish frame false) = sent m := sent_append_false rfl
  exact ⟨t, hturn, .stale frame t _ (hstate.of_polling.congr rfl rfl rfl rfl hsent)
    (List.mem_append_right _ List.mem_cons_self) (Or.inl rfl)⟩

/-- The driver sees the answer. -/
theorem TxInv.notice {spin : Nat} (h : TxInv m) (hphase : m.phase = .polling frame spin)
    (hused : m.queue.HasUsed) : TxInv { m with phase := .found frame } := by
  obtain ⟨t, hturn, hstate⟩ := h
  obtain ⟨x, rfl⟩ := (hturn.hasUsed_iff two_le_range).mp hused
  rw [hphase] at hstate
  have hqueue := hstate.of_polling
  cases hqueue with
  | back hfree hwire => exact ⟨_, hturn, .found frame (.back hfree hwire)⟩

/-- One more round of the wait. -/
theorem TxInv.spin {spin spin' : Nat} (h : TxInv m) (hphase : m.phase = .polling frame spin) :
    TxInv { m with phase := .polling frame spin' } := by
  obtain ⟨t, hturn, hstate⟩ := h
  rw [hphase] at hstate
  exact ⟨t, hturn, .polling frame spin' t (hstate.of_polling.congr rfl rfl rfl rfl rfl)⟩

/-- The call that collects its completion reports its frame, which is the last on the wire. -/
theorem TxInv.collect (h : TxInv m) (hphase : m.phase = .found frame) :
    TxInv ({ m with queue := m.queue.collect INDEX_RANGE }.finish frame (m.queue.note == 0)) := by
  obtain ⟨t, hturn, hstate⟩ := h
  rw [hphase] at hstate
  cases hstate with
  | quiet _ _ _ hcase => rcases hcase with hcase | ⟨_, hcase⟩ <;> cases hcase
  | stale _ _ _ _ _ hcase => rcases hcase with hcase | ⟨_, hcase⟩ <;> cases hcase
  | found _ hqueue =>
    cases hqueue with
    | back hfree hwire =>
      refine ⟨_, hturn.collect, .quiet _ hfree ?_ (Or.inl rfl)⟩
      rw [hturn.note 0 rfl]
      show m.wire = ((m.returned ++ [(frame, true)]).filter Prod.snd).map Prod.fst
      rw [hwire, List.filter_append, List.map_append]
      rfl

/-- The steps of a call. By cases on where it is. -/
theorem TxInv.driver (h : TxInv m) (hok : NoneGivenUp m .driver)
    (hstep : m.next .driver = some m') : TxInv m' := by
  simp only [Tx.next] at hstep
  cases hphase : m.phase with
  | idle => simp [hphase] at hstep
  | load frame =>
    simp only [hphase, Option.some.injEq] at hstep
    subst hstep
    exact h.load hphase (hok (by unfold atLoad; rw [hphase]))
  | publish frame =>
    simp only [hphase, Option.some.injEq] at hstep
    subst hstep
    exact h.publish hphase
  | polling frame spin =>
    simp only [hphase] at hstep
    split_ifs at hstep with hover hused
    · cases hstep
      exact h.giveUp hphase
    · cases hstep
      exact h.notice hphase hused
    · cases hstep
      exact h.spin hphase
  | found frame =>
    simp only [hphase, Option.some.injEq] at hstep
    subst hstep
    exact h.collect hphase

/-- The device takes the frame that the buffer holds. -/
theorem OnQueue.take (h : OnQueue m frame .offered) :
    OnQueue { m with
      queue := m.queue.take INDEX_RANGE
      inFlight := m.inFlight + 1
      wire := m.wire ++ [readBytes m.buffer HEADER_BYTES m.descLen] } frame .device := by
  cases h with
  | offered hload hfree hwire =>
    refine .device (congrArg (· + 1) hfree) ?_
    show m.wire ++ [readBytes m.buffer HEADER_BYTES m.descLen] = sent m ++ [frame]
    rw [hwire, hload.bytes]

/-- Only a frame that the device has is given back. -/
theorem OnQueue.giveBack (h : OnQueue m frame t) (hfly : m.inFlight ≠ 0) : t = .device ∧
    OnQueue { m with
      queue := m.queue.giveBack INDEX_RANGE 0, inFlight := m.inFlight - 1 } frame (.back 0) := by
  cases h with
  | offered _ hfree _ => exact absurd hfree hfly
  | device hone hwire => exact ⟨rfl, .back (by show m.inFlight - 1 = 0; omega) hwire⟩
  | back hfree _ => exact absurd hfree hfly

/-- The device takes the frame that was offered. -/
theorem TxState.take {phase : TxPhase} (h : TxState m .offered phase) :
    TxState { m with
      queue := m.queue.take INDEX_RANGE
      inFlight := m.inFlight + 1
      wire := m.wire ++ [readBytes m.buffer HEADER_BYTES m.descLen] } .device phase := by
  cases h with
  | polling frame spin _ hqueue => exact .polling frame spin _ hqueue.take
  | stale given _ _ hqueue hgiven hcase => exact .stale given _ _ hqueue.take hgiven hcase

/-- The device gives it back. -/
theorem TxState.giveBack {phase : TxPhase} (h : TxState m t phase) (hfly : m.inFlight ≠ 0) :
    t = .device ∧ TxState { m with
      queue := m.queue.giveBack INDEX_RANGE 0, inFlight := m.inFlight - 1 } (.back 0) phase := by
  cases h with
  | quiet _ hfree _ _ => exact absurd hfree hfly
  | loaded _ _ hfree _ => exact absurd hfree hfly
  | polling frame spin _ hqueue =>
    obtain ⟨ht, hback⟩ := hqueue.giveBack hfly
    exact ⟨ht, .polling frame spin _ hback⟩
  | found frame hqueue => exact absurd (hqueue.giveBack hfly).1 nofun
  | stale given _ _ hqueue hgiven hcase =>
    obtain ⟨ht, hback⟩ := hqueue.giveBack hfly
    exact ⟨ht, .stale given _ _ hback hgiven hcase⟩

/-- The device takes a frame. -/
theorem TxInv.take (h : TxInv m) (htake : m.queue.CanTake) :
    TxInv { m with
      queue := m.queue.take INDEX_RANGE
      inFlight := m.inFlight + 1
      wire := m.wire ++ [readBytes m.buffer HEADER_BYTES m.descLen] } := by
  obtain ⟨t, hturn, hstate⟩ := h
  obtain rfl := (hturn.canTake_iff two_le_range).mp htake
  exact ⟨_, hturn.take, hstate.take⟩

/-- The device is done with a frame. -/
theorem TxInv.complete (h : TxInv m) (hfly : m.inFlight ≠ 0) :
    TxInv { m with
      queue := m.queue.giveBack INDEX_RANGE 0, inFlight := m.inFlight - 1 } := by
  obtain ⟨t, hturn, hstate⟩ := h
  obtain ⟨rfl, hback⟩ := hstate.giveBack hfly
  exact ⟨_, hturn.giveBack 0, hback⟩

/-- One step of the driver or of the device. -/
theorem TxInv.step {op : TxOp} (h : TxInv m) (hok : NoneGivenUp m op)
    (hstep : m.next op = some m') : TxInv m' := by
  cases op with
  | transmit frame =>
    simp only [Tx.next] at hstep
    split_ifs at hstep with hidle hbad
    · cases hstep
      exact h.reject hidle
    · cases hstep
      exact h.begin hidle
  | driver => exact h.driver hok hstep
  | take =>
    simp only [Tx.next] at hstep
    split_ifs at hstep with htake
    cases hstep
    exact h.take htake
  | complete =>
    simp only [Tx.next] at hstep
    split_ifs at hstep with hfly
    cases hstep
    exact h.complete hfly

/-- The invariant holds in every run in which nothing is given up. -/
theorem TxInv.of_reachable {queueSize : Nat}
    (hm : ((txSystem queueSize).restrict NoneGivenUp).Reachable m) : TxInv m := by
  refine hm.invariant (fun m hinit => ?_) fun _ _ _ _ h hstep => h.step hstep.1 hstep.2
  subst hinit
  exact ⟨_, hasTurn_producer (by decide) _ _, .quiet _ rfl rfl (Or.inl rfl)⟩

end Send

/-- The call in progress is for this frame. -/
def Current (m : Tx) (frame : List UInt8) : Prop :=
  m.phase = .found frame ∨ ∃ spin, m.phase = .polling frame spin

/-- What the transmit queue guarantees. -/
structure TxFaithful (m : Tx) : Prop where
  /-- On the wire are the frames that were reported as sent, in order and once each, and behind
  them at most the frame of the present call or of one that was given up. -/
  wire : ∃ extra, m.wire = sent m ++ extra ∧ extra.length ≤ 1 ∧
    ∀ frame ∈ extra, Current m frame ∨ (frame, false) ∈ m.returned
  /-- Between two calls, when nothing was given up, the two lists agree. -/
  settled : m.phase = .idle → m.queue.avail = m.queue.last → m.wire = sent m

/-- In every run of transmissions against a device that acts at any time, in which none starts
behind one that was given up: the wire carries what was reported as sent. -/
theorem tx_faithful (queueSize : Nat) (m : Tx)
    (hm : ((txSystem queueSize).restrict NoneGivenUp).Reachable m) : TxFaithful m := by
  obtain ⟨t, hturn, hstate⟩ := TxInv.of_reachable hm
  have hquiet := hturn.avail_eq_last_iff two_le_range
  have hextra : ∀ frame, OnQueue m frame t → Current m frame ∨ (frame, false) ∈ m.returned →
      ∃ extra, m.wire = sent m ++ extra ∧ extra.length ≤ 1 ∧
        ∀ frame ∈ extra, Current m frame ∨ (frame, false) ∈ m.returned := by
    intro frame hqueue hwhose
    have hone : ∀ f ∈ [frame], Current m f ∨ (f, false) ∈ m.returned :=
      fun f hf => List.mem_singleton.mp hf ▸ hwhose
    cases hqueue with
    | offered _ _ hwire =>
      exact ⟨[], by rw [hwire, List.append_nil], Nat.zero_le _,
        fun f hf => absurd hf List.not_mem_nil⟩
    | device _ hwire => exact ⟨[frame], hwire, Nat.le_refl _, hone⟩
    | back _ hwire => exact ⟨[frame], hwire, Nat.le_refl _, hone⟩
  have hnone : m.wire = sent m → ∃ extra, m.wire = sent m ++ extra ∧ extra.length ≤ 1 ∧
      ∀ frame ∈ extra, Current m frame ∨ (frame, false) ∈ m.returned :=
    fun hwire => ⟨[], by rw [hwire, List.append_nil], Nat.zero_le _,
      fun f hf => absurd hf List.not_mem_nil⟩
  generalize hphase : m.phase = phase at hstate
  cases hstate with
  | quiet _ _ hwire _ => exact ⟨hnone hwire, fun _ _ => hwire⟩
  | loaded _ _ _ hwire => exact ⟨hnone hwire, fun _ _ => hwire⟩
  | polling frame spin _ hqueue =>
    refine ⟨hextra frame hqueue (Or.inl (Or.inr ⟨spin, hphase⟩)), fun hidle => ?_⟩
    exact absurd (hphase.symm.trans hidle) TxPhase.noConfusion
  | found frame hqueue =>
    refine ⟨hextra frame hqueue (Or.inl (Or.inl hphase)), fun hidle => ?_⟩
    exact absurd (hphase.symm.trans hidle) TxPhase.noConfusion
  | stale frame _ _ hqueue hgiven _ =>
    exact ⟨hextra frame hqueue (Or.inr hgiven),
      fun _ hlast => absurd (hquiet.mp hlast) hqueue.ne_producer⟩

/-- Two frames and one that is refused, the first of them polled for before the device acts. -/
def transmitRun : List TxOp :=
  [.transmit [1], .driver, .driver, .driver, .take, .driver, .complete, .driver, .driver,
    .transmit [], .transmit [2, 3], .driver, .driver, .take, .complete, .driver, .driver]

/-- A run with two frames that are sent and an empty one, which is refused. -/
theorem tx_faithful_two : ∃ m, ((txSystem 256).restrict NoneGivenUp).Reachable m ∧
    m.wire = [[1], [2, 3]] ∧ m.returned = [([1], true), ([], false), ([2, 3], true)] ∧
      TxFaithful m := by
  have hrun : (TransitionSystem.run (TransitionSystem.guarded Tx.next NoneGivenUp)
      (Tx.initial 256) transmitRun).any (fun m => decide (m.wire = [[1], [2, 3]] ∧
        m.returned = [([1], true), ([], false), ([2, 3], true)])) = true := by
    with_unfolding_all decide
  obtain ⟨m, hm, hfacts⟩ := (Option.any_eq_true _ _).mp hrun
  have hreach : ((txSystem 256).restrict NoneGivenUp).Reachable m :=
    TransitionSystem.reachable_of_guarded_run (.init rfl) hm
  obtain ⟨hwire, hreturned⟩ := of_decide_eq_true hfacts
  exact ⟨m, hreach, hwire, hreturned, tx_faithful 256 m hreach⟩

/-! ### Behind a frame that was given up -/

/-- As long as the device does nothing, the polling loop runs out. -/
theorem leads_giveUp {queueSize : Nat} {frame : List UInt8} :
    ∀ (rounds spin : Nat) (m : Tx), m.phase = .polling frame spin →
      spin + rounds = VIRTIO_NET_TX_TIMEOUT_SPINS → ¬ m.queue.HasUsed →
        (txSystem queueSize).Leads m (m.finish frame false) := by
  intro rounds
  induction rounds with
  | zero =>
    intro spin m hphase hspin _
    refine .step .refl (l := .driver) ?_
    show m.next .driver = _
    simp only [Tx.next, hphase]
    exact if_pos (Nat.le_of_eq hspin.symm)
  | succ rounds ih =>
    intro spin m hphase hspin hunused
    have hround : m.next .driver = some { m with phase := .polling frame (spin + 1) } := by
      simp only [Tx.next, hphase]
      rw [if_neg (by omega), if_neg hunused]
    exact TransitionSystem.Leads.trans (.step .refl (l := .driver) hround)
      (ih (spin + 1) { m with phase := .polling frame (spin + 1) } rfl (by omega) hunused)

/-- The first frame is offered, and the device does not look. -/
def ignoredFrame : Tx :=
  (TransitionSystem.run Tx.next (Tx.initial 256) [.transmit [1], .driver, .driver]).getD
    (Tx.initial 0)

/-- A run in which the first frame is given up. Its place on the queue is still there, and by the
time the device looks, the buffer holds the second frame. -/
theorem resent_after_timeout : ∃ m, (txSystem 256).Reachable m ∧
    m.returned = [([1], false), ([2], true)] ∧ m.wire = [[2], [2]] := by
  have hstart : TransitionSystem.run Tx.next (Tx.initial 256)
      [.transmit [1], .driver, .driver] = some ignoredFrame := by
    unfold ignoredFrame
    refine (Option.some_get ?_).symm.trans (congrArg some (Option.get_eq_getD _))
    with_unfolding_all decide
  have hreach : (txSystem 256).Reachable ignoredFrame :=
    TransitionSystem.reachable_of_run (.init rfl) hstart
  have hphase : ignoredFrame.phase = .polling [1] 0 := by with_unfolding_all decide
  have hunused : ¬ ignoredFrame.queue.HasUsed := by with_unfolding_all decide
  have hgiven := hreach.of_leads
    (leads_giveUp VIRTIO_NET_TX_TIMEOUT_SPINS 0 ignoredFrame hphase (Nat.zero_add _) hunused)
  have hrun : (TransitionSystem.run Tx.next (ignoredFrame.finish [1] false)
      [.transmit [2], .driver, .driver, .take, .complete, .driver, .driver, .take]).any (fun m =>
        decide (m.returned = [([1], false), ([2], true)] ∧ m.wire = [[2], [2]])) = true := by
    with_unfolding_all decide
  obtain ⟨m, hm, hfacts⟩ := (Option.any_eq_true _ _).mp hrun
  exact ⟨m, TransitionSystem.reachable_of_run hgiven hm, of_decide_eq_true hfacts⟩

end VKernel.Proofs.Drivers.VirtioNet

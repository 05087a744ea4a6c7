import VKernel.Input.EventLists

/-!
# `VKernel.Proofs.Input.EventQueues`: the event queues act as lists

`EventSystem.map` replaces every queue of a system. Each call commutes with it, since the code
looks at its queues only through their accesses: `step_map`, and by induction `run_map`. For
`heldMap` this says that the rings of the source act as lists of what they hold.

What goes into the global mouse queue is settled by the bytes from the mouse alone. `packets` is the
specification of the assembler on a list of bytes, and `feedAll_eq` relates the two: the bytes of
an incomplete packet count as if they came in front of the next ones. Every reader of the controller
pumps these bytes, and pushes what comes out (`Pumps`).
-/

set_option autoImplicit false

namespace VKernel.Input

open VKernel.Lib VKernel.Process

section Map

variable {Q R : Type → Nat → Type} [DroppingQueue Q] [DroppingQueue R] (f : QueueMap Q R)

/-! ### The hardware -/

/-- The same state with other queues. -/
def Ps2.map (s : Ps2 Q) : Ps2 R where
  keys := s.keys
  ready := s.ready
  assembler := s.assembler
  queue := f.toFun s.queue
  port := s.port
  serial := s.serial

/-- A byte of the mouse, over mapped queues. The lemmas that follow say the same of the other
functions of the source. -/
theorem ps2PumpMouseByte_map (s : Ps2 Q) (byte : UInt8) :
    ps2PumpMouseByte (s.map f) byte = (ps2PumpMouseByte s byte).map f := by
  unfold ps2PumpMouseByte
  rcases hfeed : s.assembler.feed byte with ⟨a, _ | ev⟩
  · simp only [Ps2.map, hfeed]
  · simp only [Ps2.map, hfeed, mouseQPush, f.push]

theorem drainPort_map {ρ : Type} (body : KeyState → UInt8 → KeyState × Option ρ) (s : Ps2 Q)
    (port : List PortEntry) :
    drainPort body (s.map f) port =
      ((drainPort body s port).1, (drainPort body s port).2.map f) := by
  induction port generalizing s with
  | nil => rfl
  | cons e port ih =>
    unfold drainPort
    by_cases haux : e.aux = true
    · rw [if_pos haux, if_pos haux, ps2PumpMouseByte_map]
      exact ih _
    · rw [if_neg haux, if_neg haux, show (s.map f).keys = s.keys from rfl]
      rcases body s.keys e.data with ⟨k, _ | out⟩
      · exact ih { s with keys := k }
      · rfl

theorem ps2TryRead_map (s : Ps2 Q) :
    ps2TryRead (s.map f) = ((ps2TryRead s).1, (ps2TryRead s).2.map f) := by
  have hdrain := drainPort_map f KeyState.read s s.port
  unfold ps2TryRead
  rw [show (s.map f).port = s.port from rfl, hdrain]

theorem ps2TryReadRaw_map (s : Ps2 Q) :
    ps2TryReadRaw (s.map f) = ((ps2TryReadRaw s).1, (ps2TryReadRaw s).2.map f) :=
  drainPort_map f KeyState.readRaw s s.port

theorem drainAux_map (s : Ps2 Q) (port : List PortEntry) :
    drainAux (s.map f) port = (drainAux s port).map f := by
  induction port generalizing s with
  | nil => rfl
  | cons e port ih =>
    unfold drainAux
    by_cases haux : e.aux = true
    · rw [if_pos haux, if_pos haux, ps2PumpMouseByte_map]
      exact ih _
    · rw [if_neg haux, if_neg haux]
      rfl

theorem mouseQPop_map (s : Ps2 Q) :
    mouseQPop (s.map f) = ((mouseQPop s).1, (mouseQPop s).2.map f) := by
  simp only [mouseQPop, Ps2.map, f.pop]

theorem pollMouse_map (s : Ps2 Q) :
    pollMouse (s.map f) = ((pollMouse s).1, (pollMouse s).2.map f) := by
  unfold pollMouse
  rw [show (s.map f).ready = s.ready from rfl, show (s.map f).port = s.port from rfl]
  by_cases hready : (!s.ready) = true
  · rw [if_pos hready, if_pos hready]
  · rw [if_neg hready, if_neg hready, drainAux_map, mouseQPop_map]

theorem serialTryRead_map (s : Ps2 Q) :
    serialTryRead (s.map f) = ((serialTryRead s).1, (serialTryRead s).2.map f) := rfl

/-! ### The contexts -/

def ProcessTaskContext.map (ctx : ProcessTaskContext Q) : ProcessTaskContext R where
  interface := ctx.interface
  keyQueue := f.toFun ctx.keyQueue
  mouseQueue := f.toFun ctx.mouseQueue
  framebufferEventQueue := f.toFun ctx.framebufferEventQueue
  fb := ctx.fb
  framebufferResizeEventsEnabled := ctx.framebufferResizeEventsEnabled

def EventSystem.map (s : EventSystem Q) : EventSystem R where
  contexts := fun t => (s.contexts t).map (ProcessTaskContext.map f)
  current := s.current
  framebufferValid := s.framebufferValid
  ps2 := s.ps2.map f

variable (s : EventSystem Q)

theorem contexts_map (t : Nat) :
    (s.map f).contexts t = (s.contexts t).map (ProcessTaskContext.map f) := rfl

/-- A change of one context. -/
theorem update_map (t : Nat) (ctx : Option (ProcessTaskContext Q)) :
    { s.map f with
        contexts := Function.update (s.map f).contexts t (ctx.map (ProcessTaskContext.map f)) }
      = EventSystem.map f { s with contexts := Function.update s.contexts t ctx } := by
  have hcontexts : Function.update (s.map f).contexts t (ctx.map (ProcessTaskContext.map f))
      = fun u => (Function.update s.contexts t ctx u).map (ProcessTaskContext.map f) :=
    (Function.comp_update (Option.map (ProcessTaskContext.map f)) s.contexts t ctx).symm
  rw [hcontexts]
  rfl

theorem setContext_map (t : Nat) (ctx : ProcessTaskContext Q) :
    (s.map f).setContext t (ctx.map f) = (s.setContext t ctx).map f := update_map f s t (some ctx)

/-- The choice of the queue does not read the queues. -/
theorem shouldUseFramebuffer_map : shouldUseFramebuffer (s.map f) = shouldUseFramebuffer s := by
  unfold shouldUseFramebuffer currentConsoleInterface
  rw [show (s.map f).current = s.current from rfl, contexts_map]
  cases s.contexts s.current <;> rfl

/-- The loop that looks for a character, by induction on its rounds. -/
theorem dequeueLoop_map (rounds : Nat) (queue : Q KeyEvent KEY_QUEUE_SIZE) :
    dequeueLoop rounds (f.toFun queue)
      = ((dequeueLoop rounds queue).1, f.toFun (dequeueLoop rounds queue).2) := by
  induction rounds generalizing queue with
  | zero => rfl
  | succ rounds ih =>
    unfold dequeueLoop
    rw [f.pop]
    rcases DroppingQueue.pop queue with ⟨_ | ev, rest⟩
    · rfl
    · dsimp only
      cases asciiOfKey ev with
      | none => exact ih rest
      | some c => rfl

theorem dequeueAsciiKey_map (ctx : ProcessTaskContext Q) :
    dequeueAsciiKey (ctx.map f)
      = ((dequeueAsciiKey ctx).1, (dequeueAsciiKey ctx).2.map f) := by
  unfold dequeueAsciiKey
  rw [show (ctx.map f).keyQueue = f.toFun ctx.keyQueue from rfl, dequeueLoop_map]
  rfl

/-! ### The calls -/

theorem routeTryGetc_map :
    routeTryGetc (s.map f) = ((routeTryGetc s).1, (routeTryGetc s).2.map f) := by
  unfold routeTryGetc
  rw [shouldUseFramebuffer_map, show (s.map f).current = s.current from rfl, contexts_map,
    show (s.map f).ps2 = s.ps2.map f from rfl, ps2TryRead_map, serialTryRead_map]
  by_cases huse : shouldUseFramebuffer s = true
  · rw [if_pos huse, if_pos huse]
    cases s.contexts s.current with
    | none => rfl
    | some ctx =>
      rw [Option.map_some]
      dsimp only
      rw [show (ctx.map f).fb = ctx.fb from rfl, dequeueAsciiKey_map, setContext_map]
      by_cases hfb : ctx.fb.valid = true
      · rw [if_pos hfb, if_pos hfb]
      · rw [if_neg hfb, if_neg hfb]
        rfl
  · rw [if_neg huse, if_neg huse]
    rfl

theorem routePollKey_map (out : Bool) :
    routePollKey (s.map f) out = ((routePollKey s out).1, (routePollKey s out).2.map f) := by
  unfold routePollKey
  rw [shouldUseFramebuffer_map, show (s.map f).current = s.current from rfl, contexts_map,
    show (s.map f).ps2 = s.ps2.map f from rfl, ps2TryReadRaw_map]
  by_cases hguard : (!out || !shouldUseFramebuffer s) = true
  · rw [if_pos hguard, if_pos hguard]
  · rw [if_neg hguard, if_neg hguard]
    cases s.contexts s.current with
    | none => rfl
    | some ctx =>
      rw [Option.map_some]
      dsimp only
      rw [show (ctx.map f).keyQueue = f.toFun ctx.keyQueue from rfl, f.pop,
        show (ctx.map f).fb = ctx.fb from rfl]
      rcases DroppingQueue.pop ctx.keyQueue with ⟨_ | ev, queue⟩
      · dsimp only
        by_cases hfb : ctx.fb.valid = true
        · rw [if_pos hfb, if_pos hfb]
        · rw [if_neg hfb, if_neg hfb]
          rfl
      · exact Prod.ext rfl (setContext_map f s s.current { ctx with keyQueue := queue })

theorem stubSendKey_map (t : Nat) (ev : Option KeyEvent) :
    stubSendKey (s.map f) t ev = ((stubSendKey s t ev).1, (stubSendKey s t ev).2.map f) := by
  unfold stubSendKey
  rw [contexts_map]
  cases ev with
  | none => rfl
  | some ev =>
    cases s.contexts t with
    | none => rfl
    | some target =>
      refine Prod.ext rfl ?_
      dsimp only [Option.map_some]
      rw [← setContext_map, show (target.map f).keyQueue = f.toFun target.keyQueue from rfl,
        ← f.push]
      rfl

theorem stubPollMouse_map (out : Bool) :
    stubPollMouse (s.map f) out = ((stubPollMouse s out).1, (stubPollMouse s out).2.map f) := by
  unfold stubPollMouse
  rw [shouldUseFramebuffer_map, show (s.map f).current = s.current from rfl, contexts_map,
    show (s.map f).ps2 = s.ps2.map f from rfl, pollMouse_map]
  by_cases hguard : (!out || !shouldUseFramebuffer s) = true
  · rw [if_pos hguard, if_pos hguard]
  · rw [if_neg hguard, if_neg hguard]
    cases s.contexts s.current with
    | none => rfl
    | some ctx =>
      rw [Option.map_some]
      dsimp only
      rw [show (ctx.map f).mouseQueue = f.toFun ctx.mouseQueue from rfl, f.pop,
        show (ctx.map f).fb = ctx.fb from rfl]
      rcases DroppingQueue.pop ctx.mouseQueue with ⟨_ | ev, queue⟩
      · dsimp only
        by_cases hfb : ctx.fb.valid = true
        · rw [if_pos hfb, if_pos hfb]
        · rw [if_neg hfb, if_neg hfb]
          rfl
      · exact Prod.ext rfl (setContext_map f s s.current { ctx with mouseQueue := queue })

theorem stubSendMouse_map (t : Nat) (ev : Option MouseEvent) :
    stubSendMouse (s.map f) t ev = ((stubSendMouse s t ev).1, (stubSendMouse s t ev).2.map f) := by
  unfold stubSendMouse
  rw [contexts_map]
  cases ev with
  | none => rfl
  | some ev =>
    cases s.contexts t with
    | none => rfl
    | some target =>
      refine Prod.ext rfl ?_
      dsimp only [Option.map_some]
      rw [← setContext_map, show (target.map f).mouseQueue = f.toFun target.mouseQueue from rfl,
        ← f.push]
      rfl

theorem enqueueFramebufferEvent_map (target : ProcessTaskContext Q) (type : UInt32)
    (framebuffer : FramebufferInfo) :
    enqueueFramebufferEvent (target.map f) type framebuffer
      = (enqueueFramebufferEvent target type framebuffer).map f := by
  unfold enqueueFramebufferEvent
  rw [show (target.map f).framebufferResizeEventsEnabled
    = target.framebufferResizeEventsEnabled from rfl]
  by_cases henabled : (!target.framebufferResizeEventsEnabled) = true
  · rw [if_pos henabled, if_pos henabled]
  · rw [if_neg henabled, if_neg henabled, show (target.map f).framebufferEventQueue
      = f.toFun target.framebufferEventQueue from rfl, ← f.push]
    rfl

theorem stubSetTaskFramebuffer_map (t : Nat) (fb blocked : Bool)
    (remap : FbOverride → Bool × FbOverride) :
    stubSetTaskFramebuffer (s.map f) t fb blocked remap
      = ((stubSetTaskFramebuffer s t fb blocked remap).1,
        (stubSetTaskFramebuffer s t fb blocked remap).2.map f) := by
  unfold stubSetTaskFramebuffer
  rw [contexts_map]
  by_cases hguard : (!fb || !blocked) = true
  · rw [if_pos hguard, if_pos hguard]
  · rw [if_neg hguard, if_neg hguard]
    cases s.contexts t with
    | none => rfl
    | some target =>
      rw [Option.map_some]
      dsimp only
      rw [show (target.map f).fb = target.fb from rfl]
      rcases remap target.fb with ⟨ok, surface⟩
      -- The target with its new surface, in both systems.
      have htarget := setContext_map f s t { target with fb := surface }
      have hsent := setContext_map f s t (enqueueFramebufferEvent { target with fb := surface }
        VK_FRAMEBUFFER_EVENT_RESIZED surface.override)
      rw [← enqueueFramebufferEvent_map] at hsent
      cases ok with
      | false => exact Prod.ext rfl htarget
      | true =>
        by_cases hvalid : surface.valid = true
        · rw [if_neg (by simp), if_pos hvalid, if_neg (by simp), if_pos hvalid]
          exact Prod.ext rfl hsent
        · rw [if_neg (by simp), if_neg hvalid, if_neg (by simp), if_neg hvalid]
          exact Prod.ext rfl htarget

theorem stubPollFramebufferEvent_map (out : Bool) :
    stubPollFramebufferEvent (s.map f) out
      = ((stubPollFramebufferEvent s out).1, (stubPollFramebufferEvent s out).2.map f) := by
  unfold stubPollFramebufferEvent
  rw [shouldUseFramebuffer_map, show (s.map f).current = s.current from rfl, contexts_map]
  by_cases hguard : (!out || !shouldUseFramebuffer s) = true
  · rw [if_pos hguard, if_pos hguard]
  · rw [if_neg hguard, if_neg hguard]
    cases s.contexts s.current with
    | none => rfl
    | some ctx =>
      rw [Option.map_some]
      dsimp only
      rw [show (ctx.map f).framebufferResizeEventsEnabled = ctx.framebufferResizeEventsEnabled
        from rfl]
      by_cases henabled : (!ctx.framebufferResizeEventsEnabled) = true
      · rw [if_pos henabled, if_pos henabled]
      · rw [if_neg henabled, if_neg henabled,
          show (ctx.map f).framebufferEventQueue = f.toFun ctx.framebufferEventQueue from rfl,
            f.pop]
        rcases DroppingQueue.pop ctx.framebufferEventQueue with ⟨_ | ev, queue⟩
        · rfl
        · exact Prod.ext rfl
            (setContext_map f s s.current { ctx with framebufferEventQueue := queue })

theorem stubSetFramebufferResizeEvents_map (enabled : UInt32) :
    stubSetFramebufferResizeEvents (s.map f) enabled
      = ((stubSetFramebufferResizeEvents s enabled).1,
        (stubSetFramebufferResizeEvents s enabled).2.map f) := by
  unfold stubSetFramebufferResizeEvents
  rw [show (s.map f).current = s.current from rfl, contexts_map]
  cases s.contexts s.current with
  | none => rfl
  | some ctx =>
    rw [Option.map_some]
    dsimp only
    by_cases henabled : (!(enabled != 0)) = true
    · rw [if_pos henabled, if_pos henabled, ← setContext_map]
      refine Prod.ext rfl ?_
      show (s.map f).setContext s.current _ = (s.map f).setContext s.current _
      congr 1
      simp only [ProcessTaskContext.map, f.clear]
    · rw [if_neg henabled, if_neg henabled]
      exact Prod.ext rfl (setContext_map f s s.current
        { ctx with framebufferResizeEventsEnabled := enabled != 0 })

/-! ### Runs -/

/-- Every call commutes with a map of the queues. -/
theorem step_map (op : EventOp) :
    (s.map f).step op = ((s.step op).1, (s.step op).2.map f) := by
  cases op with
  | pollKey out => simp only [EventSystem.step, routePollKey_map]
  | sendKey t ev => simp only [EventSystem.step, stubSendKey_map]
  | tryGetc => simp only [EventSystem.step, routeTryGetc_map]
  | pollMouse out => simp only [EventSystem.step, stubPollMouse_map]
  | sendMouse t ev => simp only [EventSystem.step, stubSendMouse_map]
  | setTaskFramebuffer t fb blocked remap =>
    simp only [EventSystem.step, stubSetTaskFramebuffer_map]
  | pollFramebufferEvent out => simp only [EventSystem.step, stubPollFramebufferEvent_map]
  | setFramebufferResizeEvents enabled =>
    simp only [EventSystem.step, stubSetFramebufferResizeEvents_map]
  | arrive port serial => rfl
  | dispatch t => rfl
  | consoleFramebuffer valid => rfl
  | start t interface fb =>
    refine Prod.ext rfl ?_
    show (s.map f).setContext t _ = EventSystem.map f (s.setContext t _)
    rw [← setContext_map]
    congr 1
    simp only [ProcessTaskContext.map, ProcessTaskContext.start, f.empty]
  | exit t => exact Prod.ext rfl (update_map f s t none)

/-- A run does not depend on what the queues are made of. -/
theorem run_map (ops : List EventOp) :
    (s.map f).run ops = ((s.run ops).1, (s.run ops).2.map f) := by
  induction ops generalizing s with
  | nil => rfl
  | cons op ops ih =>
    unfold EventSystem.run
    rw [step_map]
    dsimp only
    rw [ih]

end Map

/-! ### The rounds of `dequeue_ascii_key` -/

/-- As many rounds as there are events are enough: the first character that an event has is
returned, and the events up to it are gone. -/
theorem dequeueLoop_items {rounds : Nat} {queue : BoundedFifo KeyEvent KEY_QUEUE_SIZE}
    (hrounds : queue.items.length ≤ rounds) :
    (dequeueLoop rounds queue).1 = (queue.items.findSome? asciiOfKey).getD 0 ∧
      (dequeueLoop rounds queue).2.items
        = (queue.items.dropWhile fun ev => asciiOfKey ev == none).tail := by
  induction rounds generalizing queue with
  | zero =>
    have hnil := List.eq_nil_of_length_eq_zero (Nat.le_zero.mp hrounds)
    unfold dequeueLoop
    rw [hnil]
    exact ⟨rfl, rfl⟩
  | succ rounds ih =>
    cases hitems : queue.items with
    | nil =>
      have hpop : DroppingQueue.pop queue = (none, queue.pop.2) :=
        Prod.ext (show queue.items.head? = none by rw [hitems, List.head?_nil]) rfl
      unfold dequeueLoop
      rw [hpop]
      exact ⟨rfl, hitems⟩
    | cons ev rest =>
      have hpop : DroppingQueue.pop queue = (some ev, queue.pop.2) :=
        Prod.ext (show queue.items.head? = some ev by rw [hitems, List.head?_cons]) rfl
      have hrest : queue.pop.2.items = rest := by
        show queue.items.tail = rest
        rw [hitems, List.tail_cons]
      have hlength : queue.pop.2.items.length ≤ rounds := by
        rw [hitems, List.length_cons] at hrounds
        rw [hrest]
        omega
      unfold dequeueLoop
      rw [hpop]
      dsimp only
      cases hascii : asciiOfKey ev with
      | none =>
        rw [List.findSome?_cons, hascii, List.dropWhile_cons, hascii, ← hrest]
        exact ih hlength
      | some c =>
        rw [List.findSome?_cons, hascii, List.dropWhile_cons, hascii]
        exact ⟨rfl, hrest⟩

/-- The rounds of `dequeue_ascii_key` are never what stops it. -/
theorem dequeueAsciiKey_events (ctx : ProcessTaskContext DroppingRing) :
    (dequeueAsciiKey ctx).1 = (ctx.events.keys.findSome? asciiOfKey).getD 0 ∧
      (dequeueAsciiKey ctx).2.events = { ctx.events with
        keys := (ctx.events.keys.dropWhile fun ev => asciiOfKey ev == none).tail } := by
  have hmap := dequeueLoop_map heldMap KEY_QUEUE_SIZE ctx.keyQueue
  have hrounds : ctx.keyQueue.held.items.length ≤ KEY_QUEUE_SIZE :=
    Nat.le_of_lt ctx.keyQueue.held.bounded
  obtain ⟨hchar, hitems⟩ := dequeueLoop_items hrounds
  rw [show ctx.keyQueue.held = heldMap.toFun ctx.keyQueue from rfl, hmap] at hchar hitems
  refine ⟨hchar, ?_⟩
  show TaskEvents.mk _ _ _ = TaskEvents.mk _ _ _
  exact congrArg (fun keys => TaskEvents.mk keys _ _) hitems

/-! ### Packets of the mouse -/

/-- The bytes that are from the mouse. -/
def auxBytes (port : List PortEntry) : List UInt8 :=
  (port.filter PortEntry.aux).map PortEntry.data

/-- The events of a byte stream from the mouse. A packet has three bytes, and bit 3 is set in the
first one; a byte without it is skipped where a packet should begin. Packets with an overflow bit
give no event. -/
def packets : List UInt8 → List MouseEvent
  | flags :: rawX :: rawY :: rest =>
    if flags &&& 0x08 = 0 then packets (rawX :: rawY :: rest)
    else
      (if flags &&& 0xC0 = 0 then [packetEvent flags rawX rawY] else []) ++ packets rest
  | _ => []

/-- A byte without the marker of a first byte is dropped. -/
theorem packets_skip {flags : UInt8} (h : flags &&& 0x08 = 0) (bytes : List UInt8) :
    packets (flags :: bytes) = packets bytes := by
  rcases bytes with _ | ⟨rawX, _ | ⟨rawY, rest⟩⟩
  · rfl
  · rfl
  · rw [packets, if_pos h]

namespace MouseAssembler

/-- A list of bytes, one after the other. -/
def feedAll (a : MouseAssembler) : List UInt8 → MouseAssembler × List MouseEvent
  | [] => (a, [])
  | b :: bs => (((a.feed b).1.feedAll bs).1, (a.feed b).2.toList ++ ((a.feed b).1.feedAll bs).2)

/-- One byte more: what is pending and what comes out make up the same packets. -/
theorem feed_packets (a : MouseAssembler) (b : UInt8) (bytes : List UInt8) :
    packets (a.pending ++ b :: bytes)
      = (a.feed b).2.toList ++ packets ((a.feed b).1.pending ++ bytes) := by
  by_cases hzero : a.phase = 0
  · by_cases hsync : b &&& 0x08 = 0
    · -- Out of sync: the byte is skipped, and nothing changes.
      have hfeed : a.feed b = (a, none) := by
        rw [feed, dif_pos hzero, dif_pos hsync]
      rw [hfeed, pending_zero hzero, List.nil_append, packets_skip hsync]
      rfl
    · have hfeed : (a.feed b).2 = none ∧ (a.feed b).1.phase = 1 ∧ (a.feed b).1.buf[0] = b := by
        rw [feed, dif_pos hzero, dif_neg hsync]
        exact ⟨rfl, rfl, by simp⟩
      rw [hfeed.1, pending_one hfeed.2.1, hfeed.2.2, pending_zero hzero]
      rfl
  · by_cases hone : a.phase = 1
    · have hfeed : (a.feed b).2 = none ∧ (a.feed b).1.phase = 2 ∧
          (a.feed b).1.buf[0] = a.buf[0] ∧ (a.feed b).1.buf[1] = b := by
        rw [feed, dif_neg hzero, if_pos hone]
        exact ⟨rfl, rfl, by simp, by simp⟩
      rw [hfeed.1, pending_two hfeed.2.1, hfeed.2.2.1, hfeed.2.2.2, pending_one hone]
      rfl
    · -- The third byte completes the packet.
      have htwo : a.phase = 2 := by omega
      have hfeed : (a.feed b).1.phase = 0 ∧ (a.feed b).2
          = if a.buf[0] &&& 0xC0 ≠ 0 then none else some (packetEvent a.buf[0] a.buf[1] b) := by
        rw [feed, dif_neg hzero, if_neg hone]
        exact ⟨rfl, by simp⟩
      rw [pending_zero hfeed.1, pending_two htwo, hfeed.2, List.nil_append]
      show packets (a.buf[0] :: a.buf[1] :: b :: bytes) = _
      rw [packets, if_neg (a.synced hzero)]
      by_cases hoverflow : a.buf[0] &&& 0xC0 = 0
      · rw [if_pos hoverflow, if_neg (by simpa using hoverflow)]
        rfl
      · rw [if_neg hoverflow, if_pos hoverflow]
        rfl

/-- The assembler gives the packets of its bytes, with what was pending in front of them. -/
theorem feedAll_eq (a : MouseAssembler) (bytes : List UInt8) :
    (a.feedAll bytes).2 = packets (a.pending ++ bytes) := by
  induction bytes generalizing a with
  | nil =>
    have hshort : a.pending.length < 3 := by
      have hphase := a.phase.isLt
      show (a.buf.toList.take a.phase).length < 3
      rw [List.length_take]
      omega
    rw [List.append_nil]
    rcases hpending : a.pending with _ | ⟨flags, _ | ⟨rawX, _ | ⟨rawY, rest⟩⟩⟩
    · rfl
    · rfl
    · rfl
    · rw [hpending] at hshort
      simp only [List.length_cons] at hshort
      omega
  | cons b bytes ih =>
    rw [feed_packets, ← ih]
    rfl

/-- Feeding the assembler in two parts. -/
theorem feedAll_append (a : MouseAssembler) (bytes₁ bytes₂ : List UInt8) :
    a.feedAll (bytes₁ ++ bytes₂)
      = (((a.feedAll bytes₁).1.feedAll bytes₂).1,
        (a.feedAll bytes₁).2 ++ ((a.feedAll bytes₁).1.feedAll bytes₂).2) := by
  induction bytes₁ generalizing a with
  | nil => rfl
  | cons b bytes₁ ih =>
    rw [List.cons_append, feedAll, ih, feedAll]
    dsimp only
    rw [List.append_assoc]

end MouseAssembler

/-! ### What the readers pump -/

section Pump

variable {Q : Type → Nat → Type} [DroppingQueue Q]

/-- From `s` with the port `port` to `s'`, a front part of the port is taken. Its bytes from the
mouse go through the assembler, and what the assembler gives goes to the queue. -/
def Pumps (port : List PortEntry) (s s' : Ps2 Q) : Prop :=
  ∃ taken, port = taken ++ s'.port ∧
    s'.assembler = (s.assembler.feedAll (auxBytes taken)).1 ∧
    s'.queue = (s.assembler.feedAll (auxBytes taken)).2.foldl DroppingQueue.push s.queue

/-- Nothing is pumped. -/
theorem Pumps.refl {s : Ps2 Q} (s' : Ps2 Q) (hassembler : s'.assembler = s.assembler)
    (hqueue : s'.queue = s.queue) : Pumps s'.port s s' :=
  ⟨[], rfl, hassembler, hqueue⟩

/-- A keyboard byte in front. -/
theorem Pumps.keyboard {port : List PortEntry} {s s' t : Ps2 Q} {e : PortEntry}
    (haux : ¬ e.aux = true) (hassembler : s'.assembler = s.assembler)
    (hqueue : s'.queue = s.queue) (h : Pumps port s' t) : Pumps (e :: port) s t := by
  obtain ⟨taken, hport, hfed, hevents⟩ := h
  have hbytes : auxBytes (e :: taken) = auxBytes taken := by simp [auxBytes, haux]
  rw [hassembler] at hfed hevents
  refine ⟨e :: taken, congrArg (e :: ·) hport, ?_, ?_⟩
  · rw [hbytes, hfed]
  · rw [hbytes, hevents, hqueue]

/-- A byte from the mouse in front. -/
theorem Pumps.mouse {port : List PortEntry} {s t : Ps2 Q} {e : PortEntry} (haux : e.aux = true)
    (h : Pumps port (ps2PumpMouseByte s e.data) t) : Pumps (e :: port) s t := by
  obtain ⟨taken, hport, hfed, hevents⟩ := h
  have hbytes : auxBytes (e :: taken) = e.data :: auxBytes taken := by simp [auxBytes, haux]
  have hpump : (ps2PumpMouseByte s e.data).assembler = (s.assembler.feed e.data).1 ∧
      (ps2PumpMouseByte s e.data).queue
        = (s.assembler.feed e.data).2.toList.foldl DroppingQueue.push s.queue := by
    unfold ps2PumpMouseByte
    rcases s.assembler.feed e.data with ⟨a, _ | ev⟩
    · exact ⟨rfl, rfl⟩
    · exact ⟨rfl, rfl⟩
  rw [hpump.1] at hfed hevents
  refine ⟨e :: taken, congrArg (e :: ·) hport, ?_, ?_⟩
  · rw [hbytes, hfed]
    rfl
  · rw [hbytes, hevents, hpump.2, ← List.foldl_append]
    rfl

/-- Both readers of the keyboard. -/
theorem drainPort_pumps {ρ : Type} (body : KeyState → UInt8 → KeyState × Option ρ) (s : Ps2 Q)
    (port : List PortEntry) : Pumps port s (drainPort body s port).2 := by
  induction port generalizing s with
  | nil => exact Pumps.refl { s with port := [] } rfl rfl
  | cons e port ih =>
    unfold drainPort
    by_cases haux : e.aux = true
    · rw [if_pos haux]
      exact (ih (ps2PumpMouseByte s e.data)).mouse haux
    · rw [if_neg haux]
      rcases body s.keys e.data with ⟨k, _ | out⟩
      · exact (ih { s with keys := k }).keyboard haux rfl rfl
      · exact Pumps.keyboard haux rfl rfl
          (Pumps.refl ({ s with keys := k, port := port }) rfl rfl)

/-- The mouse bytes of the port are pumped in their order. By induction on the port. -/
theorem drainAux_pumps (s : Ps2 Q) (port : List PortEntry) : Pumps port s (drainAux s port) := by
  induction port generalizing s with
  | nil => exact Pumps.refl { s with port := [] } rfl rfl
  | cons e port ih =>
    unfold drainAux
    by_cases haux : e.aux = true
    · rw [if_pos haux]
      exact (ih (ps2PumpMouseByte s e.data)).mouse haux
    · rw [if_neg haux]
      exact Pumps.refl ({ s with port := e :: port }) rfl rfl

end Pump

end VKernel.Input

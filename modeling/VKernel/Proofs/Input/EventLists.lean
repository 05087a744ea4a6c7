import VKernel.Proofs.Input.EventQueues

/-!
# `VKernel.Proofs.Input.EventLists`: sends append, polls take the oldest event

The rings of the source do to their events what `EventLists` says (`step_lists`): a ring that gets
an event acts as `sendEvent`, and a ring that is polled gives its first event away. For the global
mouse queue the events of a step are what the assembler makes of the bytes that the step takes, so
over a run they are the `packets` of all the bytes taken.
-/

set_option autoImplicit false

namespace VKernel.Input

open VKernel.Lib VKernel.Process

/-! ### One ring -/

section Ring

variable {α : Type} {n : Nat}

/-- A push is a send. -/
theorem push_events (hn : 2 ≤ n) (q : DroppingRing α n) (ev : α) :
    (DroppingQueue.push q ev).held.items = sendEvent n q.held.items ev := by
  have hbound := q.held.bounded
  have hpush : (DroppingQueue.push q ev).held = q.held.push ev := q.held_push ev
  rw [hpush]
  unfold BoundedFifo.push sendEvent
  by_cases hroom : q.held.items.length + 1 < n
  · rw [dif_pos hroom, if_neg (by omega)]
  · rw [dif_neg hroom, if_pos (by omega)]
    exact List.tail_append_of_ne_nil (fun h => by
      rw [h, List.length_nil] at hroom
      omega)

/-- Several pushes. -/
theorem pushes_events (hn : 2 ≤ n) (sent : List α) (q : DroppingRing α n) :
    (sent.foldl DroppingQueue.push q).held.items = sent.foldl (sendEvent n) q.held.items := by
  induction sent generalizing q with
  | nil => rfl
  | cons ev sent ih => rw [List.foldl_cons, ih, push_events hn, List.foldl_cons]

/-- A pop takes the oldest event. -/
theorem pop_events (q : DroppingRing α n) :
    (DroppingQueue.pop q).1 = q.held.items.head? ∧
      (DroppingQueue.pop q).2.held.items = q.held.items.tail :=
  ⟨q.held_pop.1, congrArg BoundedFifo.items q.held_pop.2⟩

end Ring

/-! ### The events of a state -/

section Events

variable (s : EventSystem DroppingRing)

theorem events_update (t : Nat) (ctx : Option (ProcessTaskContext DroppingRing)) :
    EventSystem.events { s with contexts := Function.update s.contexts t ctx }
      = Function.update s.events t (ctx.map ProcessTaskContext.events) :=
  Function.comp_update (Option.map ProcessTaskContext.events) s.contexts t ctx

variable {s} {t : Nat}

theorem events_some {ctx : ProcessTaskContext DroppingRing} (h : s.contexts t = some ctx) :
    s.events t = some ctx.events := congrArg (Option.map ProcessTaskContext.events) h

theorem events_none (h : s.contexts t = none) : s.events t = none :=
  congrArg (Option.map ProcessTaskContext.events) h

theorem changed_some {ctx : ProcessTaskContext DroppingRing} (h : s.contexts t = some ctx)
    (f : TaskEvents → TaskEvents) :
    s.changed t f = Function.update s.events t (some (f ctx.events)) := by
  rw [EventSystem.changed, events_some h, Option.map_some]

/-- Without a process nothing changes. -/
theorem changed_none (h : s.contexts t = none) (f : TaskEvents → TaskEvents) :
    s.changed t f = s.events := by
  rw [EventSystem.changed, events_none h, Option.map_none, ← events_none h,
    Function.update_eq_self]

/-- A new context in the place of another one. -/
theorem events_setContext {ctx ctx' : ProcessTaskContext DroppingRing} (h : s.contexts t = some ctx)
    {f : TaskEvents → TaskEvents} (hf : ctx'.events = f ctx.events) :
    (s.setContext t ctx').events = s.changed t f := by
  rw [changed_some h, ← hf]
  exact events_update s t (some ctx')

/-- A new process has no events. -/
theorem events_start (interface : ConsoleInterface) (fb : FbOverride) :
    (ProcessTaskContext.start interface fb).events = ⟨[], [], []⟩ := by
  show TaskEvents.mk (DroppingRing.empty _ _).held.items (DroppingRing.empty _ _).held.items
    (DroppingRing.empty _ _).held.items = _
  rw [DroppingRing.held_empty, DroppingRing.held_empty, DroppingRing.held_empty]
  rfl

/-- A change that keeps what is there. -/
theorem changed_self {ctx : ProcessTaskContext DroppingRing} (h : s.contexts t = some ctx)
    {f : TaskEvents → TaskEvents} (hf : f ctx.events = ctx.events) : s.changed t f = s.events := by
  rw [changed_some h, hf, ← events_some h, Function.update_eq_self]

end Events

/-! ### One call -/

/-- A step does what it should, with the events that the assembler makes of the bytes which the step
takes. -/
def StepLists (s : EventSystem DroppingRing) (op : EventOp) : Prop :=
  ∃ taken, s.ps2.port ++ op.arrived = taken ++ (s.step op).2.ps2.port ∧
    (s.step op).2.ps2.assembler = (s.ps2.assembler.feedAll (auxBytes taken)).1 ∧
    StepsAsLists s op (s.ps2.assembler.feedAll (auxBytes taken)).2

section Calls

variable {s : EventSystem DroppingRing} {op : EventOp}

/-- A step that polls no mouse. -/
theorem StepLists.of_pumps (hpumps : Pumps (s.ps2.port ++ op.arrived) s.ps2 (s.step op).2.ps2)
    (hpolls : s.pollsMouse op = false) (hreturns : ∀ sent, (s.step op).1 = s.returns sent op)
    (hevents : (s.step op).2.events = s.eventsAfter op) : StepLists s op := by
  obtain ⟨taken, hport, hfed, hqueue⟩ := hpumps
  refine ⟨taken, hport, hfed, hreturns _, hevents, ?_⟩
  rw [EventSystem.mouseAfter, hpolls, if_neg (by decide), EventSystem.mouseSent,
    EventSystem.mouseEvents, hqueue]
  exact pushes_events (by decide) _ _

/-- A step that leaves the hardware alone. -/
theorem StepLists.of_same (hps2 : (s.step op).2.ps2 = s.ps2) (harrived : op.arrived = [])
    (hpolls : s.pollsMouse op = false) (hreturns : ∀ sent, (s.step op).1 = s.returns sent op)
    (hevents : (s.step op).2.events = s.eventsAfter op) : StepLists s op := by
  refine .of_pumps ?_ hpolls hreturns hevents
  rw [hps2, harrived, List.append_nil]
  exact Pumps.refl s.ps2 rfl rfl

attribute [local simp] EventSystem.returns EventSystem.eventsAfter

variable (s)

theorem sendKey_lists (t : Nat) (ev : Option KeyEvent) : StepLists s (.sendKey t ev) := by
  cases ev with
  | none => exact .of_same rfl rfl rfl (fun _ => rfl) rfl
  | some ev =>
    cases hctx : s.contexts t with
    | none =>
      have hstep : s.step (.sendKey t (some ev)) = (.status false, s) := by
        simp only [EventSystem.step, stubSendKey, hctx]
      refine .of_same (by rw [hstep]) rfl rfl (fun _ => ?_) ?_
      · rw [hstep, EventSystem.returns, hctx]
        rfl
      · rw [hstep]
        exact (changed_none hctx _).symm
    | some target =>
      have hstep : s.step (.sendKey t (some ev)) = (.status true, s.setContext t
          { target with keyQueue := DroppingQueue.push target.keyQueue ev }) := by
        simp only [EventSystem.step, stubSendKey, hctx]
      refine .of_same (by rw [hstep]; rfl) rfl rfl (fun _ => ?_) ?_
      · rw [hstep, EventSystem.returns, hctx]
        rfl
      · rw [hstep]
        exact events_setContext hctx (congrArg (fun keys => TaskEvents.mk keys _ _)
          (push_events (by decide) target.keyQueue ev))

theorem sendMouse_lists (t : Nat) (ev : Option MouseEvent) : StepLists s (.sendMouse t ev) := by
  cases ev with
  | none => exact .of_same rfl rfl rfl (fun _ => rfl) rfl
  | some ev =>
    cases hctx : s.contexts t with
    | none =>
      have hstep : s.step (.sendMouse t (some ev)) = (.status false, s) := by
        simp only [EventSystem.step, stubSendMouse, hctx]
      refine .of_same (by rw [hstep]) rfl rfl (fun _ => ?_) ?_
      · rw [hstep, EventSystem.returns, hctx]
        rfl
      · rw [hstep]
        exact (changed_none hctx _).symm
    | some target =>
      have hstep : s.step (.sendMouse t (some ev)) = (.status true, s.setContext t
          { target with mouseQueue := DroppingQueue.push target.mouseQueue ev }) := by
        simp only [EventSystem.step, stubSendMouse, hctx]
      refine .of_same (by rw [hstep]; rfl) rfl rfl (fun _ => ?_) ?_
      · rw [hstep, EventSystem.returns, hctx]
        rfl
      · rw [hstep]
        exact events_setContext hctx (congrArg (fun mouse => TaskEvents.mk _ mouse _)
          (push_events (by decide) target.mouseQueue ev))

theorem setTaskFramebuffer_lists (t : Nat) (fb blocked : Bool)
    (remap : FbOverride → Bool × FbOverride) :
    StepLists s (.setTaskFramebuffer t fb blocked remap) := by
  by_cases hguard : (!fb || !blocked) = true
  · -- A null pointer, or a task that still runs.
    have hresizes : s.resizes t fb blocked remap = false := by
      cases fb with
      | false => rfl
      | true =>
        cases blocked with
        | false => rfl
        | true => cases hguard
    have hstep : s.step (.setTaskFramebuffer t fb blocked remap) = (.status false, s) := by
      simp only [EventSystem.step, stubSetTaskFramebuffer, if_pos hguard]
    refine .of_same (by rw [hstep]) rfl rfl (fun _ => ?_) ?_
    · rw [hstep, EventSystem.returns, hresizes]
    · rw [hstep, EventSystem.eventsAfter, EventSystem.resizedEvent, hresizes]
      rfl
  have hgiven : (fb && blocked) = true := by
    cases fb with
    | false => exact absurd rfl hguard
    | true =>
      cases blocked with
      | false => exact absurd rfl hguard
      | true => rfl
  cases hctx : s.contexts t with
  | none =>
    have hresizes : s.resizes t fb blocked remap = false := by
      rw [EventSystem.resizes, hgiven, hctx]
      rfl
    have hstep : s.step (.setTaskFramebuffer t fb blocked remap) = (.status false, s) := by
      simp only [EventSystem.step, stubSetTaskFramebuffer, if_neg hguard, hctx]
    refine .of_same (by rw [hstep]) rfl rfl (fun _ => ?_) ?_
    · rw [hstep, EventSystem.returns, hresizes]
    · rw [hstep, EventSystem.eventsAfter, EventSystem.resizedEvent, hresizes]
      rfl
  | some target =>
    have hresizes : s.resizes t fb blocked remap
        = ((remap target.fb).1 && (remap target.fb).2.valid) := by
      rw [EventSystem.resizes, hgiven, hctx]
      rfl
    -- Another surface changes no queue.
    have hkeeps : (s.setContext t { target with fb := (remap target.fb).2 }).events = s.events := by
      refine (events_setContext (f := id) hctx ?_).trans (changed_self hctx rfl)
      rfl
    by_cases hok : ((remap target.fb).1 && (remap target.fb).2.valid) = true
    · obtain ⟨hremap, hvalid⟩ := (Bool.and_eq_true _ _).mp hok
      have hstep : s.step (.setTaskFramebuffer t fb blocked remap) = (.status true,
          s.setContext t (enqueueFramebufferEvent { target with fb := (remap target.fb).2 }
            VK_FRAMEBUFFER_EVENT_RESIZED (remap target.fb).2.override)) := by
        simp only [EventSystem.step, stubSetTaskFramebuffer, if_neg hguard, hctx, hremap, hvalid,
          Bool.not_true, Bool.false_eq_true, if_false, if_true]
      refine .of_same (by rw [hstep]; rfl) rfl rfl (fun _ => ?_) ?_
      · rw [hstep, EventSystem.returns, hresizes, hok]
      · rw [hstep, EventSystem.eventsAfter, EventSystem.resizedEvent, hresizes, hok, if_pos rfl,
          hctx]
        by_cases henabled : target.framebufferResizeEventsEnabled = true
        · have hqueue : enqueueFramebufferEvent { target with fb := (remap target.fb).2 }
              VK_FRAMEBUFFER_EVENT_RESIZED (remap target.fb).2.override = _ :=
            if_neg (show ¬ (!target.framebufferResizeEventsEnabled) = true by simp [henabled])
          rw [Option.filter_some_pos henabled, Option.map_some, hqueue]
          exact events_setContext hctx (congrArg (fun framebuffer => TaskEvents.mk _ _ framebuffer)
            (push_events (by decide) target.framebufferEventQueue _))
        · have hqueue : enqueueFramebufferEvent { target with fb := (remap target.fb).2 }
              VK_FRAMEBUFFER_EVENT_RESIZED (remap target.fb).2.override = _ :=
            if_pos (show (!target.framebufferResizeEventsEnabled) = true by simp [henabled])
          rw [Option.filter_some_neg (Bool.eq_false_of_not_eq_true henabled), Option.map_none,
            hqueue]
          exact hkeeps
    · have hstep : s.step (.setTaskFramebuffer t fb blocked remap) = (.status false,
          s.setContext t { target with fb := (remap target.fb).2 }) := by
        simp only [EventSystem.step, stubSetTaskFramebuffer, if_neg hguard, hctx]
        cases hremap : (remap target.fb).1 with
        | false => rfl
        | true =>
          rw [hremap, Bool.true_and] at hok
          simp only [hok, Bool.not_true, Bool.false_eq_true, if_false]
      refine .of_same (by rw [hstep]; rfl) rfl rfl (fun _ => ?_) ?_
      · rw [hstep, EventSystem.returns, hresizes, Bool.eq_false_of_not_eq_true hok]
      · rw [hstep, EventSystem.eventsAfter, EventSystem.resizedEvent, hresizes, if_neg hok]
        exact hkeeps

/-- What a poll of the current process finds. -/
theorem ownEvents_of (s : EventSystem DroppingRing) {ctx : Option (ProcessTaskContext DroppingRing)}
    (h : s.contexts s.current = ctx) :
    s.ownEvents = ctx.map ProcessTaskContext.events ∧
      s.hasSurface = ctx.any (fun ctx => ctx.fb.valid) ∧
      s.getsFramebufferEvents = ctx.any fun ctx => ctx.framebufferResizeEventsEnabled := by
  subst h
  exact ⟨rfl, rfl, rfl⟩

/-- The check in front of a poll. -/
theorem polls_eq (out : Bool) : s.polls out = !(!out || !shouldUseFramebuffer s) := by
  rw [EventSystem.polls, Bool.not_or, Bool.not_not, Bool.not_not]

theorem pollKey_lists (out : Bool) : StepLists s (.pollKey out) := by
  by_cases hguard : (!out || !shouldUseFramebuffer s) = true
  · have hpolls : s.polls out = false := by rw [polls_eq, hguard]; rfl
    have hstep : s.step (.pollKey out) = (.key none, s) := by
      simp only [EventSystem.step, routePollKey, if_pos hguard]
    refine .of_same (by rw [hstep]) rfl rfl (fun _ => ?_) ?_
    · rw [hstep, EventSystem.returns, hpolls]
      rfl
    · rw [hstep, EventSystem.eventsAfter, hpolls]
      rfl
  have hpolls : s.polls out = true := by
    rw [polls_eq, Bool.eq_false_of_not_eq_true hguard]
    rfl
  -- The keyboard behind the queue.
  have hfallback : ∀ hstep : s.step (.pollKey out)
      = (.key (ps2TryReadRaw s.ps2).1, { s with ps2 := (ps2TryReadRaw s.ps2).2 }),
      (s.ownEvents.bind fun own => own.keys.head?) = none → s.hasSurface = false →
      s.changed s.current (fun q => { q with keys := q.keys.tail }) = s.events →
      StepLists s (.pollKey out) := by
    intro hstep hown hsurface hchanged
    refine .of_pumps ?_ rfl (fun _ => ?_) ?_
    · rw [hstep, show (EventOp.pollKey out).arrived = [] from rfl, List.append_nil]
      exact drainPort_pumps KeyState.readRaw s.ps2 s.ps2.port
    · rw [hstep, EventSystem.returns, hpolls, hown, hsurface]
      rfl
    · rw [hstep, EventSystem.eventsAfter, hpolls, if_pos rfl, hchanged]
      rfl
  cases hctx : s.contexts s.current with
  | none =>
    obtain ⟨hown, hsurface, -⟩ := ownEvents_of s hctx
    refine hfallback ?_ (by rw [hown]; rfl) hsurface (changed_none hctx _)
    simp only [EventSystem.step, routePollKey, if_neg hguard, hctx]
  | some ctx =>
    obtain ⟨hown, hsurface, -⟩ := ownEvents_of s hctx
    obtain ⟨hhead, htail⟩ := pop_events ctx.keyQueue
    rcases hpop : DroppingQueue.pop ctx.keyQueue with ⟨_ | ev, queue⟩
    · -- The queue is empty.
      rw [hpop] at hhead
      have hnil : ctx.events.keys = [] := List.head?_eq_none_iff.mp hhead.symm
      have hchanged : s.changed s.current (fun q => { q with keys := q.keys.tail }) = s.events := by
        refine changed_self hctx ?_
        rw [hnil, List.tail_nil, ← hnil]
      have hnone : (s.ownEvents.bind fun own => own.keys.head?) = none := by
        rw [hown]
        exact hhead.symm
      by_cases hfb : ctx.fb.valid = true
      · have hstep : s.step (.pollKey out) = (.key none, s) := by
          simp only [EventSystem.step, routePollKey, if_neg hguard, hctx, hpop, if_pos hfb]
        refine .of_same (by rw [hstep]) rfl rfl (fun _ => ?_) ?_
        · rw [hstep, EventSystem.returns, hpolls, hnone, hsurface, Option.any_some, hfb]
          rfl
        · rw [hstep, EventSystem.eventsAfter, hpolls, if_pos rfl, hchanged]
      · refine hfallback ?_ hnone (hsurface.trans (Bool.eq_false_of_not_eq_true hfb)) hchanged
        simp only [EventSystem.step, routePollKey, if_neg hguard, hctx, hpop, if_neg hfb]
    · rw [hpop] at hhead htail
      have hstep : s.step (.pollKey out)
          = (.key (some ev), s.setContext s.current { ctx with keyQueue := queue }) := by
        simp only [EventSystem.step, routePollKey, if_neg hguard, hctx, hpop]
      refine .of_same (by rw [hstep]; rfl) rfl rfl (fun _ => ?_) ?_
      · rw [hstep, EventSystem.returns, hpolls, hown, Option.map_some, Option.bind_some,
          show ctx.events.keys.head? = some ev from hhead.symm]
        rfl
      · rw [hstep, EventSystem.eventsAfter, hpolls, if_pos rfl]
        exact events_setContext hctx (congrArg (fun keys => TaskEvents.mk keys _ _) htail)

/-- The global mouse queue behind the own one: what the port has from the mouse is pumped, and the
oldest event is taken. -/
theorem pollMouse_fallback {out : Bool} (hpolls : s.polls out = true)
    (hsurface : s.hasSurface = false)
    (hempty : (s.ownEvents.all fun own => own.mouse.isEmpty) = true)
    (hown : (s.ownEvents.bind fun own => own.mouse.head?) = none)
    (hchanged : s.changed s.current (fun q => { q with mouse := q.mouse.tail }) = s.events)
    (hstep : s.step (.pollMouse out)
      = (.mouse (pollMouse s.ps2).1, { s with ps2 := (pollMouse s.ps2).2 })) :
    StepLists s (.pollMouse out) := by
  have hmouse : s.pollsMouse (.pollMouse out) = s.ps2.ready := by
    rw [EventSystem.pollsMouse, hpolls, hsurface, hempty]
    rfl
  have hevents : (s.step (.pollMouse out)).2.events = s.eventsAfter (.pollMouse out) := by
    rw [hstep, EventSystem.eventsAfter, hpolls, if_pos rfl, hchanged]
    rfl
  cases hready : s.ps2.ready with
  | false =>
    have hpoll : pollMouse s.ps2 = (none, s.ps2) := by
      rw [pollMouse, hready]
      rfl
    rw [hready] at hmouse
    refine .of_same (by rw [hstep, hpoll]) rfl hmouse (fun _ => ?_) hevents
    rw [hstep, hpoll, EventSystem.returns, hmouse, hpolls, hown]
    rfl
  | true =>
    have hpoll : pollMouse s.ps2 = mouseQPop (drainAux s.ps2 s.ps2.port) := by
      rw [pollMouse, hready]
      rfl
    rw [hready] at hmouse
    obtain ⟨taken, hport, hfed, hqueue⟩ := drainAux_pumps s.ps2 s.ps2.port
    obtain ⟨hhead, htail⟩ := pop_events (drainAux s.ps2 s.ps2.port).queue
    have hsent : (drainAux s.ps2 s.ps2.port).queue.held.items
        = s.mouseSent (s.ps2.assembler.feedAll (auxBytes taken)).2 := by
      rw [hqueue]
      exact pushes_events (by decide) _ _
    rw [hsent] at hhead htail
    refine ⟨taken, ?_, ?_, ?_, hevents, ?_⟩
    · rw [hstep, hpoll, show (EventOp.pollMouse out).arrived = [] from rfl, List.append_nil]
      exact hport
    · rw [hstep, hpoll]
      exact hfed
    · rw [hstep, hpoll, EventSystem.returns, hmouse, if_pos rfl]
      exact congrArg EventResult.mouse hhead
    · rw [hstep, hpoll, EventSystem.mouseAfter, hmouse, if_pos rfl]
      exact htail

theorem pollMouse_lists (out : Bool) : StepLists s (.pollMouse out) := by
  by_cases hguard : (!out || !shouldUseFramebuffer s) = true
  · have hpolls : s.polls out = false := by rw [polls_eq, hguard]; rfl
    have hmouse : s.pollsMouse (.pollMouse out) = false := by
      rw [EventSystem.pollsMouse, hpolls]
      rfl
    have hstep : s.step (.pollMouse out) = (.mouse none, s) := by
      simp only [EventSystem.step, stubPollMouse, if_pos hguard]
    refine .of_same (by rw [hstep]) rfl hmouse (fun _ => ?_) ?_
    · rw [hstep, EventSystem.returns, hmouse, hpolls]
      rfl
    · rw [hstep, EventSystem.eventsAfter, hpolls]
      rfl
  have hpolls : s.polls out = true := by
    rw [polls_eq, Bool.eq_false_of_not_eq_true hguard]
    rfl
  cases hctx : s.contexts s.current with
  | none =>
    obtain ⟨hown, hsurface, -⟩ := ownEvents_of s hctx
    refine pollMouse_fallback s hpolls hsurface (by rw [hown]; rfl) (by rw [hown]; rfl)
      (changed_none hctx _) ?_
    simp only [EventSystem.step, stubPollMouse, if_neg hguard, hctx]
  | some ctx =>
    obtain ⟨hown, hsurface, -⟩ := ownEvents_of s hctx
    obtain ⟨hhead, htail⟩ := pop_events ctx.mouseQueue
    rcases hpop : DroppingQueue.pop ctx.mouseQueue with ⟨_ | ev, queue⟩
    · -- The queue is empty.
      rw [hpop] at hhead
      have hnil : ctx.events.mouse = [] := List.head?_eq_none_iff.mp hhead.symm
      have hchanged : s.changed s.current (fun q => { q with mouse := q.mouse.tail }) =
          s.events := by
        refine changed_self hctx ?_
        rw [hnil, List.tail_nil, ← hnil]
      have hnone : (s.ownEvents.bind fun own => own.mouse.head?) = none := by
        rw [hown]
        exact hhead.symm
      by_cases hfb : ctx.fb.valid = true
      · have hstep : s.step (.pollMouse out) = (.mouse none, s) := by
          simp only [EventSystem.step, stubPollMouse, if_neg hguard, hctx, hpop, if_pos hfb]
        have hmouse : s.pollsMouse (.pollMouse out) = false := by
          rw [EventSystem.pollsMouse, hpolls, hsurface, Option.any_some, hfb]
          rfl
        refine .of_same (by rw [hstep]) rfl hmouse (fun _ => ?_) ?_
        · rw [hstep, EventSystem.returns, hmouse, hpolls, hnone]
          rfl
        · rw [hstep, EventSystem.eventsAfter, hpolls, if_pos rfl, hchanged]
      · refine pollMouse_fallback s hpolls (hsurface.trans (Bool.eq_false_of_not_eq_true hfb)) ?_
          hnone hchanged ?_
        · rw [hown, Option.map_some, Option.all_some, hnil]
          rfl
        · simp only [EventSystem.step, stubPollMouse, if_neg hguard, hctx, hpop, if_neg hfb]
    · rw [hpop] at hhead htail
      have hstep : s.step (.pollMouse out)
          = (.mouse (some ev), s.setContext s.current { ctx with mouseQueue := queue }) := by
        simp only [EventSystem.step, stubPollMouse, if_neg hguard, hctx, hpop]
      have hfirst : ctx.events.mouse.head? = some ev := hhead.symm
      have hmouse : s.pollsMouse (.pollMouse out) = false := by
        have hfull : ctx.events.mouse.isEmpty = false := by
          cases hitems : ctx.events.mouse with
          | nil =>
            rw [hitems] at hfirst
            cases hfirst
          | cons first rest => rfl
        rw [EventSystem.pollsMouse, hown, Option.map_some, Option.all_some, hfull, Bool.and_false,
          Bool.false_and]
      refine .of_same (by rw [hstep]; rfl) rfl hmouse (fun _ => ?_) ?_
      · rw [hstep, EventSystem.returns, hmouse, hpolls, hown, Option.map_some, Option.bind_some,
          hfirst]
        rfl
      · rw [hstep, EventSystem.eventsAfter, hpolls, if_pos rfl]
        exact events_setContext hctx (congrArg (fun mouse => TaskEvents.mk _ mouse _) htail)

theorem pollFramebufferEvent_lists (out : Bool) : StepLists s (.pollFramebufferEvent out) := by
  by_cases hguard : (!out || !shouldUseFramebuffer s) = true
  · have hpolls : s.polls out = false := by rw [polls_eq, hguard]; rfl
    have hstep : s.step (.pollFramebufferEvent out) = (.framebuffer none, s) := by
      simp only [EventSystem.step, stubPollFramebufferEvent, if_pos hguard]
    refine .of_same (by rw [hstep]) rfl rfl (fun _ => ?_) ?_
    · rw [hstep, EventSystem.returns, hpolls]
      rfl
    · rw [hstep, EventSystem.eventsAfter, hpolls]
      rfl
  have hpolls : s.polls out = true := by
    rw [polls_eq, Bool.eq_false_of_not_eq_true hguard]
    rfl
  -- Without events of its own the process gets nothing.
  have hnothing : s.getsFramebufferEvents = false →
      s.step (.pollFramebufferEvent out) = (.framebuffer none, s) →
      StepLists s (.pollFramebufferEvent out) := by
    intro hgets hstep
    refine .of_same (by rw [hstep]) rfl rfl (fun _ => ?_) ?_
    · rw [hstep, EventSystem.returns, hgets, Bool.and_false]
      rfl
    · rw [hstep, EventSystem.eventsAfter, hgets, Bool.and_false]
      rfl
  cases hctx : s.contexts s.current with
  | none =>
    obtain ⟨-, -, hgets⟩ := ownEvents_of s hctx
    refine hnothing hgets ?_
    simp only [EventSystem.step, stubPollFramebufferEvent, if_neg hguard, hctx]
  | some ctx =>
    obtain ⟨hown, -, hgets⟩ := ownEvents_of s hctx
    rw [Option.any_some] at hgets
    by_cases henabled : (!ctx.framebufferResizeEventsEnabled) = true
    · refine hnothing (hgets.trans (by simpa using henabled)) ?_
      simp only [EventSystem.step, stubPollFramebufferEvent, if_neg hguard, hctx, if_pos henabled]
    have htrue : s.getsFramebufferEvents = true := hgets.trans (by simpa using henabled)
    obtain ⟨hhead, htail⟩ := pop_events ctx.framebufferEventQueue
    rcases hpop : DroppingQueue.pop ctx.framebufferEventQueue with ⟨_ | ev, queue⟩
    · rw [hpop] at hhead
      have hnil : ctx.events.framebuffer = [] := List.head?_eq_none_iff.mp hhead.symm
      have hstep : s.step (.pollFramebufferEvent out) = (.framebuffer none, s) := by
        simp only [EventSystem.step, stubPollFramebufferEvent, if_neg hguard, hctx,
          if_neg henabled, hpop]
      refine .of_same (by rw [hstep]) rfl rfl (fun _ => ?_) ?_
      · rw [hstep, EventSystem.returns, hpolls, htrue, hown, Option.map_some, Option.bind_some,
          hnil]
        rfl
      · rw [hstep, EventSystem.eventsAfter, hpolls, htrue]
        refine (changed_self hctx ?_).symm
        rw [hnil, List.tail_nil, ← hnil]
    · rw [hpop] at hhead htail
      have hstep : s.step (.pollFramebufferEvent out) = (.framebuffer (some ev),
          s.setContext s.current { ctx with framebufferEventQueue := queue }) := by
        simp only [EventSystem.step, stubPollFramebufferEvent, if_neg hguard, hctx,
          if_neg henabled, hpop]
      refine .of_same (by rw [hstep]; rfl) rfl rfl (fun _ => ?_) ?_
      · rw [hstep, EventSystem.returns, hpolls, htrue, hown, Option.map_some, Option.bind_some,
          show ctx.events.framebuffer.head? = some ev from hhead.symm]
        rfl
      · rw [hstep, EventSystem.eventsAfter, hpolls, htrue]
        exact events_setContext hctx
          (congrArg (fun framebuffer => TaskEvents.mk _ _ framebuffer) htail)

theorem tryGetc_lists : StepLists s .tryGetc := by
  by_cases huse : shouldUseFramebuffer s = true
  · have hpolls : s.polls true = true := huse
    -- The keyboard of the machine.
    have hkeyboard : s.hasSurface = false →
        s.step .tryGetc = (.char (ps2TryRead s.ps2).1, { s with ps2 := (ps2TryRead s.ps2).2 }) →
        StepLists s .tryGetc := by
      intro hsurface hstep
      refine .of_pumps ?_ rfl (fun _ => ?_) ?_
      · rw [hstep, show EventOp.tryGetc.arrived = [] from rfl, List.append_nil]
        exact drainPort_pumps KeyState.read s.ps2 s.ps2.port
      · rw [hstep, EventSystem.returns, hpolls, hsurface]
        rfl
      · rw [hstep, EventSystem.eventsAfter, hsurface, Bool.and_false]
        rfl
    cases hctx : s.contexts s.current with
    | none =>
      obtain ⟨-, hsurface, -⟩ := ownEvents_of s hctx
      refine hkeyboard hsurface ?_
      simp only [EventSystem.step, routeTryGetc, if_pos huse, hctx]
    | some ctx =>
      obtain ⟨hown, hsurface, -⟩ := ownEvents_of s hctx
      by_cases hfb : ctx.fb.valid = true
      · have hstep : s.step .tryGetc = (.char (dequeueAsciiKey ctx).1,
            s.setContext s.current (dequeueAsciiKey ctx).2) := by
          simp only [EventSystem.step, routeTryGetc, if_pos huse, hctx, if_pos hfb]
        have hvalid : s.hasSurface = true := hsurface.trans hfb
        obtain ⟨hchar, hkeys⟩ := dequeueAsciiKey_events ctx
        refine .of_same (by rw [hstep]; rfl) rfl rfl (fun _ => ?_) ?_
        · rw [hstep, EventSystem.returns, hpolls, hvalid, hown, Option.map_some, Option.bind_some,
            hchar]
          rfl
        · rw [hstep, EventSystem.eventsAfter, hpolls, hvalid]
          exact events_setContext hctx hkeys
      · refine hkeyboard (hsurface.trans (Bool.eq_false_of_not_eq_true hfb)) ?_
        simp only [EventSystem.step, routeTryGetc, if_pos huse, hctx, if_neg hfb]
  · have hpolls : s.polls true = false := Bool.eq_false_of_not_eq_true huse
    have hstep : s.step .tryGetc
        = (.char (serialTryRead s.ps2).1, { s with ps2 := (serialTryRead s.ps2).2 }) := by
      simp only [EventSystem.step, routeTryGetc, if_neg huse]
    refine .of_pumps ?_ rfl (fun _ => ?_) ?_
    · rw [hstep, show EventOp.tryGetc.arrived = [] from rfl, List.append_nil]
      exact Pumps.refl (serialTryRead s.ps2).2 rfl rfl
    · rw [hstep, EventSystem.returns, hpolls]
      rfl
    · rw [hstep, EventSystem.eventsAfter, hpolls]
      rfl

theorem setFramebufferResizeEvents_lists (enabled : UInt32) :
    StepLists s (.setFramebufferResizeEvents enabled) := by
  cases hctx : s.contexts s.current with
  | none =>
    have hstep : s.step (.setFramebufferResizeEvents enabled) = (.status false, s) := by
      simp only [EventSystem.step, stubSetFramebufferResizeEvents, hctx]
    refine .of_same (by rw [hstep]) rfl rfl (fun _ => ?_) ?_
    · rw [hstep, EventSystem.returns, hctx]
      rfl
    · rw [hstep, EventSystem.eventsAfter, changed_none hctx, ite_self]
  | some ctx =>
    by_cases hoff : enabled = 0
    · have hstep : s.step (.setFramebufferResizeEvents enabled) = (.status true,
          s.setContext s.current { ctx with
            framebufferResizeEventsEnabled := false
            framebufferEventQueue := DroppingQueue.clear ctx.framebufferEventQueue }) := by
        rw [hoff]
        simp only [EventSystem.step, stubSetFramebufferResizeEvents, hctx]
        rfl
      refine .of_same (by rw [hstep]; rfl) rfl rfl (fun _ => ?_) ?_
      · rw [hstep, EventSystem.returns, hctx]
        rfl
      · rw [hstep, EventSystem.eventsAfter, if_pos hoff]
        exact events_setContext hctx (congrArg (fun framebuffer => TaskEvents.mk _ _ framebuffer)
          (congrArg BoundedFifo.items ctx.framebufferEventQueue.held_clear))
    · have hon : (enabled != 0) = true := bne_iff_ne.mpr hoff
      have hstep : s.step (.setFramebufferResizeEvents enabled) = (.status true,
          s.setContext s.current { ctx with framebufferResizeEventsEnabled := true }) := by
        simp only [EventSystem.step, stubSetFramebufferResizeEvents, hctx, hon, Bool.not_true,
          Bool.false_eq_true, if_false]
      refine .of_same (by rw [hstep]; rfl) rfl rfl (fun _ => ?_) ?_
      · rw [hstep, EventSystem.returns, hctx]
        rfl
      · rw [hstep, EventSystem.eventsAfter, if_neg hoff]
        refine (events_setContext (f := id) hctx ?_).trans (changed_self hctx rfl)
        rfl

/-- Every step does to the events what it should. -/
theorem step_lists (op : EventOp) : StepLists s op := by
  cases op with
  | pollKey out => exact pollKey_lists s out
  | sendKey t ev => exact sendKey_lists s t ev
  | tryGetc => exact tryGetc_lists s
  | pollMouse out => exact pollMouse_lists s out
  | sendMouse t ev => exact sendMouse_lists s t ev
  | setTaskFramebuffer t fb blocked remap => exact setTaskFramebuffer_lists s t fb blocked remap
  | pollFramebufferEvent out => exact pollFramebufferEvent_lists s out
  | setFramebufferResizeEvents enabled => exact setFramebufferResizeEvents_lists s enabled
  | arrive port serial =>
    refine .of_pumps ?_ rfl (fun _ => rfl) rfl
    exact Pumps.refl { s.ps2 with
      port := s.ps2.port ++ port, serial := s.ps2.serial ++ serial } rfl rfl
  | dispatch t => exact .of_same rfl rfl rfl (fun _ => rfl) rfl
  | consoleFramebuffer valid => exact .of_same rfl rfl rfl (fun _ => rfl) rfl
  | start t interface fb =>
    refine .of_same rfl rfl rfl (fun _ => rfl) ?_
    refine (events_update s t (some (.start interface fb))).trans ?_
    rw [Option.map_some, events_start]
    rfl
  | exit t => exact .of_same rfl rfl rfl (fun _ => rfl) (events_update s t none)

end Calls

/-! ### Runs -/

/-- Over a run, the events of the global mouse queue are the packets of the bytes taken. -/
theorem run_lists (s : EventSystem DroppingRing) (ops : List EventOp) :
    ∃ taken, s.ps2.port ++ ops.flatMap EventOp.arrived = taken ++ (s.run ops).2.ps2.port ∧
      RunsAsLists s ops (s.ps2.assembler.feedAll (auxBytes taken)).2 := by
  induction ops generalizing s with
  | nil => exact ⟨[], List.append_nil _, rfl⟩
  | cons op ops ih =>
    obtain ⟨taken₁, hport₁, hfed₁, hstep⟩ := step_lists s op
    obtain ⟨taken₂, hport₂, hrun⟩ := ih (s.step op).2
    have hbytes : auxBytes (taken₁ ++ taken₂) = auxBytes taken₁ ++ auxBytes taken₂ := by
      simp [auxBytes]
    refine ⟨taken₁ ++ taken₂, ?_, _, _, ?_, hstep, hrun⟩
    · show _ = taken₁ ++ taken₂ ++ ((s.step op).2.run ops).2.ps2.port
      rw [List.flatMap_cons, ← List.append_assoc, hport₁, List.append_assoc, hport₂,
        List.append_assoc]
    · rw [hbytes, MouseAssembler.feedAll_append, hfed₁]

/-- What a run makes of the queues:

- `results`: its calls return what they return with lists in the place of the rings;
- `held`: at the end the rings hold what the lists have;
- `lists`: every send appends its event and drops the oldest one when the queue is full, every poll
  returns the oldest event and removes it, and the global mouse queue is sent the packets of the
  bytes from the mouse, with those that were pending in front of them. -/
structure QueuesAreFifos (s : EventSystem DroppingRing) (ops : List EventOp) : Prop where
  results : (s.run ops).1 = ((s.map heldMap).run ops).1
  held : (s.run ops).2.map heldMap = ((s.map heldMap).run ops).2
  lists : ∃ taken, s.ps2.port ++ ops.flatMap EventOp.arrived = taken ++ (s.run ops).2.ps2.port ∧
    RunsAsLists s ops (packets (s.ps2.assembler.pending ++ auxBytes taken))

/-- From any state, and in any order of sends, polls and reads of the keyboard and the mouse, the
event queues are FIFO lists that drop only their oldest event, and the global mouse queue gets the
packets of the mouse. -/
theorem event_queues_are_fifos (s : EventSystem DroppingRing) (ops : List EventOp) :
    QueuesAreFifos s ops := by
  have hmap := run_map heldMap s ops
  obtain ⟨taken, hport, hlists⟩ := run_lists s ops
  rw [MouseAssembler.feedAll_eq] at hlists
  exact ⟨congrArg Prod.fst hmap.symm, congrArg Prod.snd hmap.symm, taken, hport, hlists⟩

end VKernel.Input

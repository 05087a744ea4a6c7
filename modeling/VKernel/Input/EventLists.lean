import VKernel.Input.EventRoutes

/-!
# `VKernel.Input.EventLists`: what the event queues are for

The events that the queues hold, as lists with the oldest event first, and what every call should
do with them. A send puts its event behind the others, and drops the oldest one when the queue has
no room left. A poll returns the oldest event and removes it. Nothing else happens to an event.

Who polls what is the same as in `kernel_api.cpp`: a process has its own queues and, while it has no
surface, the keyboard and the mouse of the machine behind them. The global mouse queue gets the
events that the machine's mouse has sent (`RunsAsLists`).
-/

set_option autoImplicit false

namespace VKernel.Input

open VKernel.Lib VKernel.Process

/-! ### The lists -/

/-- What a process has in its queues. -/
structure TaskEvents where
  keys : List KeyEvent
  mouse : List MouseEvent
  framebuffer : List FramebufferEvent

/-- What the rings of a context hold. -/
def ProcessTaskContext.events (ctx : ProcessTaskContext DroppingRing) : TaskEvents :=
  ⟨ctx.keyQueue.held.items, ctx.mouseQueue.held.items, ctx.framebufferEventQueue.held.items⟩

/-- A send to a queue of `n` cells, which holds `n - 1` events at most. -/
def sendEvent {α : Type} (n : Nat) (items : List α) (ev : α) : List α :=
  if items.length = n - 1 then items.tail ++ [ev] else items ++ [ev]

namespace EventSystem

variable (s : EventSystem DroppingRing)

/-- What the processes have in their queues. -/
def events (t : Nat) : Option TaskEvents := (s.contexts t).map ProcessTaskContext.events

/-- What the current process has. -/
def ownEvents : Option TaskEvents := s.events s.current

/-- What the global mouse queue holds. -/
def mouseEvents : List MouseEvent := s.ps2.queue.held.items

/-- The events when those of one process change. -/
def changed (t : Nat) (f : TaskEvents → TaskEvents) : Nat → Option TaskEvents :=
  Function.update s.events t ((s.events t).map f)

/-! ### Who polls what -/

/-- A poll looks at the queues of the current process: the pointer is not null, and the process is
on the framebuffer. -/
def polls (out : Bool) : Bool := out && shouldUseFramebuffer s

/-- The current process has a surface of its own, and nothing behind its queues. -/
def hasSurface : Bool := (s.contexts s.current).any fun ctx => ctx.fb.valid

/-- The current process gets framebuffer events. -/
def getsFramebufferEvents : Bool :=
  (s.contexts s.current).any fun ctx => ctx.framebufferResizeEventsEnabled

/-- A poll of the mouse that comes to the global queue. -/
def pollsMouse : EventOp → Bool
  | .pollMouse out =>
    s.polls out && !s.hasSurface && (s.ownEvents.all fun own => own.mouse.isEmpty) && s.ps2.ready
  | _ => false

/-- `stub_set_task_framebuffer` gets through. -/
def resizes (t : Nat) (fb blocked : Bool) (remap : FbOverride → Bool × FbOverride) : Bool :=
  fb && blocked &&
    (s.contexts t).any fun target => (remap target.fb).1 && (remap target.fb).2.valid

/-- The event that `stub_set_task_framebuffer` sends. -/
def resizedEvent (t : Nat) (fb blocked : Bool) (remap : FbOverride → Bool × FbOverride) :
    Option FramebufferEvent :=
  if s.resizes t fb blocked remap then
    ((s.contexts t).filter fun target => target.framebufferResizeEventsEnabled).map fun target =>
      ⟨VK_FRAMEBUFFER_EVENT_RESIZED, (remap target.fb).2.override⟩
  else none

/-! ### The calls -/

/-- The queues of the processes after a call. -/
def eventsAfter : EventOp → Nat → Option TaskEvents
  | .sendKey t (some ev) =>
    s.changed t fun q => { q with keys := sendEvent KEY_QUEUE_SIZE q.keys ev }
  | .sendMouse t (some ev) =>
    s.changed t fun q => { q with mouse := sendEvent TASK_MOUSE_QUEUE_SIZE q.mouse ev }
  | .setTaskFramebuffer t fb blocked remap =>
    match s.resizedEvent t fb blocked remap with
    | some ev => s.changed t fun q =>
      { q with framebuffer := sendEvent FRAMEBUFFER_EVENT_QUEUE_SIZE q.framebuffer ev }
    | none => s.events
  | .pollKey out =>
    if s.polls out then s.changed s.current fun q => { q with keys := q.keys.tail } else s.events
  | .pollMouse out =>
    if s.polls out then s.changed s.current fun q => { q with mouse := q.mouse.tail }
    else s.events
  | .pollFramebufferEvent out =>
    if s.polls out && s.getsFramebufferEvents then
      s.changed s.current fun q => { q with framebuffer := q.framebuffer.tail }
    else s.events
  | .tryGetc =>
    -- Polls until an event has a character.
    if s.polls true && s.hasSurface then s.changed s.current fun q =>
      { q with keys := (q.keys.dropWhile fun ev => asciiOfKey ev == none).tail }
    else s.events
  | .setFramebufferResizeEvents enabled =>
    if enabled = 0 then s.changed s.current fun q => { q with framebuffer := [] } else s.events
  | .start t _ _ => Function.update s.events t (some ⟨[], [], []⟩)
  | .exit t => Function.update s.events t none
  | _ => s.events

/-- The global mouse queue when `sent` has been sent to it. -/
def mouseSent (sent : List MouseEvent) : List MouseEvent :=
  sent.foldl (sendEvent MOUSE_QUEUE_SIZE) s.mouseEvents

/-- The global mouse queue after a call that takes the events `sent` from the mouse. -/
def mouseAfter (op : EventOp) (sent : List MouseEvent) : List MouseEvent :=
  if s.pollsMouse op then (s.mouseSent sent).tail else s.mouseSent sent

/-- What a call returns that takes the events `sent` from the mouse. -/
def returns (sent : List MouseEvent) : EventOp → EventResult
  | .pollKey out =>
    .key (if s.polls out then
      (s.ownEvents.bind fun own => own.keys.head?).or
        (if s.hasSurface then none else (ps2TryReadRaw s.ps2).1)
    else none)
  | .pollMouse out =>
    .mouse (if s.pollsMouse (.pollMouse out) then (s.mouseSent sent).head?
      else if s.polls out then s.ownEvents.bind fun own => own.mouse.head?
      else none)
  | .pollFramebufferEvent out =>
    .framebuffer (if s.polls out && s.getsFramebufferEvents then
      s.ownEvents.bind fun own => own.framebuffer.head?
    else none)
  | .tryGetc =>
    .char (if !s.polls true then (serialTryRead s.ps2).1
      else if s.hasSurface then
        (s.ownEvents.bind fun own => own.keys.findSome? asciiOfKey).getD 0
      else (ps2TryRead s.ps2).1)
  | .sendKey t ev => .status (ev.isSome && (s.contexts t).isSome)
  | .sendMouse t ev => .status (ev.isSome && (s.contexts t).isSome)
  | .setTaskFramebuffer t fb blocked remap => .status (s.resizes t fb blocked remap)
  | .setFramebufferResizeEvents _ => .status (s.contexts s.current).isSome
  | _ => .nothing

end EventSystem

/-- What arrives at the controller in front of a step. -/
def EventOp.arrived : EventOp → List PortEntry
  | .arrive port _ => port
  | _ => []

/-- A call does what it should, with `sent` for the events that it takes from the mouse. -/
structure StepsAsLists (s : EventSystem DroppingRing) (op : EventOp) (sent : List MouseEvent) :
    Prop where
  returns : (s.step op).1 = s.returns sent op
  events : (s.step op).2.events = s.eventsAfter op
  mouse : (s.step op).2.mouseEvents = s.mouseAfter op sent

/-- So do all calls of a run. `sent` is what is sent to the global mouse queue, in order. -/
def RunsAsLists : EventSystem DroppingRing → List EventOp → List MouseEvent → Prop
  | _, [], sent => sent = []
  | s, op :: ops, sent => ∃ now later, sent = now ++ later ∧ StepsAsLists s op now ∧
      RunsAsLists (s.step op).2 ops later

end VKernel.Input

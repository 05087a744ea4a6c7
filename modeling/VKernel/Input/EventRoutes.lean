import Mathlib.Logic.Function.Basic
import VKernel.Input.Ps2
import VKernel.Process.SharedWindow

/-!
# `VKernel.Input.EventRoutes`: the event queues of processes in `kernel_api.cpp`

A process has a queue for keys, one for mouse events and one for framebuffer events. Other tasks
send to them; the process itself polls, and falls back on the keyboard and the mouse of the machine
while it has no surface of its own. `EventSystem` holds the contexts by task number, the current
task and the input hardware.

The functions are written over `DroppingQueue`. `EventSystem DroppingRing` is the system of the
source. `EventSystem BoundedFifo` is what it should do: the same calls on lists.
-/

set_option autoImplicit false

namespace VKernel.Input

open VKernel.Lib VKernel.Process

/-- `console_interface`. -/
inductive ConsoleInterface
  | graphical | serial
  deriving DecidableEq, Repr

/-- `vk_framebuffer_event_t`. -/
structure FramebufferEvent where
  type : UInt32
  framebuffer : FramebufferInfo
  deriving DecidableEq, Repr

/-- `VK_FRAMEBUFFER_EVENT_RESIZED`. -/
def VK_FRAMEBUFFER_EVENT_RESIZED : UInt32 := 1

/-- `KEY_QUEUE_SIZE`. -/
def KEY_QUEUE_SIZE : Nat := 64

/-- `process_task_context::MOUSE_QUEUE_SIZE`. -/
def TASK_MOUSE_QUEUE_SIZE : Nat := 64

/-- `FRAMEBUFFER_EVENT_QUEUE_SIZE`. -/
def FRAMEBUFFER_EVENT_QUEUE_SIZE : Nat := 8

/-- A `process_task_context` as far as input and the surface go. -/
structure ProcessTaskContext (Q : Type → Nat → Type) where
  interface : ConsoleInterface
  keyQueue : Q KeyEvent KEY_QUEUE_SIZE
  mouseQueue : Q MouseEvent TASK_MOUSE_QUEUE_SIZE
  framebufferEventQueue : Q FramebufferEvent FRAMEBUFFER_EVENT_QUEUE_SIZE
  fb : FbOverride
  framebufferResizeEventsEnabled : Bool

/-- The contexts, `sched::task_user_data` by task number, with the current task, the input hardware
and whether the console has a framebuffer. -/
structure EventSystem (Q : Type → Nat → Type) where
  contexts : Nat → Option (ProcessTaskContext Q)
  current : Nat
  framebufferValid : Bool
  ps2 : Ps2 Q

variable {Q : Type → Nat → Type} [DroppingQueue Q]

/-- `task_user_data(t)` gets the value `ctx`. -/
def EventSystem.setContext (s : EventSystem Q) (t : Nat) (ctx : ProcessTaskContext Q) :
    EventSystem Q :=
  { s with contexts := Function.update s.contexts t (some ctx) }

/-- `current_console_interface`. -/
def currentConsoleInterface (s : EventSystem Q) : ConsoleInterface :=
  match s.contexts s.current with
  | some ctx => ctx.interface
  | none => .graphical

/-- `should_use_framebuffer`. -/
def shouldUseFramebuffer (s : EventSystem Q) : Bool :=
  currentConsoleInterface s == .graphical && s.framebufferValid

/-! ### Keys -/

/-- What `dequeue_ascii_key` makes of an event: the character that it returns, if it returns. -/
def asciiOfKey (ev : KeyEvent) : Option UInt8 :=
  if ev.pressed = 0 then none
  else if ev.ascii ≠ 0 then some ev.ascii
  else if ev.scancode = 0x1C then some 13
  else if ev.scancode = 0x0E then some 8
  else if ev.scancode = 0x0F then some 9
  else none

/-- The loop of `dequeue_ascii_key`, for so many rounds. -/
def dequeueLoop : Nat → Q KeyEvent KEY_QUEUE_SIZE → UInt8 × Q KeyEvent KEY_QUEUE_SIZE
  | 0, queue => (0, queue)
  | rounds + 1, queue =>
    match DroppingQueue.pop queue with
    | (none, _) => (0, queue)
    | (some ev, queue) =>
      match asciiOfKey ev with
      | some c => (c, queue)
      | none => dequeueLoop rounds queue

/-- `dequeue_ascii_key`, with 0 for no key. A queue has fewer events than cells
(`dequeueAsciiKey_events`). -/
def dequeueAsciiKey (ctx : ProcessTaskContext Q) : UInt8 × ProcessTaskContext Q :=
  let r := dequeueLoop KEY_QUEUE_SIZE ctx.keyQueue
  (r.1, { ctx with keyQueue := r.2 })

/-- `route_try_getc`. `route_getc` does the same until it has a character. -/
def routeTryGetc (s : EventSystem Q) : UInt8 × EventSystem Q :=
  let ps2 (r : UInt8 × Ps2 Q) : UInt8 × EventSystem Q := (r.1, { s with ps2 := r.2 })
  if shouldUseFramebuffer s then
    match s.contexts s.current with
    | some ctx =>
      if ctx.fb.valid then
        ((dequeueAsciiKey ctx).1, s.setContext s.current (dequeueAsciiKey ctx).2)
      else ps2 (ps2TryRead s.ps2)
    | none => ps2 (ps2TryRead s.ps2)
  else ps2 (serialTryRead s.ps2)

/-- `route_poll_key`. `out` says that the pointer is not null. -/
def routePollKey (s : EventSystem Q) (out : Bool) : Option KeyEvent × EventSystem Q :=
  let fallback : Option KeyEvent × EventSystem Q :=
    ((ps2TryReadRaw s.ps2).1, { s with ps2 := (ps2TryReadRaw s.ps2).2 })
  if !out || !shouldUseFramebuffer s then (none, s)
  else
    match s.contexts s.current with
    | some ctx =>
      match DroppingQueue.pop ctx.keyQueue with
      | (some ev, queue) => (some ev, s.setContext s.current { ctx with keyQueue := queue })
      | (none, _) => if ctx.fb.valid then (none, s) else fallback
    | none => fallback

/-- `stub_send_key`. A null pointer is `none`. -/
def stubSendKey (s : EventSystem Q) (taskId : Nat) (ev : Option KeyEvent) :
    Bool × EventSystem Q :=
  match ev, s.contexts taskId with
  | some ev, some target =>
    (true, s.setContext taskId { target with keyQueue := DroppingQueue.push target.keyQueue ev })
  | _, _ => (false, s)

/-! ### The mouse -/

/-- `stub_poll_mouse`. -/
def stubPollMouse (s : EventSystem Q) (out : Bool) : Option MouseEvent × EventSystem Q :=
  let fallback : Option MouseEvent × EventSystem Q :=
    ((pollMouse s.ps2).1, { s with ps2 := (pollMouse s.ps2).2 })
  if !out || !shouldUseFramebuffer s then (none, s)
  else
    match s.contexts s.current with
    | some ctx =>
      match DroppingQueue.pop ctx.mouseQueue with
      | (some ev, queue) => (some ev, s.setContext s.current { ctx with mouseQueue := queue })
      | (none, _) => if ctx.fb.valid then (none, s) else fallback
    | none => fallback

/-- `stub_send_mouse`. -/
def stubSendMouse (s : EventSystem Q) (taskId : Nat) (ev : Option MouseEvent) :
    Bool × EventSystem Q :=
  match ev, s.contexts taskId with
  | some ev, some target =>
    (true,
      s.setContext taskId { target with mouseQueue := DroppingQueue.push target.mouseQueue ev })
  | _, _ => (false, s)

/-! ### Framebuffer events -/

/-- `enqueue_framebuffer_event`, for a target that is not null. -/
def enqueueFramebufferEvent (target : ProcessTaskContext Q) (type : UInt32)
    (framebuffer : FramebufferInfo) : ProcessTaskContext Q :=
  if !target.framebufferResizeEventsEnabled then target
  else
    { target with
        framebufferEventQueue :=
          DroppingQueue.push target.framebufferEventQueue ⟨type, framebuffer⟩ }

/-- `stub_set_task_framebuffer`. `fb` says that the pointer is not null, `blocked` is the answer of
`sched::task_blocked_off_cpu`, and `remap` is what `remap_target_framebuffer` answers and makes of
the surface. -/
def stubSetTaskFramebuffer (s : EventSystem Q) (taskId : Nat) (fb blocked : Bool)
    (remap : FbOverride → Bool × FbOverride) : Bool × EventSystem Q :=
  if !fb || !blocked then (false, s)
  else
    match s.contexts taskId with
    | none => (false, s)
    | some target =>
      let r := remap target.fb
      let target := { target with fb := r.2 }
      if !r.1 then (false, s.setContext taskId target)
      else if r.2.valid then
        (true, s.setContext taskId
          (enqueueFramebufferEvent target VK_FRAMEBUFFER_EVENT_RESIZED r.2.override))
      else (false, s.setContext taskId target)

/-- `stub_poll_framebuffer_event`. -/
def stubPollFramebufferEvent (s : EventSystem Q) (out : Bool) :
    Option FramebufferEvent × EventSystem Q :=
  if !out || !shouldUseFramebuffer s then (none, s)
  else
    match s.contexts s.current with
    | some ctx =>
      if !ctx.framebufferResizeEventsEnabled then (none, s)
      else
        match DroppingQueue.pop ctx.framebufferEventQueue with
        | (some ev, queue) =>
          (some ev, s.setContext s.current { ctx with framebufferEventQueue := queue })
        | (none, _) => (none, s)
    | none => (none, s)

/-- `stub_set_framebuffer_resize_events`. -/
def stubSetFramebufferResizeEvents (s : EventSystem Q) (enabled : UInt32) :
    Bool × EventSystem Q :=
  match s.contexts s.current with
  | none => (false, s)
  | some ctx =>
    let ctx := { ctx with framebufferResizeEventsEnabled := enabled != 0 }
    let ctx := if !ctx.framebufferResizeEventsEnabled then
        { ctx with framebufferEventQueue := DroppingQueue.clear ctx.framebufferEventQueue }
      else ctx
    (true, s.setContext s.current ctx)

/-! ### Runs

`input::init` has run: `mouse_init` starts the assembler anew, and nothing calls it again. -/

/-- A call, or something that happens around the calls. -/
inductive EventOp
  | pollKey (out : Bool)
  | sendKey (taskId : Nat) (ev : Option KeyEvent)
  | tryGetc
  | pollMouse (out : Bool)
  | sendMouse (taskId : Nat) (ev : Option MouseEvent)
  | setTaskFramebuffer (taskId : Nat) (fb blocked : Bool) (remap : FbOverride → Bool × FbOverride)
  | pollFramebufferEvent (out : Bool)
  | setFramebufferResizeEvents (enabled : UInt32)
  /-- The controller and COM1 have more to offer. -/
  | arrive (port : List PortEntry) (serial : List UInt8)
  /-- Another task runs. -/
  | dispatch (taskId : Nat)
  | consoleFramebuffer (valid : Bool)
  /-- A process starts, with nothing in its queues. -/
  | start (taskId : Nat) (interface : ConsoleInterface) (fb : FbOverride)
  | exit (taskId : Nat)

/-- What a call returns. -/
inductive EventResult
  | nothing
  | status (value : Bool)
  | char (c : UInt8)
  | key (ev : Option KeyEvent)
  | mouse (ev : Option MouseEvent)
  | framebuffer (ev : Option FramebufferEvent)
  deriving DecidableEq, Repr

/-- A context of a new process. What is in the cells does not matter. -/
def ProcessTaskContext.start (interface : ConsoleInterface) (fb : FbOverride) :
    ProcessTaskContext Q where
  interface := interface
  keyQueue := DroppingQueue.empty ⟨0, 0, 0, 0⟩ (by decide)
  mouseQueue := DroppingQueue.empty ⟨0, 0, 0⟩ (by decide)
  framebufferEventQueue := DroppingQueue.empty ⟨0, FramebufferInfo.empty⟩ (by decide)
  fb := fb
  framebufferResizeEventsEnabled := false

def EventSystem.step (s : EventSystem Q) : EventOp → EventResult × EventSystem Q
  | .pollKey out => (.key (routePollKey s out).1, (routePollKey s out).2)
  | .sendKey t ev => (.status (stubSendKey s t ev).1, (stubSendKey s t ev).2)
  | .tryGetc => (.char (routeTryGetc s).1, (routeTryGetc s).2)
  | .pollMouse out => (.mouse (stubPollMouse s out).1, (stubPollMouse s out).2)
  | .sendMouse t ev => (.status (stubSendMouse s t ev).1, (stubSendMouse s t ev).2)
  | .setTaskFramebuffer t fb blocked remap =>
    (.status (stubSetTaskFramebuffer s t fb blocked remap).1,
      (stubSetTaskFramebuffer s t fb blocked remap).2)
  | .pollFramebufferEvent out =>
    (.framebuffer (stubPollFramebufferEvent s out).1, (stubPollFramebufferEvent s out).2)
  | .setFramebufferResizeEvents enabled =>
    (.status (stubSetFramebufferResizeEvents s enabled).1,
      (stubSetFramebufferResizeEvents s enabled).2)
  | .arrive port serial =>
    (.nothing,
      { s with ps2 := { s.ps2 with
          port := s.ps2.port ++ port
          serial := s.ps2.serial ++ serial } })
  | .dispatch t => (.nothing, { s with current := t })
  | .consoleFramebuffer valid => (.nothing, { s with framebufferValid := valid })
  | .start t interface fb => (.nothing, s.setContext t (.start interface fb))
  | .exit t => (.nothing, { s with contexts := Function.update s.contexts t none })

/-- A run: what the calls return, and the state at the end. -/
def EventSystem.run (s : EventSystem Q) : List EventOp → List EventResult × EventSystem Q
  | [] => ([], s)
  | op :: ops => ((s.step op).1 :: ((s.step op).2.run ops).1, ((s.step op).2.run ops).2)

end VKernel.Input

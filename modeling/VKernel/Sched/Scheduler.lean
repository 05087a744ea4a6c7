import Mathlib.Logic.Function.Basic
import VKernel.Types

/-!
# `VKernel.Sched.Scheduler`: the task table and the operations of `scheduler.cpp`

The globals of the scheduler are one record, `Scheduler`, and each section that the source
executes under `g_sched_lock` is one function on it. `preempt` is cut where the source
takes and drops the lock: `preemptEntry` is what runs before `g_sched_lock.acquire()`
(the tick and the yield flag), `preemptLocked` is the locked section, and its result
`Switch` says how the function goes on after `release()`.

`SCHED_CPU_NONE` is `none` in the three CPU fields of a task. No APIC id equals it: the
ids are `u8` and the fields `u32`.

The task table is a function of the slot number. `sched::init` zero-fills it, so a slot
from `g_task_count` on reads as CPU 0 in its CPU fields; the source never looks at these.
-/

set_option autoImplicit false

namespace VKernel.Sched

open VKernel

/-- A local APIC id, the `u8` that indexes `g_per_cpu_task`. -/
abbrev ApicId := Fin 256

/-- There is a CPU 0. -/
instance apicId_neZero : NeZero 256 := ⟨by decide⟩

/-- `MAX_TASKS`. -/
def MAX_TASKS : Nat := 64

/-- `SCHED_NO_TASK`: the CPU is not executing any task. -/
def SCHED_NO_TASK : Nat := MAX_TASKS

/-- The capacity of `task::name`, its terminating zero included. -/
def TASK_NAME_CAPACITY : Nat := 32

/-- `task_state`. -/
inductive TaskState
  | ready | running | blocked | terminated
  deriving DecidableEq, Repr

/-- A `process_task_context*` that is not null. -/
abbrev Ctx := Nat

/-- What a saved stack pointer points to: nothing yet, the prebuilt frame of
`init_task_stack_frame`, or the registers that an interrupt pushed. -/
inductive Frame
  | null
  | initial (slot : Nat)
  | saved (regs : Nat)
  deriving DecidableEq, Repr

/-- `task`, without its stack, its FPU area and its entry point. -/
structure Task where
  rsp : Frame
  id : Nat
  state : TaskState
  wakeTick : Nat
  name : List UInt8
  userData : Option Ctx
  xsaveValid : Bool
  allowSecondaryCpu : Bool
  affinityCpu : Option ApicId
  currentCpu : Option ApicId
  lastCpu : Option ApicId
  runTickStart : Nat
  cpuTicks : Nat
  deriving DecidableEq, Repr

/-- `task::is_runnable`. -/
def Task.isRunnable (t : Task) : Bool := t.state == .ready || t.state == .running

/-- A slot after `memory::set(g_tasks, 0, sizeof(g_tasks))`. -/
def Task.zero : Task where
  rsp := .null
  id := 0
  state := .ready
  wakeTick := 0
  name := []
  userData := none
  xsaveValid := false
  allowSecondaryCpu := false
  affinityCpu := some 0
  currentCpu := some 0
  lastCpu := some 0
  runTickStart := 0
  cpuTicks := 0

/-- The globals of `scheduler.cpp`. -/
structure Scheduler where
  tasks : Nat → Task
  taskCount : Nat
  nextTaskId : Nat
  schedulerActive : Bool
  tickCount : Nat
  perCpuTask : ApicId → Nat
  yieldInProgress : ApicId → Bool
  bspApicId : ApicId

/-- How `preempt` goes on after its locked section. -/
inductive Switch
  /-- Return the frame of the task that was picked. -/
  | task (next : Nat)
  /-- Return the idle frame of this CPU. -/
  | idle
  /-- Return `regs`: the CPU stays where it was. -/
  | resume
  deriving DecidableEq, Repr

namespace Scheduler

/-- Replace one slot of the table. -/
def setTask (s : Scheduler) (i : Nat) (t : Task) : Scheduler :=
  { s with tasks := Function.update s.tasks i t }

/-- `cpu_set_current_task` on CPU `c`. -/
def setCurrentTask (s : Scheduler) (c : ApicId) (i : Nat) : Scheduler :=
  { s with perCpuTask := Function.update s.perCpuTask c i }

/-- `sched::init`, called on the boot CPU. -/
def init (bsp : ApicId) : Scheduler where
  tasks := fun _ => Task.zero
  taskCount := 0
  nextTaskId := 1
  schedulerActive := false
  tickCount := 0
  perCpuTask := fun _ => SCHED_NO_TASK
  yieldInProgress := fun _ => false
  bspApicId := bsp

/-- `find_available_task_slot`. -/
def findAvailableTaskSlot (s : Scheduler) : Nat :=
  match (List.range s.taskCount).find? fun i =>
      (s.tasks i).state == .terminated && (s.tasks i).currentCpu == none with
  | some i => i
  | none => if s.taskCount < MAX_TASKS then s.taskCount else SCHED_NO_TASK

/-- The fields that `create_task` gives a slot, with its new frame. -/
def newTask (s : Scheduler) (slot : Nat) (name : List UInt8) (userData : Option Ctx) : Task where
  rsp := .initial slot
  id := s.nextTaskId
  state := .ready
  wakeTick := 0
  name := name
  userData := userData
  xsaveValid := false
  allowSecondaryCpu := s.schedulerActive
  affinityCpu := none
  currentCpu := none
  lastCpu := none
  runTickStart := 0
  cpuTicks := 0

/-- `sched::create_task`. `none` is the result -1. A name that does not fit leaves the
slot with an empty name. -/
def createTask (s : Scheduler) (name : List UInt8) (userData : Option Ctx) :
    Option Nat × Scheduler :=
  let slot := s.findAvailableTaskSlot
  if MAX_TASKS ≤ slot then (none, s)
  else if TASK_NAME_CAPACITY ≤ name.length then
    (none, s.setTask slot { s.tasks slot with name := [] })
  else
    (some s.nextTaskId,
      { s.setTask slot (s.newTask slot name userData) with
        nextTaskId := add64 s.nextTaskId 1
        taskCount := if slot = s.taskCount then s.taskCount + 1 else s.taskCount })

/-- `sched::replace_current_task_context` on CPU `c`. -/
def replaceCurrentTaskContext (s : Scheduler) (c : ApicId) (name : List UInt8)
    (userData : Option Ctx) : Bool × Scheduler :=
  let cur := s.perCpuTask c
  if TASK_NAME_CAPACITY ≤ name.length then (false, s)
  else if s.taskCount ≤ cur ∨ (s.tasks cur).state = .terminated then (false, s)
  else (true, s.setTask cur { s.tasks cur with name := name, userData := userData })

/-- The flag that `sched::yield` sets before it raises the timer vector. -/
def yield (s : Scheduler) (c : ApicId) : Scheduler :=
  if !s.schedulerActive || s.taskCount < 2 then s
  else { s with yieldInProgress := Function.update s.yieldInProgress c true }

/-- `wake_sleeping_tasks`. -/
def wakeSleepingTasks (s : Scheduler) : Scheduler :=
  { s with
    tasks := fun i =>
      if i < s.taskCount ∧ (s.tasks i).state = .blocked ∧ (s.tasks i).wakeTick ≤ s.tickCount
      then { s.tasks i with state := .ready } else s.tasks i }

/-- `cpu_allows_shared_idle` on CPU `c`. -/
def allowsSharedIdle (s : Scheduler) (c : ApicId) : Bool := c == s.bspApicId

/-- `task_matches_cpu_affinity`. -/
def matchesCpuAffinity (s : Scheduler) (i : Nat) (c : ApicId) : Bool :=
  (s.tasks i).affinityCpu == none || (s.tasks i).affinityCpu == some c

/-- `task_can_run_on_this_cpu` on CPU `c`. -/
def canRunOnCpu (s : Scheduler) (i : Nat) (c : ApicId) : Bool :=
  if s.taskCount ≤ i then false
  else if !s.matchesCpuAffinity i c then false
  else if i = 0 then s.allowsSharedIdle c
  else if !s.allowsSharedIdle c && !(s.tasks i).allowSecondaryCpu then false
  else true

/-- The test that `pick_next_task` makes of a slot. -/
def eligible (s : Scheduler) (c : ApicId) (i : Nat) : Bool :=
  (s.tasks i).state == .ready && s.canRunOnCpu i c

/-- The slot that the loop of `pick_next_task` looks at in its `i`-th round. -/
def candidate (s : Scheduler) (cur i : Nat) : Nat :=
  let start := if 0 < cur ∧ cur < s.taskCount then cur else 0
  (start + i - 1) % (s.taskCount - 1) + 1

/-- The loop of `pick_next_task`, over the rounds from 1 to `g_task_count - 1`. -/
def pickInRounds (s : Scheduler) (c : ApicId) (cur : Nat) : Option Nat :=
  ((List.range' 1 (s.taskCount - 1)).map (s.candidate cur)).find? (s.eligible c)

/-- `pick_next_task` on CPU `c`. Slot 0 is the idle task and comes last. -/
def pickNextTask (s : Scheduler) (c : ApicId) (cur : Nat) : Nat :=
  if s.taskCount = 0 then SCHED_NO_TASK
  else
    match s.pickInRounds c cur with
    | some next => next
    | none =>
      if 0 < cur ∧ cur < s.taskCount ∧ s.eligible c cur then cur
      else if s.eligible c 0 then 0
      else SCHED_NO_TASK

/-- `account_task_ticks`. The timer of another CPU than the boot CPU does not advance
`g_tick_count`, so it charges one tick of its own. -/
def accountTaskTicks (s : Scheduler) (t : Task) (c : ApicId) (timerTick : Bool) : Task :=
  if t.currentCpu = none then t
  else
    let elapsed := if t.runTickStart < s.tickCount then s.tickCount - t.runTickStart else 0
    let elapsed := if elapsed = 0 ∧ timerTick ∧ c ≠ s.bspApicId then 1 else elapsed
    { t with cpuTicks := add64 t.cpuTicks elapsed }

/-- The part of `preempt` before the lock: a pending yield is consumed, else the interrupt
is a timer tick and the boot CPU counts it. The result is `timer_tick`. -/
def preemptEntry (s : Scheduler) (c : ApicId) : Bool × Scheduler :=
  if s.yieldInProgress c then
    (false, { s with yieldInProgress := Function.update s.yieldInProgress c false })
  else if c = s.bspApicId then (true, { s with tickCount := add64 s.tickCount 1 })
  else (true, s)

/-- What `preempt` does to the current task before it picks the next one, with the
context it takes from a terminated one. -/
def releaseCurrent (s : Scheduler) (t : Task) (c : ApicId) (timerTick : Bool) (regs : Nat) :
    Option Ctx × Task :=
  let t := { s.accountTaskTicks t c timerTick with rsp := .saved regs, xsaveValid := true }
  let out : Option Ctx × Task :=
    if t.state = .terminated ∧ t.userData ≠ none then (t.userData, { t with userData := none })
    else if t.state = .running then (none, { t with state := .ready })
    else (none, t)
  (out.1, { out.2 with currentCpu := none, runTickStart := 0 })

/-- What `preempt` and `start` do to the task that CPU `c` runs next. -/
def claim (s : Scheduler) (t : Task) (c : ApicId) : Task :=
  { t with
    state := .running
    affinityCpu := if t.affinityCpu = none then some c else t.affinityCpu
    currentCpu := some c
    lastCpu := some c
    runTickStart := s.tickCount }

/-- CPU `c` takes slot `next`. -/
def dispatch (s : Scheduler) (c : ApicId) (next : Nat) : Scheduler :=
  (s.setCurrentTask c next).setTask next (s.claim (s.tasks next) c)

/-- The table when `preempt` has woken the sleepers and let go of its current task. -/
def preemptRelease (s : Scheduler) (c : ApicId) (timerTick : Bool) (regs : Nat) :
    Option Ctx × Scheduler :=
  let s := s.wakeSleepingTasks
  let cur := s.perCpuTask c
  if cur < s.taskCount then
    let out := s.releaseCurrent (s.tasks cur) c timerTick regs
    (out.1, s.setTask cur out.2)
  else (none, s)

/-- `preempt` skips its locked section before `start` and with a single task. -/
def schedules (s : Scheduler) : Bool := s.schedulerActive && decide (2 ≤ s.taskCount)

/-- The locked section of `preempt` on CPU `c`: the context to clean up, how the function
goes on, and the new table. -/
def preemptLocked (s : Scheduler) (c : ApicId) (timerTick : Bool) (regs : Nat) :
    Option Ctx × Switch × Scheduler :=
  let cur := s.perCpuTask c
  let out := s.preemptRelease c timerTick regs
  let next := out.2.pickNextTask c cur
  if next < out.2.taskCount then (out.1, .task next, out.2.dispatch c next)
  else if cur < out.2.taskCount ∧ !(out.2.tasks cur).isRunnable then
    (out.1, .idle, out.2.setCurrentTask c SCHED_NO_TASK)
  else (out.1, .resume, out.2)

/-- The locked section of `sched::start`, on the boot CPU. `none` is the panic on an empty
table. -/
def start (s : Scheduler) : Option Scheduler :=
  if s.taskCount = 0 then none
  else
    let first := s.pickNextTask s.bspApicId SCHED_NO_TASK
    let first := if s.taskCount ≤ first then 0 else first
    some { s.dispatch s.bspApicId first with schedulerActive := true }

/-- The locked section of `sched::start_ap` on CPU `c`. -/
def startAp (s : Scheduler) (c : ApicId) : Scheduler := s.setCurrentTask c SCHED_NO_TASK

/-- The locked section of `sched::sleep` on CPU `c`, for `ticks ≠ 0`. -/
def sleep (s : Scheduler) (c : ApicId) (ticks : Nat) : Scheduler :=
  let cur := s.perCpuTask c
  s.setTask cur { s.tasks cur with wakeTick := add64 s.tickCount ticks, state := .blocked }

/-- What `terminate_task` makes of the slot it finds, with the context it takes. -/
def terminated (t : Task) : Option Ctx × Task :=
  let t := { t with state := .terminated, wakeTick := 0, affinityCpu := none }
  if t.currentCpu = none then
    (t.userData, { t with lastCpu := none, runTickStart := 0, userData := none })
  else (none, t)

/-- The locked section of `sched::terminate_task`: the return value, the context to clean
up, and the new table. The idle task is refused. -/
def terminateTask (s : Scheduler) (id : Nat) : Bool × Option Ctx × Scheduler :=
  match (List.range s.taskCount).find? fun i => (s.tasks i).id == id with
  | none => (false, none, s)
  | some i =>
    if i = 0 then (false, none, s)
    else
      let out := terminated (s.tasks i)
      (true, out.1, s.setTask i out.2)

/-- The locked section of `sched::exit_task` on CPU `c`. -/
def exitTask (s : Scheduler) (c : ApicId) : Scheduler :=
  let cur := s.perCpuTask c
  s.setTask cur { s.tasks cur with state := .terminated, affinityCpu := none, userData := none }

/-- `sched::detach_current_task` on CPU `c`. -/
def detachCurrentTask (s : Scheduler) (c : ApicId) : Option Ctx × Scheduler :=
  let cur := s.perCpuTask c
  if cur < s.taskCount then
    ((s.tasks cur).userData,
      s.setTask cur
        { s.tasks cur with userData := none, state := .terminated, affinityCpu := none })
  else (none, s)

end Scheduler

end VKernel.Sched

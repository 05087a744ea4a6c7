import VKernel.Process.Teardown

/-!
# `VKernel.Process.Waiting`: one call of `wait_for_task` among the steps of the kernel

`wait_for_task` takes no lock: it looks for the id in the table and then reads three fields of
the slot one after the other, so every read is a step of its own and any step of the kernel may
come in between. `waitSystem` follows one call of one task; other callers only read and sleep,
which the kernel's steps cover.

`owner` records the id of the task that a context was given to, by `create_task` or by `exec`,
and `abandoned` the contexts whose cleanup never ends: the task that was to do it was terminated
before, and a terminated task is not scheduled again.
-/

set_option autoImplicit false

namespace VKernel.Process

open VKernel VKernel.Lib VKernel.Sched

/-- The point that the call has reached. -/
inductive WaitPc
  /-- The loop over the table, at slot `i`. -/
  | scan (i : Nat)
  /-- Slot `i` had the id: the reads of `state`, `current_cpu` and `user_data`. -/
  | readState (i : Nat)
  | readCpu (i : Nat)
  | readUserData (i : Nat)
  /-- In front of `sleep(1)`. -/
  | sleeping
  /-- In the loop of `sleep`. -/
  | asleep
  | returned
  deriving DecidableEq, Repr

/-- The slot of the task that waits, the id that it waits for, and where it is. -/
structure Waiter where
  slot : Nat
  target : Nat
  pc : WaitPc
  deriving DecidableEq, Repr

/-- The kernel with the call that is followed. -/
structure WaitState where
  kernel : Kernel
  owner : Ctx → Option Nat
  abandoned : List Ctx
  waiter : Option Waiter

/-- The steps. Those of the call name the CPU that the waiting task is on. -/
inductive WaitOp
  | kernel (op : KernelOp)
  /-- `wait_for_task` is called. -/
  | call (c : ApicId) (taskId : Nat)
  /-- The next read of the loop. -/
  | read (c : ApicId)
  /-- `sleep(1)` blocks the task. -/
  | sleep (c : ApicId)
  /-- The loop of `sleep` ends, and the table is searched again. -/
  | wake (c : ApicId)
  deriving DecidableEq, Repr

/-- The context that a task is to clean up, or is cleaning up. -/
def cleanedBy : TaskPc → Option Ctx
  | .cleanup .pending x _ => some x
  | .cleanup .started x _ => some x
  | _ => none

/-- The context that `preempt` is to clean up, or is cleaning up, behind its locked section. -/
def cleanedOn : CpuPhase → Option Ctx
  | .switching _ cleanup _ => cleanup.map Prod.snd
  | .running => none

/-- The CPU whose current task makes the step in its program. -/
def callerOf : KernelOp → Option ApicId
  | .readContext c | .sleep c _ | .terminateTask c _ | .exec c _ _ | .detach c | .beginExit c
  | .exitTask c => some c
  | _ => none

namespace WaitState

/-- The table of the scheduler. -/
def task (s : WaitState) (i : Nat) : Task := s.kernel.smp.sched.tasks i

/-- The call has not returned. -/
def waiting (s : WaitState) (i : Nat) : Bool :=
  s.waiter.any fun w => w.slot == i && w.pc != .returned

/-- The task that waits makes no other step in its program. -/
def busy (s : WaitState) (op : KernelOp) : Bool :=
  (callerOf op).any fun c => (s.kernel.inProgram c).any s.waiting

/-- The record of the owners after a step. -/
def ownerAfter (s : WaitState) : KernelOp → Ctx → Option Nat
  | .createTask name userData =>
    match userData, (s.kernel.smp.sched.createTask name userData).1 with
    | some x, some id => Function.update s.owner x (some id)
    | _, _ => s.owner
  | .exec c name ctx =>
    if (s.kernel.smp.sched.replaceCurrentTaskContext c name (some ctx)).1 then
      Function.update s.owner ctx (some (s.task (s.kernel.smp.sched.perCpuTask c)).id)
    else s.owner
  | _ => s.owner

/-- The context that the task of a slot cleans up, when its slot does not have it any more. -/
def cleansTaken (s : WaitState) (i : Nat) : Option Ctx :=
  (cleanedBy (s.kernel.pc i)).filter fun x => s.kernel.contextOf i != some x

/-- The record of the abandoned cleanups after a step: `preempt` leaves a terminated task, and
`terminate_task` finds a task that is on no CPU. -/
def abandonedAfter (s : WaitState) : KernelOp → List Ctx
  | .preempt c _ _ =>
    let i := s.kernel.smp.sched.perCpuTask c
    if s.kernel.smp.sched.schedules ∧ (s.task i).state = .terminated then
      (s.cleansTaken i).toList ++ s.abandoned
    else s.abandoned
  | .terminateTask _ id =>
    ((List.range s.kernel.smp.sched.taskCount).flatMap fun i =>
      if i ≠ 0 ∧ (s.task i).id = id ∧ (s.task i).currentCpu = none then (s.cleansTaken i).toList
      else []) ++ s.abandoned
  | _ => s.abandoned

/-- A new task takes the slot of the task that waited: the call is gone with it. -/
def waiterAfter (s : WaitState) : KernelOp → Option Waiter
  | .createTask name userData =>
    if (s.kernel.smp.sched.createTask name userData).1.isSome then
      s.waiter.filter fun w => w.slot != s.kernel.smp.sched.findAvailableTaskSlot
    else s.waiter
  | _ => s.waiter

/-- The call goes on at `pc`. -/
def goto (s : WaitState) (w : Waiter) (pc : WaitPc) : WaitState :=
  { s with waiter := some { w with pc := pc } }

/-- One read, and where the loop goes from there. -/
def readStep (s : WaitState) (w : Waiter) : Option WaitState :=
  match w.pc with
  | .scan i =>
    if i < s.kernel.smp.sched.taskCount then
      if (s.task i).id = w.target then some (s.goto w (.readState i))
      else some (s.goto w (.scan (i + 1)))
    else some (s.goto w .returned)
  | .readState i =>
    some (s.goto w (if (s.task i).state = .terminated then .readCpu i else .sleeping))
  | .readCpu i =>
    some (s.goto w (if (s.task i).currentCpu = none then .readUserData i else .sleeping))
  | .readUserData i =>
    some (s.goto w (if (s.task i).userData = none then .returned else .sleeping))
  | _ => none

/-- The call, when CPU `c` is executing its task. -/
def caller (s : WaitState) (c : ApicId) : Option Waiter :=
  s.waiter.filter fun w => s.kernel.inProgram c == some w.slot

/-- One step. The call that is followed is for a task that was created. -/
def next (s : WaitState) : WaitOp → Option WaitState
  | .kernel op =>
    if s.busy op then none
    else
      (s.kernel.next op).map fun k =>
        { kernel := k, owner := s.ownerAfter op, abandoned := s.abandonedAfter op,
          waiter := s.waiterAfter op }
  | .call c taskId =>
    (s.kernel.inProgram c).bind fun i =>
      if s.waiter.all (·.pc == .returned) ∧ 0 < taskId ∧
          taskId < s.kernel.smp.sched.nextTaskId then
        some { s with waiter := some ⟨i, taskId, .scan 0⟩ }
      else none
  | .read c => (s.caller c).bind s.readStep
  | .sleep c =>
    (s.caller c).bind fun w =>
      if w.pc = .sleeping then
        (s.kernel.next (.sleep c 1)).map fun k => { s.goto w .asleep with kernel := k }
      else none
  | .wake c =>
    (s.caller c).bind fun w =>
      if w.pc = .asleep ∧ (s.task w.slot).state ≠ .blocked then some (s.goto w (.scan 0))
      else none

/-- When the call has returned, `cleanup_process_context` has freed every context of the task
that it waited for. -/
def CleanedUp (s : WaitState) : Prop :=
  ∀ w, s.waiter = some w → w.pc = .returned →
    ∀ x, s.owner x = some w.target → s.kernel.freed x = true

end WaitState

/-- Every interleaving after `sched::init`. -/
def waitSystem : TransitionSystem WaitState WaitOp :=
  TransitionSystem.ofFun (fun s => ∃ bsp, s = ⟨Kernel.boot bsp, fun _ => none, [], none⟩)
    WaitState.next

end VKernel.Process

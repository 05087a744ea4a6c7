import VKernel.Sched.Interleaving

/-!
# `VKernel.Process.Teardown`: what runs between the scheduler's sections

`schedSystem` takes the locked sections of the scheduler as its steps. Two things happen
between them that it does not see, and `kernelSystem` adds them:

* After `preempt` has released the lock it is still on the stack of the task it left. It
  may have to clean up the context it took from that task, it switches the address space,
  and only then does it return the next frame. `CpuPhase.switching` is this stretch.
* A task that exits, terminates another or replaces itself calls
  `cleanup_process_context` outside the lock and may be preempted in it. `TaskPc` is the
  point that the task of a slot has reached, also while it is off the CPU.

`cleanup_process_context` is two steps, its call and `g_kernel_heap.free(ctx)`, which is
its last access to the context. `started` counts the calls, `freed` marks the contexts
whose memory was given back, and `staleRead` records that a step read such a context
through `g_tasks[i].user_data`.

A `Ctx` is one allocation of a `process_task_context`, so a new one was never used before,
even when the heap hands out the same address again.
-/

set_option autoImplicit false

namespace VKernel.Process

open VKernel VKernel.Lib VKernel.Sched

/-- How far a call of `cleanup_process_context` has come. -/
inductive Stage
  /-- The caller holds the pointer and has not made the call. -/
  | pending
  /-- The call is being executed. -/
  | started
  /-- The context was freed. -/
  | freed
  deriving DecidableEq, Repr

/-- What the caller of `cleanup_process_context` does next. -/
inductive After
  /-- It goes on: `terminate_task` and `exec`. -/
  | resume
  /-- It calls `exit_task`: `stub_exit`, the end of `process_task_main` and of an exec'd
  program, and the exception handler. -/
  | exit
  deriving DecidableEq, Repr

/-- The point that the task of a slot has reached. -/
inductive TaskPc
  /-- Its program, or a kernel call that no step here is about. -/
  | normal
  /-- Around a call of `cleanup_process_context`. -/
  | cleanup (stage : Stage) (ctx : Ctx) (after : After)
  /-- The loop at the end of `exit_task`. -/
  | exited
  deriving DecidableEq, Repr

/-- Where a CPU is. -/
inductive CpuPhase
  /-- In the code of its current task, or idle. -/
  | running
  /-- In `preempt` behind its locked section, on the stack of slot `old`, with the context
  that is still to be cleaned up. -/
  | switching (old : Nat) (cleanup : Option (Stage × Ctx)) (switch : Switch)
  deriving DecidableEq, Repr

/-- The scheduler, the CPUs, the tasks, and the record of the teardowns. -/
structure Kernel where
  smp : Smp
  cpu : ApicId → CpuPhase
  pc : Nat → TaskPc
  used : Ctx → Bool
  started : Ctx → Nat
  freed : Ctx → Bool
  staleRead : Bool

/-- The steps of the kernel. Those that a task makes name the CPU it is on. -/
inductive KernelOp
  | createTask (name : List UInt8) (userData : Option Ctx)
  | start
  | startAp (c : ApicId)
  | yield (c : ApicId)
  | preemptEntry (c : ApicId)
  | preempt (c : ApicId) (timerTick : Bool) (regs : Nat)
  /-- `preempt` calls `cleanup_process_context`. -/
  | switchCleanup (c : ApicId)
  /-- That call frees the context. -/
  | switchFree (c : ApicId)
  /-- `preempt` activates the address space of the next task and returns its frame. -/
  | switchReturn (c : ApicId)
  /-- A kernel call reads the context of its own task. -/
  | readContext (c : ApicId)
  | sleep (c : ApicId) (ticks : Nat)
  | terminateTask (c : ApicId) (id : Nat)
  /-- `exec_impl` puts a new context in the place of the current one. -/
  | exec (c : ApicId) (name : List UInt8) (ctx : Ctx)
  /-- The exception handler takes the context away from the current task. -/
  | detach (c : ApicId)
  /-- `stub_exit`, or the return from the program's entry point. -/
  | beginExit (c : ApicId)
  /-- The current task calls `cleanup_process_context`. -/
  | cleanupStart (c : ApicId)
  /-- That call frees the context. -/
  | cleanupFree (c : ApicId)
  /-- That call returns to a caller that goes on. -/
  | cleanupDone (c : ApicId)
  | exitTask (c : ApicId)
  deriving DecidableEq, Repr

namespace Kernel

/-- The slot whose code CPU `c` is executing. -/
def current (k : Kernel) (c : ApicId) : Option Nat :=
  if k.cpu c = .running ∧ k.smp.sched.runsTask c then some (k.smp.sched.perCpuTask c) else none

/-- The context of slot `i`. -/
def contextOf (k : Kernel) (i : Nat) : Option Ctx := (k.smp.sched.tasks i).userData

/-- The context of a slot was freed: a read through `user_data` is a use after free. -/
def stale (k : Kernel) (i : Nat) : Bool := (k.contextOf i).any k.freed

/-- The task of slot `i` reaches `pc`. -/
def goto (k : Kernel) (i : Nat) (pc : TaskPc) : Kernel :=
  { k with pc := Function.update k.pc i pc }

/-- A call of `cleanup_process_context` begins. -/
def countStart (k : Kernel) (x : Ctx) : Kernel :=
  { k with started := Function.update k.started x (k.started x + 1) }

/-- `cleanup_process_context` frees the context. -/
def markFreed (k : Kernel) (x : Ctx) : Kernel :=
  { k with freed := Function.update k.freed x true }

/-- The kernel when a section of the scheduler has run. -/
def atomically (k : Kernel) (op : SchedOp) : Option Kernel :=
  (k.smp.next op).map fun m => { k with smp := m }

/-- CPU `c` enters the stretch of `preempt` behind the lock. -/
def enterSwitch (k : Kernel) (c : ApicId) (old : Nat) (ctx : Option Ctx) (switch : Switch) :
    Kernel :=
  { k with
    cpu := Function.update k.cpu c (.switching old (ctx.map fun x => (.pending, x)) switch) }

/-- The task that CPU `c` runs is in its program. -/
def inProgram (k : Kernel) (c : ApicId) : Option Nat :=
  (k.current c).bind fun i => if k.pc i = .normal then some i else none

/-- One step. `none` means that the step cannot be made in this state. -/
def next (k : Kernel) : KernelOp → Option Kernel
  | .createTask name userData =>
    if userData.any k.used then none
    else
      let slot := k.smp.sched.findAvailableTaskSlot
      let created := (k.smp.sched.createTask name userData).1.isSome
      (k.atomically (.createTask name userData)).map fun k' =>
        { k' with
          used := fun x => k.used x || userData == some x
          pc := if created then Function.update k.pc slot .normal else k.pc }
  | .start =>
    (k.atomically .start).map fun k' =>
      { k' with
        staleRead := k.staleRead || k'.stale (k'.smp.sched.perCpuTask k'.smp.sched.bspApicId) }
  | .startAp c => if k.cpu c = .running then k.atomically (.startAp c) else none
  | .yield c => if k.cpu c = .running then k.atomically (.yield c) else none
  | .preemptEntry c => if k.cpu c = .running then k.atomically (.preemptEntry c) else none
  | .preempt c timerTick regs =>
    if k.cpu c = .running then
      let out := k.smp.sched.preemptLocked c timerTick regs
      (k.atomically (.preempt c timerTick regs)).map fun k' =>
        if k.smp.sched.schedules then
          k'.enterSwitch c (k.smp.sched.perCpuTask c) out.1 out.2.1
        else k'
    else none
  | .switchCleanup c =>
    match k.cpu c with
    | .switching old (some (.pending, x)) sw =>
      some { k.countStart x with
        cpu := Function.update k.cpu c (.switching old (some (.started, x)) sw) }
    | _ => none
  | .switchFree c =>
    match k.cpu c with
    | .switching old (some (.started, x)) sw =>
      some { k.markFreed x with cpu := Function.update k.cpu c (.switching old none sw) }
    | _ => none
  | .switchReturn c =>
    match k.cpu c with
    | .switching _ none (.task n) =>
      some { k with
        cpu := Function.update k.cpu c .running
        staleRead := k.staleRead || k.stale n }
    | .switching _ none .idle | .switching _ none .resume =>
      some { k with cpu := Function.update k.cpu c .running }
    | _ => none
  | .readContext c =>
    (k.inProgram c).map fun i => { k with staleRead := k.staleRead || k.stale i }
  | .sleep c ticks => (k.inProgram c).bind fun _ => k.atomically (.sleep c ticks)
  | .terminateTask c id =>
    (k.inProgram c).bind fun i =>
      (k.atomically (.terminateTask id)).map fun k' =>
        match (k.smp.sched.terminateTask id).2.1 with
        | some x => k'.goto i (.cleanup .pending x .resume)
        | none => k'
  | .exec c name ctx =>
    (k.inProgram c).bind fun i =>
      match k.contextOf i with
      | none => none
      | some x =>
        if k.used ctx then none
        else
          (k.atomically (.replaceCurrentTaskContext c name (some ctx))).map fun k' =>
            let k' := { k' with used := fun y => k.used y || y == ctx }
            if (k.smp.sched.replaceCurrentTaskContext c name (some ctx)).1
            then k'.goto i (.cleanup .pending x .resume) else k'
  | .detach c =>
    (k.inProgram c).bind fun i =>
      (k.atomically (.detachCurrentTask c)).map fun k' =>
        match k.contextOf i with
        | some x => k'.goto i (.cleanup .pending x .exit)
        | none => k'.goto i .exited
  | .beginExit c =>
    (k.inProgram c).bind fun i =>
      (k.contextOf i).map fun x => k.goto i (.cleanup .pending x .exit)
  | .cleanupStart c =>
    (k.current c).bind fun i =>
      match k.pc i with
      | .cleanup .pending x after =>
        some ((k.countStart x).goto i (.cleanup .started x after))
      | _ => none
  | .cleanupFree c =>
    (k.current c).bind fun i =>
      match k.pc i with
      | .cleanup .started x after =>
        some ((k.markFreed x).goto i (.cleanup .freed x after))
      | _ => none
  | .cleanupDone c =>
    (k.current c).bind fun i =>
      match k.pc i with
      | .cleanup .freed _ .resume => some (k.goto i .normal)
      | _ => none
  | .exitTask c =>
    (k.current c).bind fun i =>
      match k.pc i with
      | .cleanup .freed _ .exit => (k.atomically (.exitTask c)).map (·.goto i .exited)
      | .normal =>
        if k.contextOf i = none then (k.atomically (.exitTask c)).map (·.goto i .exited)
        else none
      | _ => none

end Kernel

/-- The kernel after `sched::init`. -/
def Kernel.boot (bsp : ApicId) : Kernel where
  smp := ⟨Scheduler.init bsp, fun _ => false⟩
  cpu := fun _ => .running
  pc := fun _ => .normal
  used := fun _ => false
  started := fun _ => 0
  freed := fun _ => false
  staleRead := false

/-- Every interleaving after `sched::init`. -/
def kernelSystem : TransitionSystem Kernel KernelOp :=
  TransitionSystem.ofFun (fun k => ∃ bsp, k = Kernel.boot bsp) Kernel.next

end VKernel.Process

import VKernel.Lib.Transition
import VKernel.Sched.Scheduler

/-!
# `VKernel.Sched.Interleaving`: the scheduler on several CPUs

The labels of `schedSystem` are the sections that run under `g_sched_lock`, each with the
CPU that executes it, and the two unlocked accesses to the scheduler's globals (the flag
of `yield` and the entry of `preempt`). A run is any order of them on any CPUs.

`Smp.online` says which CPUs take interrupts: the boot CPU from `sched::start` on, every
other CPU from its one call of `sched::start_ap` on. Until then a CPU runs with interrupts
off and its slot of `g_per_cpu_task` is the one that `sched::init` wrote.
-/

set_option autoImplicit false

namespace VKernel.Sched

open VKernel VKernel.Lib

/-- The scheduler's globals and the CPUs that were started. -/
structure Smp where
  sched : Scheduler
  online : ApicId → Bool

/-- The atomic sections of the scheduler. -/
inductive SchedOp
  | createTask (name : List UInt8) (userData : Option Ctx)
  | start
  | startAp (c : ApicId)
  | yield (c : ApicId)
  | preemptEntry (c : ApicId)
  | preempt (c : ApicId) (timerTick : Bool) (regs : Nat)
  | sleep (c : ApicId) (ticks : Nat)
  | terminateTask (id : Nat)
  | exitTask (c : ApicId)
  | detachCurrentTask (c : ApicId)
  | replaceCurrentTaskContext (c : ApicId) (name : List UInt8) (userData : Option Ctx)
  deriving DecidableEq, Repr

/-- CPU `c` executes a task. -/
def Scheduler.runsTask (s : Scheduler) (c : ApicId) : Bool :=
  decide (s.perCpuTask c < s.taskCount)

/-- The locked section of `preempt`, or nothing when `preempt` returns before the lock. -/
def Scheduler.preempt (s : Scheduler) (c : ApicId) (timerTick : Bool) (regs : Nat) :
    Scheduler :=
  if s.schedules then (s.preemptLocked c timerTick regs).2.2 else s

/-- One section. `none` means that it cannot run: only a started CPU is interrupted, and
`sleep` and `exit_task` are calls of a task. -/
def Smp.next (m : Smp) : SchedOp → Option Smp
  | .createTask name userData => some { m with sched := (m.sched.createTask name userData).2 }
  | .start =>
    if m.sched.schedulerActive then none
    else m.sched.start.map fun s =>
      ⟨s, Function.update m.online m.sched.bspApicId true⟩
  | .startAp c =>
    if m.online c || c == m.sched.bspApicId then none
    else some ⟨m.sched.startAp c, Function.update m.online c true⟩
  | .yield c => if m.online c then some { m with sched := m.sched.yield c } else none
  | .preemptEntry c =>
    if m.online c then some { m with sched := (m.sched.preemptEntry c).2 } else none
  | .preempt c timerTick regs =>
    if m.online c then some { m with sched := m.sched.preempt c timerTick regs } else none
  | .sleep c ticks =>
    if m.sched.runsTask c ∧ ticks ≠ 0 then some { m with sched := m.sched.sleep c ticks }
    else none
  | .terminateTask id => some { m with sched := (m.sched.terminateTask id).2.2 }
  | .exitTask c =>
    if m.sched.runsTask c then some { m with sched := m.sched.exitTask c } else none
  | .detachCurrentTask c => some { m with sched := (m.sched.detachCurrentTask c).2 }
  | .replaceCurrentTaskContext c name userData =>
    some { m with sched := (m.sched.replaceCurrentTaskContext c name userData).2 }

/-- Every interleaving of the sections after `sched::init`. -/
def schedSystem : TransitionSystem Smp SchedOp :=
  TransitionSystem.ofFun (fun m => ∃ bsp, m = ⟨Scheduler.init bsp, fun _ => false⟩) Smp.next

end VKernel.Sched

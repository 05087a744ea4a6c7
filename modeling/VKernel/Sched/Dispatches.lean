import Mathlib.Data.Finset.Sort
import VKernel.Lib.RoundRobin
import VKernel.Sched.Interleaving

/-!
# `VKernel.Sched.Dispatches`: the order in which a CPU takes its tasks

`pick_next_task` walks the slots with `((start + i - 1) % (g_task_count - 1)) + 1`.
`Scheduler.roundRobin` is what this is for: the slots behind the current one in ascending
order, then those up to it, and the idle task when none of them can run.

`Smp.dispatches` is the order in which CPU `c` takes tasks in a run: `start` gives the boot
CPU its first one, and every `preempt` that finds a task takes it.
-/

set_option autoImplicit false

namespace VKernel.Sched

open VKernel VKernel.Lib

namespace Scheduler

/-- The slots other than the idle task's, from behind `cur` on and with wrap-around. A
`cur` that is no such slot (the idle task, no task, or a slot that is gone) comes before
all of them. -/
def slotsAfter (s : Scheduler) (cur : Nat) : List Nat :=
  cyclicAfter (List.range' 1 (s.taskCount - 1)) cur

/-- Round robin: the first slot after `cur` whose task is ready and may run on CPU `c`,
else the idle task, else no task. -/
def roundRobin (s : Scheduler) (c : ApicId) (cur : Nat) : Nat :=
  match (s.slotsAfter cur).find? (s.eligible c) with
  | some next => next
  | none => if s.eligible c 0 then 0 else SCHED_NO_TASK

/-- The tasks other than the idle one that are ready and may run on CPU `c`. -/
def readySet (s : Scheduler) (c : ApicId) : Finset Nat :=
  (Finset.range s.taskCount).filter fun i => 0 < i ∧ s.eligible c i = true

end Scheduler

namespace Smp

/-- The slot that a section makes the current one of CPU `c`. -/
def takes (m : Smp) (c : ApicId) : SchedOp → Option Nat
  | .start =>
    if c = m.sched.bspApicId then (m.next .start).map fun m' => m'.sched.perCpuTask c
    else none
  | .preempt d timerTick regs =>
    if d = c ∧ m.online c ∧ m.sched.schedules then
      match (m.sched.preemptLocked c timerTick regs).2.1 with
      | .task next => some next
      | .idle | .resume => none
    else none
  | _ => none

/-- A section, or nothing when it cannot run. -/
def after (m : Smp) (op : SchedOp) : Smp := (m.next op).getD m

/-- The slots that CPU `c` takes in a run, in order. -/
def dispatches (c : ApicId) : Smp → List SchedOp → List Nat
  | _, [] => []
  | m, op :: ops => (m.takes c op).toList ++ dispatches c (m.after op) ops

/-- Whenever CPU `c` picks a task, the ready ones that may run there are those of `S`:
behind `wake_sleeping_tasks` and after `c` has let go of the task it ran. -/
def FixedReady (S : Finset Nat) (c : ApicId) (m : Smp) : SchedOp → Prop
  | .start => c = m.sched.bspApicId → m.sched.readySet c = S
  | .preempt d timerTick regs =>
    d = c → (m.sched.preemptRelease c timerTick regs).2.readySet c = S
  | _ => True

instance (S : Finset Nat) (c : ApicId) (m : Smp) : ∀ op, Decidable (FixedReady S c m op)
  | .start => inferInstanceAs (Decidable (_ → _))
  | .preempt _ _ _ => inferInstanceAs (Decidable (_ → _))
  | .createTask _ _ | .startAp _ | .yield _ | .preemptEntry _ | .sleep _ _ | .terminateTask _
  | .exitTask _ | .detachCurrentTask _ | .replaceCurrentTaskContext _ _ _ =>
    inferInstanceAs (Decidable True)

end Smp

end VKernel.Sched

import Mathlib.Data.Finset.Card
import Mathlib.Data.Finset.Range
import VKernel.Sched.Interleaving

/-!
# `VKernel.Sched.Ticks`: which interrupts are counted

`yield` sets the flag of its CPU, enables the interrupts again and raises the timer vector with
an `int` instruction. A timer interrupt of that CPU can come between the two, and then `preempt`
takes it for the one that the yield raises. `clockSystem` has the two interrupts as two steps, and
`pending` says which tasks are between the flag and the `int`.

`preempt` looks at the flag before it takes the lock, and its CPU takes no interrupt until it
returns. `entered` is this stretch, with the `timer_tick` that the locked section is called with.

`timerInterrupts` is not a variable of the kernel: it counts what `g_tick_count` is meant to count.
-/

set_option autoImplicit false

namespace VKernel.Sched

open VKernel VKernel.Lib

/-- A task between the flag of `yield` and its `int`. -/
structure PendingYield where
  /-- The CPU whose flag it has set. -/
  cpu : ApicId
  /-- A timer interrupt has consumed the flag. -/
  consumed : Bool
  deriving DecidableEq, Repr

/-- The scheduler, the points of the CPUs and the tasks, and the interrupts that came. -/
structure Clock where
  smp : Smp
  entered : ApicId → Option Bool
  pending : Nat → Option PendingYield
  /-- The task has called `exit_task`, or a fault handler has detached its context and is about
  to call it. Only the loop at the end of `exit_task` is left. -/
  exiting : Nat → Bool
  /-- The timer interrupts that the boot CPU has taken. -/
  timerInterrupts : Nat

/-- The steps. -/
inductive ClockOp
  /-- The task of CPU `c` calls `yield`, up to `asm_int_timer`. -/
  | yield (c : ApicId)
  /-- It raises the timer vector: the entry of `preempt`. -/
  | int (c : ApicId)
  /-- A timer interrupt of CPU `c`: the entry of `preempt`. -/
  | timer (c : ApicId)
  /-- The rest of `preempt`. -/
  | preempt (c : ApicId) (regs : Nat)
  /-- Another section. -/
  | sched (op : SchedOp)
  deriving DecidableEq, Repr

/-- The CPU whose task makes the call. -/
def SchedOp.caller : SchedOp → Option ApicId
  | .sleep c _ | .exitTask c | .detachCurrentTask c | .replaceCurrentTaskContext c _ _ => some c
  | _ => none

/-- The sections that `clockSystem` has steps of its own for. -/
def SchedOp.ofInterrupt : SchedOp → Bool
  | .yield _ | .preemptEntry _ | .preempt _ _ _ => true
  | _ => false

namespace Clock

/-- The slot of the task that CPU `c` executes. -/
def current (s : Clock) (c : ApicId) : Option Nat :=
  if s.smp.sched.runsTask c ∧ s.entered c = none then some (s.smp.sched.perCpuTask c) else none

/-- The task that makes the call is in its program: it is not on the way to its `int`, and of a
task that exits only `exit_task` is still to come. -/
def mayCall (s : Clock) (op : SchedOp) : Bool :=
  match op.caller with
  | none => true
  | some c => (s.current c).any fun i =>
    s.pending i == none && (!s.exiting i || op == .exitTask c)

/-- A new task is at its entry point. -/
def pendingAfter (s : Clock) : SchedOp → Nat → Option PendingYield
  | .createTask name userData =>
    if (s.smp.sched.createTask name userData).1.isSome then
      Function.update s.pending s.smp.sched.findAvailableTaskSlot none
    else s.pending
  | _ => s.pending

/-- The tasks that exit, after a section. -/
def exitingAfter (s : Clock) : SchedOp → Nat → Bool
  | .createTask name userData =>
    if (s.smp.sched.createTask name userData).1.isSome then
      Function.update s.exiting s.smp.sched.findAvailableTaskSlot false
    else s.exiting
  | .exitTask c | .detachCurrentTask c =>
    Function.update s.exiting (s.smp.sched.perCpuTask c) true
  | _ => s.exiting

/-- The entry of `preempt` on CPU `c`. -/
def enter (s : Clock) (c : ApicId) : Option Clock :=
  (s.smp.next (.preemptEntry c)).map fun m =>
    { s with
      smp := m
      entered := Function.update s.entered c (some (s.smp.sched.preemptEntry c).1) }

/-- A timer interrupt of CPU `c` consumes the flag of the task that has set it. -/
def consume (s : Clock) (c : ApicId) : Nat → Option PendingYield :=
  match s.current c with
  | some i =>
    if s.smp.sched.yieldInProgress c then
      Function.update s.pending i ((s.pending i).map fun p => { p with consumed := true })
    else s.pending
  | none => s.pending

/-- One step. `none` means that the step cannot be made in this state. -/
def next (s : Clock) : ClockOp → Option Clock
  | .yield c =>
    (s.current c).bind fun i =>
      if s.pending i = none then
        (s.smp.next (.yield c)).map fun m =>
          -- with a single task `yield` returns at once
          if s.smp.sched.schedules then
            { s with smp := m, pending := Function.update s.pending i (some ⟨c, false⟩) }
          else { s with smp := m }
      else none
  | .int c =>
    (s.current c).bind fun i =>
      if s.pending i = none then none
      else (s.enter c).map fun s' => { s' with pending := Function.update s.pending i none }
  | .timer c =>
    if s.entered c = none then
      (s.enter c).map fun s' =>
        { s' with
          pending := s.consume c
          timerInterrupts :=
            if c = s.smp.sched.bspApicId then s.timerInterrupts + 1 else s.timerInterrupts }
    else none
  | .preempt c regs =>
    (s.entered c).bind fun timerTick =>
      (s.smp.next (.preempt c timerTick regs)).map fun m =>
        { s with smp := m, entered := Function.update s.entered c none }
  | .sched op =>
    if op.ofInterrupt = false ∧ s.mayCall op then
      (s.smp.next op).map fun m =>
        { s with smp := m, pending := s.pendingAfter op, exiting := s.exitingAfter op }
    else none

/-- The tasks on the boot CPU whose flag a timer interrupt has consumed and whose own interrupt
is still to come. A terminated task does not run again, so none is to come from it. -/
def awaited (s : Clock) : Finset Nat :=
  (Finset.range s.smp.sched.taskCount).filter fun i =>
    s.pending i = some ⟨s.smp.sched.bspApicId, true⟩ ∧ (s.smp.sched.tasks i).state ≠ .terminated

/-- `g_tick_count` is behind the timer interrupts of the boot CPU by the interrupts that are
still to come. -/
def OnTime (s : Clock) : Prop :=
  s.smp.sched.tickCount ≤ s.timerInterrupts ∧
    s.timerInterrupts - s.smp.sched.tickCount = s.awaited.card

end Clock

/-- Every interleaving after `sched::init`. -/
def clockSystem : TransitionSystem Clock ClockOp :=
  TransitionSystem.ofFun
    (fun s => ∃ bsp, s = ⟨⟨Scheduler.init bsp, fun _ => false⟩, fun _ => none, fun _ => none,
      fun _ => false, 0⟩)
    Clock.next

end VKernel.Sched

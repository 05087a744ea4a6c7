import VKernel.Sched.Interleaving

/-!
# `VKernel.Sched.Sleep`: how long a task asks to sleep

`sched::sleep` takes a number of ticks. `sleep_from_timespec` (`kernel_api.cpp`), which is
behind `nanosleep` and `clock_nanosleep`, takes seconds and nanoseconds and converts them in
`u64` arithmetic. `Timespec.ticksRoundedUp` is the number of ticks that the request is, as an
integer: the conversion is right as far as it gives that number.

`Rested` says what a sleep is for: up to its due time the task is not woken.
-/

set_option autoImplicit false

namespace VKernel.Sched

open VKernel VKernel.Lib

/-- `SCHED_TICK_HZ`. -/
def SCHED_TICK_HZ : Nat := 100

/-- `VK_CLOCK_REALTIME`. -/
def VK_CLOCK_REALTIME : Nat := 0

/-- `VK_CLOCK_MONOTONIC`. -/
def VK_CLOCK_MONOTONIC : Nat := 1

/-- `VK_TIMER_ABSTIME`, a `vk_u32`. -/
def VK_TIMER_ABSTIME : Nat := 1

/-- `vk_timespec_t`. -/
structure Timespec where
  tvSec : Int
  tvNsec : Int
  deriving DecidableEq, Repr

/-- The errors of `sleep_from_timespec`: `VK_ERR_FAULT`, `VK_ERR_INVAL` and `VK_ERR_NOSYS`. -/
inductive TimespecError
  | fault | inval | nosys
  deriving DecidableEq, Repr

/-- The conversion in `sleep_from_timespec`. A request that is not zero is at least one tick. -/
def timespecTicks (seconds nanos : Nat) : Nat :=
  let ticks := seconds * SCHED_TICK_HZ % U64
  let ticks := add64 ticks ((nanos * SCHED_TICK_HZ + 999999999) / 1000000000)
  if ticks = 0 ∧ (seconds ≠ 0 ∨ nanos ≠ 0) then 1 else ticks

/-- `sleep_from_timespec` up to its call of `sched::sleep`: what it writes to `rem`, if that is
not null, and the ticks it sleeps for, 0 for no call. The complement of the flag is one of
`vk_u32`, so the upper half of `flags` is not looked at. -/
def sleepFromTimespec (clockId flags : Nat) (req rem : Option Timespec) :
    Except TimespecError (Option Timespec × Nat) :=
  match req with
  | none => .error .fault
  | some req =>
    if clockId ≠ VK_CLOCK_REALTIME ∧ clockId ≠ VK_CLOCK_MONOTONIC then .error .inval
    else if flags &&& (2 ^ 32 - 1 - VK_TIMER_ABSTIME) ≠ 0 ∨ flags &&& VK_TIMER_ABSTIME ≠ 0 then
      .error .nosys
    else if req.tvSec < 0 ∨ req.tvNsec < 0 ∨ 1000000000 ≤ req.tvNsec then .error .inval
    else .ok (rem.map fun _ => ⟨0, 0⟩, timespecTicks req.tvSec.toNat req.tvNsec.toNat)

/-- The requested time in ticks, rounded up. -/
def Timespec.ticksRoundedUp (t : Timespec) : Nat :=
  ((t.tvSec.toNat * 1000000000 + t.tvNsec.toNat) * SCHED_TICK_HZ + 999999999) / 1000000000

namespace Smp

/-- `sched::sleep` called by the task of CPU `c`, up to its loop. With no ticks it yields. -/
def sleepCall (m : Smp) (c : ApicId) (ticks : Nat) : Option Smp :=
  if ticks = 0 then m.next (.yield c) else m.next (.sleep c ticks)

/-- `clock_nanosleep` called by the task of CPU `c`, for a request that is accepted. -/
def nanosleepCall (m : Smp) (c : ApicId) (clockId flags : Nat) (req rem : Option Timespec) :
    Option Smp :=
  match sleepFromTimespec clockId flags req rem with
  | .error _ => none
  | .ok (_, ticks) => if ticks ≠ 0 then m.sleepCall c ticks else some m

/-- The task of slot `i` goes to sleep. -/
def SleepsAgain (i : Nat) (m : Smp) : SchedOp → Prop
  | .sleep c _ => m.sched.perCpuTask c = i
  | _ => False

/-- In every state of every run from `m` on in which slot `i` is still blocked from its sleep,
`wake_sleeping_tasks` does not make it ready before tick `due`. -/
def Rested (m : Smp) (i due : Nat) : Prop :=
  ∀ n, (schedSystem.restrict fun m op => ¬ SleepsAgain i m op).Leads m n →
    (n.sched.tasks i).state = .blocked → n.sched.tickCount < due →
      (n.sched.wakeSleepingTasks.tasks i).state ≠ .ready

end Smp

end VKernel.Sched

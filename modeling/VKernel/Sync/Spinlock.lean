import Mathlib.Logic.Function.Basic
import VKernel.Lib.Transition
import VKernel.Sched.Scheduler

/-!
# `VKernel.Sync.Spinlock`: the test-and-set lock of `spinlock.h`

`spinSystem` runs `acquire`, `try_acquire` and `release` on several CPUs, one access to memory
or to `RFLAGS.IF` at a time, over any set of locks. The code around these calls is arbitrary:
it may take any lock at any time, and it gives back the lock that it took last.

A CPU executes the frame `top`. An interrupt puts a new frame on top, and `iretq` takes it off.
The scheduler may exchange what is below the frame of an interrupt handler, so a call that was
interrupted may go on on another CPU. Only maskable interrupts are modelled: a fault or an NMI
inside of a critical section ends in the crash path.

The flag in `Frame.held` is not in the source: it records what `RFLAGS.IF` was when `acquire`
was called. So is `was` in `Pc.restoring`.
-/

set_option autoImplicit false

namespace VKernel.Sync

open VKernel.Lib
open VKernel.Sched (ApicId)

/-- `spinlock`. Of `saved_flags` only `FLAGS_INTERRUPT` is ever looked at. -/
structure Spinlock where
  locked : Nat
  savedFlags : Bool
  deriving DecidableEq, Repr

/-- A lock that nobody holds. -/
def Spinlock.free : Spinlock := ⟨0, false⟩

/-- `current_cpu_apic_id() + 1`. -/
def self (c : ApicId) : Nat := c.val + 1

/-- `held_by_self`. -/
def Spinlock.heldBySelf (l : Spinlock) (c : ApicId) : Bool := l.locked == self c

/-- Where a frame is in the code of the lock. `tryOnly` tells `try_acquire` from `acquire`. -/
inductive Pc (Lk : Type)
  /-- Outside of the lock's code. -/
  | idle
  /-- Behind `read_rflags`. -/
  | flagsRead (l : Lk) (flags tryOnly : Bool)
  /-- Behind `disable_interrupts`, in front of `atomic_cmpxchg`. -/
  | spinning (l : Lk) (flags tryOnly : Bool)
  /-- Behind the exchange that took the lock. -/
  | storing (l : Lk) (flags : Bool)
  /-- In `release`, behind the read of `saved_flags`. -/
  | releasing (l : Lk) (flags : Bool)
  /-- Behind `locked = 0`. -/
  | restoring (flags was : Bool)
  deriving DecidableEq, Repr

/-- A flow of control with the locks that it took, the last one first. -/
structure Frame (Lk : Type) where
  pc : Pc Lk
  held : List (Lk × Bool)
  deriving DecidableEq, Repr

/-- A CPU. The frames below `top` were interrupted. -/
structure Cpu (Lk : Type) where
  interrupts : Bool
  top : Frame Lk
  suspended : List (Frame Lk)
  deriving DecidableEq, Repr

/-- The CPUs, the locks, and the stacks of the tasks that are on no CPU. -/
structure Machine (Lk : Type) where
  cpus : ApicId → Cpu Lk
  locks : Lk → Spinlock
  pool : List (List (Frame Lk))

/-- What the code around the lock does, `run` for the next step inside of the lock's code, and
the interrupts. -/
inductive SpinOp (Lk : Type)
  | acquire (c : ApicId) (l : Lk)
  | tryAcquire (c : ApicId) (l : Lk)
  | release (c : ApicId)
  | run (c : ApicId)
  | setInterrupts (c : ApicId) (on : Bool)
  | interrupt (c : ApicId)
  | iretq (c : ApicId)
  | createTask
  | switchStack (c : ApicId) (i : Nat)
  deriving DecidableEq, Repr

namespace Machine

variable {Lk : Type} [DecidableEq Lk]

def setCpu (m : Machine Lk) (c : ApicId) (cpu : Cpu Lk) : Machine Lk :=
  { m with cpus := Function.update m.cpus c cpu }

def setPc (m : Machine Lk) (c : ApicId) (pc : Pc Lk) : Machine Lk :=
  m.setCpu c { m.cpus c with top := { (m.cpus c).top with pc := pc } }

/-- One step of the lock's code on CPU `c`. `none` means that the CPU is not in it. -/
def stepRun (m : Machine Lk) (c : ApicId) : Option (Machine Lk) :=
  let cpu := m.cpus c
  match cpu.top.pc with
  | .idle => none
  | .flagsRead l flags tryOnly =>
    -- `disable_interrupts`
    some (m.setCpu c
      { cpu with interrupts := false, top := { cpu.top with pc := .spinning l flags tryOnly } })
  | .spinning l flags tryOnly =>
    -- `atomic_cmpxchg(&locked, 0, self)`
    if (m.locks l).locked = 0 then
      some { m.setPc c (.storing l flags) with
        locks := Function.update m.locks l { m.locks l with locked := self c } }
    else if tryOnly then
      some (m.setCpu c
        { cpu with
          interrupts := cpu.interrupts || flags
          top := { cpu.top with pc := .idle } })
    else some m
  | .storing l flags =>
    some { m.setCpu c
        { cpu with top := { cpu.top with pc := .idle, held := (l, flags) :: cpu.top.held } } with
      locks := Function.update m.locks l { m.locks l with savedFlags := flags } }
  | .releasing l flags =>
    some { m.setCpu c
        { cpu with
          top :=
            { pc := .restoring flags ((cpu.top.held.head?.map Prod.snd).getD flags)
              held := cpu.top.held.tail } } with
      locks := Function.update m.locks l { m.locks l with locked := 0 } }
  | .restoring flags _ =>
    some (m.setCpu c
      { cpu with
        interrupts := cpu.interrupts || flags
        top := { cpu.top with pc := .idle } })

/-- One step. `none` means that it is not possible. -/
def next (m : Machine Lk) : SpinOp Lk → Option (Machine Lk)
  | .acquire c l =>
    if (m.cpus c).top.pc = .idle then some (m.setPc c (.flagsRead l (m.cpus c).interrupts false))
    else none
  | .tryAcquire c l =>
    if (m.cpus c).top.pc = .idle then some (m.setPc c (.flagsRead l (m.cpus c).interrupts true))
    else none
  | .release c =>
    match (m.cpus c).top.held with
    | [] => none
    | (l, _) :: _ =>
      if (m.cpus c).top.pc = .idle then
        some (m.setPc c (.releasing l (m.locks l).savedFlags))
      else none
  | .run c => m.stepRun c
  | .setInterrupts c on =>
    -- Code that holds a lock leaves the flag alone.
    if (m.cpus c).top = ⟨.idle, []⟩ then some (m.setCpu c { m.cpus c with interrupts := on })
    else none
  | .interrupt c =>
    let cpu := m.cpus c
    if cpu.interrupts then
      some (m.setCpu c ⟨false, ⟨.idle, []⟩, cpu.top :: cpu.suspended⟩)
    else none
  | .iretq c =>
    let cpu := m.cpus c
    match cpu.suspended with
    | [] => none
    | frame :: rest =>
      -- What was interrupted had the flag set.
      if cpu.top = ⟨.idle, []⟩ then some (m.setCpu c ⟨true, frame, rest⟩) else none
  | .createTask => some { m with pool := [⟨.idle, []⟩] :: m.pool }
  | .switchStack c i =>
    let cpu := m.cpus c
    match m.pool[i]? with
    | none => none
    | some frames =>
      if cpu.top = ⟨.idle, []⟩ ∧ cpu.suspended ≠ [] then
        some { m.setCpu c { cpu with suspended := frames } with
          pool := m.pool.set i cpu.suspended }
      else none

end Machine

/-- Every interleaving, from a state in which no lock is held and every CPU is outside of the
lock's code. -/
def spinSystem (Lk : Type) [DecidableEq Lk] : TransitionSystem (Machine Lk) (SpinOp Lk) :=
  TransitionSystem.ofFun
    (fun m => (∀ c, (m.cpus c).top = ⟨.idle, []⟩ ∧ (m.cpus c).suspended = []) ∧
      (∀ l, (m.locks l).locked = 0) ∧ m.pool = [])
    Machine.next

end VKernel.Sync

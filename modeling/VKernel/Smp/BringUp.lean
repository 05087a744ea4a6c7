import Mathlib.Logic.Function.Basic
import VKernel.Lib.Transition
import VKernel.Sched.Scheduler

/-!
# `VKernel.Smp.BringUp`: how `smp.cpp` starts the other CPUs

`smp::init` lists the CPUs of the MADT and starts them one after another. All of them run the
same trampoline, and what it needs stands in one page of low memory: the stack pointer
(`TRAM_STACK`), which `ap_entry_64` loads, and the flag (`TRAM_READY`), by which
`ap_init_secondary` answers. The boot CPU writes both for one CPU, sends INIT, SIPI and SIPI,
polls the flag for a second, and goes on to the next CPU whatever the result was.

`bringUp` is this exchange as a transition system. The IPIs to a CPU are a queue that is
delivered at any time, and a CPU that was started takes its steps at any time. The delays
between the IPIs have no state and do not occur.

`Ap.late` is not in the source: it records that a CPU took a step of the exchange while the
boot CPU was busy with another one. The temporary GDT, `TRAM_CR3` and the far pointer are
written once before the loop and are the same for all CPUs, so they are left out.
-/

set_option autoImplicit false

namespace VKernel.Smp

open VKernel.Lib
open VKernel.Sched (ApicId)

/-- `MAX_CPUS`. -/
def MAX_CPUS : Nat := 32

/-- `AP_STACK_SIZE`. -/
def AP_STACK_SIZE : Nat := 65536

/-- `timeout_ms * 1000` for the `timeout_ms` of `init`. -/
def READY_POLLS : Nat := 1000 * 1000

/-- `cpu_info`. -/
structure CpuInfo where
  apicId : ApicId
  acpiUid : Nat
  online : Bool
  deriving DecidableEq, Repr

/-- `madt_lapic`, as far as the callback reads it. -/
structure MadtLapic where
  acpiUid : Nat
  apicId : ApicId
  flags : Nat
  deriving DecidableEq, Repr

/-- The callback of `init` for one MADT entry. -/
def addLapic (bsp : ApicId) (cpus : List CpuInfo) (entry : MadtLapic) : List CpuInfo :=
  let enabled := entry.flags &&& 0x1 ≠ 0
  let onlineCapable := entry.flags &&& 0x2 ≠ 0
  if ¬ enabled ∧ ¬ onlineCapable then cpus
  else if cpus.length ≥ MAX_CPUS then cpus
  else cpus ++ [⟨entry.apicId, entry.acpiUid, decide (entry.apicId = bsp)⟩]

/-- `s_cpus` after the enumeration. -/
def enumerate (bsp : ApicId) (entries : List MadtLapic) : List CpuInfo :=
  entries.foldl (addLapic bsp) []

/-- `s_cpus` in front of the loop. Without a usable entry the boot CPU is the only one. -/
def listCpus (bsp : ApicId) (entries : List MadtLapic) : List CpuInfo :=
  if enumerate bsp entries = [] then [⟨bsp, 0, true⟩] else enumerate bsp entries

/-- `current_cpu_index` on the CPU with the given id. -/
def currentCpuIndex (cpus : List CpuInfo) (apicId : ApicId) : Nat :=
  match cpus.findIdx? fun cpu => cpu.apicId = apicId with
  | some i => i
  | none => if apicId.val < MAX_CPUS then apicId.val else 0

/-- The index that `activate` used on the boot CPU. It runs before `init`, when `s_cpu_count`
is 0 and `current_cpu_apic_id` answers with the initial value of `s_bsp_apic_id`. -/
def bootSlot : Nat := currentCpuIndex [] 0

/-- `cpu_count`. -/
def cpuCount (cpus : List CpuInfo) : Nat :=
  let online := cpus.countP fun cpu => cpu.online
  if online = 0 then 1 else online

/-- `&s_ap_stacks[index][AP_STACK_SIZE]`, for `s_ap_stacks` at `base`. -/
def stackTop (base index : Nat) : Nat := base + (index + 1) * AP_STACK_SIZE

/-- Where the boot CPU is in the loop of `init`, with the index of the loop. -/
inductive BspPc
  | next (i : Nat)
  | writeStack (i : Nat)
  | clearReady (i : Nat)
  | sendInit (i : Nat)
  | sendSipi (i : Nat)
  | sendSecondSipi (i : Nat)
  | waitReady (i polls : Nat)
  deriving DecidableEq, Repr

/-- The index of the loop. -/
def BspPc.index : BspPc → Nat
  | .next i | .writeStack i | .clearReady i | .sendInit i | .sendSipi i | .sendSecondSipi i
  | .waitReady i _ => i

/-- The two kinds of IPI that `init` sends. -/
inductive Ipi
  | init
  | startup
  deriving DecidableEq, Repr

/-- How far a CPU is: in reset since the firmware, waiting for a SIPI, in the trampoline,
behind the load of `rsp` in `ap_entry_64`, behind `ap_activate`, and behind the store to
`TRAM_READY`. -/
inductive ApPhase
  | off
  | waitSipi
  | trampoline
  | entered
  | activated
  | ready
  deriving DecidableEq, Repr

/-- The CPU has loaded its stack pointer. -/
def ApPhase.hasStack : ApPhase → Bool
  | .entered | .activated | .ready => true
  | _ => false

/-- The CPU has loaded a GDT and a task register. -/
def ApPhase.hasSlot : ApPhase → Bool
  | .activated | .ready => true
  | _ => false

/-- A CPU other than the boot CPU. `slot` is the index into the per-CPU descriptor tables
that `ap_activate` used. -/
structure Ap where
  phase : ApPhase
  stack : Nat
  slot : Nat
  late : Bool
  deriving DecidableEq, Repr

/-- The state of the exchange. -/
structure BringUp where
  cpus : List CpuInfo
  pc : BspPc
  tramStack : Nat
  tramReady : Nat
  ipis : ApicId → List Ipi
  aps : ApicId → Ap

/-- A step of the boot CPU, the arrival of an IPI, or a step of a CPU that was started. -/
inductive BringUpOp
  | bsp
  | deliver (c : ApicId)
  | ap (c : ApicId)
  deriving DecidableEq, Repr

namespace BringUp

variable (bsp : ApicId) (base : Nat)

/-- The CPU that the boot CPU is busy with. -/
def served (s : BringUp) : Option ApicId := s.cpus[s.pc.index]?.map CpuInfo.apicId

/-- `s_cpus[i].online = online`. -/
def setOnline (s : BringUp) (i : Nat) (online : Bool) : BringUp :=
  { s with cpus := s.cpus.modify i fun cpu => { cpu with online := online } }

/-- Send an IPI to the CPU at index `i`. -/
def send (s : BringUp) (i : Nat) (ipi : Ipi) : BringUp :=
  match s.cpus[i]? with
  | none => s
  | some cpu => { s with ipis := Function.update s.ipis cpu.apicId (s.ipis cpu.apicId ++ [ipi]) }

/-- A step of the loop of `init`. `none` is the end of the loop. -/
def stepBsp (s : BringUp) : Option BringUp :=
  match s.pc with
  | .next i =>
    match s.cpus[i]? with
    | none => none
    | some cpu =>
      if cpu.apicId = bsp then some { s with pc := .next (i + 1) }
      else some { s with pc := .writeStack i }
  | .writeStack i => some { s with tramStack := stackTop base i, pc := .clearReady i }
  | .clearReady i => some { s with tramReady := 0, pc := .sendInit i }
  | .sendInit i => some { s.send i .init with pc := .sendSipi i }
  | .sendSipi i => some { s.send i .startup with pc := .sendSecondSipi i }
  | .sendSecondSipi i => some { s.send i .startup with pc := .waitReady i READY_POLLS }
  | .waitReady i (polls + 1) =>
    -- One round of the loop of `wait_ap_ready`.
    if s.tramReady ≠ 0 then some { s.setOnline i true with pc := .next (i + 1) }
    else some { s with pc := .waitReady i polls }
  | .waitReady i 0 => some { s.setOnline i false with pc := .next (i + 1) }

/-- The arrival of the oldest IPI to a CPU. INIT resets the CPU, and SIPI starts a CPU that
waits for it; any other ignores it. -/
def stepDeliver (s : BringUp) (c : ApicId) : Option BringUp :=
  match s.ipis c with
  | [] => none
  | .init :: rest =>
    some { s with
      ipis := Function.update s.ipis c rest
      aps := Function.update s.aps c { s.aps c with phase := .waitSipi } }
  | .startup :: rest =>
    let ap := s.aps c
    some { s with
      ipis := Function.update s.ipis c rest
      aps := Function.update s.aps c
        (if ap.phase = .waitSipi then { ap with phase := .trampoline } else ap) }

/-- A step of a CPU that was started. -/
def stepAp (s : BringUp) (c : ApicId) : Option BringUp :=
  let ap := s.aps c
  let late := ap.late || decide (s.served ≠ some c)
  match ap.phase with
  | .trampoline =>
    -- `ap_entry_64` loads `rsp`.
    some { s with
      aps := Function.update s.aps c { ap with phase := .entered, stack := s.tramStack, late } }
  | .entered =>
    -- `ap_activate` takes the descriptor tables of `current_cpu_index`.
    some { s with
      aps := Function.update s.aps c
        { ap with phase := .activated, slot := currentCpuIndex s.cpus c } }
  | .activated =>
    some { s with
      tramReady := 1
      aps := Function.update s.aps c { ap with phase := .ready, late } }
  | _ => none

/-- One step. -/
def next (s : BringUp) : BringUpOp → Option BringUp
  | .bsp => s.stepBsp bsp base
  | .deliver c => s.stepDeliver c
  | .ap c => s.stepAp c

/-- The state in front of the loop: nothing was sent, no CPU runs, and the page of the
trampoline holds anything. -/
structure Start (cpus : List CpuInfo) (s : BringUp) : Prop where
  cpus_eq : s.cpus = cpus
  pc_eq : s.pc = .next 0
  ipis_eq : ∀ c, s.ipis c = []
  off : ∀ c, (s.aps c).phase = .off
  late_eq : ∀ c, (s.aps c).late = false

end BringUp

/-- The exchange for the CPUs that were enumerated. -/
def bringUp (bsp : ApicId) (base : Nat) (cpus : List CpuInfo) :
    TransitionSystem BringUp BringUpOp :=
  TransitionSystem.ofFun (BringUp.Start cpus) (BringUp.next bsp base)

end VKernel.Smp

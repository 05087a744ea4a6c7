import VKernel.Process.Teardown
import VKernel.Proofs.Sched.SlotStep

/-!
# `VKernel.Proofs.Process.KernelStep`: what a kernel step is made of

`kernelStep_of_next` is the inversion of `Kernel.next`, and every invariant is derived from it:
`next_smp` says which section of the scheduler a step contains, so the scheduler's invariants
hold of the kernel too, `phaseStep_of_next` what it does to the phase of a CPU, and
`pcStep_of_next` to the place of a task.
-/

set_option autoImplicit false

namespace VKernel.Proofs.Process

open VKernel VKernel.Lib VKernel.Sched VKernel.Process VKernel.Proofs.Sched

/-- The section that a step contains. -/
def sectionOf : KernelOp → Option SchedOp
  | .createTask name userData => some (.createTask name userData)
  | .start => some .start
  | .startAp c => some (.startAp c)
  | .yield c => some (.yield c)
  | .preemptEntry c => some (.preemptEntry c)
  | .preempt c b regs => some (.preempt c b regs)
  | .sleep c ticks => some (.sleep c ticks)
  | .terminateTask _ id => some (.terminateTask id)
  | .exec c name ctx => some (.replaceCurrentTaskContext c name (some ctx))
  | .detach c => some (.detachCurrentTask c)
  | .exitTask c => some (.exitTask c)
  | _ => none

/-- The call that creates a task. -/
theorem sectionOf_eq_createTask {op : KernelOp} {name : List UInt8} {userData : Option Ctx}
    (h : sectionOf op = some (.createTask name userData)) : op = .createTask name userData := by
  cases op
  all_goals simp_all [sectionOf]

/-- The call that replaces a context. -/
theorem sectionOf_eq_replace {op : KernelOp} {c : ApicId} {name : List UInt8}
    {userData : Option Ctx}
    (h : sectionOf op = some (.replaceCurrentTaskContext c name userData)) :
    ∃ ctx, op = .exec c name ctx := by
  cases op
  all_goals simp_all [sectionOf]

/-- The call that preempts. -/
theorem sectionOf_eq_preempt {op : KernelOp} {c : ApicId} {b : Bool} {regs : Nat}
    (h : sectionOf op = some (.preempt c b regs)) : op = .preempt c b regs := by
  cases op
  all_goals simp_all [sectionOf]

/-- A locked section changes the scheduler only. -/
theorem atomically_eq {k k' : Kernel} {op : SchedOp} (h : k.atomically op = some k') :
    ∃ m, k.smp.next op = some m ∧ k' = { k with smp := m } := by
  obtain ⟨m, hm, rfl⟩ := Option.map_eq_some_iff.mp h
  exact ⟨m, hm, rfl⟩

/-- A task in its program is the current task of a CPU that is not in `preempt`. -/
theorem current_of_inProgram {k : Kernel} {c : ApicId} {i : Nat} (h : k.inProgram c = some i) :
    k.current c = some i ∧ k.pc i = .normal := by
  obtain ⟨j, hj, hpc⟩ := Option.bind_eq_some_iff.mp h
  split at hpc
  · rename_i hnormal
    obtain rfl := Option.some.inj hpc
    exact ⟨hj, hnormal⟩
  · simp at hpc

/-- `exec` runs in the current task of its CPU. -/
theorem current_of_exec {k k' : Kernel} {c : ApicId} {name : List UInt8} {ctx : Ctx}
    (h : k.next (.exec c name ctx) = some k') : k.current c = some (k.smp.sched.perCpuTask c) := by
  obtain ⟨i, hi, -⟩ := Option.bind_eq_some_iff.mp h
  have hcur := (current_of_inProgram hi).1
  unfold Kernel.current at hcur ⊢
  split
  · rfl
  · rename_i hno
    simp [hno] at hcur

/-- What `terminate_task` takes is the context of a task that is on no CPU. -/
theorem terminateTask_taken {s : Scheduler} {id : Nat} {x : Ctx}
    (h : (s.terminateTask id).2.1 = some x) :
    ∃ n < s.taskCount, n ≠ 0 ∧ (s.tasks n).id = id ∧ (s.tasks n).currentCpu = none ∧
      (s.tasks n).userData = some x ∧
      (s.terminateTask id).2.2 = s.setTask n (Scheduler.terminated (s.tasks n)).2 := by
  rcases terminateTask_cases s id with ⟨-, hnone⟩ | ⟨n, hn, hn0, hid, htaken, hout⟩
  · exact absurd (hnone.symm.trans h) (by simp)
  · rw [(terminated_spec (s.tasks n)).2, h] at htaken
    split at htaken
    · rename_i hcpu
      exact ⟨n, hn, hn0, hid, hcpu, htaken.symm, hout⟩
    · simp at htaken

/-- What a step does, with a constructor for each branch of `Kernel.next` that returns a state.
`m` is the scheduler behind the locked section of the step. -/
inductive KernelStep (k : Kernel) : KernelOp → Kernel → Prop
  | createTask (name : List UInt8) (userData : Option Ctx) (m : Smp)
      (hfresh : ¬ userData.any k.used = true)
      (hm : k.smp.next (.createTask name userData) = some m) :
      KernelStep k (.createTask name userData)
        { k with
          smp := m
          used := fun x => k.used x || userData == some x
          pc := if (k.smp.sched.createTask name userData).1.isSome = true
            then Function.update k.pc k.smp.sched.findAvailableTaskSlot .normal else k.pc }
  | start (m : Smp) (hm : k.smp.next .start = some m) :
      KernelStep k .start
        { k with
          smp := m
          staleRead := k.staleRead ||
            Kernel.stale { k with smp := m } (m.sched.perCpuTask m.sched.bspApicId) }
  | startAp (c : ApicId) (m : Smp) (hm : k.smp.next (.startAp c) = some m) :
      KernelStep k (.startAp c) { k with smp := m }
  | yield (c : ApicId) (m : Smp) (hm : k.smp.next (.yield c) = some m) :
      KernelStep k (.yield c) { k with smp := m }
  | preemptEntry (c : ApicId) (m : Smp) (hm : k.smp.next (.preemptEntry c) = some m) :
      KernelStep k (.preemptEntry c) { k with smp := m }
  | preempt (c : ApicId) (b : Bool) (regs : Nat) (hrun : k.cpu c = .running)
      (hsched : k.smp.sched.schedules = true)
      (hm : k.smp.next (.preempt c b regs) =
        some { k.smp with sched := (k.smp.sched.preemptLocked c b regs).2.2 }) :
      KernelStep k (.preempt c b regs)
        (({ k with smp := { k.smp with
            sched := (k.smp.sched.preemptLocked c b regs).2.2 } }).enterSwitch c
          (k.smp.sched.perCpuTask c) (k.smp.sched.preemptLocked c b regs).1
          (k.smp.sched.preemptLocked c b regs).2.1)
  | preemptOff (c : ApicId) (b : Bool) (regs : Nat) (hrun : k.cpu c = .running)
      (hsched : k.smp.sched.schedules = false)
      (hm : k.smp.next (.preempt c b regs) = some k.smp) :
      KernelStep k (.preempt c b regs) k
  | switchCleanup (c : ApicId) (old : Nat) (x : Ctx) (sw : Switch)
      (hcpu : k.cpu c = .switching old (some (.pending, x)) sw) :
      KernelStep k (.switchCleanup c)
        { k.countStart x with
          cpu := Function.update k.cpu c (.switching old (some (.started, x)) sw) }
  | switchFree (c : ApicId) (old : Nat) (x : Ctx) (sw : Switch)
      (hcpu : k.cpu c = .switching old (some (.started, x)) sw) :
      KernelStep k (.switchFree c)
        { k.markFreed x with cpu := Function.update k.cpu c (.switching old none sw) }
  | switchReturn (c : ApicId) (old n : Nat) (hcpu : k.cpu c = .switching old none (.task n)) :
      KernelStep k (.switchReturn c)
        { k with
          cpu := Function.update k.cpu c .running
          staleRead := k.staleRead || k.stale n }
  | switchBack (c : ApicId) (old : Nat) (sw : Switch) (hcpu : k.cpu c = .switching old none sw) :
      KernelStep k (.switchReturn c) { k with cpu := Function.update k.cpu c .running }
  | readContext (c : ApicId) (i : Nat) (hi : k.inProgram c = some i) :
      KernelStep k (.readContext c) { k with staleRead := k.staleRead || k.stale i }
  | sleep (c : ApicId) (ticks : Nat) (m : Smp) (hm : k.smp.next (.sleep c ticks) = some m) :
      KernelStep k (.sleep c ticks) { k with smp := m }
  | terminateTask (c : ApicId) (id i : Nat) (m : Smp) (hi : k.inProgram c = some i)
      (hm : k.smp.next (.terminateTask id) = some m)
      (htaken : (k.smp.sched.terminateTask id).2.1 = none) :
      KernelStep k (.terminateTask c id) { k with smp := m }
  | terminateTake (c : ApicId) (id i : Nat) (x : Ctx) (m : Smp) (hi : k.inProgram c = some i)
      (hm : k.smp.next (.terminateTask id) = some m)
      (htaken : (k.smp.sched.terminateTask id).2.1 = some x) :
      KernelStep k (.terminateTask c id)
        (Kernel.goto { k with smp := m } i (.cleanup .pending x .resume))
  | exec (c : ApicId) (name : List UInt8) (ctx : Ctx) (i : Nat) (x : Ctx) (m : Smp)
      (hi : k.inProgram c = some i) (hdata : k.contextOf i = some x) (hfresh : ¬ k.used ctx = true)
      (hm : k.smp.next (.replaceCurrentTaskContext c name (some ctx)) = some m)
      (hdone : (k.smp.sched.replaceCurrentTaskContext c name (some ctx)).1 = true) :
      KernelStep k (.exec c name ctx)
        (Kernel.goto { k with smp := m, used := fun y => k.used y || y == ctx } i
          (.cleanup .pending x .resume))
  | execFailed (c : ApicId) (name : List UInt8) (ctx : Ctx) (m : Smp)
      (hm : k.smp.next (.replaceCurrentTaskContext c name (some ctx)) = some m)
      (hfail : (k.smp.sched.replaceCurrentTaskContext c name (some ctx)).1 = false) :
      KernelStep k (.exec c name ctx)
        { k with smp := m, used := fun y => k.used y || y == ctx }
  | detach (c : ApicId) (i : Nat) (x : Ctx) (m : Smp) (hi : k.inProgram c = some i)
      (hm : k.smp.next (.detachCurrentTask c) = some m) (hdata : k.contextOf i = some x) :
      KernelStep k (.detach c) (Kernel.goto { k with smp := m } i (.cleanup .pending x .exit))
  | detachBare (c : ApicId) (i : Nat) (m : Smp) (hi : k.inProgram c = some i)
      (hm : k.smp.next (.detachCurrentTask c) = some m) (hdata : k.contextOf i = none) :
      KernelStep k (.detach c) (Kernel.goto { k with smp := m } i .exited)
  | beginExit (c : ApicId) (i : Nat) (x : Ctx) (hi : k.inProgram c = some i)
      (hdata : k.contextOf i = some x) :
      KernelStep k (.beginExit c) (k.goto i (.cleanup .pending x .exit))
  | cleanupStart (c : ApicId) (i : Nat) (x : Ctx) (after : After) (hi : k.current c = some i)
      (hpc : k.pc i = .cleanup .pending x after) :
      KernelStep k (.cleanupStart c) ((k.countStart x).goto i (.cleanup .started x after))
  | cleanupFree (c : ApicId) (i : Nat) (x : Ctx) (after : After) (hi : k.current c = some i)
      (hpc : k.pc i = .cleanup .started x after) :
      KernelStep k (.cleanupFree c) ((k.markFreed x).goto i (.cleanup .freed x after))
  | cleanupDone (c : ApicId) (i : Nat) (x : Ctx) (hi : k.current c = some i)
      (hpc : k.pc i = .cleanup .freed x .resume) :
      KernelStep k (.cleanupDone c) (k.goto i .normal)
  | exitTask (c : ApicId) (i : Nat) (m : Smp) (hi : k.current c = some i)
      (hpoint : (∃ x, k.pc i = .cleanup .freed x .exit) ∨
        k.pc i = .normal ∧ k.contextOf i = none)
      (hm : k.smp.next (.exitTask c) = some m) :
      KernelStep k (.exitTask c) (Kernel.goto { k with smp := m } i .exited)

/-- Every step is one of these. -/
theorem kernelStep_of_next {k k' : Kernel} {op : KernelOp} (h : k.next op = some k') :
    KernelStep k op k' := by
  cases op with
  | createTask name userData =>
    simp only [Kernel.next] at h
    split at h
    · simp at h
    · rename_i hfresh
      obtain ⟨k₁, h₁, rfl⟩ := Option.map_eq_some_iff.mp h
      obtain ⟨m, hm, rfl⟩ := atomically_eq h₁
      exact .createTask name userData m hfresh hm
  | start =>
    obtain ⟨k₁, h₁, rfl⟩ := Option.map_eq_some_iff.mp h
    obtain ⟨m, hm, rfl⟩ := atomically_eq h₁
    exact .start m hm
  | startAp c =>
    obtain ⟨m, hm, rfl⟩ := atomically_eq (Option.ite_none_right_eq_some.mp h).2
    exact .startAp c m hm
  | yield c =>
    obtain ⟨m, hm, rfl⟩ := atomically_eq (Option.ite_none_right_eq_some.mp h).2
    exact .yield c m hm
  | preemptEntry c =>
    obtain ⟨m, hm, rfl⟩ := atomically_eq (Option.ite_none_right_eq_some.mp h).2
    exact .preemptEntry c m hm
  | preempt c b regs =>
    obtain ⟨hrun, h⟩ := Option.ite_none_right_eq_some.mp h
    obtain ⟨k₁, h₁, rfl⟩ := Option.map_eq_some_iff.mp h
    obtain ⟨m, hm, rfl⟩ := atomically_eq h₁
    cases sectionStep_of_next hm with
    | preempt _ _ _ _ hs =>
      simp only [hs, if_true]
      exact .preempt c b regs hrun hs hm
    | preemptOff _ _ _ hs =>
      simp only [hs]
      exact .preemptOff c b regs hrun hs hm
  | switchCleanup c =>
    simp only [Kernel.next] at h
    split at h
    · rename_i old x sw hcpu
      obtain rfl := Option.some.inj h
      exact .switchCleanup c old x sw hcpu
    · simp at h
  | switchFree c =>
    simp only [Kernel.next] at h
    split at h
    · rename_i old x sw hcpu
      obtain rfl := Option.some.inj h
      exact .switchFree c old x sw hcpu
    · simp at h
  | switchReturn c =>
    simp only [Kernel.next] at h
    split at h
    · rename_i old n hcpu
      obtain rfl := Option.some.inj h
      exact .switchReturn c old n hcpu
    · rename_i old hcpu
      obtain rfl := Option.some.inj h
      exact .switchBack c old .idle hcpu
    · rename_i old hcpu
      obtain rfl := Option.some.inj h
      exact .switchBack c old .resume hcpu
    · simp at h
  | readContext c =>
    obtain ⟨i, hi, rfl⟩ := Option.map_eq_some_iff.mp h
    exact .readContext c i hi
  | sleep c ticks =>
    obtain ⟨i, hi, h⟩ := Option.bind_eq_some_iff.mp h
    obtain ⟨m, hm, rfl⟩ := atomically_eq h
    exact .sleep c ticks m hm
  | terminateTask c id =>
    obtain ⟨i, hi, h⟩ := Option.bind_eq_some_iff.mp h
    obtain ⟨k₁, h₁, rfl⟩ := Option.map_eq_some_iff.mp h
    obtain ⟨m, hm, rfl⟩ := atomically_eq h₁
    split
    · rename_i x htaken
      exact .terminateTake c id i x m hi hm htaken
    · rename_i htaken
      exact .terminateTask c id i m hi hm htaken
  | exec c name ctx =>
    obtain ⟨i, hi, h⟩ := Option.bind_eq_some_iff.mp h
    split at h
    · simp at h
    · rename_i x hdata
      obtain ⟨hfresh, h⟩ := Option.ite_none_left_eq_some.mp h
      obtain ⟨k₁, h₁, rfl⟩ := Option.map_eq_some_iff.mp h
      obtain ⟨m, hm, rfl⟩ := atomically_eq h₁
      simp only []
      split
      · rename_i hdone
        exact .exec c name ctx i x m hi hdata hfresh hm hdone
      · rename_i hfail
        exact .execFailed c name ctx m hm (by simpa using hfail)
  | detach c =>
    obtain ⟨i, hi, h⟩ := Option.bind_eq_some_iff.mp h
    obtain ⟨k₁, h₁, rfl⟩ := Option.map_eq_some_iff.mp h
    obtain ⟨m, hm, rfl⟩ := atomically_eq h₁
    split
    · rename_i x hdata
      exact .detach c i x m hi hm hdata
    · rename_i hdata
      exact .detachBare c i m hi hm hdata
  | beginExit c =>
    obtain ⟨i, hi, h⟩ := Option.bind_eq_some_iff.mp h
    obtain ⟨x, hdata, rfl⟩ := Option.map_eq_some_iff.mp h
    exact .beginExit c i x hi hdata
  | cleanupStart c =>
    obtain ⟨i, hi, h⟩ := Option.bind_eq_some_iff.mp h
    split at h
    · rename_i x after hpc
      obtain rfl := Option.some.inj h
      exact .cleanupStart c i x after hi hpc
    · simp at h
  | cleanupFree c =>
    obtain ⟨i, hi, h⟩ := Option.bind_eq_some_iff.mp h
    split at h
    · rename_i x after hpc
      obtain rfl := Option.some.inj h
      exact .cleanupFree c i x after hi hpc
    · simp at h
  | cleanupDone c =>
    obtain ⟨i, hi, h⟩ := Option.bind_eq_some_iff.mp h
    split at h
    · rename_i x hpc
      obtain rfl := Option.some.inj h
      exact .cleanupDone c i x hi hpc
    · simp at h
  | exitTask c =>
    obtain ⟨i, hi, h⟩ := Option.bind_eq_some_iff.mp h
    -- behind the cleanup, or for a task without a context
    obtain ⟨hpoint, h⟩ : ((∃ x, k.pc i = .cleanup .freed x .exit) ∨
          k.pc i = .normal ∧ k.contextOf i = none) ∧
        (k.atomically (.exitTask c)).map (·.goto i .exited) = some k' := by
      split at h
      · rename_i x hpc
        exact ⟨.inl ⟨x, hpc⟩, h⟩
      · rename_i hpc
        obtain ⟨hnone, h⟩ := Option.ite_none_right_eq_some.mp h
        exact ⟨.inr ⟨hpc, hnone⟩, h⟩
      · simp at h
    obtain ⟨k₁, h₁, rfl⟩ := Option.map_eq_some_iff.mp h
    obtain ⟨m, hm, rfl⟩ := atomically_eq h₁
    exact .exitTask c i m hi hpoint hm

/-- The locked section of `preempt` as a step of the kernel. -/
theorem next_preempt {k k' : Kernel} {c : ApicId} {b : Bool} {regs : Nat}
    (h : k.next (.preempt c b regs) = some k') :
    k.cpu c = .running ∧
      (k.smp.sched.schedules = true ∧
          k' = ({ k with smp := { k.smp with
              sched := (k.smp.sched.preemptLocked c b regs).2.2 } }).enterSwitch c
            (k.smp.sched.perCpuTask c) (k.smp.sched.preemptLocked c b regs).1
            (k.smp.sched.preemptLocked c b regs).2.1 ∨
        k.smp.sched.schedules = false ∧ k' = k) := by
  cases kernelStep_of_next h with
  | preempt _ _ _ hrun hsched => exact ⟨hrun, Or.inl ⟨hsched, rfl⟩⟩
  | preemptOff _ _ _ hrun hsched => exact ⟨hrun, Or.inr ⟨hsched, rfl⟩⟩

/-- What a step is made of: a section of the scheduler or none, and the rest of the kernel
unchanged up to the record of the teardowns and the phase of one CPU. -/
theorem next_smp {k k' : Kernel} {op : KernelOp} (h : k.next op = some k') :
    (sectionOf op = none ∧ k'.smp = k.smp) ∨
      ∃ sop, sectionOf op = some sop ∧ k.smp.next sop = some k'.smp := by
  cases kernelStep_of_next h with
  | createTask _ _ _ _ hm | start _ hm | startAp _ _ hm | yield _ _ hm | preemptEntry _ _ hm
  | preempt _ _ _ _ _ hm | preemptOff _ _ _ _ _ hm | sleep _ _ _ hm
  | terminateTask _ _ _ _ _ hm | terminateTake _ _ _ _ _ _ hm | exec _ _ _ _ _ _ _ _ _ hm
  | execFailed _ _ _ _ hm | detach _ _ _ _ _ hm | detachBare _ _ _ _ hm
  | exitTask _ _ _ _ _ hm => exact Or.inr ⟨_, rfl, hm⟩
  | switchCleanup | switchFree | switchReturn | switchBack | readContext | beginExit
  | cleanupStart | cleanupFree | cleanupDone => exact Or.inl ⟨rfl, rfl⟩

/-- The sections of a step that meets the condition keep the scheduler's invariant. -/
theorem smpInv_of_next {k k' : Kernel} {op : KernelOp} (h : SmpInv k.smp)
    (hok : ∀ sop, sectionOf op = some sop → SleepsAlive k.smp sop)
    (hstep : k.next op = some k') : SmpInv k'.smp := by
  rcases next_smp hstep with ⟨-, hsame⟩ | ⟨sop, hsec, hsop⟩
  · exact hsame ▸ h
  · exact h.step (hok sop hsec) hsop

/-- What a step does to the phase of a CPU: nothing, or it enters the stretch behind the
lock, or it goes on in it, or it leaves it. -/
inductive PhaseStep (k k' : Kernel) (op : KernelOp) (c : ApicId) : Prop
  | same (h : k'.cpu c = k.cpu c)
  | entered (b : Bool) (regs : Nat) (hop : op = .preempt c b regs)
      (hrun : k.cpu c = .running) (hsched : k.smp.sched.schedules = true)
      (h : k'.cpu c = .switching (k.smp.sched.perCpuTask c)
        ((k.smp.sched.preemptLocked c b regs).1.map fun x => (.pending, x))
        (k.smp.sched.preemptLocked c b regs).2.1)
  | within (old : Nat) (cl cl' : Option (Stage × Ctx)) (sw : Switch)
      (hold : k.cpu c = .switching old cl sw) (h : k'.cpu c = .switching old cl' sw)
      (hsec : sectionOf op = none)
      (hcleans : ∀ st x, cl = some (st, x) →
        (∃ st', cl' = some (st', x)) ∨ k'.freed x = true)
  | left (old : Nat) (sw : Switch) (hop : op = .switchReturn c)
      (hold : k.cpu c = .switching old none sw) (h : k'.cpu c = .running)

/-- What a step does to the phase of a CPU. -/
theorem phaseStep_of_next {k k' : Kernel} {op : KernelOp} (h : k.next op = some k')
    (d : ApicId) : PhaseStep k k' op d := by
  cases kernelStep_of_next h with
  | preempt c b regs hrun hsched =>
    by_cases hd : d = c
    · subst hd
      exact .entered b regs rfl hrun hsched (Function.update_self ..)
    · exact .same (Function.update_of_ne hd ..)
  | switchCleanup c old x sw hold =>
    by_cases hd : d = c
    · subst hd
      refine .within old _ _ sw hold (Function.update_self ..) rfl fun st y hxy => .inl ?_
      cases hxy
      exact ⟨_, rfl⟩
    · exact .same (Function.update_of_ne hd ..)
  | switchFree c old x sw hold =>
    by_cases hd : d = c
    · subst hd
      refine .within old _ _ sw hold (Function.update_self ..) rfl fun st y hxy => .inr ?_
      cases hxy
      exact Function.update_self ..
    · exact .same (Function.update_of_ne hd ..)
  | switchReturn c old _ hold | switchBack c old _ hold =>
    by_cases hd : d = c
    · subst hd
      exact .left old _ rfl hold (Function.update_self ..)
    · exact .same (Function.update_of_ne hd ..)
  | createTask | start | startAp | yield | preemptEntry | preemptOff | readContext | sleep
  | terminateTask | terminateTake | exec | execFailed | detach | detachBare | beginExit
  | cleanupStart | cleanupFree | cleanupDone | exitTask => exact .same rfl

theorem goto_pc_ne {k : Kernel} {i j : Nat} {p : TaskPc} (h : j ≠ i) :
    (k.goto i p).pc j = k.pc j :=
  Function.update_of_ne h ..

@[simp] theorem goto_pc_same {k : Kernel} {i : Nat} {p : TaskPc} : (k.goto i p).pc i = p :=
  Function.update_self ..

/-- Only the CPU that executes a task, and `create_task` for a new one, move its point. -/
inductive PcStep (k k' : Kernel) (op : KernelOp) (i : Nat) : Prop
  | same (h : k'.pc i = k.pc i)
  | own (c : ApicId) (h : k.current c = some i)
  | created (name : List UInt8) (userData : Option Ctx) (hop : op = .createTask name userData)
      (hnew : (k.smp.sched.createTask name userData).1.isSome = true)
      (hslot : i = k.smp.sched.findAvailableTaskSlot) (h : k'.pc i = .normal)

/-- The step of the task that runs. -/
theorem PcStep.goto {k k₁ : Kernel} {op : KernelOp} {i j : Nat} {p : TaskPc} {c : ApicId}
    (hcur : k.current c = some j) (hsame : k₁.pc = k.pc) : PcStep k (k₁.goto j p) op i := by
  by_cases hij : i = j
  · exact .own c (hij ▸ hcur)
  · exact .same ((goto_pc_ne hij).trans (congrFun hsame i))

/-- What a step does to the place of a task. -/
theorem pcStep_of_next {k k' : Kernel} {op : KernelOp} (h : k.next op = some k') (i : Nat) :
    PcStep k k' op i := by
  cases kernelStep_of_next h with
  | createTask name userData =>
    by_cases hnew : (k.smp.sched.createTask name userData).1.isSome = true
    · by_cases hi : i = k.smp.sched.findAvailableTaskSlot
      · exact .created name userData rfl hnew hi (by simp [hnew, hi])
      · exact .same (by simp [hnew, hi])
    · exact .same (by simp [hnew])
  | terminateTake _ _ _ _ _ hj | exec _ _ _ _ _ _ hj | detach _ _ _ _ hj | detachBare _ _ _ hj
  | beginExit _ _ _ hj => exact .goto (current_of_inProgram hj).1 rfl
  | cleanupStart _ _ _ _ hj | cleanupFree _ _ _ _ hj | cleanupDone _ _ _ hj
  | exitTask _ _ _ hj => exact .goto hj rfl
  | start | startAp | yield | preemptEntry | preempt | preemptOff | switchCleanup | switchFree
  | switchReturn | switchBack | readContext | sleep | terminateTask | execFailed =>
    exact .same rfl

end VKernel.Proofs.Process

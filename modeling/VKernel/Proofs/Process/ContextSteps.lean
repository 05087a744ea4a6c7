import VKernel.Process.Waiting
import VKernel.Proofs.Process.Teardown
import VKernel.Proofs.Sched.Termination

/-!
# `VKernel.Proofs.Process.ContextSteps`: where the context of a task can go

`contextStep_of_next` is the inversion of a kernel step for one slot, its context and the point
of its task. A slot gets a context when its task is created and when it calls `exec`, and loses it
to the task itself, to the `preempt` that leaves it behind terminated, or to the task that
terminates it. Every other step keeps the context and the point.
-/

set_option autoImplicit false

namespace VKernel.Proofs.Process

open VKernel VKernel.Lib VKernel.Sched VKernel.Process VKernel.Proofs.Sched

/-- The condition on a step of the kernel: only live tasks sleep, and the id counter does not
wrap. -/
def Steady (k : Kernel) : KernelOp → Prop
  | .createTask _ _ => k.smp.sched.nextTaskId + 1 < U64
  | .sleep c _ => (k.smp.sched.tasks (k.smp.sched.perCpuTask c)).state ≠ .terminated
  | _ => True

instance (k : Kernel) : ∀ op, Decidable (Steady k op)
  | .createTask _ _ => inferInstanceAs (Decidable (_ < _))
  | .sleep _ _ => inferInstanceAs (Decidable (_ ≠ _))
  | .start | .startAp _ | .yield _ | .preemptEntry _ | .preempt _ _ _ | .switchCleanup _
  | .switchFree _ | .switchReturn _ | .readContext _ | .terminateTask _ _ | .exec _ _ _
  | .detach _ | .beginExit _ | .cleanupStart _ | .cleanupFree _ | .cleanupDone _ | .exitTask _ =>
    inferInstanceAs (Decidable True)

/-- A steady step keeps terminated tasks so. -/
theorem Steady.keepsTerminated {k : Kernel} {op : KernelOp} {sop : SchedOp}
    (h : Steady k op) (hsec : sectionOf op = some sop) : KeepsTerminated k.smp sop := by
  cases op
  all_goals simp only [sectionOf, Option.some.injEq, reduceCtorEq] at hsec
  all_goals subst hsec
  all_goals exact h

/-- The task can still make steps: it was not terminated, or is on a CPU. -/
def Alive (t : Task) : Prop := t.state ≠ .terminated ∨ t.currentCpu ≠ none

/-- A task that is not alive is terminated and on no CPU. -/
theorem not_alive {t : Task} : ¬ Alive t ↔ t.state = .terminated ∧ t.currentCpu = none := by
  unfold Alive
  rw [not_or, not_ne_iff, not_ne_iff]

/-- A task keeps its id and its context, and goes on or has ended as before. -/
structure Calm (t u : Task) : Prop where
  id : u.id = t.id
  userData : u.userData = t.userData
  alive : Alive u ↔ Alive t

/-- A task is left by its CPU, and without its context when it was terminated. -/
structure Left (t u : Task) : Prop where
  id : u.id = t.id
  state : u.state = .terminated ↔ t.state = .terminated
  current : u.currentCpu = none
  userData : u.userData = if t.state = .terminated then none else t.userData

/-- What a step does to the context of a slot and to the point of its task. -/
inductive ContextStep (k k' : Kernel) (op : KernelOp) (i : Nat) : Prop
  | created (name : List UInt8) (userData : Option Ctx) (hop : op = .createTask name userData)
      (hsome : (k.smp.sched.createTask name userData).1 = some k.smp.sched.nextTaskId)
      (hslot : i = k.smp.sched.findAvailableTaskSlot)
      (hid : (k'.smp.sched.tasks i).id = k.smp.sched.nextTaskId)
      (hstate : (k'.smp.sched.tasks i).state = .ready)
      (hdata : k'.contextOf i = userData) (hpc : k'.pc i = .normal)
  | calm (hlt : i < k.smp.sched.taskCount)
      (h : Calm (k.smp.sched.tasks i) (k'.smp.sched.tasks i)) (hpc : k'.pc i = k.pc i)
  /-- The locked section of `preempt` leaves the task. -/
  | left (c : ApicId) (b : Bool) (regs : Nat) (hop : op = .preempt c b regs)
      (hlt : i < k.smp.sched.taskCount) (hcpu : k.smp.sched.perCpuTask c = i)
      (hschedules : k.smp.sched.schedules = true)
      (h : Left (k.smp.sched.tasks i) (k'.smp.sched.tasks i)) (hpc : k'.pc i = k.pc i)
      (htaken : (k.smp.sched.tasks i).state = .terminated →
        cleanedOn (k'.cpu c) = k.contextOf i)
  /-- Another task or the task itself terminates it. -/
  | terminated (c : ApicId) (id : Nat) (hop : op = .terminateTask c id)
      (hlt : i < k.smp.sched.taskCount) (hzero : i ≠ 0) (hid : (k.smp.sched.tasks i).id = id)
      (h : Terminated (k.smp.sched.tasks i) (k'.smp.sched.tasks i)) (hpc : k'.pc i = k.pc i)
      (htaken : (k.smp.sched.tasks i).currentCpu = none → ∀ x, k.contextOf i = some x →
        ∃ j < k'.smp.sched.taskCount, cleanedBy (k'.pc j) = some x ∧
          Alive (k'.smp.sched.tasks j))
  /-- It has taken the context of a task that it terminated. -/
  | taking (x : Ctx) (hlt : i < k.smp.sched.taskCount)
      (hsame : k'.smp.sched.tasks i = k.smp.sched.tasks i) (hnormal : k.pc i = .normal)
      (hpc : k'.pc i = .cleanup .pending x .resume)
  /-- `exec` attaches a new context and leaves the old one to the task. -/
  | replaced (c : ApicId) (name : List UInt8) (x ctx : Ctx) (hop : op = .exec c name ctx)
      (hlt : i < k.smp.sched.taskCount) (hcpu : k.smp.sched.perCpuTask c = i)
      (hdone : (k.smp.sched.replaceCurrentTaskContext c name (some ctx)).1 = true)
      (hid : (k'.smp.sched.tasks i).id = (k.smp.sched.tasks i).id)
      (hcur : (k.smp.sched.tasks i).currentCpu ≠ none)
      (hcur' : (k'.smp.sched.tasks i).currentCpu ≠ none)
      (hdata : k.contextOf i = some x) (hnormal : k.pc i = .normal)
      (hdata' : k'.contextOf i = some ctx) (hpc : k'.pc i = .cleanup .pending x .resume)
  /-- A fault takes the context away from the task that runs. -/
  | detached (c : ApicId) (hop : op = .detach c) (hlt : i < k.smp.sched.taskCount)
      (hid : (k'.smp.sched.tasks i).id = (k.smp.sched.tasks i).id)
      (hcur : (k.smp.sched.tasks i).currentCpu ≠ none)
      (hcur' : (k'.smp.sched.tasks i).currentCpu ≠ none) (hnormal : k.pc i = .normal)
      (hdata : k'.contextOf i = none)
      (hpc : (∃ x, k.contextOf i = some x ∧ k'.pc i = .cleanup .pending x .exit) ∨
        k.contextOf i = none ∧ k'.pc i = .exited)
  /-- The task enters its exit. -/
  | exiting (x : Ctx) (hlt : i < k.smp.sched.taskCount)
      (hsame : k'.smp.sched.tasks i = k.smp.sched.tasks i) (hnormal : k.pc i = .normal)
      (hdata : k.contextOf i = some x) (hpc : k'.pc i = .cleanup .pending x .exit)
  /-- Its call of `cleanup_process_context` goes on, up to where the context is freed. -/
  | advanced (x : Ctx) (st : Stage) (after : After) (hlt : i < k.smp.sched.taskCount)
      (hsame : k'.smp.sched.tasks i = k.smp.sched.tasks i)
      (hpc : ∃ st₀, k.pc i = .cleanup st₀ x after) (hpc' : k'.pc i = .cleanup st x after)
      (hfreed : st = .freed → k'.freed x = true)
  /-- That call returns. -/
  | resumed (x : Ctx) (hlt : i < k.smp.sched.taskCount)
      (hsame : k'.smp.sched.tasks i = k.smp.sched.tasks i)
      (hpc : k.pc i = .cleanup .freed x .resume) (hpc' : k'.pc i = .normal)
  /-- The task calls `exit_task`. -/
  | exited (hlt : i < k.smp.sched.taskCount)
      (hid : (k'.smp.sched.tasks i).id = (k.smp.sched.tasks i).id)
      (hcur : (k.smp.sched.tasks i).currentCpu ≠ none)
      (hpc : (∃ x, k.pc i = .cleanup .freed x .exit) ∨ k.pc i = .normal ∧ k.contextOf i = none)
      (hdata : k'.contextOf i = none) (hpc' : k'.pc i = .exited)

/-! ### Sections that keep the context -/

/-- A slot whose fields are kept is calm. -/
theorem Calm.of_same {t u : Task} (hid : u.id = t.id) (hdata : u.userData = t.userData)
    (hcur : u.currentCpu = t.currentCpu) (hst : u.state = .terminated ↔ t.state = .terminated) :
    Calm t u := by
  refine ⟨hid, hdata, ?_⟩
  unfold Alive
  rw [hcur, ne_eq, hst]

/-- A slot that is kept is calm. -/
theorem Calm.refl (t : Task) : Calm t t := .of_same rfl rfl rfl Iff.rfl

/-- Waking terminates nothing. -/
theorem woken_terminated_iff {t u : Task} (h : Woken t u) :
    u.state = .terminated ↔ t.state = .terminated := by
  refine ⟨fun hu => by_contra fun hne => ?_, fun ht => by_contra fun hne => h.ne_terminated hne ht⟩
  rcases h.state with hsame | ⟨-, hready⟩
  · exact hne (hsame.symm.trans hu)
  · exact absurd (hready.symm.trans hu) (by simp)

/-- A slot that another task than its own touches, or a section that takes no context. -/
theorem calm_of_slotStep {m : Smp} {sop : SchedOp} {i : Nat} {t u : Task}
    (h : SlotStep m sop i t u)
    (hother : ∀ c, sop = .exitTask c ∨ sop = .detachCurrentTask c ∨
      (∃ name data, sop = .replaceCurrentTaskContext c name data) → m.sched.perCpuTask c ≠ i)
    (hterminate : ∀ id, sop ≠ .terminateTask id)
    (hpreempt : ∀ c b regs, sop = .preempt c b regs → m.sched.perCpuTask c ≠ i)
    (hsleep : ∀ c ticks, sop = .sleep c ticks → m.sched.perCpuTask c = i →
      t.state ≠ .terminated) : Calm t u := by
  cases h with
  | quiet hw => exact .of_same hw.id hw.userData hw.current (woken_terminated_iff hw)
  | released hcpu hw hr => exact absurd hcpu (hpreempt _ _ _ rfl)
  | dispatched hop hst haff hid hrun hpin hcur hdata =>
    exact ⟨hid, hdata, iff_of_true (.inr (by rw [hcur]; simp)) (.inl hst)⟩
  | slept hcpu n =>
    exact ⟨rfl, rfl, iff_of_true (.inl (by simp)) (.inl (hsleep _ _ rfl hcpu))⟩
  | terminated hid h => exact absurd rfl (hterminate _)
  | exited hcpu hop =>
    rcases hop with rfl | rfl
    · exact absurd hcpu (hother _ (.inl rfl))
    · exact absurd hcpu (hother _ (.inr (.inl rfl)))
  | replaced hcpu hst => exact absurd hcpu (hother _ (.inr (.inr ⟨_, _, rfl⟩)))

/-! ### One step -/

/-- The current task of a CPU. -/
theorem current_spec {k : Kernel} (h : SmpInv k.smp) {c : ApicId} {i : Nat}
    (hcur : k.current c = some i) :
    i < k.smp.sched.taskCount ∧ k.smp.sched.perCpuTask c = i ∧
      (k.smp.sched.tasks i).currentCpu = some c := by
  unfold Kernel.current at hcur
  split at hcur
  · rename_i hrun
    obtain rfl := Option.some.inj hcur
    have hlt : k.smp.sched.perCpuTask c < k.smp.sched.taskCount := by
      simpa [Scheduler.runsTask] using hrun.2
    exact ⟨hlt, rfl, (h.sched.own _ hlt c).mp rfl⟩
  · simp at hcur

section Step

variable {k k' : Kernel} {i : Nat}

/-- A section that belongs to no task, or to the task of another slot. -/
theorem contextStep_section {op : KernelOp} {sop : SchedOp} (h : SmpInv k.smp)
    (hsop : k.smp.next sop = some k'.smp) (hi : i < k'.smp.sched.taskCount)
    (hother : ∀ c, sop = .exitTask c ∨ sop = .detachCurrentTask c ∨
      (∃ name data, sop = .replaceCurrentTaskContext c name data) → k.smp.sched.perCpuTask c ≠ i)
    (hterminate : ∀ id, sop ≠ .terminateTask id)
    (hpreempt : ∀ c b regs, sop ≠ .preempt c b regs)
    (hcreate : ∀ name data, sop ≠ .createTask name data)
    (hsleep : ∀ c ticks, sop = .sleep c ticks →
      (k.smp.sched.tasks (k.smp.sched.perCpuTask c)).state ≠ .terminated)
    (hpc : k'.pc i = k.pc i) : ContextStep k k' op i := by
  cases tableStep_of_next h hsop hi with
  | created name data hop => exact absurd hop (hcreate name data)
  | kept hlt hs =>
    refine .calm hlt (calm_of_slotStep hs hother hterminate
      (fun c b regs hop => absurd hop (hpreempt c b regs)) ?_) hpc
    rintro c ticks hop rfl
    exact hsleep c ticks hop

/-- A step without a section that leaves the point of the task. -/
theorem contextStep_same {op : KernelOp} (hsmp : k'.smp = k.smp) (hi : i < k'.smp.sched.taskCount)
    (hpc : k'.pc i = k.pc i) :
    ContextStep k k' op i := by
  rw [hsmp] at hi
  refine .calm hi ?_ hpc
  rw [hsmp]
  exact .refl _

/-- `create_task`, for one slot. The lemmas that follow are the other calls. -/
theorem contextStep_createTask {name : List UInt8} {userData : Option Ctx} (h : SmpInv k.smp)
    (hstep : k.next (.createTask name userData) = some k') (hi : i < k'.smp.sched.taskCount) :
    ContextStep k k' (.createTask name userData) i := by
  cases kernelStep_of_next hstep with
  | createTask _ _ m _ hm =>
    by_cases hnew : (k.smp.sched.createTask name userData).1.isSome = true
    · by_cases hslot : i = k.smp.sched.findAvailableTaskSlot
      · have htask : m.sched.tasks i = k.smp.sched.newTask i name userData := by
          obtain rfl := Option.some.inj hm
          rw [hslot]
          exact createTask_slot hnew
        have hsome : (k.smp.sched.createTask name userData).1 = some k.smp.sched.nextTaskId := by
          unfold Scheduler.createTask at hnew ⊢
          simp only [] at hnew ⊢
          split at hnew
          · simp at hnew
          · split at hnew
            · simp at hnew
            · rename_i hfull hname
              rw [if_neg hfull, if_neg hname]
        refine .created name userData rfl hsome hslot ?_ ?_ ?_ ?_
        · show (m.sched.tasks i).id = _
          rw [htask]
          rfl
        · show (m.sched.tasks i).state = _
          rw [htask]
          rfl
        · show (m.sched.tasks i).userData = _
          rw [htask]
          rfl
        · simp [hnew, hslot]
      · cases tableStep_of_next h hm hi with
        | created _ _ _ _ hslot' => exact absurd hslot' hslot
        | kept hlt hs =>
          refine .calm hlt (calm_of_slotStep hs (by simp) (by simp) (by simp) (by simp)) ?_
          simp [hnew, hslot]
    · cases tableStep_of_next h hm hi with
      | created name' data' hop hsome =>
        simp only [SchedOp.createTask.injEq] at hop
        obtain ⟨rfl, rfl⟩ := hop
        exact absurd (by rw [hsome]; rfl) hnew
      | kept hlt hs =>
        refine .calm hlt (calm_of_slotStep hs (by simp) (by simp) (by simp) (by simp)) ?_
        simp [hnew]

/-- The new task of a slot that the current task rewrites. -/
theorem tasks_setTask_of_ne {s : Scheduler} {i j : Nat} {t : Task} (h : i ≠ j) :
    Calm (s.tasks i) ((s.setTask j t).tasks i) := by
  rw [setTask_ne _ _ _ _ h]
  exact .refl _

theorem contextStep_exec {c : ApicId} {name : List UInt8} {ctx : Ctx} (h : SmpInv k.smp)
    (hstep : k.next (.exec c name ctx) = some k') (hi : i < k'.smp.sched.taskCount) :
    ContextStep k k' (.exec c name ctx) i := by
  cases kernelStep_of_next hstep with
  | execFailed _ _ _ m hm hfail =>
    obtain rfl := Option.some.inj hm
    rw [replaceCurrentTaskContext_failed hfail] at hi ⊢
    exact contextStep_same rfl hi rfl
  | exec _ _ _ j x m hj hdata _ hm hdone =>
    obtain ⟨hcurrent, hnormal⟩ := current_of_inProgram hj
    obtain ⟨hjlt, hcpu, hcur⟩ := current_spec h hcurrent
    obtain rfl := Option.some.inj hm
    rw [replaceCurrentTaskContext_done hdone, hcpu] at hi ⊢
    by_cases hij : i = j
    · subst hij
      refine .replaced c name x ctx rfl hjlt hcpu hdone ?_ (by simp [hcur]) ?_ hdata hnormal ?_ ?_
      · show ((k.smp.sched.setTask i _).tasks i).id = _
        rw [setTask_same]
      · show ((k.smp.sched.setTask i _).tasks i).currentCpu ≠ _
        rw [setTask_same]
        simp [hcur]
      · show ((k.smp.sched.setTask i _).tasks i).userData = _
        rw [setTask_same]
      · simp [Kernel.goto]
    · exact .calm hi (tasks_setTask_of_ne hij) (Function.update_of_ne hij ..)

theorem contextStep_detach {c : ApicId} (h : SmpInv k.smp)
    (hstep : k.next (.detach c) = some k') (hi : i < k'.smp.sched.taskCount) :
    ContextStep k k' (.detach c) i := by
  -- both continuations move the point of the current task only
  have hgoto : ∀ j p, k.inProgram c = some j →
      ((∃ x, k.contextOf j = some x ∧ p = .cleanup .pending x .exit) ∨
        k.contextOf j = none ∧ p = .exited) →
      i < (k.smp.sched.detachCurrentTask c).2.taskCount →
      ContextStep k (Kernel.goto { k with smp := { k.smp with
        sched := (k.smp.sched.detachCurrentTask c).2 } } j p) (.detach c) i := by
    intro j p hj hpoint hi
    obtain ⟨hcurrent, hnormal⟩ := current_of_inProgram hj
    obtain ⟨hjlt, hcpu, hcur⟩ := current_spec h hcurrent
    have hout : (k.smp.sched.detachCurrentTask c).2 = k.smp.sched.setTask j
        { k.smp.sched.tasks j with
          userData := none, state := .terminated, affinityCpu := none } := by
      unfold Scheduler.detachCurrentTask
      simp [hcpu, hjlt]
    rw [hout] at hi ⊢
    by_cases hij : i = j
    · subst hij
      refine .detached c rfl hjlt ?_ (by simp [hcur]) ?_ hnormal ?_ ?_
      · show ((k.smp.sched.setTask i _).tasks i).id = _
        rw [setTask_same]
      · show ((k.smp.sched.setTask i _).tasks i).currentCpu ≠ _
        rw [setTask_same]
        simp [hcur]
      · show ((k.smp.sched.setTask i _).tasks i).userData = _
        rw [setTask_same]
      · rw [goto_pc_same]
        exact hpoint
    · exact .calm hi (tasks_setTask_of_ne hij) (goto_pc_ne hij)
  cases kernelStep_of_next hstep with
  | detach _ j x m hj hm hdata =>
    obtain rfl := Option.some.inj hm
    exact hgoto j _ hj (.inl ⟨x, hdata, rfl⟩) hi
  | detachBare _ j m hj hm hdata =>
    obtain rfl := Option.some.inj hm
    exact hgoto j .exited hj (.inr ⟨hdata, rfl⟩) hi

theorem contextStep_exitTask {c : ApicId} (h : SmpInv k.smp)
    (hstep : k.next (.exitTask c) = some k') (hi : i < k'.smp.sched.taskCount) :
    ContextStep k k' (.exitTask c) i := by
  cases kernelStep_of_next hstep with
  | exitTask _ j m hcurrent hpoint hm =>
    obtain ⟨hjlt, hcpu, hcur⟩ := current_spec h hcurrent
    have hout : k.smp.sched.exitTask c = k.smp.sched.setTask j
        { k.smp.sched.tasks j with
          state := .terminated, affinityCpu := none, userData := none } := by
      unfold Scheduler.exitTask
      rw [hcpu]
    obtain rfl : _ = m := by
      cases sectionStep_of_next hm with
      | exitTask => exact congrArg (fun s => { k.smp with sched := s }) hout.symm
    by_cases hij : i = j
    · subst hij
      refine .exited hjlt ?_ (by simp [hcur]) hpoint ?_ goto_pc_same
      · show ((k.smp.sched.setTask i _).tasks i).id = _
        rw [setTask_same]
      · show ((k.smp.sched.setTask i _).tasks i).userData = _
        rw [setTask_same]
    · exact .calm hi (tasks_setTask_of_ne hij) (goto_pc_ne hij)

/-- Behind the locked section of `preempt` its CPU is to clean up the context that it took. -/
theorem cleanedOn_enterSwitch (k : Kernel) (c : ApicId) (old : Nat) (ctx : Option Ctx)
    (switch : Switch) : cleanedOn ((k.enterSwitch c old ctx switch).cpu c) = ctx := by
  show cleanedOn (Function.update k.cpu c _ c) = ctx
  rw [Function.update_self]
  cases ctx with
  | none => rfl
  | some x => rfl

theorem contextStep_preempt {c : ApicId} {b : Bool} {regs : Nat} (h : SmpInv k.smp)
    (hstep : k.next (.preempt c b regs) = some k') (hi : i < k'.smp.sched.taskCount) :
    ContextStep k k' (.preempt c b regs) i := by
  have hsop : k.smp.next (.preempt c b regs) = some k'.smp := by
    rcases next_smp hstep with ⟨habs, -⟩ | ⟨sop, hsec, hsop⟩
    · exact absurd habs (by simp [sectionOf])
    · obtain rfl := Option.some.inj hsec
      exact hsop
  have hpc : k'.pc i = k.pc i := by
    rcases (next_preempt hstep).2 with ⟨-, rfl⟩ | ⟨-, rfl⟩
    · rfl
    · rfl
  cases tableStep_of_next h hsop hi with
  | created name data hop => exact absurd hop (by simp)
  | kept hlt hs =>
    generalize hu : k'.smp.sched.tasks i = u at hs
    cases hs with
    | quiet hw =>
      exact .calm hlt (hu ▸ .of_same hw.id hw.userData hw.current (woken_terminated_iff hw)) hpc
    | dispatched hop hst haff hid hrun hpin hcur hdata =>
      exact .calm hlt (hu ▸ ⟨hid, hdata, iff_of_true (.inr (by rw [hcur]; simp)) (.inl hst)⟩) hpc
    | exited hcpu hop => exact absurd hop (by simp)
    | released hcpu hw hr =>
      have hterm := woken_terminated_iff hw
      have hleft : Left (k.smp.sched.tasks i) (k'.smp.sched.tasks i) := by
        rw [hu]
        refine ⟨hr.id.trans hw.id, ?_, hr.current, ?_⟩
        · rw [hr.state, releasedState_eq_terminated, hterm]
        · simp only [hr.userData, hw.userData, hterm]
      -- a section that returns at once does not leave the task
      rcases (next_preempt hstep).2 with ⟨hschedules, hk'⟩ | ⟨-, rfl⟩
      · refine .left c b regs rfl hlt hcpu hschedules hleft hpc fun hst => ?_
        rw [hk', cleanedOn_enterSwitch, preemptLocked_taken h.sched.count,
          if_pos ⟨hcpu ▸ hlt, hcpu ▸ hst⟩, hcpu]
        rfl
      · exact absurd hleft.current (by rw [(h.sched.own i hlt c).mp hcpu]; simp)

/-- `terminate_task` takes the context of a task that is on no CPU, and leaves it to its caller. -/
theorem contextStep_terminateTask {c : ApicId} {id : Nat} (h : SmpInv k.smp)
    (hstep : k.next (.terminateTask c id) = some k') (hi : i < k'.smp.sched.taskCount) :
    ContextStep k k' (.terminateTask c id) i := by
  cases kernelStep_of_next hstep with
  | terminateTask _ _ _ m _ hm hnone =>
    obtain rfl := Option.some.inj hm
    rcases terminateTask_cases k.smp.sched id with ⟨hsame, -⟩ | ⟨n, hn, hn0, hid, htaken, hout⟩
    · simp only [hsame] at hi ⊢
      exact contextStep_same rfl hi rfl
    obtain ⟨hterm, hctx⟩ := terminated_spec (k.smp.sched.tasks n)
    rw [hctx, hnone] at htaken
    simp only [hout] at hi ⊢
    by_cases hin : i = n
    · subst hin
      refine .terminated c id rfl hn hn0 hid ?_ rfl fun hcpu x hx => ?_
      · show Terminated _ ((k.smp.sched.setTask i _).tasks i)
        rw [setTask_same]
        exact hterm
      · rw [if_pos hcpu] at htaken
        exact absurd (htaken.trans hx) (by simp)
    · exact .calm hi (tasks_setTask_of_ne hin) rfl
  | terminateTake _ _ j x m hj hm hsome =>
    obtain ⟨hcurrent, hnormal⟩ := current_of_inProgram hj
    obtain ⟨hjlt, -, hcur⟩ := current_spec h hcurrent
    obtain rfl := Option.some.inj hm
    obtain ⟨n, hn, hn0, hid, hoff, hx, hout⟩ := terminateTask_taken hsome
    obtain ⟨hterm, -⟩ := terminated_spec (k.smp.sched.tasks n)
    -- the caller is on its CPU, so it is another task
    have hjn : j ≠ n := by
      rintro rfl
      exact absurd (hoff.symm.trans hcur) (by simp)
    simp only [hout] at hi ⊢
    by_cases hin : i = n
    · subst hin
      refine .terminated c id rfl hn hn0 hid ?_ (goto_pc_ne (Ne.symm hjn)) fun _ y hy => ?_
      · show Terminated _ ((k.smp.sched.setTask i _).tasks i)
        rw [setTask_same]
        exact hterm
      · obtain rfl := Option.some.inj (hx.symm.trans hy)
        refine ⟨j, hjlt, by rw [goto_pc_same]; rfl, .inr ?_⟩
        show ((k.smp.sched.setTask i _).tasks j).currentCpu ≠ none
        rw [setTask_ne _ _ _ _ hjn, hcur]
        simp
    · by_cases hij : i = j
      · subst hij
        exact .taking x hi (setTask_ne _ _ _ _ hin) hnormal goto_pc_same
      · exact .calm hi (tasks_setTask_of_ne hin) (goto_pc_ne hij)

/-- A step of the current task that moves its point and nothing in the table. -/
theorem contextStep_goto {k₁ : Kernel} {op : KernelOp} {j : Nat} {p : TaskPc}
    (hsmp : k₁.smp = k.smp) (hpc : k₁.pc = k.pc)
    (hi : i < (k₁.goto j p).smp.sched.taskCount)
    (hown : i = j → ContextStep k (k₁.goto j p) op i) : ContextStep k (k₁.goto j p) op i := by
  by_cases hij : i = j
  · exact hown hij
  · refine contextStep_same hsmp hi ?_
    rw [goto_pc_ne hij, hpc]

/-- One step of the kernel, for one slot of the new table. -/
theorem contextStep_of_next {op : KernelOp} (h : SmpInv k.smp)
    (hok : Steady k op) (hstep : k.next op = some k') (hi : i < k'.smp.sched.taskCount) :
    ContextStep k k' op i := by
  cases kernelStep_of_next hstep with
  | createTask => exact contextStep_createTask h hstep hi
  | exec | execFailed => exact contextStep_exec h hstep hi
  | detach | detachBare => exact contextStep_detach h hstep hi
  | exitTask => exact contextStep_exitTask h hstep hi
  | terminateTask | terminateTake => exact contextStep_terminateTask h hstep hi
  | preempt | preemptOff => exact contextStep_preempt h hstep hi
  | start _ hm | startAp _ _ hm | yield _ _ hm | preemptEntry _ _ hm =>
    exact contextStep_section h hm hi (by simp) (by simp) (by simp) (by simp) (by simp) rfl
  | sleep c ticks m hm =>
    refine contextStep_section h hm hi (by simp) (by simp) (by simp) (by simp) ?_ rfl
    rintro d n ⟨⟩
    exact hok
  | switchCleanup | switchFree | switchReturn | switchBack | readContext =>
    exact contextStep_same rfl hi rfl
  | beginExit c j x hj hdata =>
    obtain ⟨hcurrent, hnormal⟩ := current_of_inProgram hj
    refine contextStep_goto rfl rfl hi ?_
    rintro rfl
    exact .exiting x hi rfl hnormal hdata goto_pc_same
  | cleanupStart c j x after hj hpc =>
    refine contextStep_goto rfl rfl hi ?_
    rintro rfl
    exact .advanced x .started after hi rfl ⟨_, hpc⟩ goto_pc_same (by simp)
  | cleanupFree c j x after hj hpc =>
    refine contextStep_goto rfl rfl hi ?_
    rintro rfl
    refine .advanced x .freed after hi rfl ⟨_, hpc⟩ goto_pc_same fun _ => ?_
    exact Function.update_self ..
  | cleanupDone c j x hj hpc =>
    refine contextStep_goto rfl rfl hi ?_
    rintro rfl
    exact .resumed x hi rfl hpc goto_pc_same

end Step

end VKernel.Proofs.Process

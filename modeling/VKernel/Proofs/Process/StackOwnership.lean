import VKernel.Proofs.Process.KernelStep

/-!
# `VKernel.Proofs.Process.StackOwnership`: a task's stack belongs to one CPU

A CPU is on the stack of slot `i` from the section that dispatches `i` until the `preempt`
that leaves it returns the next frame. `preempt` clears `current_cpu` in its locked
section, before it has left the stack, so `current_cpu` does not say who is on a stack.

The affinity pin does: it survives the locked section, so no other CPU dispatches the
task. It does not protect a terminated slot, whose pin is cleared: `create_task` may take
the slot while the CPU that left it is still behind its locked section.
-/

set_option autoImplicit false
set_option maxRecDepth 20000

namespace VKernel.Proofs.Process

open VKernel VKernel.Lib VKernel.Sched VKernel.Process VKernel.Proofs.Sched

/-- CPU `c` is in `preempt` behind its locked section and still on the stack of slot `i`. -/
def Leaves (k : Kernel) (c : ApicId) (i : Nat) : Prop :=
  ∃ cl sw, k.cpu c = .switching i cl sw

instance (k : Kernel) (c : ApicId) (i : Nat) : Decidable (Leaves k c i) :=
  match h : k.cpu c with
  | .running => .isFalse fun ⟨_, _, h'⟩ => by simp [h] at h'
  | .switching old cl sw =>
    if heq : old = i then .isTrue ⟨cl, sw, heq ▸ h⟩
    else .isFalse fun ⟨_, _, h'⟩ => heq (by simp [h] at h'; exact h'.1)

/-- CPU `c` has dispatched slot `i` and not yet left its stack. -/
def OnStack (k : Kernel) (c : ApicId) (i : Nat) : Prop :=
  i < k.smp.sched.taskCount ∧ (k.smp.sched.perCpuTask c = i ∨ Leaves k c i)

/-- The step neither writes a new frame into a stack that a CPU is on, nor dispatches a
task on whose stack another CPU is. -/
def StackSafe (k : Kernel) : KernelOp → Prop
  | .createTask name userData =>
    (k.smp.sched.createTask name userData).1.isSome →
      ∀ c, ¬ OnStack k c k.smp.sched.findAvailableTaskSlot
  | .preempt c b regs =>
    k.smp.sched.schedules = true → ∀ next,
      (k.smp.sched.preemptLocked c b regs).2.1 = .task next → ∀ d, d ≠ c → ¬ OnStack k d next
  | .start => ∀ s, k.smp.sched.start = some s → ∀ d, d ≠ k.smp.sched.bspApicId →
      ¬ OnStack k d (s.perCpuTask k.smp.sched.bspApicId)
  | _ => True

/-- The condition on a step: only live tasks sleep, and the slot that `create_task` finds is
not one that a CPU in `preempt` is still leaving. -/
def StackOk (k : Kernel) : KernelOp → Prop
  | .sleep c _ => (k.smp.sched.tasks (k.smp.sched.perCpuTask c)).state ≠ .terminated
  | .createTask _ _ => ∀ c, ¬ Leaves k c k.smp.sched.findAvailableTaskSlot
  | _ => True

instance (k : Kernel) : ∀ op, Decidable (StackOk k op)
  | .sleep _ _ => inferInstanceAs (Decidable (_ ≠ _))
  | .createTask _ _ => inferInstanceAs (Decidable (∀ _, _))
  | .preempt _ _ _ => inferInstanceAs (Decidable True)
  | .terminateTask _ _ => inferInstanceAs (Decidable True)
  | .start | .startAp _ | .yield _ | .preemptEntry _ | .switchCleanup _ | .switchFree _
  | .switchReturn _ | .readContext _ | .exec _ _ _ | .detach _ | .beginExit _ | .cleanupStart _
  | .cleanupFree _ | .cleanupDone _ | .exitTask _ => inferInstanceAs (Decidable True)

/-- The invariant: the scheduler's, and the pin of every slot that a CPU is leaving. -/
structure StackInv (k : Kernel) : Prop where
  smp : SmpInv k.smp
  leaving : ∀ c i, Leaves k c i → i < k.smp.sched.taskCount →
    Pinned (k.smp.sched.tasks i) c

theorem StackOk.sleepsAlive {k : Kernel} {op : KernelOp} {sop : SchedOp} (h : StackOk k op)
    (hsec : sectionOf op = some sop) : SleepsAlive k.smp sop := by
  cases op
  all_goals simp only [sectionOf, Option.some.injEq, reduceCtorEq] at hsec
  all_goals subst hsec
  all_goals first | exact h | trivial

theorem StackInv.step {k k' : Kernel} {op : KernelOp} (h : StackInv k) (hok : StackOk k op)
    (hstep : k.next op = some k') : StackInv k' := by
  refine ⟨smpInv_of_next h.smp (fun sop => hok.sleepsAlive) hstep, fun c i hleaves hi => ?_⟩
  -- The slot was pinned before: the CPU was leaving it already, or it was running it.
  have hbefore : i < k.smp.sched.taskCount → Pinned (k.smp.sched.tasks i) c := by
    intro hlt
    obtain ⟨cl, sw, hcpu⟩ := hleaves
    cases phaseStep_of_next hstep c with
    | same hsame => exact h.leaving c i ⟨cl, sw, hsame ▸ hcpu⟩ hlt
    | entered b regs hop hrun hsched hnew =>
      rw [hnew, CpuPhase.switching.injEq] at hcpu
      obtain ⟨rfl, -, -⟩ := hcpu
      exact pinned_current h.smp.sched hlt
    | within old cl₀ cl₁ sw₀ hold hnew hsec =>
      rw [hnew, CpuPhase.switching.injEq] at hcpu
      obtain ⟨rfl, -, -⟩ := hcpu
      exact h.leaving c old ⟨cl₀, sw₀, hold⟩ hlt
    | left old sw₀ hop hold hnew =>
      rw [hnew] at hcpu
      exact absurd hcpu (by simp)
  rcases next_smp hstep with ⟨-, hsame⟩ | ⟨sop, hsec, hsop⟩
  · rw [hsame] at hi ⊢
    exact hbefore hi
  · cases tableStep_of_next h.smp hsop hi with
    | created name userData hop hsome hslot htask =>
      -- The condition rules out a new task in a slot that a CPU is leaving.
      exfalso
      obtain ⟨cl, sw, hcpu⟩ := hleaves
      obtain rfl := sectionOf_eq_createTask (hsec.trans (congrArg some hop))
      cases phaseStep_of_next hstep c with
      | same hsame => exact hok c ⟨cl, sw, hslot ▸ hsame ▸ hcpu⟩
      | entered b regs hop => exact absurd hop (by simp)
      | within old cl₀ cl₁ sw₀ hold hnew hsec' => exact absurd hsec' (by simp [sectionOf])
      | left old sw₀ hop => exact absurd hop (by simp)
    | kept hlt hslot => exact (hbefore hlt).step (hok.sleepsAlive hsec) hslot

/-- A slot that another CPU is on is not eligible here. -/
theorem StackInv.not_onStack {k : Kernel} (h : StackInv k) {c d : ApicId} (hd : d ≠ c) {i : Nat}
    (hst : (k.smp.sched.tasks i).state ≠ .terminated)
    (haff : (k.smp.sched.tasks i).affinityCpu = none ∨
      (k.smp.sched.tasks i).affinityCpu = some c) : ¬ OnStack k d i := by
  rintro ⟨hlt, hon⟩
  have hpin : Pinned (k.smp.sched.tasks i) d := by
    rcases hon with rfl | hleaves
    · exact pinned_current h.smp.sched hlt
    · exact h.leaving d i hleaves hlt
  rw [hpin.resolve_left hst] at haff
  rcases haff with habs | heq
  · exact absurd habs (by simp)
  · exact hd (Option.some.inj heq)

/-- In every run that meets the condition, no step takes a stack from the CPU that is on
it. -/
theorem stackSafe_of_run (k : Kernel) (hk : (kernelSystem.restrict StackOk).Reachable k)
    (op : KernelOp) (k' : Kernel) (hstep : (kernelSystem.restrict StackOk).step k op k') :
    StackSafe k op := by
  have h : StackInv k := by
    refine hk.invariant (fun k hinit => ?_) (fun k op k' _ h hstep => ?_)
    · obtain ⟨bsp, rfl⟩ := hinit
      refine ⟨smpInv_init bsp, fun c i hleaves => ?_⟩
      obtain ⟨cl, sw, hcpu⟩ := hleaves
      exact absurd hcpu (by simp [Kernel.boot])
    · exact h.step hstep.1 hstep.2
  have hok := hstep.1
  cases op
  case createTask name userData =>
    intro hsome c hon
    have hfull : k.smp.sched.findAvailableTaskSlot < MAX_TASKS := by
      by_contra hge
      simp [Scheduler.createTask, Nat.not_lt.mp hge] at hsome
    obtain ⟨hlt, hcpu | hleaves⟩ := hon
    · -- `find_available_task_slot` does not take a slot that a CPU runs.
      rcases findAvailableTaskSlot_cases hfull with ⟨-, -, hnone⟩ | hnew
      · have hcur := (h.smp.sched.own _ hlt c).mp hcpu
        rw [hnone] at hcur
        exact absurd hcur (by simp)
      · omega
    · exact hok c hleaves
  case preempt c b regs =>
    intro _ next hnext d hd
    rcases preemptLocked_cases k.smp.sched h.smp.sched.count c b regs with
      ⟨n, helig, hout⟩ | ⟨-, -, hout⟩ | ⟨-, -, hout⟩
    · rw [hout] at hnext
      obtain rfl : n = next := by simpa using hnext
      obtain ⟨hready, hlt, haff, -⟩ := eligible_iff.mp helig
      rw [(preemptRelease_globals k.smp.sched c b regs).1] at hlt
      refine h.not_onStack hd (preemptRelease_ne_terminated hlt (by rw [hready]; simp)) ?_
      rw [← preemptRelease_affinity hlt]
      exact haff
    · rw [hout] at hnext
      exact absurd hnext (by simp)
    · rw [hout] at hnext
      exact absurd hnext (by simp)
  case start =>
    intro s hs d hd
    have hboot : k.smp.sched.schedulerActive = false := by
      rcases next_smp hstep.2 with ⟨habs, -⟩ | ⟨sop, hsec, hsop⟩
      · exact absurd habs (by simp [sectionOf])
      · obtain rfl := Option.some.inj hsec
        generalize k'.smp = m at hsop
        cases sectionStep_of_next hsop with
        | start _ hboot => exact hboot
    obtain ⟨hready, haff⟩ := start_first h.smp.sched hboot hs
    exact h.not_onStack hd (by rw [hready]; simp) haff
  all_goals trivial

/-- The steps up to the point where the shell runs on the boot CPU 0 and a task that it
created has ended on CPU 1, which is behind the locked section of `preempt`. -/
def leavingTrace : List KernelOp :=
  [.createTask [105, 100, 108, 101] none, .createTask [115, 104] none, .start, .startAp 1,
    .createTask [97] none, .preempt 1 true 0, .switchReturn 1, .exitTask 1, .preempt 1 true 0]

/-- When CPU 1 has left the stack, a new task in the slot meets the condition. -/
theorem stackSafe_of_run_reuse :
    ∃ k, TransitionSystem.run (TransitionSystem.guarded Kernel.next StackOk) (Kernel.boot 0)
        (leavingTrace ++ [.switchReturn 1]) = some k ∧
      k.smp.sched.findAvailableTaskSlot = 2 ∧ StackSafe k (.createTask [98] none) := by
  have hrun : (TransitionSystem.run (TransitionSystem.guarded Kernel.next StackOk)
      (Kernel.boot 0) (leavingTrace ++ [.switchReturn 1])).any (fun k =>
        decide (StackOk k (.createTask [98] none)) && k.smp.sched.findAvailableTaskSlot == 2 &&
        (k.next (.createTask [98] none)).isSome) = true := by
    with_unfolding_all decide
  obtain ⟨k, hk, hp⟩ := (Option.any_eq_true _ _).mp hrun
  simp only [Bool.and_eq_true, beq_iff_eq, decide_eq_true_eq] at hp
  obtain ⟨⟨hok, hslot⟩, hnext⟩ := hp
  obtain ⟨k', hk'⟩ := Option.isSome_iff_exists.mp hnext
  exact ⟨k, hk, hslot, stackSafe_of_run k
    (TransitionSystem.reachable_of_guarded_run (.init ⟨0, rfl⟩) hk) _ k' ⟨hok, hk'⟩⟩

/-- While CPU 1 is still on the stack of slot 2, `create_task` on CPU 0 finds the slot free
and writes a new frame into that stack. -/
theorem createTask_takes_stack_in_use :
    ∃ k op k', kernelSystem.Reachable k ∧ kernelSystem.step k op k' ∧ ¬ StackSafe k op := by
  have hrun : (TransitionSystem.run Kernel.next (Kernel.boot 0) leavingTrace).any (fun k =>
      decide (Leaves k 1 2) && k.smp.sched.findAvailableTaskSlot == 2 &&
        decide (2 < k.smp.sched.taskCount) && (k.next (.createTask [98] none)).isSome &&
        (k.smp.sched.createTask [98] none).1.isSome) = true := by
    decide
  obtain ⟨k, hk, hp⟩ := (Option.any_eq_true _ _).mp hrun
  simp only [Bool.and_eq_true, beq_iff_eq, decide_eq_true_eq] at hp
  obtain ⟨⟨⟨⟨hleaves, hslot⟩, hlt⟩, hnext⟩, hsome⟩ := hp
  obtain ⟨k', hk'⟩ := Option.isSome_iff_exists.mp hnext
  refine ⟨k, .createTask [98] none, k', TransitionSystem.reachable_of_run (.init ⟨0, rfl⟩) hk,
    hk', fun hsafe => ?_⟩
  exact hsafe hsome 1 (hslot ▸ ⟨hlt, Or.inr hleaves⟩)

end VKernel.Proofs.Process

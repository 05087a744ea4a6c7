import Mathlib.Data.List.Basic
import VKernel.Process.Waiting
import VKernel.Proofs.Process.ContextSteps

/-!
# `VKernel.Proofs.Process.Waiting`: what `wait_for_task` waits for

`wait_for_task` returns when the slot of the task is terminated, on no CPU and without
`user_data`. That is behind the cleanup for a task that exits: `exit_task` comes after
`cleanup_process_context`, and the task is still on its CPU until then. It need not be for the
other ends of a process. `terminate_task`, and `preempt` for a task that was terminated while it
ran, clear `user_data` in their locked section and clean up behind it; and a terminated task that
is preempted in a cleanup never ends it, as a faulting one whose handler has detached the context.

`ContextInv` says where a context is that is not freed yet, and `WaiterInv` what the reads of the
call have made sure of.
-/

set_option autoImplicit false
set_option maxRecDepth 20000

namespace VKernel.Proofs.Process

open VKernel VKernel.Lib VKernel.Sched VKernel.Process VKernel.Proofs.Sched

/-- The contexts of a task that were taken from its slot and are not freed: `preempt` cleans them
up behind its locked section, another task does, or nobody ever will. -/
def onTheWay (s : WaitState) (target : Nat) : List Ctx :=
  (((List.finRange 256).filterMap fun c => cleanedOn (s.kernel.cpu c)) ++
    ((List.range s.kernel.smp.sched.taskCount).filterMap fun i =>
      if (s.task i).id = target then none else cleanedBy (s.kernel.pc i)) ++
    s.abandoned).filter fun x => s.owner x == some target && !s.kernel.freed x

/-- The next read of the call is the one with which it returns: the search is at the end of the
table, or `user_data` is null. -/
def returnsNext (s : WaitState) (w : Waiter) : Bool :=
  match w.pc with
  | .scan i => decide (s.kernel.smp.sched.taskCount ≤ i)
  | .readUserData i => decide ((s.task i).userData = none)
  | _ => false

/-- The condition on a step: the read with which the call returns is not made while a context of
the task is on the way from its slot to the end of the cleanup; only live tasks sleep, and the id
counter does not wrap. -/
def WaitOk (s : WaitState) : WaitOp → Prop
  | .kernel op => Steady s.kernel op
  | .sleep c => Steady s.kernel (.sleep c 1)
  | .read c => ∀ w ∈ s.caller c, returnsNext s w = true → onTheWay s w.target = []
  | .call _ _ | .wake _ => True

instance (s : WaitState) : ∀ op, Decidable (WaitOk s op)
  | .kernel op => inferInstanceAs (Decidable (Steady s.kernel op))
  | .sleep c => inferInstanceAs (Decidable (Steady s.kernel (.sleep c 1)))
  | .read c => inferInstanceAs (Decidable (∀ w ∈ s.caller c,
      returnsNext s w = true → onTheWay s w.target = []))
  | .call _ _ | .wake _ => inferInstanceAs (Decidable True)

/-- Where a context of the task `t` is that is not freed. -/
inductive Place (k : Kernel) (abandoned : List Ctx) (x : Ctx) (t : Nat) : Prop
  | slot (i : Nat) (hi : i < k.smp.sched.taskCount) (hid : (k.smp.sched.tasks i).id = t)
      (hdata : k.contextOf i = some x)
  | task (i : Nat) (hi : i < k.smp.sched.taskCount) (hcleans : cleanedBy (k.pc i) = some x)
      (halive : Alive (k.smp.sched.tasks i))
  | cpu (c : ApicId) (hcleans : cleanedOn (k.cpu c) = some x)
  | abandoned (hmem : x ∈ abandoned)

/-- Where the contexts are. -/
structure ContextInv (k : Kernel) (owner : Ctx → Option Nat) (abandoned : List Ctx) : Prop where
  smp : SmpInv k.smp
  ids : IdsOk k.smp.sched
  owned : ∀ x t, owner x = some t → k.used x = true ∧ t < k.smp.sched.nextTaskId
  gone : ∀ i < k.smp.sched.taskCount, ¬ Alive (k.smp.sched.tasks i) → k.contextOf i = none
  exit : ∀ i < k.smp.sched.taskCount, ∀ st x, k.pc i = .cleanup st x .exit →
    k.contextOf i = none ∨ k.contextOf i = some x
  freed : ∀ i < k.smp.sched.taskCount, ∀ x after, k.pc i = .cleanup .freed x after →
    k.freed x = true
  held : ∀ x t, owner x = some t → k.freed x = false → Place k abandoned x t

/-! ### Records -/

/-- No step takes anything out of the records of the contexts. -/
theorem records_of_next {k k' : Kernel} {op : KernelOp} (h : k.next op = some k') (x : Ctx) :
    (k.freed x = true → k'.freed x = true) ∧ (k.used x = true → k'.used x = true) := by
  have hmark : ∀ y : Ctx, k.freed x = true → (k.markFreed y).freed x = true := by
    intro y hfreed
    unfold Kernel.markFreed
    by_cases hxy : x = y
    · simp [hxy]
    · simpa [hxy] using hfreed
  cases kernelStep_of_next h with
  | createTask => exact ⟨fun hx => hx, fun hx => by simp [hx]⟩
  | exec | execFailed => exact ⟨fun hx => hx, fun hx => by simp [Kernel.goto, hx]⟩
  | switchFree _ _ y | cleanupFree _ _ y => exact ⟨hmark y, fun hx => hx⟩
  | start | startAp | yield | preemptEntry | preempt | preemptOff | switchCleanup | switchReturn
  | switchBack | readContext | sleep | terminateTask | terminateTake | detach | detachBare
  | beginExit | cleanupStart | cleanupDone | exitTask => exact ⟨fun hx => hx, fun hx => hx⟩

/-- The owner of a context after a step: as before, or the context is new and belongs to the task
that was created, or to the one that called `exec`. -/
theorem ownerAfter_cases {s : WaitState} {op : KernelOp} {x : Ctx} {t : Nat}
    (h : s.ownerAfter op x = some t) :
    s.owner x = some t ∨
      (∃ name, op = .createTask name (some x) ∧
        (s.kernel.smp.sched.createTask name (some x)).1 = some t) ∨
      ∃ c name, op = .exec c name x ∧
        (s.kernel.smp.sched.replaceCurrentTaskContext c name (some x)).1 = true ∧
        t = (s.task (s.kernel.smp.sched.perCpuTask c)).id := by
  cases op with
  | createTask name userData =>
    cases userData with
    | none => exact .inl h
    | some y =>
      cases hid : (s.kernel.smp.sched.createTask name (some y)).1 with
      | none =>
        simp only [WaitState.ownerAfter, hid] at h
        exact .inl h
      | some id =>
        simp only [WaitState.ownerAfter, hid] at h
        by_cases hxy : x = y
        · subst hxy
          rw [Function.update_self] at h
          exact .inr (.inl ⟨name, rfl, by rw [hid, h]⟩)
        · rw [Function.update_of_ne hxy] at h
          exact .inl h
  | exec c name ctx =>
    simp only [WaitState.ownerAfter] at h
    split at h
    · rename_i hdone
      by_cases hxy : x = ctx
      · subst hxy
        rw [Function.update_self] at h
        exact .inr (.inr ⟨c, name, rfl, hdone, (Option.some.inj h).symm⟩)
      · rw [Function.update_of_ne hxy] at h
        exact .inl h
    · exact .inl h
  | _ => exact .inl h

/-- A context that comes with a new task: it was not used before, and the task has it. -/
theorem createTask_context {k k' : Kernel} {name : List UInt8} {x : Ctx} {t : Nat}
    (hstep : k.next (.createTask name (some x)) = some k')
    (hsome : (k.smp.sched.createTask name (some x)).1 = some t) :
    k'.used x = true ∧ t = k.smp.sched.nextTaskId ∧
      ∃ i < k'.smp.sched.taskCount, (k'.smp.sched.tasks i).id = t ∧ k'.contextOf i = some x := by
  cases kernelStep_of_next hstep with
  | createTask _ _ m _ hm =>
    obtain rfl := Option.some.inj hm
    have htask := @createTask_slot k.smp.sched name (some x) (by rw [hsome]; rfl)
    -- the slot that it takes is in the table afterwards
    obtain ⟨hid, hslot⟩ : k.smp.sched.nextTaskId = t ∧ k.smp.sched.findAvailableTaskSlot <
        (k.smp.sched.createTask name (some x)).2.taskCount := by
      unfold Scheduler.createTask at hsome ⊢
      simp only [] at hsome ⊢
      split at hsome
      · simp at hsome
      · rename_i hfull
        split at hsome
        · simp at hsome
        · rename_i hname
          rw [if_neg hfull, if_neg hname]
          refine ⟨Option.some.inj hsome, ?_⟩
          rcases findAvailableTaskSlot_cases (Nat.not_le.mp hfull) with ⟨hlt, -⟩ | heq
          · show _ < if _ then _ else _
            split
            · omega
            · exact hlt
          · show _ < if _ then _ else _
            rw [if_pos heq]
            omega
    refine ⟨by simp, hid.symm, _, hslot, ?_, ?_⟩
    · show ((k.smp.sched.createTask name (some x)).2.tasks _).id = t
      rw [htask]
      exact hid
    · show ((k.smp.sched.createTask name (some x)).2.tasks _).userData = some x
      rw [htask]
      rfl

/-- A context that `exec` attaches: it was not used before, and the current task has it. -/
theorem exec_context {k k' : Kernel} {c : ApicId} {name : List UInt8} {x : Ctx} (h : SmpInv k.smp)
    (hstep : k.next (.exec c name x) = some k')
    (hdone : (k.smp.sched.replaceCurrentTaskContext c name (some x)).1 = true) :
    k'.used x = true ∧ k.smp.sched.perCpuTask c < k.smp.sched.taskCount ∧
      k.contextOf (k.smp.sched.perCpuTask c) ≠ none ∧
      ∃ i < k'.smp.sched.taskCount,
        (k'.smp.sched.tasks i).id = (k.smp.sched.tasks (k.smp.sched.perCpuTask c)).id ∧
          k'.contextOf i = some x := by
  have hcurrent := current_of_exec hstep
  obtain ⟨hlt, -, -⟩ := current_spec h hcurrent
  cases kernelStep_of_next hstep with
  | execFailed _ _ _ _ _ hfail => exact absurd (hfail.symm.trans hdone) (by simp)
  | exec _ _ _ j y m hj hdata _ hm =>
    obtain rfl : k.smp.sched.perCpuTask c = j :=
      Option.some.inj (hcurrent.symm.trans (current_of_inProgram hj).1)
    obtain rfl := Option.some.inj hm
    rw [replaceCurrentTaskContext_done hdone]
    refine ⟨by simp [Kernel.goto], hlt, by simp [hdata], _, hlt, ?_, ?_⟩
    · show ((k.smp.sched.setTask _ _).tasks _).id = _
      rw [setTask_same]
    · show ((k.smp.sched.setTask _ _).tasks _).userData = _
      rw [setTask_same]

/-! ### The contexts -/

section Contexts

variable {s : WaitState} {k' : Kernel} {op : KernelOp}

/-- The table does not shrink. -/
theorem taskCount_of_next {k : Kernel} (h : SmpInv k.smp) (hstep : k.next op = some k') :
    k.smp.sched.taskCount ≤ k'.smp.sched.taskCount := by
  rcases next_smp hstep with ⟨-, hsame⟩ | ⟨sop, -, hsop⟩
  · rw [hsame]
  · exact (globalStep_of_next h hsop).count

/-- The ids of the slots after a step. -/
theorem idStep_of_kernel {k : Kernel} (h : SmpInv k.smp) (hok : Steady k op)
    (hstep : k.next op = some k') :
    IdStep k.smp.sched k'.smp.sched k.smp.sched.findAvailableTaskSlot := by
  rcases next_smp hstep with ⟨-, hsame⟩ | ⟨sop, hsec, hsop⟩
  · rw [hsame]
    exact ⟨Nat.le_refl _, fun i hi => .inl ⟨hi, rfl, id⟩⟩
  · exact idStep_of_next h (hok.keepsTerminated hsec) hsop

/-- A new task takes a slot whose task has ended. -/
theorem not_alive_of_created {k : Kernel} (h : SmpInv k.smp) {i : Nat}
    (hi : i < k.smp.sched.taskCount) (hslot : i = k.smp.sched.findAvailableTaskSlot) :
    ¬ Alive (k.smp.sched.tasks i) := by
  have hfull : k.smp.sched.findAvailableTaskSlot < MAX_TASKS := by
    rw [← hslot]
    exact Nat.lt_of_lt_of_le hi h.sched.count
  rcases findAvailableTaskSlot_cases hfull with ⟨-, hterm, hcpu⟩ | heq
  · rw [← hslot] at hterm hcpu
    exact not_alive.mpr ⟨hterm, hcpu⟩
  · omega

/-- The cleanup of a CPU that is in `preempt` goes on until the context is freed. -/
theorem cleanedOn_step {k : Kernel} (hstep : k.next op = some k') {c : ApicId} {x : Ctx}
    (hcleans : cleanedOn (k.cpu c) = some x) :
    cleanedOn (k'.cpu c) = some x ∨ k'.freed x = true := by
  cases phaseStep_of_next hstep c with
  | same hsame => exact .inl (hsame ▸ hcleans)
  | entered b regs hop hrun =>
    rw [hrun] at hcleans
    exact absurd hcleans (by simp [cleanedOn])
  | within old cl cl' sw hold hnew hsec hgoes =>
    rw [hold] at hcleans
    obtain ⟨⟨st, y⟩, rfl, rfl⟩ := Option.map_eq_some_iff.mp hcleans
    rcases hgoes st y rfl with ⟨st', rfl⟩ | hfreed
    · exact .inl (by rw [hnew]; rfl)
    · exact .inr hfreed
  | left old sw hop hold =>
    rw [hold] at hcleans
    exact absurd hcleans (by simp [cleanedOn])

/-- What was abandoned stays so. -/
theorem mem_abandonedAfter {x : Ctx} (h : x ∈ s.abandoned) : x ∈ s.abandonedAfter op := by
  cases op with
  | preempt c b regs =>
    simp only [WaitState.abandonedAfter]
    split
    · exact List.mem_append_right _ h
    · exact h
  | terminateTask c id => exact List.mem_append_right _ h
  | _ => exact h

/-- A task whose slot does not have the context that it cleans up abandons it when it ends. -/
theorem mem_cleansTaken {i : Nat} {x : Ctx} (hcleans : cleanedBy (s.kernel.pc i) = some x)
    (hgone : s.kernel.contextOf i ≠ some x) : x ∈ (s.cleansTaken i).toList := by
  rw [Option.mem_toList]
  exact Option.mem_filter_iff.mpr ⟨hcleans, bne_iff_ne.mpr hgone⟩

/-- Where a context goes from its slot. -/
theorem ContextInv.slot_step (h : ContextInv s.kernel s.owner s.abandoned)
    (hok : Steady s.kernel op) (hstep : s.kernel.next op = some k') {x : Ctx} {i : Nat}
    (hi : i < s.kernel.smp.sched.taskCount) (hdata : s.kernel.contextOf i = some x)
    (hnot : s.kernel.freed x = false) :
    Place k' (s.abandonedAfter op) x (s.kernel.smp.sched.tasks i).id := by
  have hi' := Nat.lt_of_lt_of_le hi (taskCount_of_next h.smp hstep)
  have halive : Alive (s.kernel.smp.sched.tasks i) := by
    by_contra hdead
    exact absurd ((h.gone i hi hdead).symm.trans hdata) (by simp)
  have hkept : (k'.smp.sched.tasks i).id = (s.kernel.smp.sched.tasks i).id →
      (k'.smp.sched.tasks i).userData = (s.kernel.smp.sched.tasks i).userData →
      Place k' (s.abandonedAfter op) x (s.kernel.smp.sched.tasks i).id :=
    fun hid hsame => .slot i hi' hid (hsame.trans hdata)
  cases contextStep_of_next h.smp hok hstep hi' with
  | created name userData hop hsome hslot =>
    exact absurd halive (not_alive_of_created h.smp hi hslot)
  | calm hlt hcalm => exact hkept hcalm.id hcalm.userData
  | left c b regs hop hlt hcpu hschedules hleft hpc htaken =>
    by_cases hterm : (s.kernel.smp.sched.tasks i).state = .terminated
    · exact .cpu c ((htaken hterm).trans hdata)
    · exact hkept hleft.id (by rw [hleft.userData, if_neg hterm])
  | terminated c id hop hlt hzero hid hterm hpc htaken =>
    by_cases hcpu : (s.kernel.smp.sched.tasks i).currentCpu = none
    · obtain ⟨j, hj, hcleans, hjalive⟩ := htaken hcpu x hdata
      exact .task j hj hcleans hjalive
    · exact hkept hterm.id (by rw [hterm.userData, if_neg hcpu])
  | replaced c name y ctx hop hlt hcpu hdone hid hcur hcur' hold hnormal hdata' hpc =>
    obtain rfl : y = x := Option.some.inj (hold.symm.trans hdata)
    exact .task i hi' (by rw [hpc]; rfl) (.inr hcur')
  | detached c hop hlt hid hcur hcur' hnormal hnone hpc =>
    rcases hpc with ⟨y, hold, hpc⟩ | ⟨hnone, -⟩
    · obtain rfl : y = x := Option.some.inj (hold.symm.trans hdata)
      exact .task i hi' (by rw [hpc]; rfl) (.inr hcur')
    · exact absurd (hnone.symm.trans hdata) (by simp)
  | taking y hlt hsame | exiting y hlt hsame | advanced y st after hlt hsame
  | resumed y hlt hsame => exact hkept (by rw [hsame]) (by rw [hsame])
  | exited hlt hid hcur hpc =>
    -- behind the cleanup, the context of the slot is freed
    rcases hpc with ⟨y, hpc⟩ | ⟨-, hnone⟩
    · rcases h.exit i hi _ _ hpc with hnone | hsome
      · exact absurd (hnone.symm.trans hdata) (by simp)
      · obtain rfl : y = x := Option.some.inj (hsome.symm.trans hdata)
        exact absurd (h.freed i hi _ _ hpc) (by simp [hnot])
    · exact absurd (hnone.symm.trans hdata) (by simp)

/-- A task that cleans up a context goes on with it, or ends and abandons it, unless its slot still
has the context. -/
theorem ContextInv.task_step (h : ContextInv s.kernel s.owner s.abandoned)
    (hok : Steady s.kernel op) (hstep : s.kernel.next op = some k') {x : Ctx} {t i : Nat}
    (hi : i < s.kernel.smp.sched.taskCount) (hcleans : cleanedBy (s.kernel.pc i) = some x)
    (halive : Alive (s.kernel.smp.sched.tasks i)) (hfreed : k'.freed x = false) :
    Place k' (s.abandonedAfter op) x t := by
  have hi' := Nat.lt_of_lt_of_le hi (taskCount_of_next h.smp hstep)
  have hbusy : s.kernel.pc i ≠ .normal := by
    intro hnormal
    rw [hnormal] at hcleans
    exact absurd hcleans (by simp [cleanedBy])
  have hgoes : k'.pc i = s.kernel.pc i → Alive (k'.smp.sched.tasks i) →
      Place k' (s.abandonedAfter op) x t := fun hpc halive' => .task i hi' (hpc ▸ hcleans) halive'
  cases contextStep_of_next h.smp hok hstep hi' with
  | created name userData hop hsome hslot =>
    exact absurd halive (not_alive_of_created h.smp hi hslot)
  | calm hlt hcalm hpc => exact hgoes hpc (hcalm.alive.mpr halive)
  | left c b regs hop hlt hcpu hschedules hleft hpc htaken =>
    by_cases hterm : (s.kernel.smp.sched.tasks i).state = .terminated
    · by_cases hdata : s.kernel.contextOf i = some x
      · exact .cpu c ((htaken hterm).trans hdata)
      · subst hop hcpu
        have hended : s.kernel.smp.sched.schedules = true ∧
            (s.task (s.kernel.smp.sched.perCpuTask c)).state = .terminated := ⟨hschedules, hterm⟩
        refine .abandoned ?_
        simp only [WaitState.abandonedAfter]
        rw [if_pos hended]
        exact List.mem_append_left _ (mem_cleansTaken hcleans hdata)
    · exact hgoes hpc (.inl fun hterm' => hterm (hleft.state.mp hterm'))
  | terminated c id hop hlt hzero hid hterm hpc htaken =>
    by_cases hcpu : (s.kernel.smp.sched.tasks i).currentCpu = none
    · by_cases hdata : s.kernel.contextOf i = some x
      · obtain ⟨j, hj, hcleans', hjalive⟩ := htaken hcpu x hdata
        exact .task j hj hcleans' hjalive
      · subst hop
        refine .abandoned (List.mem_append_left _ (List.mem_flatMap.mpr ⟨i, ?_, ?_⟩))
        · exact List.mem_range.mpr hi
        · rw [if_pos ⟨hzero, hid, hcpu⟩]
          exact mem_cleansTaken hcleans hdata
    · exact hgoes hpc (.inr (by rw [hterm.current]; exact hcpu))
  | taking y hlt hsame hnormal | exiting y hlt hsame hnormal => exact absurd hnormal hbusy
  | replaced c name y ctx hop hlt hcpu hdone hid hcur hcur' hold hnormal =>
    exact absurd hnormal hbusy
  | detached c hop hlt hid hcur hcur' hnormal => exact absurd hnormal hbusy
  | advanced y st after hlt hsame hpc hpc' hdone =>
    obtain ⟨st₀, hpc⟩ := hpc
    obtain rfl : y = x := by
      rw [hpc] at hcleans
      cases st₀ with
      | pending => exact Option.some.inj hcleans
      | started => exact Option.some.inj hcleans
      | freed => exact absurd hcleans (by simp [cleanedBy])
    refine .task i hi' ?_ (hsame ▸ halive)
    rw [hpc']
    cases st with
    | pending => rfl
    | started => rfl
    | freed => exact absurd (hdone rfl) (by simp [hfreed])
  | resumed y hlt hsame hpc =>
    rw [hpc] at hcleans
    exact absurd hcleans (by simp [cleanedBy])
  | exited hlt hid hcur hpc =>
    rcases hpc with ⟨y, hpc⟩ | ⟨hnormal, -⟩
    · rw [hpc] at hcleans
      exact absurd hcleans (by simp [cleanedBy])
    · exact absurd hnormal hbusy

theorem ContextInv.step (h : ContextInv s.kernel s.owner s.abandoned) (hok : Steady s.kernel op)
    (hstep : s.kernel.next op = some k') :
    ContextInv k' (s.ownerAfter op) (s.abandonedAfter op) := by
  have hids := idStep_of_kernel h.smp hok hstep
  have hslots := fun i (hi : i < k'.smp.sched.taskCount) =>
    contextStep_of_next h.smp hok hstep hi
  refine ⟨?_, h.ids.step hids, fun x t howner => ?_, fun i hi hdead => ?_,
    fun i hi st x hpc' => ?_, fun i hi x after hpc' => ?_, fun x t howner hfreed => ?_⟩
  · exact smpInv_of_next h.smp (fun sop hsec => (hok.keepsTerminated hsec).sleepsAlive) hstep
  · rcases ownerAfter_cases howner with hold | ⟨name, rfl, hsome⟩ | ⟨c, name, rfl, hdone, rfl⟩
    · obtain ⟨hused, hlt⟩ := h.owned x t hold
      exact ⟨(records_of_next hstep x).2 hused, Nat.lt_of_lt_of_le hlt hids.next⟩
    · obtain ⟨hused, -, i, hi, hid, -⟩ := createTask_context hstep hsome
      exact ⟨hused, hid ▸ (h.ids.step hids).lt i hi⟩
    · obtain ⟨hused, hlt, -⟩ := exec_context h.smp hstep hdone
      exact ⟨hused, Nat.lt_of_lt_of_le (h.ids.lt _ hlt) hids.next⟩
  · obtain ⟨hterm, hcpu⟩ := not_alive.mp hdead
    cases hslots i hi with
    | created name userData hop hsome hslot hid hstate =>
      exact absurd (hstate.symm.trans hterm) (by simp)
    | calm hlt hcalm hpc =>
      exact hcalm.userData.trans (h.gone i hlt fun halive => hdead (hcalm.alive.mpr halive))
    | left c b regs hop hlt hcpu' hschedules hleft =>
      exact hleft.userData.trans (if_pos (hleft.state.mp hterm))
    | terminated c id hop hlt hzero hid hended =>
      exact hended.userData.trans (if_pos (hended.current.symm.trans hcpu))
    | replaced c name y ctx hop hlt hcpu' hdone hid hcur hcur' => exact absurd hcpu hcur'
    | detached c hop hlt hid hcur hcur' hnormal hdata => exact hdata
    | taking y hlt hsame | exiting y hlt hsame | advanced y st after hlt hsame
    | resumed y hlt hsame =>
      unfold Kernel.contextOf
      rw [hsame] at hdead ⊢
      exact h.gone i hlt hdead
    | exited hlt hid hcur hpc hdata => exact hdata
  · cases hslots i hi with
    | created name userData hop hsome hslot hid hstate hdata hpc =>
      exact absurd (hpc.symm.trans hpc') (by simp)
    | calm hlt hcalm hpc =>
      unfold Kernel.contextOf
      rw [hcalm.userData]
      exact h.exit i hlt st x (hpc.symm.trans hpc')
    | left c b regs hop hlt hcpu hschedules hleft hpc =>
      unfold Kernel.contextOf
      rw [hleft.userData]
      split
      · exact .inl rfl
      · exact h.exit i hlt st x (hpc.symm.trans hpc')
    | terminated c id hop hlt hzero hid hended hpc =>
      unfold Kernel.contextOf
      rw [hended.userData]
      split
      · exact .inl rfl
      · exact h.exit i hlt st x (hpc.symm.trans hpc')
    | taking y hlt hsame hnormal hpc => exact absurd (hpc.symm.trans hpc') (by simp)
    | replaced c name y ctx hop hlt hcpu hdone hid hcur hcur' hdata hnormal hdata' hpc =>
      exact absurd (hpc.symm.trans hpc') (by simp)
    | detached c hop hlt hid hcur hcur' hnormal hdata => exact .inl hdata
    | exiting y hlt hsame hnormal hdata hpc =>
      have hxy := hpc.symm.trans hpc'
      simp only [TaskPc.cleanup.injEq] at hxy
      unfold Kernel.contextOf
      rw [hsame, ← hxy.2.1]
      exact .inr hdata
    | advanced y st' after hlt hsame hpc hpc'' =>
      have hxy := hpc''.symm.trans hpc'
      simp only [TaskPc.cleanup.injEq] at hxy
      obtain ⟨st₀, hpc⟩ := hpc
      unfold Kernel.contextOf
      rw [hsame]
      exact h.exit i hlt st₀ x (by rw [hpc, hxy.2.1, hxy.2.2])
    | resumed y hlt hsame hpc hpc'' => exact absurd (hpc''.symm.trans hpc') (by simp)
    | exited hlt hid hcur hpc hdata => exact .inl hdata
  · have hold : k'.pc i = s.kernel.pc i → i < s.kernel.smp.sched.taskCount → k'.freed x = true :=
      fun hpc hlt => (records_of_next hstep x).1 (h.freed i hlt x after (hpc.symm.trans hpc'))
    cases hslots i hi with
    | created name userData hop hsome hslot hid hstate hdata hpc =>
      exact absurd (hpc.symm.trans hpc') (by simp)
    | calm hlt hcalm hpc => exact hold hpc hlt
    | left c b regs hop hlt hcpu hschedules hleft hpc => exact hold hpc hlt
    | terminated c id hop hlt hzero hid hended hpc => exact hold hpc hlt
    | taking y hlt hsame hnormal hpc => exact absurd (hpc.symm.trans hpc') (by simp)
    | replaced c name y ctx hop hlt hcpu hdone hid hcur hcur' hdata hnormal hdata' hpc =>
      exact absurd (hpc.symm.trans hpc') (by simp)
    | detached c hop hlt hid hcur hcur' hnormal hdata hpc =>
      rcases hpc with ⟨y, -, hpc⟩ | ⟨-, hpc⟩
      · exact absurd (hpc.symm.trans hpc') (by simp)
      · exact absurd (hpc.symm.trans hpc') (by simp)
    | exiting y hlt hsame hnormal hdata hpc => exact absurd (hpc.symm.trans hpc') (by simp)
    | advanced y st after' hlt hsame hpc hpc'' hdone =>
      have hxy := hpc''.symm.trans hpc'
      simp only [TaskPc.cleanup.injEq] at hxy
      exact hxy.2.1 ▸ hdone hxy.1
    | resumed y hlt hsame hpc hpc'' => exact absurd (hpc''.symm.trans hpc') (by simp)
    | exited hlt hid hcur hpc hdata hpc'' => exact absurd (hpc''.symm.trans hpc') (by simp)
  · rcases ownerAfter_cases howner with hold | ⟨name, rfl, hsome⟩ | ⟨c, name, rfl, hdone, rfl⟩
    · have hnot : s.kernel.freed x = false := by
        by_contra hne
        exact absurd ((records_of_next hstep x).1 (by simpa using hne)) (by simp [hfreed])
      cases h.held x t hold hnot with
      | slot i hi hid hdata => exact hid ▸ h.slot_step hok hstep hi hdata hnot
      | task i hi hcleans halive => exact h.task_step hok hstep hi hcleans halive hfreed
      | cpu c hcleans =>
        rcases cleanedOn_step hstep hcleans with hcleans' | hdone
        · exact .cpu c hcleans'
        · exact absurd hdone (by simp [hfreed])
      | abandoned hmem => exact .abandoned (mem_abandonedAfter hmem)
    · obtain ⟨-, -, i, hi, hid, hdata⟩ := createTask_context hstep hsome
      exact .slot i hi hid hdata
    · obtain ⟨-, -, -, i, hi, hid, hdata⟩ := exec_context h.smp hstep hdone
      exact .slot i hi hid hdata

end Contexts

/-! ### The call -/

/-- Only slot `i` can have the id. -/
def OnlyAt (k : Kernel) (target i : Nat) : Prop :=
  ∀ j < k.smp.sched.taskCount, (k.smp.sched.tasks j).id = target → j = i

/-- The task of the id is terminated, if it is still in the table. -/
def Ended (k : Kernel) (target : Nat) : Prop :=
  ∀ j < k.smp.sched.taskCount, (k.smp.sched.tasks j).id = target →
    (k.smp.sched.tasks j).state = .terminated

/-- The task of the id makes no step any more. -/
def Dead (k : Kernel) (target : Nat) : Prop :=
  ∀ j < k.smp.sched.taskCount, (k.smp.sched.tasks j).id = target →
    ¬ Alive (k.smp.sched.tasks j)

/-- All contexts of the task are freed. -/
def AllFreed (k : Kernel) (owner : Ctx → Option Nat) (target : Nat) : Prop :=
  ∀ x, owner x = some target → k.freed x = true

/-- What the reads of the call have made sure of, at the point that it has reached. -/
def PointOk (k : Kernel) (owner : Ctx → Option Nat) (target : Nat) : WaitPc → Prop
  | .scan i => ∀ j < i, j < k.smp.sched.taskCount → (k.smp.sched.tasks j).id ≠ target
  | .readState i => OnlyAt k target i
  | .readCpu i => OnlyAt k target i ∧ Ended k target
  | .readUserData _ => Dead k target
  | .returned => Dead k target ∧ AllFreed k owner target
  | .sleeping | .asleep => True

/-- The invariant of the call. -/
structure WaiterInv (s : WaitState) : Prop where
  contexts : ContextInv s.kernel s.owner s.abandoned
  created : ∀ w, s.waiter = some w → w.target < s.kernel.smp.sched.nextTaskId
  point : ∀ w, s.waiter = some w → PointOk s.kernel s.owner w.target w.pc

section Call

variable {s : WaitState} {k' : Kernel} {op : KernelOp} {target : Nat}

/-- A slot that has the id after a step had it before, and stays terminated. -/
theorem id_before (h : ContextInv s.kernel s.owner s.abandoned) (hok : Steady s.kernel op)
    (hstep : s.kernel.next op = some k') (htarget : target < s.kernel.smp.sched.nextTaskId)
    {i : Nat} (hi : i < k'.smp.sched.taskCount) (hid : (k'.smp.sched.tasks i).id = target) :
    i < s.kernel.smp.sched.taskCount ∧ (s.kernel.smp.sched.tasks i).id = target ∧
      ((s.kernel.smp.sched.tasks i).state = .terminated →
        (k'.smp.sched.tasks i).state = .terminated) := by
  rcases (idStep_of_kernel h.smp hok hstep).slots i hi with ⟨hlt, hsame, hterm⟩ | ⟨-, hnew, -⟩
  · exact ⟨hlt, hsame.symm.trans hid, hterm⟩
  · omega

/-- A task that has ended does not come back. -/
theorem Dead.step (hdead : Dead s.kernel target) (h : ContextInv s.kernel s.owner s.abandoned)
    (hok : Steady s.kernel op) (hstep : s.kernel.next op = some k')
    (htarget : target < s.kernel.smp.sched.nextTaskId) : Dead k' target := by
  intro i hi hid
  obtain ⟨hlt, hid', hterm⟩ := id_before h hok hstep htarget hi hid
  obtain ⟨hst, hcpu⟩ := not_alive.mp (hdead i hlt hid')
  refine not_alive.mpr ⟨hterm hst, ?_⟩
  cases contextStep_of_next h.smp hok hstep hi with
  | created name userData hop hsome hslot hid'' => omega
  | calm hlt' hcalm hpc =>
    exact (not_alive.mp fun halive => hdead i hlt hid' (hcalm.alive.mp halive)).2
  | left c b regs hop hlt' hcpu' hschedules hleft => exact hleft.current
  | terminated c id hop hlt' hzero hid'' hended => exact hended.current.trans hcpu
  | replaced c name y ctx hop hlt' hcpu' hdone hid'' hcur => exact absurd hcpu hcur
  | detached c hop hlt' hid'' hcur => exact absurd hcpu hcur
  | taking y hlt' hsame | exiting y hlt' hsame | advanced y st after hlt' hsame
  | resumed y hlt' hsame =>
    rw [hsame]
    exact hcpu
  | exited hlt' hid'' hcur => exact absurd hcpu hcur

/-- The contexts of such a task stay freed, and it gets no new ones: `exec` needs one. -/
theorem AllFreed.step (hfreed : AllFreed s.kernel s.owner target) (hdead : Dead s.kernel target)
    (h : ContextInv s.kernel s.owner s.abandoned) (hstep : s.kernel.next op = some k')
    (htarget : target < s.kernel.smp.sched.nextTaskId) : AllFreed k' (s.ownerAfter op) target := by
  intro x howner
  rcases ownerAfter_cases howner with hold | ⟨name, rfl, hsome⟩ | ⟨c, name, rfl, hdone, hid⟩
  · exact (records_of_next hstep x).1 (hfreed x hold)
  · obtain ⟨-, hnext, -⟩ := createTask_context hstep hsome
    omega
  · obtain ⟨-, hlt, hdata, -⟩ := exec_context h.smp hstep hdone
    exact absurd (h.gone _ hlt (hdead _ hlt hid.symm)) hdata

/-- The steps of the kernel keep what the call has made sure of. -/
theorem PointOk.step {pc : WaitPc} (hpoint : PointOk s.kernel s.owner target pc)
    (h : ContextInv s.kernel s.owner s.abandoned) (hok : Steady s.kernel op)
    (hstep : s.kernel.next op = some k') (htarget : target < s.kernel.smp.sched.nextTaskId) :
    PointOk k' (s.ownerAfter op) target pc := by
  have honly : ∀ i, OnlyAt s.kernel target i → OnlyAt k' target i := by
    intro i honly j hj hid
    obtain ⟨hlt, hid', -⟩ := id_before h hok hstep htarget hj hid
    exact honly j hlt hid'
  cases pc with
  | scan i =>
    intro j hj hlt hid
    obtain ⟨hlt', hid', -⟩ := id_before h hok hstep htarget hlt hid
    exact hpoint j hj hlt' hid'
  | readState i => exact honly i hpoint
  | readCpu i =>
    refine ⟨honly i hpoint.1, fun j hj hid => ?_⟩
    obtain ⟨hlt, hid', hterm⟩ := id_before h hok hstep htarget hj hid
    exact hterm (hpoint.2 j hlt hid')
  | readUserData i => exact Dead.step hpoint h hok hstep htarget
  | returned =>
    exact ⟨hpoint.1.step h hok hstep htarget, hpoint.2.step hpoint.1 h hstep htarget⟩
  | sleeping | asleep => trivial

/-- When no context of a task that has ended is on the way, all of them are freed: its slot has
none, and it does not clean up any. -/
theorem ContextInv.allFreed (h : ContextInv s.kernel s.owner s.abandoned)
    (hdead : Dead s.kernel target) (hnone : onTheWay s target = []) :
    AllFreed s.kernel s.owner target := by
  intro x howner
  by_contra hne
  have hnot : s.kernel.freed x = false := by simpa using hne
  have hway : ∀ xs : List Ctx, x ∈ xs →
      xs.filter (fun x => s.owner x == some target && !s.kernel.freed x) ≠ [] := by
    intro xs hx
    exact List.ne_nil_of_mem (List.mem_filter.mpr ⟨hx, by simp [howner, hnot]⟩)
  refine hway _ ?_ hnone
  rw [List.mem_append, List.mem_append]
  cases h.held x target howner hnot with
  | slot i hi hid hdata =>
    exact absurd ((h.gone i hi (hdead i hi hid)).symm.trans hdata) (by simp)
  | task i hi hcleans halive =>
    refine .inl (.inr (List.mem_filterMap.mpr ⟨i, List.mem_range.mpr hi, ?_⟩))
    have hother : (s.task i).id ≠ target := fun hid => hdead i hi hid halive
    rw [if_neg hother]
    exact hcleans
  | cpu c hcleans =>
    exact .inl (.inl (List.mem_filterMap.mpr ⟨c, List.mem_finRange c, hcleans⟩))
  | abandoned hmem => exact .inr hmem

/-- One read of the call. -/
theorem WaiterInv.readStep {w : Waiter} {s' : WaitState} (h : WaiterInv s)
    (hw : s.waiter = some w) (hok : returnsNext s w = true → onTheWay s w.target = [])
    (hread : s.readStep w = some s') : WaiterInv s' := by
  have hpoint := h.point w hw
  -- a read changes nothing but the point of the call
  have hgoto : ∀ pc, PointOk s.kernel s.owner w.target pc → WaiterInv (s.goto w pc) := by
    intro pc hpc
    refine ⟨h.contexts, fun w' hw' => ?_, fun w' hw' => ?_⟩
    · obtain rfl := Option.some.inj hw'
      exact h.created w hw
    · obtain rfl := Option.some.inj hw'
      exact hpc
  unfold WaitState.readStep at hread
  unfold returnsNext at hok
  cases hpc : w.pc with
  | scan i =>
    rw [hpc] at hpoint
    simp only [hpc] at hread hok
    split at hread
    · rename_i hi
      split at hread
      · -- ids are different, so no other slot has this one
        rename_i hid
        obtain rfl := Option.some.inj hread
        exact hgoto _ fun j hj hid' => h.contexts.ids.inj j hj i hi (hid'.trans hid.symm)
      · rename_i hid
        obtain rfl := Option.some.inj hread
        refine hgoto _ fun j hj hlt => ?_
        rcases Nat.lt_succ_iff_lt_or_eq.mp hj with hj | rfl
        · exact hpoint j hj hlt
        · exact hid
    · -- the whole table was searched
      rename_i hend
      obtain rfl := Option.some.inj hread
      have hdead : Dead s.kernel w.target := fun j hj hid =>
        absurd hid (hpoint j (by omega) hj)
      exact hgoto _ ⟨hdead, h.contexts.allFreed hdead (hok (by simpa using hend))⟩
  | readState i =>
    rw [hpc] at hpoint
    simp only [hpc, Option.some.injEq] at hread
    subst hread
    split
    · rename_i hterm
      refine hgoto _ ⟨hpoint, fun j hj hid => ?_⟩
      obtain rfl := hpoint j hj hid
      exact hterm
    · exact hgoto _ trivial
  | readCpu i =>
    rw [hpc] at hpoint
    simp only [hpc, Option.some.injEq] at hread
    subst hread
    split
    · rename_i hcpu
      refine hgoto (.readUserData i) fun j hj hid => not_alive.mpr ⟨hpoint.2 j hj hid, ?_⟩
      obtain rfl := hpoint.1 j hj hid
      exact hcpu
    · exact hgoto _ trivial
  | readUserData i =>
    rw [hpc] at hpoint
    simp only [hpc, Option.some.injEq] at hread hok
    subst hread
    split
    · rename_i hnone
      exact hgoto _ ⟨hpoint, h.contexts.allFreed hpoint (hok (by simpa using hnone))⟩
    · exact hgoto _ trivial
  | sleeping | asleep | returned =>
    simp only [hpc] at hread
    exact absurd hread (by simp)

/-- The call after a step of the kernel: it is where it was, or gone. -/
theorem waiterAfter_cases {w : Waiter} (h : s.waiterAfter op = some w) : s.waiter = some w := by
  cases op with
  | createTask name userData =>
    simp only [WaitState.waiterAfter] at h
    split at h
    · exact (Option.filter_eq_some_iff.mp h).1
    · exact h
  | _ => exact h

theorem WaiterInv.kernelStep (h : WaiterInv s) (hok : Steady s.kernel op)
    (hstep : s.kernel.next op = some k') :
    WaiterInv ⟨k', s.ownerAfter op, s.abandonedAfter op, s.waiterAfter op⟩ := by
  refine ⟨h.contexts.step hok hstep, fun w hw => ?_, fun w hw => ?_⟩
  · have hold := h.created w (waiterAfter_cases hw)
    exact Nat.lt_of_lt_of_le hold (idStep_of_kernel h.contexts.smp hok hstep).next
  · have hw' := waiterAfter_cases hw
    exact (h.point w hw').step h.contexts hok hstep (h.created w hw')

theorem caller_spec {c : ApicId} {w : Waiter} (h : s.caller c = some w) : s.waiter = some w :=
  (Option.filter_eq_some_iff.mp h).1

theorem WaiterInv.step {s' : WaitState} {wop : WaitOp} (h : WaiterInv s) (hok : WaitOk s wop)
    (hstep : s.next wop = some s') : WaiterInv s' := by
  cases wop with
  | kernel op =>
    simp only [WaitState.next] at hstep
    split at hstep
    · simp at hstep
    · obtain ⟨k', hk, rfl⟩ := Option.map_eq_some_iff.mp hstep
      exact h.kernelStep hok hk
  | call c taskId =>
    obtain ⟨i, -, hstep⟩ := Option.bind_eq_some_iff.mp hstep
    split at hstep
    · rename_i hcall
      obtain rfl := Option.some.inj hstep
      refine ⟨h.contexts, fun w hw => ?_, fun w hw => ?_⟩
      · obtain rfl := Option.some.inj hw
        exact hcall.2.2
      · obtain rfl := Option.some.inj hw
        exact fun j hj => absurd hj (Nat.not_lt_zero j)
    · simp at hstep
  | read c =>
    obtain ⟨w, hw, hstep⟩ := Option.bind_eq_some_iff.mp hstep
    exact h.readStep (caller_spec hw) (hok w hw) hstep
  | sleep c =>
    obtain ⟨w, hw, hstep⟩ := Option.bind_eq_some_iff.mp hstep
    split at hstep
    · obtain ⟨k', hk, rfl⟩ := Option.map_eq_some_iff.mp hstep
      have hsteady : Steady s.kernel (.sleep c 1) := hok
      have hkernel := h.kernelStep hsteady hk
      have hsame : s.waiterAfter (.sleep c 1) = some w := caller_spec hw
      refine ⟨hkernel.contexts, fun w' hw' => ?_, fun w' hw' => ?_⟩
      · obtain rfl := Option.some.inj hw'
        exact hkernel.created w hsame
      · obtain rfl := Option.some.inj hw'
        trivial
    · simp at hstep
  | wake c =>
    obtain ⟨w, hw, hstep⟩ := Option.bind_eq_some_iff.mp hstep
    split at hstep
    · obtain rfl := Option.some.inj hstep
      refine ⟨h.contexts, fun w' hw' => ?_, fun w' hw' => ?_⟩
      · obtain rfl := Option.some.inj hw'
        exact h.created w (caller_spec hw)
      · obtain rfl := Option.some.inj hw'
        exact fun j hj => absurd hj (Nat.not_lt_zero j)
    · simp at hstep

end Call

theorem WaiterInv.init (bsp : ApicId) : WaiterInv ⟨Kernel.boot bsp, fun _ => none, [], none⟩ := by
  refine ⟨⟨smpInv_init bsp, ⟨?_, ?_⟩, fun x t h => ?_, ?_, ?_, ?_, fun x t h => ?_⟩, ?_, ?_⟩
  · exact fun i hi => absurd hi (Nat.not_lt_zero i)
  · exact fun i hi => absurd hi (Nat.not_lt_zero i)
  · exact absurd h (by simp)
  · exact fun i hi => absurd hi (Nat.not_lt_zero i)
  · exact fun i hi => absurd hi (Nat.not_lt_zero i)
  · exact fun i hi => absurd hi (Nat.not_lt_zero i)
  · exact absurd h (by simp)
  · exact fun w h => absurd h (by simp)
  · exact fun w h => absurd h (by simp)

/-- In every run that meets the condition, `wait_for_task` has returned only where
`cleanup_process_context` has freed every context of the task. -/
theorem wait_returns_cleaned_up (s : WaitState) (hs : (waitSystem.restrict WaitOk).Reachable s) :
    s.CleanedUp := by
  have h : WaiterInv s := by
    refine hs.invariant (fun s hinit => ?_) (fun s op s' _ h hstep => ?_)
    · obtain ⟨bsp, rfl⟩ := hinit
      exact .init bsp
    · exact h.step hstep.1 hstep.2
  intro w hw hpc
  have hpoint := h.point w hw
  rw [hpc] at hpoint
  exact hpoint.2

/-- The kernel in which nobody waits. -/
def waitBoot : WaitState := ⟨Kernel.boot 0, fun _ => none, [], none⟩

theorem waitBoot_reachable {ok : WaitState → WaitOp → Prop} :
    (waitSystem.restrict ok).Reachable waitBoot :=
  .init ⟨0, rfl⟩

/-- The shell in slot 1 runs on the boot CPU 0, and CPU 1 is started. -/
def twoCpusTrace : List KernelOp :=
  [.createTask [105, 100, 108, 101] none, .createTask [115, 104] none, .start, .startAp 1]

/-- Two ways to wait for the cleanup of context 7, each with the id that the shell waits for: it
sleeps over the end of the cleanup of a process that is in its exit; and a task on CPU 1 has
terminated the process, and ends the cleanup before the last read. -/
def cleanTraces : List (Nat × List WaitOp) :=
  [(3, exitingTrace.map .kernel ++ [.call 0 3, .read 0, .read 0, .read 0, .read 0, .sleep 0] ++
      [KernelOp.cleanupFree 1, .exitTask 1, .preempt 1 true 0, .switchReturn 1,
        .preemptEntry 0, .preempt 0 true 0, .switchReturn 0,
        .preemptEntry 0, .preempt 0 true 0, .switchReturn 0].map .kernel ++
      [.wake 0, .read 0, .read 0, .read 0, .read 0, .read 0, .read 0]),
    (4, (twoCpusTrace ++ [KernelOp.createTask [107] none, .preempt 1 true 0, .switchReturn 1,
        .createTask [112] (some 7), .terminateTask 1 4, .cleanupStart 1]).map .kernel ++
      [.call 0 4, .read 0, .read 0, .read 0, .read 0, .read 0, .read 0] ++
      [KernelOp.cleanupFree 1, .cleanupDone 1].map .kernel ++ [.read 0])]

/-- A run that meets the condition and ends behind a call of `wait_for_task` with the cleanup
done. -/
def ReturnsCleanedUp (trace : Nat × List WaitOp) : Prop :=
  ∃ s, (waitSystem.restrict WaitOk).Reachable s ∧
    s.waiter = some ⟨1, trace.1, .returned⟩ ∧ s.owner 7 = some trace.1 ∧ s.CleanedUp

/-- Both of the calls return behind the cleanup. -/
theorem wait_returns_cleaned_up_traces : cleanTraces.Forall ReturnsCleanedUp := by
  have hruns : ∀ trace ∈ cleanTraces,
      (TransitionSystem.run (TransitionSystem.guarded WaitState.next WaitOk) waitBoot
        trace.2).any (fun s => s.waiter == some ⟨1, trace.1, .returned⟩ &&
          s.owner 7 == some trace.1) = true := by
    with_unfolding_all decide
  refine List.forall_iff_forall_mem.mpr fun trace htrace => ?_
  obtain ⟨s, hs, hp⟩ := (Option.any_eq_true _ _).mp (hruns trace htrace)
  simp only [Bool.and_eq_true, beq_iff_eq] at hp
  have hreach := TransitionSystem.reachable_of_guarded_run waitBoot_reachable hs
  exact ⟨s, hreach, hp.1, hp.2, wait_returns_cleaned_up s hreach⟩

/-- Three ways to return before the cleanup of context 7, each with the id that the shell waits for:
`terminate_task` has found a process that is on no CPU and not called the cleanup yet; `preempt`
on CPU 1 has left a process that was terminated while it ran there, and is in front of the call;
and a process was preempted between the fault that detached its context and the call. -/
def earlyTraces : List (Nat × List WaitOp) :=
  [(4, (twoCpusTrace ++ [KernelOp.createTask [107] none, .preempt 1 true 0, .switchReturn 1,
      .createTask [112] (some 7), .terminateTask 1 4]).map .kernel ++
      [.call 0 4, .read 0, .read 0, .read 0, .read 0, .read 0, .read 0, .read 0]),
    (3, (twoCpusTrace ++ [KernelOp.createTask [112] (some 7), .preempt 1 true 0, .switchReturn 1,
      .terminateTask 0 3, .preempt 1 true 0]).map .kernel ++
      [.call 0 3, .read 0, .read 0, .read 0, .read 0, .read 0, .read 0]),
    (3, (twoCpusTrace ++ [KernelOp.createTask [112] (some 7), .preempt 1 true 0, .switchReturn 1,
      .detach 1, .preempt 1 true 0]).map .kernel ++
      [.call 0 3, .read 0, .read 0, .read 0, .read 0, .read 0, .read 0])]

/-- After the trace `wait_for_task` has returned, and nobody has called
`cleanup_process_context`. -/
def ReturnsEarly (trace : List WaitOp) : Prop :=
  ∃ s, TransitionSystem.run WaitState.next waitBoot trace = some s ∧
    waitSystem.Reachable s ∧ s.kernel.started 7 = 0 ∧ ¬ s.CleanedUp

/-- Each of the traces returns early. -/
theorem wait_returns_early : (earlyTraces.map Prod.snd).Forall ReturnsEarly := by
  have hruns : ∀ early ∈ earlyTraces,
      (TransitionSystem.run WaitState.next waitBoot early.2).any (fun s =>
        s.waiter == some ⟨1, early.1, .returned⟩ && s.owner 7 == some early.1 &&
          !s.kernel.freed 7 && s.kernel.started 7 == 0) = true := by
    with_unfolding_all decide
  refine List.forall_iff_forall_mem.mpr fun trace htrace => ?_
  obtain ⟨early, hearly, rfl⟩ := List.mem_map.mp htrace
  obtain ⟨s, hs, hp⟩ := (Option.any_eq_true _ _).mp (hruns early hearly)
  simp only [Bool.and_eq_true, beq_iff_eq, Bool.not_eq_true'] at hp
  obtain ⟨⟨⟨hwaiter, howner⟩, hfreed⟩, hstarted⟩ := hp
  refine ⟨s, hs, TransitionSystem.reachable_of_run (.init ⟨0, rfl⟩) hs, hstarted, fun hclean => ?_⟩
  exact absurd (hclean _ hwaiter rfl 7 howner) (by simp [hfreed])

end VKernel.Proofs.Process

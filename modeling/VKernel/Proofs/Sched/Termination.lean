import VKernel.Proofs.Sched.SlotStep

/-!
# `VKernel.Proofs.Sched.Termination`: a terminated task stays terminated

Every section except `create_task` keeps the ids of the slots, and a terminated slot stays
terminated. The one exception is `sleep`, which writes `blocked` over the state of its
caller, also when another CPU has terminated it.

Task ids are handed out in ascending order, so an id does not come back as long as
`g_next_task_id` does not wrap.
-/

set_option autoImplicit false

namespace VKernel.Proofs.Sched

open VKernel VKernel.Lib VKernel.Sched

/-- The condition on a step: only live tasks sleep, and the id counter does not wrap. -/
def KeepsTerminated (m : Smp) : SchedOp → Prop
  | .sleep c _ => (m.sched.tasks (m.sched.perCpuTask c)).state ≠ .terminated
  | .createTask _ _ => m.sched.nextTaskId + 1 < U64
  | _ => True

instance (m : Smp) : ∀ op, Decidable (KeepsTerminated m op)
  | .sleep _ _ => inferInstanceAs (Decidable (_ ≠ _))
  | .createTask _ _ => inferInstanceAs (Decidable (_ < _))
  | .start | .startAp _ | .yield _ | .preemptEntry _ | .preempt _ _ _ | .terminateTask _
  | .exitTask _ | .detachCurrentTask _ | .replaceCurrentTaskContext _ _ _ =>
    inferInstanceAs (Decidable True)

theorem KeepsTerminated.sleepsAlive {m : Smp} {op : SchedOp} (h : KeepsTerminated m op) :
    SleepsAlive m op := by
  cases op
  all_goals first | exact h | trivial

/-- What a section does to the ids: a slot keeps its id and its termination, or it is the
one that `create_task` found and has the next id. -/
structure IdStep (s t : Scheduler) (slot : Nat) : Prop where
  next : s.nextTaskId ≤ t.nextTaskId
  slots : ∀ i < t.taskCount,
    (i < s.taskCount ∧ (t.tasks i).id = (s.tasks i).id ∧
      ((s.tasks i).state = .terminated → (t.tasks i).state = .terminated)) ∨
    (i = slot ∧ (t.tasks i).id = s.nextTaskId ∧ s.nextTaskId < t.nextTaskId)

theorem idStep_of_next {m n : Smp} {op : SchedOp} (h : SmpInv m) (hok : KeepsTerminated m op)
    (hstep : m.next op = some n) :
    IdStep m.sched n.sched m.sched.findAvailableTaskSlot := by
  have hnext : m.sched.nextTaskId ≤ n.sched.nextTaskId := by
    rcases (globalStep_of_next h hstep).nextId with hsame | ⟨name, userData, rfl, hnext⟩
    · exact hsame.ge
    · rw [hnext, add64_eq hok]
      omega
  refine ⟨hnext, fun i hi => ?_⟩
  cases tableStep_of_next h hstep hi with
  | created name userData hop hsome hslot htask =>
    subst hop
    have hadd : n.sched.nextTaskId = m.sched.nextTaskId + 1 := by
      rw [← createTask_nextTaskId hsome hok]
      exact Option.some.inj hstep ▸ rfl
    exact Or.inr ⟨hslot, by rw [htask]; rfl, by omega⟩
  | kept hlt hslot =>
    exact Or.inl ⟨hlt, hslot.id_eq, hslot.keeps_terminated rfl hok.sleepsAlive⟩

/-! ### Runs -/

/-- Ids are below the counter, and two slots have two ids. -/
structure IdsOk (s : Scheduler) : Prop where
  lt : ∀ i < s.taskCount, (s.tasks i).id < s.nextTaskId
  inj : ∀ i < s.taskCount, ∀ j < s.taskCount, (s.tasks i).id = (s.tasks j).id → i = j

theorem IdsOk.step {s t : Scheduler} {slot : Nat} (h : IdsOk s) (hstep : IdStep s t slot) :
    IdsOk t := by
  have hnext := hstep.next
  refine ⟨fun i hi => ?_, fun i hi j hj hij => ?_⟩
  · rcases hstep.slots i hi with ⟨hlt, hid, -⟩ | ⟨-, hid, hlt⟩
    · have := h.lt i hlt
      omega
    · omega
  · rcases hstep.slots i hi with ⟨hilt, hid, -⟩ | ⟨hi', hid, -⟩
    · have hi'' := h.lt i hilt
      rcases hstep.slots j hj with ⟨hjlt, hjd, -⟩ | ⟨-, hjd, -⟩
      · exact h.inj i hilt j hjlt (by omega)
      · omega
    · rcases hstep.slots j hj with ⟨hjlt, hjd, -⟩ | ⟨hj', -, -⟩
      · have := h.lt j hjlt
        omega
      · rw [hi', hj']

/-- Every slot that holds the id is terminated, and the id is not handed out again. -/
structure Dead (id : Nat) (s : Scheduler) : Prop where
  used : id < s.nextTaskId
  terminated : ∀ i < s.taskCount, (s.tasks i).id = id → (s.tasks i).state = .terminated

theorem Dead.step {id : Nat} {s t : Scheduler} {slot : Nat} (h : Dead id s)
    (hstep : IdStep s t slot) : Dead id t := by
  have hused := h.used
  refine ⟨lt_of_lt_of_le hused hstep.next, fun i hi hid => ?_⟩
  rcases hstep.slots i hi with ⟨hlt, hsame, hkept⟩ | ⟨-, hnew, -⟩
  · exact hkept (h.terminated i hlt (hsame.symm.trans hid))
  · omega

/-- A dead task is not picked: the slot that `preempt` takes is not terminated. -/
theorem Dead.not_dispatched {id : Nat} {s : Scheduler} (h : Dead id s)
    (hcount : s.taskCount ≤ MAX_TASKS) {c : ApicId} {b : Bool} {regs next : Nat}
    (hnext : (s.preemptLocked c b regs).2.1 = .task next) : (s.tasks next).id ≠ id := by
  intro hid
  rcases preemptLocked_cases s hcount c b regs with
    ⟨k, helig, hout⟩ | ⟨-, -, hout⟩ | ⟨-, -, hout⟩
  · rw [hout] at hnext
    obtain rfl : k = next := by simpa using hnext
    obtain ⟨hready, hlt, -, -⟩ := eligible_iff.mp helig
    rw [(preemptRelease_globals s c b regs).1] at hlt
    exact preemptRelease_ne_terminated hlt (by rw [hready]; simp) (h.terminated k hlt hid)
  · rw [hout] at hnext
    exact absurd hnext (by simp)
  · rw [hout] at hnext
    exact absurd hnext (by simp)

/-- The invariants of a run that meets the condition. -/
theorem smpInv_of_run {m : Smp} (hm : (schedSystem.restrict KeepsTerminated).Reachable m) :
    SmpInv m ∧ IdsOk m.sched := by
  refine hm.invariant (P := fun m => SmpInv m ∧ IdsOk m.sched) (fun m hinit => ?_)
    (fun m op n _ h hstep => ?_)
  · obtain ⟨bsp, rfl⟩ := hinit
    exact ⟨smpInv_init bsp, fun i hi => absurd hi (Nat.not_lt_zero i),
      fun i hi => absurd hi (Nat.not_lt_zero i)⟩
  · exact ⟨h.1.step hstep.1.sleepsAlive hstep.2, h.2.step (idStep_of_next h.1 hstep.1 hstep.2)⟩

/-- In every run in which only live tasks call `sleep` and the id counter does not wrap,
the id of a task that was seen terminated belongs to terminated slots only from then on,
and no CPU dispatches it. -/
theorem terminated_of_run (m n : Smp) (hm : (schedSystem.restrict KeepsTerminated).Reachable m)
    (hn : (schedSystem.restrict KeepsTerminated).Leads m n) (i : Nat)
    (hi : i < m.sched.taskCount) (hterm : (m.sched.tasks i).state = .terminated) :
    (∀ j < n.sched.taskCount, (n.sched.tasks j).id = (m.sched.tasks i).id →
      (n.sched.tasks j).state = .terminated) ∧
    ∀ c b regs next, (n.sched.preemptLocked c b regs).2.1 = .task next →
      (n.sched.tasks next).id ≠ (m.sched.tasks i).id := by
  have hids := (smpInv_of_run hm).2
  have hdead : Dead (m.sched.tasks i).id n.sched := by
    refine TransitionSystem.Leads.invariant (P := fun u => Dead (m.sched.tasks i).id u.sched) hm
      ⟨hids.lt i hi, fun j hj hid => ?_⟩ (fun u op v hu hdead hstep => ?_) hn
    · rw [hids.inj j hj i hi hid]
      exact hterm
    · exact hdead.step (idStep_of_next (smpInv_of_run hu).1 hstep.1 hstep.2)
  refine ⟨hdead.terminated, fun c b regs next hnext => ?_⟩
  exact hdead.not_dispatched (smpInv_of_run (hm.of_leads hn)).1.sched.count hnext

/-- The shell terminates the task on CPU 1, and after the next timer interrupt there the
slot is still terminated. -/
theorem terminated_of_run_two_cpus :
    ∃ m n, (schedSystem.restrict KeepsTerminated).Leads m n ∧
      (m.sched.tasks 2).id = 3 ∧ (m.sched.tasks 2).state = .terminated ∧
      m.sched.perCpuTask 1 = 2 ∧ n.sched.perCpuTask 1 = SCHED_NO_TASK ∧
      ∀ j < n.sched.taskCount, (n.sched.tasks j).id = (m.sched.tasks 2).id →
        (n.sched.tasks j).state = .terminated := by
  have hrun : (TransitionSystem.run (TransitionSystem.guarded Smp.next KeepsTerminated)
      bootMachine (twoCpuTrace ++ [.terminateTask 3])).any (fun m =>
        decide (2 < m.sched.taskCount) && (m.sched.tasks 2).id == 3 &&
        (m.sched.tasks 2).state == .terminated && m.sched.perCpuTask 1 == 2 &&
        (m.next (.preempt 1 true 0)).any fun n => n.sched.perCpuTask 1 == SCHED_NO_TASK) =
          true := by
    with_unfolding_all decide
  obtain ⟨m, hm, hp⟩ := (Option.any_eq_true _ _).mp hrun
  simp only [Bool.and_eq_true, beq_iff_eq, decide_eq_true_eq] at hp
  obtain ⟨⟨⟨⟨hlt, hid⟩, hterm⟩, hcpu⟩, hnext⟩ := hp
  obtain ⟨n, hn, hidle⟩ := (Option.any_eq_true _ _).mp hnext
  have hreach : (schedSystem.restrict KeepsTerminated).Reachable m :=
    TransitionSystem.reachable_of_guarded_run (.init ⟨0, rfl⟩) hm
  have hleads : (schedSystem.restrict KeepsTerminated).Leads m n :=
    .step .refl (l := .preempt 1 true 0) ⟨trivial, hn⟩
  exact ⟨m, n, hleads, hid, hterm, hcpu, by simpa using hidle,
    (terminated_of_run m n hreach hleads 2 hlt hterm).1⟩

/-- The shell terminates the task on CPU 1, the task goes to sleep there and is blocked, and
the next timer interrupt of CPU 0 runs it. -/
theorem sleep_revives_terminated_task :
    ∃ m n, schedSystem.Reachable m ∧ schedSystem.Leads m n ∧ 2 < m.sched.taskCount ∧
      (m.sched.tasks 2).state = .terminated ∧ (n.sched.tasks 2).id = (m.sched.tasks 2).id ∧
      (n.sched.tasks 2).state = .running := by
  have hrun : (TransitionSystem.run Smp.next bootMachine
      (twoCpuTrace ++ [.terminateTask 3])).any (fun m =>
        decide (2 < m.sched.taskCount) && (m.sched.tasks 2).state == .terminated &&
        (TransitionSystem.run Smp.next m
          [.sleep 1 1, .preemptEntry 0, .preempt 0 true 0]).any fun n =>
            (n.sched.tasks 2).id == (m.sched.tasks 2).id &&
              (n.sched.tasks 2).state == .running) = true := by
    with_unfolding_all decide
  obtain ⟨m, hm, hp⟩ := (Option.any_eq_true _ _).mp hrun
  simp only [Bool.and_eq_true, beq_iff_eq, decide_eq_true_eq] at hp
  obtain ⟨⟨hlt, hterm⟩, hnext⟩ := hp
  obtain ⟨n, hn, hdone⟩ := (Option.any_eq_true _ _).mp hnext
  simp only [Bool.and_eq_true, beq_iff_eq] at hdone
  exact ⟨m, n, TransitionSystem.reachable_of_run (.init ⟨0, rfl⟩) hm,
    TransitionSystem.leads_of_run .refl hn, hlt, hterm, hdone⟩

end VKernel.Proofs.Sched

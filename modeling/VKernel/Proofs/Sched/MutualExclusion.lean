import VKernel.Proofs.Sched.Scheduler

/-!
# `VKernel.Proofs.Sched.MutualExclusion`: one CPU for each task

`preempt` has no test that the task it picks is on no CPU. What keeps two CPUs apart is
the affinity pin: a task that is on CPU `c` and not terminated has affinity `c`, and a
task is picked only by the CPU it is pinned to. `SchedInv.pinned` says this, and every
section keeps it except one: `terminate_task` clears the pin of a task that another CPU
executes, which is harmless as long as the task stays terminated, and `sleep` makes such
a task blocked without looking at its state.

`exclusive_of_run` is the exclusion in every run without such a sleep,
`sleep_after_terminate_runs_twice` a run with one, in which two CPUs end up in one task.
-/

set_option autoImplicit false

namespace VKernel.Proofs.Sched

open VKernel VKernel.Lib VKernel.Sched

/-- A task slot is the current task of at most one CPU, and `g_per_cpu_task` and
`current_cpu` agree. -/
structure Exclusive (s : Scheduler) : Prop where
  one : ∀ i < s.taskCount, ∀ c d, s.perCpuTask c = i → s.perCpuTask d = i → c = d
  agree : ∀ i < s.taskCount, ∀ c, s.perCpuTask c = i ↔ (s.tasks i).currentCpu = some c

/-- The part of the invariant that also holds in the middle of `preempt`. -/
structure TableOk (s : Scheduler) : Prop where
  count : s.taskCount ≤ MAX_TASKS
  perCpu : ∀ c, s.perCpuTask c < s.taskCount ∨ s.perCpuTask c = SCHED_NO_TASK
  pinned : ∀ i < s.taskCount, ∀ c, (s.tasks i).currentCpu = some c →
    (s.tasks i).state ≠ .terminated → (s.tasks i).affinityCpu = some c ∧ Allowed s i c

/-- The invariant between two sections. Before `start` no CPU runs a task and the idle
task is ready. -/
structure SchedInv (s : Scheduler) : Prop extends TableOk s where
  own : ∀ i < s.taskCount, ∀ c, s.perCpuTask c = i ↔ (s.tasks i).currentCpu = some c
  boot : s.schedulerActive = false → (∀ c, s.perCpuTask c = SCHED_NO_TASK) ∧
    (0 < s.taskCount → (s.tasks 0).state = .ready ∧ (s.tasks 0).affinityCpu = none)

/-- The state in which CPU `c` has let go of its task and not yet taken another: no task
is on CPU `c`. -/
structure Vacant (c : ApicId) (s : Scheduler) : Prop extends TableOk s where
  own : ∀ i < s.taskCount, ∀ d, (s.tasks i).currentCpu = some d ↔ d ≠ c ∧ s.perCpuTask d = i

theorem SchedInv.exclusive {s : Scheduler} (h : SchedInv s) : Exclusive s where
  one i hi c d hc hd := by
    have hc' := (h.own i hi c).mp hc
    have hd' := (h.own i hi d).mp hd
    exact Option.some.inj (hc'.symm.trans hd')
  agree := h.own

/-- A CPU without a task is vacant. -/
theorem SchedInv.vacant {s : Scheduler} (h : SchedInv s) {c : ApicId}
    (hc : s.perCpuTask c = SCHED_NO_TASK) : Vacant c s where
  toTableOk := h.toTableOk
  own i hi d := by
    rw [← h.own i hi d]
    constructor
    · intro hd
      refine ⟨fun hdc => ?_, hd⟩
      have := h.count
      rw [hdc, hc, SCHED_NO_TASK] at hd
      omega
    · exact And.right

/-! ### The sections of `preempt` and `start` -/

/-- A vacant CPU may take any task that `pick_next_task` finds eligible: a task on another
CPU is pinned there. -/
theorem Vacant.off_cpu {s : Scheduler} {c : ApicId} (h : Vacant c s) {i : Nat}
    (hi : i < s.taskCount) (hst : (s.tasks i).state ≠ .terminated)
    (haff : (s.tasks i).affinityCpu = none ∨ (s.tasks i).affinityCpu = some c) :
    (s.tasks i).currentCpu = none := by
  cases hcur : (s.tasks i).currentCpu with
  | none => rfl
  | some d =>
    obtain ⟨hpin, -⟩ := h.pinned i hi d hcur hst
    have hdc : d ≠ c := ((h.own i hi d).mp hcur).1
    rw [hpin] at haff
    rcases haff with haff | haff
    · exact absurd haff (by simp)
    · exact absurd (Option.some.inj haff) hdc

/-- Taking a task restores the invariant. -/
theorem Vacant.dispatch {s : Scheduler} {c : ApicId} (h : Vacant c s) {i : Nat}
    (hi : i < s.taskCount) (hst : (s.tasks i).state ≠ .terminated)
    (haff : (s.tasks i).affinityCpu = none ∨ (s.tasks i).affinityCpu = some c)
    (hallow : Allowed s i c) (b : Bool) (hb : b = true) :
    SchedInv { s.dispatch c i with schedulerActive := b } := by
  have hoff := h.off_cpu hi hst haff
  have hpin : (s.claim (s.tasks i) c).affinityCpu = some c := by
    unfold Scheduler.claim
    rcases haff with haff | haff
    · simp [haff]
    · simp [haff]
  have htask : ∀ j, j ≠ i → (s.dispatch c i).tasks j = s.tasks j := by
    intro j hj
    exact setTask_ne _ _ _ _ hj
  have hself : (s.dispatch c i).tasks i = s.claim (s.tasks i) c := setTask_same _ _ _
  have hcpu : (s.dispatch c i).perCpuTask c = i := setCurrentTask_same _ _ _
  have hcpu' : ∀ d, d ≠ c → (s.dispatch c i).perCpuTask d = s.perCpuTask d := by
    intro d hd
    exact setCurrentTask_ne _ _ _ _ hd
  refine ⟨⟨h.count, fun d => ?_, fun j hj d hcur hnt => ?_⟩, fun j hj d => ?_, fun hb' => ?_⟩
  · by_cases hd : d = c
    · rw [hd]
      exact Or.inl (hcpu.trans_lt hi)
    · rw [show Scheduler.perCpuTask _ d = _ from hcpu' d hd]
      exact h.perCpu d
  · by_cases hji : j = i
    · subst hji
      simp only [hself] at hcur ⊢
      obtain rfl : c = d := Option.some.inj hcur
      exact ⟨hpin, hallow.congr rfl (by rw [hself]; rfl)⟩
    · simp only [htask j hji] at hcur hnt ⊢
      obtain ⟨haff', hallow'⟩ := h.pinned j hj d hcur hnt
      exact ⟨haff', hallow'.congr rfl (congrArg Task.allowSecondaryCpu (htask j hji))⟩
  · by_cases hji : j = i
    · subst hji
      simp only [hself]
      have hclaim : (s.claim (s.tasks j) c).currentCpu = some c := rfl
      rw [hclaim]
      by_cases hd : d = c
      · simp [hd, hcpu]
      · simp only [hcpu' d hd, Option.some.injEq]
        constructor
        · intro hdj
          -- The task was off every CPU, so no other CPU has it.
          have := (h.own j hj d).mpr ⟨hd, hdj⟩
          rw [hoff] at this
          exact absurd this (by simp)
        · intro hcd
          exact absurd hcd.symm hd
    · simp only [htask j hji]
      rw [h.own j hj d]
      by_cases hd : d = c
      · simp [hd, hcpu, Ne.symm hji]
      · simp [hcpu' d hd, hd]
  · exact absurd (hb'.symm.trans hb) (by simp)

/-- Going idle restores the invariant. -/
theorem Vacant.idle {s : Scheduler} {c : ApicId} (h : Vacant c s)
    (hactive : s.schedulerActive = true) :
    SchedInv (s.setCurrentTask c SCHED_NO_TASK) := by
  refine ⟨⟨h.count, fun d => ?_, fun j hj d hcur hnt => ?_⟩, fun j hj d => ?_, fun hb => ?_⟩
  · by_cases hd : d = c
    · rw [hd, setCurrentTask_same]
      exact Or.inr rfl
    · rw [setCurrentTask_ne _ _ _ _ hd]
      exact h.perCpu d
  · obtain ⟨haff, hallow⟩ := h.pinned j hj d hcur hnt
    exact ⟨haff, hallow.congr rfl rfl⟩
  · rw [setCurrentTask_tasks, h.own j hj d]
    by_cases hd : d = c
    · have := h.count
      have hj' : j < s.taskCount := hj
      simp only [hd, setCurrentTask_same, ne_eq, not_true_eq_false, false_and, iff_false]
      simp only [SCHED_NO_TASK]
      omega
    · simp [setCurrentTask_ne _ _ _ _ hd, hd]
  · exact absurd (hb.symm.trans hactive) (by simp)

/-- The table when `preempt` has let go of its current task. -/
theorem SchedInv.preemptRelease {s : Scheduler} (h : SchedInv s) (c : ApicId) (timerTick : Bool)
    (regs : Nat) : Vacant c (s.preemptRelease c timerTick regs).2 := by
  obtain ⟨hcount, -, hper, hbsp, -⟩ := preemptRelease_globals s c timerTick regs
  refine ⟨⟨?_, fun d => ?_, fun i hi d hcur hnt => ?_⟩, fun i hi d => ?_⟩
  · exact hcount ▸ h.count
  · rw [hcount, hper]
    exact h.perCpu d
  · rw [hcount] at hi
    by_cases hic : i = s.perCpuTask c
    · -- The task that was let go of is on no CPU.
      obtain ⟨t, -, hrel, -⟩ := preemptRelease_current s c timerTick regs (hic ▸ hi)
      rw [hic, hrel.current] at hcur
      exact absurd hcur (by simp)
    · have hw := preemptRelease_other s c i timerTick regs hic
      rw [hw.current] at hcur
      have hst : (s.tasks i).state ≠ .terminated := by
        intro hterm
        rcases hw.state with hsame | ⟨hblocked, -⟩
        · exact hnt (hsame.trans hterm)
        · exact absurd (hblocked.symm.trans hterm) (by simp)
      obtain ⟨haff, hallow⟩ := h.pinned i hi d hcur hst
      exact ⟨hw.affinity.trans haff, hallow.congr hbsp hw.secondary⟩
  · rw [hcount] at hi
    rw [hper]
    by_cases hic : i = s.perCpuTask c
    · obtain ⟨t, -, hrel, -⟩ := preemptRelease_current s c timerTick regs (hic ▸ hi)
      have hself := (h.own i hi c).mp hic.symm
      rw [hic, hrel.current]
      simp only [reduceCtorEq, false_iff, not_and]
      intro hd hdi
      have hd' := (h.own i hi d).mp (hdi.trans hic.symm)
      exact hd (Option.some.inj (hd'.symm.trans hself))
    · have hw := preemptRelease_other s c i timerTick regs hic
      rw [hw.current, ← h.own i hi d]
      constructor
      · intro hd
        exact ⟨fun hdc => hic (hdc ▸ hd).symm, hd⟩
      · exact And.right

/-- `preempt` keeps the invariant. -/
theorem SchedInv.preemptLocked {s : Scheduler} (h : SchedInv s)
    (hactive : s.schedulerActive = true) (c : ApicId) (timerTick : Bool) (regs : Nat) :
    SchedInv (s.preemptLocked c timerTick regs).2.2 := by
  have hvac := h.preemptRelease c timerTick regs
  obtain ⟨hcount, -, hper, hbsp, hact⟩ := preemptRelease_globals s c timerTick regs
  rcases preemptLocked_cases s h.count c timerTick regs with
    ⟨next, helig, hout⟩ | ⟨-, -, hout⟩ | ⟨hnone, hcur, hout⟩
  · rw [hout]
    obtain ⟨hready, hlt, haff, hallow⟩ := eligible_iff.mp helig
    exact hvac.dispatch hlt (by rw [hready]; simp) haff hallow _ (hact.trans hactive)
  · rw [hout]
    exact hvac.idle (hact.trans hactive)
  · rw [hout]
    have hge : s.taskCount ≤ s.perCpuTask c := by
      by_contra hlt
      have hlt := Nat.not_le.mp hlt
      -- A runnable current task is pinned here, so it would have been picked.
      obtain ⟨t, hwoken, hrel, -⟩ := preemptRelease_current s c timerTick regs hlt
      have hrun := hcur.resolve_left (by omega)
      have hready : ((s.preemptRelease c timerTick regs).2.tasks (s.perCpuTask c)).state
          = .ready := by
        unfold Task.isRunnable at hrun
        rw [hrel.state] at hrun ⊢
        unfold releasedState at hrun ⊢
        split
        · rfl
        · rename_i hne
          simpa [hne] using hrun
      have hst : (s.tasks (s.perCpuTask c)).state ≠ .terminated := by
        intro hterm
        have ht : t.state = .terminated := by
          rcases hwoken.state with hsame | ⟨hblocked, -⟩
          · exact hsame.trans hterm
          · exact absurd (hblocked.symm.trans hterm) (by simp)
        rw [hrel.state, ht] at hready
        exact absurd hready (by decide)
      obtain ⟨haff, hallow⟩ := h.pinned _ hlt c ((h.own _ hlt c).mp rfl) hst
      refine hnone (eligible_iff.mpr ⟨hready, hcount ▸ hlt, Or.inr ?_, ?_⟩)
      · rw [hrel.affinity, hwoken.affinity, haff]
      · exact hallow.congr hbsp (hrel.secondary.trans hwoken.secondary)
    have hno : s.perCpuTask c = SCHED_NO_TASK := (h.perCpu c).resolve_left (by omega)
    refine ⟨hvac.toTableOk, fun i hi d => ?_, fun hb => ?_⟩
    · rw [hvac.own i hi d]
      constructor
      · intro hd
        refine ⟨fun hdc => ?_, hd⟩
        have hi' : i < s.taskCount := lt_of_lt_of_eq hi hcount
        have := h.count
        rw [hdc, hper, hno, SCHED_NO_TASK] at hd
        omega
      · exact And.right
    · exact absurd (hb.symm.trans (hact.trans hactive)) (by simp)

/-- `start` keeps the invariant. -/
theorem SchedInv.start {s t : Scheduler} (h : SchedInv s) (hboot : s.schedulerActive = false)
    (hstart : s.start = some t) : SchedInv t := by
  obtain ⟨hidle, hzero⟩ := h.boot hboot
  have hvac := h.vacant (hidle s.bspApicId)
  unfold Scheduler.start at hstart
  by_cases h0 : s.taskCount = 0
  · simp [h0] at hstart
  · simp only [h0, if_false, Option.some.injEq] at hstart
    rw [← hstart]
    by_cases hfirst : s.taskCount ≤ s.pickNextTask s.bspApicId SCHED_NO_TASK
    · obtain ⟨hready, haff⟩ := hzero (by omega)
      simp only [hfirst, if_true]
      exact hvac.dispatch (by omega) (by rw [hready]; simp) (Or.inl haff) (by simp [Allowed]) _ rfl
    · simp only [hfirst, if_false]
      obtain ⟨hready, hlt, haff, hallow⟩ :=
        eligible_iff.mp (pickNextTask_eligible h.count (Nat.not_le.mp hfirst))
      exact hvac.dispatch hlt (by rw [hready]; simp) haff hallow _ rfl

/-! ### The other sections -/

/-- Rewriting one slot keeps the invariant when the slot stays on its CPU and, unless it is
terminated, pinned to it. Before `start` the idle task has to stay as it is. -/
theorem SchedInv.setTask {s : Scheduler} (h : SchedInv s) {i : Nat} {t : Task}
    (hcur : i < s.taskCount → t.currentCpu = (s.tasks i).currentCpu)
    (hpin : i < s.taskCount → ∀ c, t.currentCpu = some c → t.state ≠ .terminated →
      t.affinityCpu = some c ∧ t.allowSecondaryCpu = (s.tasks i).allowSecondaryCpu ∧
        Allowed s i c)
    (hboot : s.schedulerActive = false → i = 0 → 0 < s.taskCount →
      t.state = .ready ∧ t.affinityCpu = none) :
    SchedInv (s.setTask i t) := by
  refine ⟨⟨h.count, h.perCpu, fun j hj c hc hnt => ?_⟩, fun j hj c => ?_, fun hb => ?_⟩
  · by_cases hji : j = i
    · subst hji
      rw [setTask_same] at hc hnt ⊢
      obtain ⟨haff, hsec, hallow⟩ := hpin hj c hc hnt
      refine ⟨haff, hallow.congr rfl ?_⟩
      rw [setTask_same, hsec]
    · rw [setTask_ne _ _ _ _ hji] at hc hnt ⊢
      obtain ⟨haff, hallow⟩ := h.pinned j hj c hc hnt
      refine ⟨haff, hallow.congr rfl ?_⟩
      rw [setTask_ne _ _ _ _ hji]
  · by_cases hji : j = i
    · subst hji
      rw [setTask_same, hcur hj]
      exact h.own j hj c
    · rw [setTask_ne _ _ _ _ hji]
      exact h.own j hj c
  · obtain ⟨hidle, hzero⟩ := h.boot hb
    refine ⟨hidle, fun hpos => ?_⟩
    by_cases h0 : 0 = i
    · rw [← h0, setTask_same]
      exact hboot hb h0.symm hpos
    · rw [setTask_ne _ _ _ _ h0]
      exact hzero hpos

/-- Terminating a task keeps the invariant, whatever else is cleared with it. -/
theorem SchedInv.setTerminated {s : Scheduler} (h : SchedInv s) {i : Nat} {t : Task}
    (hcur : t.currentCpu = (s.tasks i).currentCpu) (hterm : t.state = .terminated)
    (hboot : s.schedulerActive = false → i ≠ 0) : SchedInv (s.setTask i t) :=
  h.setTask (fun _ => hcur) (fun _ _ _ hnt => absurd hterm hnt)
    (fun hb h0 _ => absurd h0 (hboot hb))

/-- A CPU runs a task only after `start`. -/
theorem SchedInv.active {s : Scheduler} (h : SchedInv s) {c : ApicId}
    (hc : s.perCpuTask c < s.taskCount) : s.schedulerActive = true := by
  by_contra hb
  have hno := (h.boot (by simpa using hb)).1 c
  have := h.count
  rw [hno, SCHED_NO_TASK] at hc
  omega

/-- `create_task` keeps the invariant: it takes a slot that no CPU runs. -/
theorem SchedInv.createTask {s : Scheduler} (h : SchedInv s) (name : List UInt8)
    (userData : Option Ctx) : SchedInv (s.createTask name userData).2 := by
  unfold Scheduler.createTask
  by_cases hfull : MAX_TASKS ≤ s.findAvailableTaskSlot
  · simpa [hfull] using h
  · have hslot := findAvailableTaskSlot_cases (Nat.not_le.mp hfull)
    simp only [hfull, if_false]
    generalize s.findAvailableTaskSlot = slot at hfull hslot
    have hslot0 : s.schedulerActive = false → slot = 0 → 0 < s.taskCount → False := by
      intro hb h0 hpos
      subst h0
      have hready := ((h.boot hb).2 hpos).1
      rcases hslot with ⟨-, hterm, -⟩ | hnew
      · exact absurd (hready.symm.trans hterm) (by simp)
      · omega
    by_cases hname : TASK_NAME_CAPACITY ≤ name.length
    · simp only [hname, if_true]
      exact h.setTask (fun _ => rfl) (fun hlt c hc hnt => by
        obtain ⟨haff, hallow⟩ := h.pinned slot hlt c hc hnt
        exact ⟨haff, rfl, hallow⟩) (fun hb h0 hpos => (hslot0 hb h0 hpos).elim)
    · simp only [hname, if_false]
      have hle : slot ≤ s.taskCount := by
        rcases hslot with ⟨hlt, -, -⟩ | hnew
        · omega
        · omega
      have hoff : ∀ c, s.perCpuTask c ≠ slot := by
        intro c hc
        rcases hslot with ⟨hlt, -, hnone⟩ | hnew
        · have := (h.own slot hlt c).mp hc
          rw [hnone] at this
          exact absurd this (by simp)
        · rcases h.perCpu c with hlt | hno
          · omega
          · rw [hno, SCHED_NO_TASK] at hc
            omega
      generalize hn : (if slot = s.taskCount then s.taskCount + 1 else s.taskCount) = n
      have hcases : ∀ j, j < n → j = slot ∨ j < s.taskCount := by
        intro j hj
        rw [← hn] at hj
        split at hj
        · omega
        · omega
      have hgrow : s.taskCount ≤ n ∧ n ≤ MAX_TASKS := by
        have := h.count
        rw [← hn]
        split
        · omega
        · omega
      refine ⟨⟨hgrow.2, fun c => ?_, fun j hj c hc hnt => ?_⟩, fun j hj c => ?_, fun hb => ?_⟩
      · exact (h.perCpu c).imp (fun hlt => lt_of_lt_of_le hlt hgrow.1) id
      · by_cases hjs : j = slot
        · -- The new task is on no CPU.
          subst hjs
          rw [setTask_same] at hc
          exact absurd hc (by simp [Scheduler.newTask])
        · rw [setTask_ne _ _ _ _ hjs] at hc hnt ⊢
          obtain ⟨haff, hallow⟩ := h.pinned j ((hcases j hj).resolve_left hjs) c hc hnt
          refine ⟨haff, hallow.congr rfl ?_⟩
          rw [setTask_ne _ _ _ _ hjs]
      · by_cases hjs : j = slot
        · subst hjs
          rw [setTask_same]
          simp [hoff c, Scheduler.newTask]
        · rw [setTask_ne _ _ _ _ hjs]
          exact h.own j ((hcases j hj).resolve_left hjs) c
      · obtain ⟨hidle, hzero⟩ := h.boot hb
        refine ⟨hidle, fun _ => ?_⟩
        by_cases h0 : 0 = slot
        · rw [← h0, setTask_same]
          exact ⟨rfl, rfl⟩
        · rw [setTask_ne _ _ _ _ h0]
          exact hzero (by omega)

/-! ### Runs -/

/-- The task that calls `sleep` is not terminated. -/
def SleepsAlive (m : Smp) : SchedOp → Prop
  | .sleep c _ => (m.sched.tasks (m.sched.perCpuTask c)).state ≠ .terminated
  | _ => True

instance (m : Smp) : ∀ op, Decidable (SleepsAlive m op)
  | .sleep _ _ => inferInstanceAs (Decidable (_ ≠ _))
  | .createTask _ _ => inferInstanceAs (Decidable True)
  | .start | .startAp _ | .yield _ | .preemptEntry _ | .preempt _ _ _ | .terminateTask _
  | .exitTask _ | .detachCurrentTask _ | .replaceCurrentTaskContext _ _ _ =>
    inferInstanceAs (Decidable True)

/-- The invariant of a run: a CPU that was not started has no task. -/
structure SmpInv (m : Smp) : Prop where
  sched : SchedInv m.sched
  offline : ∀ c, m.online c = false → m.sched.perCpuTask c = SCHED_NO_TASK

/-- `preempt` on `c` leaves the other CPUs their tasks. -/
theorem preemptLocked_perCpuTask {s : Scheduler} (hcount : s.taskCount ≤ MAX_TASKS)
    {c d : ApicId} (hd : d ≠ c) (b : Bool) (regs : Nat) :
    (s.preemptLocked c b regs).2.2.perCpuTask d = s.perCpuTask d := by
  have hper := (preemptRelease_globals s c b regs).2.2.1
  rcases preemptLocked_cases s hcount c b regs with
    ⟨next, -, hout⟩ | ⟨-, -, hout⟩ | ⟨-, -, hout⟩
  · rw [hout]
    exact (setCurrentTask_ne _ _ _ _ hd).trans (congrFun hper d)
  · rw [hout]
    exact (setCurrentTask_ne _ _ _ _ hd).trans (congrFun hper d)
  · rw [hout]
    exact congrFun hper d

theorem SchedInv.preempt {s : Scheduler} (h : SchedInv s) (c : ApicId) (b : Bool) (regs : Nat) :
    SchedInv (s.preempt c b regs) := by
  unfold Scheduler.preempt
  split
  · rename_i hsched
    exact h.preemptLocked ((Bool.and_eq_true _ _).mp hsched).1 c b regs
  · exact h

theorem SchedInv.sleep {s : Scheduler} (h : SchedInv s) {c : ApicId} (ticks : Nat)
    (hc : s.perCpuTask c < s.taskCount)
    (halive : (s.tasks (s.perCpuTask c)).state ≠ .terminated) : SchedInv (s.sleep c ticks) := by
  refine h.setTask (fun _ => rfl) (fun hlt d hd _ => ?_) (fun hb _ _ => ?_)
  · obtain ⟨haff, hallow⟩ := h.pinned _ hlt d hd halive
    exact ⟨haff, rfl, hallow⟩
  · exact absurd (hb.symm.trans (h.active hc)) (by simp)

theorem SchedInv.terminateTask {s : Scheduler} (h : SchedInv s) (id : Nat) :
    SchedInv (s.terminateTask id).2.2 := by
  rcases terminateTask_cases s id with ⟨hsame, -⟩ | ⟨i, -, h0, -, -, hout⟩
  · rw [hsame]
    exact h
  · obtain ⟨hterm, -⟩ := terminated_spec (s.tasks i)
    rw [hout]
    exact h.setTerminated hterm.current hterm.state fun _ => h0

theorem SchedInv.detachCurrentTask {s : Scheduler} (h : SchedInv s) (c : ApicId) :
    SchedInv (s.detachCurrentTask c).2 := by
  unfold Scheduler.detachCurrentTask
  by_cases hc : s.perCpuTask c < s.taskCount
  · simp only [hc, if_true]
    exact h.setTerminated rfl rfl fun hb => absurd (hb.symm.trans (h.active hc)) (by simp)
  · simpa [hc] using h

theorem SchedInv.replaceCurrentTaskContext {s : Scheduler} (h : SchedInv s) (c : ApicId)
    (name : List UInt8) (userData : Option Ctx) :
    SchedInv (s.replaceCurrentTaskContext c name userData).2 := by
  unfold Scheduler.replaceCurrentTaskContext
  by_cases hname : TASK_NAME_CAPACITY ≤ name.length
  · simpa [hname] using h
  · by_cases hcur : s.taskCount ≤ s.perCpuTask c ∨
        (s.tasks (s.perCpuTask c)).state = .terminated
    · simpa [hname, hcur] using h
    · simp only [hname, hcur, if_false]
      refine h.setTask (fun _ => rfl) (fun hlt d hd hnt => ?_) (fun hb _ _ => ?_)
      · obtain ⟨haff, hallow⟩ := h.pinned _ hlt d hd hnt
        exact ⟨haff, rfl, hallow⟩
      · have hlt : s.perCpuTask c < s.taskCount := by omega
        exact absurd (hb.symm.trans (h.active hlt)) (by simp)

/-- The invariant does not look at the clock or at the yield flags. -/
theorem SchedInv.clock {s : Scheduler} (h : SchedInv s) (n : Nat) (f : ApicId → Bool) :
    SchedInv { s with tickCount := n, yieldInProgress := f } :=
  ⟨⟨h.count, h.perCpu, h.pinned⟩, h.own, h.boot⟩

/-- One section keeps the invariant, unless it is a `sleep` of a terminated task. -/
theorem SmpInv.step {m n : Smp} {op : SchedOp} (h : SmpInv m) (hok : SleepsAlive m op)
    (hstep : m.next op = some n) : SmpInv n := by
  cases sectionStep_of_next hstep with
  | createTask name userData =>
    refine ⟨h.sched.createTask name userData, fun c hc => ?_⟩
    rw [← h.offline c hc]
    unfold Scheduler.createTask
    simp only []
    split
    · rfl
    · split
      · rfl
      · rfl
  | start _ hboot hs =>
    refine ⟨h.sched.start hboot hs, fun c hc => ?_⟩
    have hne : c ≠ m.sched.bspApicId := fun heq => by simp [heq] at hc
    have hoff : m.online c = false := by simpa [hne] using hc
    exact (setCurrentTask_ne _ _ _ _ hne).trans (h.offline c hoff)
  | startAp c hoff =>
    have hno := h.offline c hoff
    -- The CPU had no task, so nothing changes.
    have hsame : m.sched.startAp c = m.sched := by
      unfold Scheduler.startAp Scheduler.setCurrentTask
      rw [← hno, Function.update_eq_self]
    refine ⟨by rw [hsame]; exact h.sched, fun d hd => ?_⟩
    by_cases hdc : d = c
    · exact hdc ▸ setCurrentTask_same _ _ _
    · refine (setCurrentTask_ne _ _ _ _ hdc).trans (h.offline d ?_)
      simpa [hdc] using hd
  | yield _ n f | preemptEntry _ n f => exact ⟨h.sched.clock n f, h.offline⟩
  | preempt c b regs hon hs =>
    have hinv : SchedInv (m.sched.preempt c b regs) := h.sched.preempt c b regs
    rw [Scheduler.preempt, if_pos hs] at hinv
    refine ⟨hinv, fun d hd => ?_⟩
    have hdc : d ≠ c := by
      intro heq
      rw [heq] at hd
      exact absurd (hd.symm.trans hon) (by simp)
    exact (preemptLocked_perCpuTask h.sched.count hdc b regs).trans (h.offline d hd)
  | sleep c ticks hrun => exact ⟨h.sched.sleep ticks hrun hok, h.offline⟩
  | terminateTask id _ _ _ hout => exact ⟨hout ▸ h.sched.terminateTask id, h.offline⟩
  | exitTask c hrun =>
    refine ⟨h.sched.setTerminated rfl rfl fun hb => ?_, h.offline⟩
    exact absurd (hb.symm.trans (h.sched.active hrun)) (by simp)
  | detachCurrentTask c hout => exact ⟨hout ▸ h.sched.detachCurrentTask c, h.offline⟩
  | replaceCurrentTaskContext c name userData _ hout =>
    exact ⟨hout ▸ h.sched.replaceCurrentTaskContext c name userData, h.offline⟩
  | preemptOff | terminateNone | detachNone | replaceFailed => exact h

theorem smpInv_init (bsp : ApicId) : SmpInv ⟨Scheduler.init bsp, fun _ => false⟩ := by
  refine ⟨⟨⟨Nat.zero_le _, fun _ => Or.inr rfl, fun i hi => absurd hi (Nat.not_lt_zero i)⟩,
    fun i hi => absurd hi (Nat.not_lt_zero i), fun _ => ⟨fun _ => rfl, ?_⟩⟩, fun _ _ => rfl⟩
  exact fun hpos => absurd hpos (Nat.not_lt_zero 0)

/-- In every run in which only live tasks call `sleep`, a task is never on two CPUs. -/
theorem exclusive_of_run (m : Smp) (hm : (schedSystem.restrict SleepsAlive).Reachable m) :
    Exclusive m.sched := by
  have hinv : SmpInv m := by
    refine hm.invariant (fun m hinit => ?_) (fun m op n _ h hstep => ?_)
    · obtain ⟨bsp, rfl⟩ := hinit
      exact smpInv_init bsp
    · exact h.step hstep.1 hstep.2
  exact hinv.sched.exclusive

/-- The calls up to the point where the shell runs on the boot CPU 0 and a task that it
created runs on CPU 1. -/
def twoCpuTrace : List SchedOp :=
  [.createTask [105, 100, 108, 101] none, .createTask [115, 104] none, .start, .startAp 1,
    .createTask [97] none, .preemptEntry 1, .preempt 1 true 0]

/-- The machine that `sched::init` leaves on boot CPU 0. -/
def bootMachine : Smp := ⟨Scheduler.init 0, fun _ => false⟩

/-- A run that goes to sleep on CPU 1 meets the condition, and its last state is
exclusive. -/
theorem exclusive_of_run_two_cpus :
    ∃ m, TransitionSystem.run (TransitionSystem.guarded Smp.next SleepsAlive) bootMachine
        (twoCpuTrace ++ [.sleep 1 1]) = some m ∧
      m.sched.perCpuTask 0 = 1 ∧ m.sched.perCpuTask 1 = 2 ∧ Exclusive m.sched := by
  have hrun : (TransitionSystem.run (TransitionSystem.guarded Smp.next SleepsAlive) bootMachine
      (twoCpuTrace ++ [.sleep 1 1])).any (fun m =>
        m.sched.perCpuTask 0 == 1 && m.sched.perCpuTask 1 == 2) = true := by
    decide
  obtain ⟨m, hm, hp⟩ := (Option.any_eq_true _ _).mp hrun
  simp only [Bool.and_eq_true, beq_iff_eq] at hp
  exact ⟨m, hm, hp.1, hp.2, exclusive_of_run m
    (TransitionSystem.reachable_of_guarded_run (.init ⟨0, rfl⟩) hm)⟩

/-- The shell terminates the task on CPU 1, the task goes to sleep there, and the next
timer interrupt of CPU 0 wakes it and runs it a second time. -/
theorem sleep_after_terminate_runs_twice :
    ∃ m, schedSystem.Reachable m ∧ m.sched.schedulerActive = true ∧ ¬ Exclusive m.sched := by
  have hrun : (TransitionSystem.run Smp.next bootMachine (twoCpuTrace ++
      [.terminateTask 3, .sleep 1 1, .preemptEntry 0, .preempt 0 true 0])).any (fun m =>
        m.sched.schedulerActive && decide (2 < m.sched.taskCount) &&
          m.sched.perCpuTask 0 == 2 && m.sched.perCpuTask 1 == 2) = true := by
    with_unfolding_all decide
  obtain ⟨m, hm, hp⟩ := (Option.any_eq_true _ _).mp hrun
  simp only [Bool.and_eq_true, beq_iff_eq, decide_eq_true_eq] at hp
  obtain ⟨⟨⟨hact, hlt⟩, h0⟩, h1⟩ := hp
  refine ⟨m, TransitionSystem.reachable_of_run (.init ⟨0, rfl⟩) hm, hact, fun hex => ?_⟩
  exact absurd (hex.one 2 hlt 0 1 h0 h1) (by decide)

end VKernel.Proofs.Sched

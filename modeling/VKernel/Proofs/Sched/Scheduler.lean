import VKernel.Sched.Interleaving

/-!
# `VKernel.Proofs.Sched.Scheduler`: what each scheduler section does to the task table

The facts about single sections that the invariants are derived from: which slot
`pick_next_task` and `find_available_task_slot` can return, and what a section does to the
fields of a slot. The proofs about runs use these and do not unfold the sections again.
-/

set_option autoImplicit false

namespace VKernel.Proofs.Sched

open VKernel VKernel.Sched

/-- CPU `c` may run slot `i`, its affinity apart: the idle task stays on the boot CPU, and
another CPU needs `allow_secondary_cpu`. -/
def Allowed (s : Scheduler) (i : Nat) (c : ApicId) : Prop :=
  if i = 0 then c = s.bspApicId
  else c = s.bspApicId ∨ (s.tasks i).allowSecondaryCpu = true

/-- Where a task may run depends on two fields. -/
theorem Allowed.congr {s s' : Scheduler} {i : Nat} {c : ApicId} (h : Allowed s i c)
    (hbsp : s'.bspApicId = s.bspApicId)
    (hsec : (s'.tasks i).allowSecondaryCpu = (s.tasks i).allowSecondaryCpu) :
    Allowed s' i c := by
  unfold Allowed at h ⊢
  rwa [hbsp, hsec]

/-- The test of `pick_next_task`, spelled out. -/
theorem eligible_iff {s : Scheduler} {c : ApicId} {i : Nat} :
    s.eligible c i = true ↔
      (s.tasks i).state = .ready ∧ i < s.taskCount ∧
        ((s.tasks i).affinityCpu = none ∨ (s.tasks i).affinityCpu = some c) ∧ Allowed s i c := by
  unfold Scheduler.eligible Scheduler.canRunOnCpu Scheduler.matchesCpuAffinity
    Scheduler.allowsSharedIdle Allowed
  by_cases hi : s.taskCount ≤ i
  · simp [hi]
  · have hlt : i < s.taskCount := by omega
    by_cases h0 : i = 0
    · subst h0
      simp [hi, hlt]
    · by_cases hb : c = s.bspApicId
      · simp [hi, h0, hb, hlt]
      · simp [hi, h0, hb, hlt]

/-- `pick_next_task` returns an eligible slot or `SCHED_NO_TASK`. -/
theorem pickNextTask_eligible {s : Scheduler} (hcount : s.taskCount ≤ MAX_TASKS) {c : ApicId}
    {cur : Nat} (h : s.pickNextTask c cur < s.taskCount) :
    s.eligible c (s.pickNextTask c cur) = true := by
  unfold Scheduler.pickNextTask at h ⊢
  split
  · omega
  · rename_i h0
    simp only [h0, if_false] at h
    cases hround : s.pickInRounds c cur with
    | some next =>
      exact List.find?_some hround
    | none =>
      simp only [hround] at h ⊢
      split
      · rename_i hcur
        exact hcur.2.2
      · split
        · assumption
        · rename_i hcur hidle
          simp only [hcur, hidle, if_false, SCHED_NO_TASK] at h
          exact absurd h (by simpa using hcount)

/-- When `pick_next_task` finds nothing, the current slot is not eligible either. -/
theorem pickNextTask_none {s : Scheduler} {c : ApicId} {cur : Nat}
    (h : s.taskCount ≤ s.pickNextTask c cur) : ¬ s.eligible c cur = true := by
  intro helig
  have hlt : cur < s.taskCount := (eligible_iff.mp helig).2.1
  unfold Scheduler.pickNextTask at h
  have h0 : s.taskCount ≠ 0 := by omega
  simp only [h0, if_false] at h
  cases hround : s.pickInRounds c cur with
  | some next =>
    simp only [hround] at h
    have hnext := eligible_iff.mp (List.find?_some hround)
    omega
  | none =>
    simp only [hround] at h
    by_cases hcur : 0 < cur
    · simp only [hcur, hlt, helig, and_self, if_true] at h
      omega
    · obtain rfl : cur = 0 := by omega
      simp only [Nat.lt_irrefl, false_and, if_false, helig, if_true] at h
      omega

/-- The slot that `create_task` takes is a terminated one that is on no CPU, or a new
one. -/
theorem findAvailableTaskSlot_cases {s : Scheduler} (h : s.findAvailableTaskSlot < MAX_TASKS) :
    (s.findAvailableTaskSlot < s.taskCount ∧
      (s.tasks s.findAvailableTaskSlot).state = .terminated ∧
      (s.tasks s.findAvailableTaskSlot).currentCpu = none) ∨
    s.findAvailableTaskSlot = s.taskCount := by
  unfold Scheduler.findAvailableTaskSlot at h ⊢
  split
  · rename_i i hfind
    have hp := List.find?_some hfind
    have hmem := List.mem_range.mp (List.mem_of_find?_eq_some hfind)
    simp only [Bool.and_eq_true, beq_iff_eq] at hp
    exact Or.inl ⟨hmem, hp⟩
  · rename_i hnone
    simp only [hnone] at h
    split
    · exact Or.inr rfl
    · rename_i hfull
      simp only [hfull, if_false, SCHED_NO_TASK, Nat.lt_irrefl] at h

/-- The slot that `terminate_task` finds. -/
theorem terminateTask_cases (s : Scheduler) (id : Nat) :
    (s.terminateTask id).2.2 = s ∧ (s.terminateTask id).2.1 = none ∨
      ∃ i, i < s.taskCount ∧ i ≠ 0 ∧ (s.tasks i).id = id ∧
        (s.terminateTask id).2.1 = (Scheduler.terminated (s.tasks i)).1 ∧
        (s.terminateTask id).2.2 = s.setTask i (Scheduler.terminated (s.tasks i)).2 := by
  unfold Scheduler.terminateTask
  split
  · exact Or.inl ⟨rfl, rfl⟩
  · rename_i i hfind
    have hid := List.find?_some hfind
    have hmem := List.mem_range.mp (List.mem_of_find?_eq_some hfind)
    simp only [beq_iff_eq] at hid
    split
    · exact Or.inl ⟨rfl, rfl⟩
    · rename_i h0
      exact Or.inr ⟨i, hmem, h0, hid, rfl, rfl⟩

/-! ### The fields of a slot -/

section Fields

variable (s : Scheduler) (t : Task) (c d : ApicId) (i j : Nat) (b : Bool) (regs : Nat)

@[simp] theorem setTask_same : (s.setTask i t).tasks i = t := by
  simp [Scheduler.setTask]

theorem setTask_ne (h : j ≠ i) : (s.setTask i t).tasks j = s.tasks j := by
  simp [Scheduler.setTask, h]

@[simp] theorem setTask_taskCount : (s.setTask i t).taskCount = s.taskCount := rfl
@[simp] theorem setTask_nextTaskId : (s.setTask i t).nextTaskId = s.nextTaskId := rfl
@[simp] theorem setTask_perCpuTask : (s.setTask i t).perCpuTask = s.perCpuTask := rfl
@[simp] theorem setTask_bspApicId : (s.setTask i t).bspApicId = s.bspApicId := rfl
@[simp] theorem setTask_schedulerActive :
    (s.setTask i t).schedulerActive = s.schedulerActive := rfl

@[simp] theorem setCurrentTask_same : (s.setCurrentTask c i).perCpuTask c = i := by
  simp [Scheduler.setCurrentTask]

theorem setCurrentTask_ne (h : d ≠ c) :
    (s.setCurrentTask c i).perCpuTask d = s.perCpuTask d := by
  simp [Scheduler.setCurrentTask, h]

@[simp] theorem setCurrentTask_tasks : (s.setCurrentTask c i).tasks = s.tasks := rfl
@[simp] theorem setCurrentTask_taskCount :
    (s.setCurrentTask c i).taskCount = s.taskCount := rfl
@[simp] theorem setCurrentTask_nextTaskId :
    (s.setCurrentTask c i).nextTaskId = s.nextTaskId := rfl
@[simp] theorem setCurrentTask_bspApicId :
    (s.setCurrentTask c i).bspApicId = s.bspApicId := rfl
@[simp] theorem setCurrentTask_schedulerActive :
    (s.setCurrentTask c i).schedulerActive = s.schedulerActive := rfl

@[simp] theorem dispatch_same : (s.dispatch c i).tasks i = s.claim (s.tasks i) c :=
  setTask_same _ _ _

theorem dispatch_ne (h : j ≠ i) : (s.dispatch c i).tasks j = s.tasks j :=
  setTask_ne _ _ _ _ h

/-- The fields that charging a slot for its ticks does not touch. -/
theorem accountTaskTicks_fields :
    ∃ n, s.accountTaskTicks t c b = { t with cpuTicks := n } := by
  unfold Scheduler.accountTaskTicks
  split
  · exact ⟨t.cpuTicks, rfl⟩
  · exact ⟨_, rfl⟩

/-- The state of a task that a CPU lets go of: a running one becomes ready. -/
def releasedState (st : TaskState) : TaskState := if st = .running then .ready else st

/-- What letting go of its current task does to that task's fields. -/
structure Released (t u : Task) : Prop where
  id : u.id = t.id
  state : u.state = releasedState t.state
  affinity : u.affinityCpu = t.affinityCpu
  secondary : u.allowSecondaryCpu = t.allowSecondaryCpu
  current : u.currentCpu = none
  userData : u.userData = if t.state = .terminated then none else t.userData

/-- What happens to the task that a CPU gives back. -/
theorem releaseCurrent_spec :
    Released t (s.releaseCurrent t c b regs).2 ∧
      (s.releaseCurrent t c b regs).1 = if t.state = .terminated then t.userData else none := by
  obtain ⟨n, hn⟩ := accountTaskTicks_fields s t c b
  unfold Scheduler.releaseCurrent
  simp only [hn]
  by_cases hterm : t.state = .terminated
  · cases hu : t.userData with
    | none => exact ⟨by constructor <;> simp [hterm, releasedState], by simp [hterm]⟩
    | some x => exact ⟨by constructor <;> simp [hterm, releasedState], by simp [hterm]⟩
  · by_cases hrun : t.state = .running
    · exact ⟨by constructor <;> simp [hrun, releasedState], by simp [hrun]⟩
    · exact ⟨by constructor <;> simp [hterm, hrun, releasedState], by simp [hterm, hrun]⟩

/-- What `terminate_task` does to the slot it finds: the context is taken only from a task
that is on no CPU. -/
structure Terminated (t u : Task) : Prop where
  id : u.id = t.id
  state : u.state = .terminated
  current : u.currentCpu = t.currentCpu
  userData : u.userData = if t.currentCpu = none then none else t.userData

/-- What `terminate_task` does to a task. -/
theorem terminated_spec :
    Terminated t (Scheduler.terminated t).2 ∧
      (Scheduler.terminated t).1 = if t.currentCpu = none then t.userData else none := by
  unfold Scheduler.terminated
  by_cases h : t.currentCpu = none
  · exact ⟨by constructor <;> simp [h], by simp [h]⟩
  · exact ⟨by constructor <;> simp [h], by simp [h]⟩

/-- What waking the sleepers does to a slot. -/
structure Woken (t u : Task) : Prop where
  id : u.id = t.id
  state : u.state = t.state ∨ t.state = .blocked ∧ u.state = .ready
  affinity : u.affinityCpu = t.affinityCpu
  secondary : u.allowSecondaryCpu = t.allowSecondaryCpu
  current : u.currentCpu = t.currentCpu
  userData : u.userData = t.userData

/-- Waking changes the state and the tick of a task only. -/
theorem wakeSleepingTasks_spec : Woken (s.tasks i) (s.wakeSleepingTasks.tasks i) := by
  unfold Scheduler.wakeSleepingTasks
  by_cases h : i < s.taskCount ∧ (s.tasks i).state = .blocked ∧
      (s.tasks i).wakeTick ≤ s.tickCount
  · constructor <;> simp [h]
  · constructor <;> simp [h]

@[simp] theorem wakeSleepingTasks_taskCount :
    s.wakeSleepingTasks.taskCount = s.taskCount := rfl
@[simp] theorem wakeSleepingTasks_perCpuTask :
    s.wakeSleepingTasks.perCpuTask = s.perCpuTask := rfl

/-- A slot that CPU `c` does not run is only woken by `preempt` on `c`, before it picks. -/
theorem preemptRelease_other (h : i ≠ s.perCpuTask c) :
    Woken (s.tasks i) ((s.preemptRelease c b regs).2.tasks i) := by
  unfold Scheduler.preemptRelease
  simp only [wakeSleepingTasks_taskCount, wakeSleepingTasks_perCpuTask]
  by_cases hlt : s.perCpuTask c < s.taskCount
  · simp only [hlt, if_true]
    rw [setTask_ne _ _ _ _ h]
    exact wakeSleepingTasks_spec s i
  · simp only [hlt, if_false]
    exact wakeSleepingTasks_spec s i

/-- The slot that CPU `c` runs is woken and let go of. -/
theorem preemptRelease_current (h : s.perCpuTask c < s.taskCount) :
    ∃ t, Woken (s.tasks (s.perCpuTask c)) t ∧
      Released t ((s.preemptRelease c b regs).2.tasks (s.perCpuTask c)) ∧
      (s.preemptRelease c b regs).1 = if t.state = .terminated then t.userData else none := by
  refine ⟨_, wakeSleepingTasks_spec s _, ?_⟩
  have hrel := releaseCurrent_spec s.wakeSleepingTasks
    (s.wakeSleepingTasks.tasks (s.perCpuTask c)) c b regs
  unfold Scheduler.preemptRelease
  simp only [wakeSleepingTasks_taskCount, wakeSleepingTasks_perCpuTask, h, if_true, setTask_same]
  exact hrel

/-- Without a current task there is nothing to let go of. -/
theorem preemptRelease_idle (h : s.taskCount ≤ s.perCpuTask c) :
    s.preemptRelease c b regs = (none, s.wakeSleepingTasks) := by
  unfold Scheduler.preemptRelease
  simp only [wakeSleepingTasks_taskCount, wakeSleepingTasks_perCpuTask, Nat.not_lt.mpr h,
    if_false]

/-- The globals that letting go of a task does not touch. -/
theorem preemptRelease_globals :
    (s.preemptRelease c b regs).2.taskCount = s.taskCount ∧
    (s.preemptRelease c b regs).2.nextTaskId = s.nextTaskId ∧
    (s.preemptRelease c b regs).2.perCpuTask = s.perCpuTask ∧
    (s.preemptRelease c b regs).2.bspApicId = s.bspApicId ∧
    (s.preemptRelease c b regs).2.schedulerActive = s.schedulerActive := by
  unfold Scheduler.preemptRelease
  simp only []
  split
  · exact ⟨rfl, rfl, rfl, rfl, rfl⟩
  · exact ⟨rfl, rfl, rfl, rfl, rfl⟩

end Fields

/-- The unlocked accesses change the tick count and the yield flags only. -/
theorem yield_fields (s : Scheduler) (c : ApicId) :
    ∃ n f, s.yield c = { s with tickCount := n, yieldInProgress := f } := by
  unfold Scheduler.yield
  split
  · exact ⟨s.tickCount, s.yieldInProgress, rfl⟩
  · exact ⟨s.tickCount, _, rfl⟩

/-- The entry of `preempt` changes the tick and the yield flag only. -/
theorem preemptEntry_fields (s : Scheduler) (c : ApicId) :
    ∃ n f, (s.preemptEntry c).2 = { s with tickCount := n, yieldInProgress := f } := by
  unfold Scheduler.preemptEntry
  by_cases hy : s.yieldInProgress c = true
  · exact ⟨s.tickCount, Function.update s.yieldInProgress c false, by simp [hy]⟩
  · by_cases hc : c = s.bspApicId
    · exact ⟨add64 s.tickCount 1, s.yieldInProgress, by rw [if_neg hy, if_pos hc]⟩
    · exact ⟨s.tickCount, s.yieldInProgress, by simp [hy, hc]⟩

/-- The three ways through the locked section of `preempt`. -/
theorem preemptLocked_cases (s : Scheduler) (hcount : s.taskCount ≤ MAX_TASKS) (c : ApicId)
    (b : Bool) (regs : Nat) :
    let r := s.preemptRelease c b regs
    (∃ next, r.2.eligible c next = true ∧
      s.preemptLocked c b regs = (r.1, .task next, r.2.dispatch c next)) ∨
    (s.perCpuTask c < s.taskCount ∧ (r.2.tasks (s.perCpuTask c)).isRunnable = false ∧
      s.preemptLocked c b regs = (r.1, .idle, r.2.setCurrentTask c SCHED_NO_TASK)) ∨
    (¬ r.2.eligible c (s.perCpuTask c) = true ∧
      (s.taskCount ≤ s.perCpuTask c ∨ (r.2.tasks (s.perCpuTask c)).isRunnable = true) ∧
      s.preemptLocked c b regs = (r.1, .resume, r.2)) := by
  intro r
  have hrc : r.2.taskCount = s.taskCount := (preemptRelease_globals s c b regs).1
  unfold Scheduler.preemptLocked
  by_cases hnext : r.2.pickNextTask c (s.perCpuTask c) < r.2.taskCount
  · refine Or.inl ⟨_, pickNextTask_eligible (hrc ▸ hcount) hnext, ?_⟩
    simp only [r] at hnext
    simp only [hnext, if_true, r]
  · have hnone := pickNextTask_none (Nat.not_lt.mp hnext)
    right
    simp only [r] at hnext hrc
    rw [hrc] at hnext
    simp only [hrc, hnext, if_false]
    by_cases hcur : s.perCpuTask c < s.taskCount ∧
        (r.2.tasks (s.perCpuTask c)).isRunnable = false
    · refine Or.inl ⟨hcur.1, hcur.2, ?_⟩
      simp only [r] at hcur
      simp [hcur, r]
    · refine Or.inr ⟨hnone, ?_, ?_⟩
      · by_cases hlt : s.perCpuTask c < s.taskCount
        · exact Or.inr (Bool.not_eq_false _ ▸ fun h => hcur ⟨hlt, h⟩)
        · exact Or.inl (Nat.not_lt.mp hlt)
      · simp only [r] at hcur
        simp [hcur, r]

/-- The two ways through `replace_current_task_context`. -/
theorem replaceCurrentTaskContext_cases (s : Scheduler) (c : ApicId) (name : List UInt8)
    (userData : Option Ctx) :
    (s.replaceCurrentTaskContext c name userData).1 = false ∧
        (s.replaceCurrentTaskContext c name userData).2 = s ∨
      (s.replaceCurrentTaskContext c name userData).1 = true ∧
        (s.tasks (s.perCpuTask c)).state ≠ .terminated ∧
        (s.replaceCurrentTaskContext c name userData).2 = s.setTask (s.perCpuTask c)
          { s.tasks (s.perCpuTask c) with name := name, userData := userData } := by
  unfold Scheduler.replaceCurrentTaskContext
  by_cases hname : TASK_NAME_CAPACITY ≤ name.length
  · simp [hname]
  · by_cases hcur : s.taskCount ≤ s.perCpuTask c ∨ (s.tasks (s.perCpuTask c)).state = .terminated
    · simp [hname, hcur]
    · rw [if_neg hname, if_neg hcur]
      exact Or.inr ⟨rfl, fun hterm => hcur (Or.inr hterm), rfl⟩

/-! ### Sections -/

/-- What a section does, with a constructor for each way through `Smp.next` to a result. -/
inductive SectionStep (m : Smp) : SchedOp → Smp → Prop
  | createTask (name : List UInt8) (userData : Option Ctx) :
      SectionStep m (.createTask name userData)
        { m with sched := (m.sched.createTask name userData).2 }
  | start (first : Nat) (hboot : m.sched.schedulerActive = false)
      (hs : m.sched.start =
        some { m.sched.dispatch m.sched.bspApicId first with schedulerActive := true }) :
      SectionStep m .start
        ⟨{ m.sched.dispatch m.sched.bspApicId first with schedulerActive := true },
          Function.update m.online m.sched.bspApicId true⟩
  | startAp (c : ApicId) (hoff : m.online c = false) :
      SectionStep m (.startAp c) ⟨m.sched.startAp c, Function.update m.online c true⟩
  | yield (c : ApicId) (n : Nat) (f : ApicId → Bool) :
      SectionStep m (.yield c)
        { m with sched := { m.sched with tickCount := n, yieldInProgress := f } }
  | preemptEntry (c : ApicId) (n : Nat) (f : ApicId → Bool) :
      SectionStep m (.preemptEntry c)
        { m with sched := { m.sched with tickCount := n, yieldInProgress := f } }
  | preempt (c : ApicId) (b : Bool) (regs : Nat) (hon : m.online c = true)
      (hs : m.sched.schedules = true) :
      SectionStep m (.preempt c b regs)
        { m with sched := (m.sched.preemptLocked c b regs).2.2 }
  | preemptOff (c : ApicId) (b : Bool) (regs : Nat) (hs : m.sched.schedules = false) :
      SectionStep m (.preempt c b regs) m
  | sleep (c : ApicId) (ticks : Nat) (hrun : m.sched.perCpuTask c < m.sched.taskCount) :
      SectionStep m (.sleep c ticks) { m with sched := m.sched.sleep c ticks }
  | terminateTask (id i : Nat) (hi : i < m.sched.taskCount) (hid : (m.sched.tasks i).id = id)
      (hout : (m.sched.terminateTask id).2.2 =
        m.sched.setTask i (Scheduler.terminated (m.sched.tasks i)).2) :
      SectionStep m (.terminateTask id)
        { m with sched := m.sched.setTask i (Scheduler.terminated (m.sched.tasks i)).2 }
  | terminateNone (id : Nat) : SectionStep m (.terminateTask id) m
  | exitTask (c : ApicId) (hrun : m.sched.perCpuTask c < m.sched.taskCount) :
      SectionStep m (.exitTask c) { m with sched := m.sched.exitTask c }
  | detachCurrentTask (c : ApicId)
      (hout : (m.sched.detachCurrentTask c).2 = m.sched.setTask (m.sched.perCpuTask c)
        { m.sched.tasks (m.sched.perCpuTask c) with
          userData := none, state := .terminated, affinityCpu := none }) :
      SectionStep m (.detachCurrentTask c)
        { m with
          sched := m.sched.setTask (m.sched.perCpuTask c)
            { m.sched.tasks (m.sched.perCpuTask c) with
              userData := none, state := .terminated, affinityCpu := none } }
  | detachNone (c : ApicId) : SectionStep m (.detachCurrentTask c) m
  | replaceCurrentTaskContext (c : ApicId) (name : List UInt8) (userData : Option Ctx)
      (halive : (m.sched.tasks (m.sched.perCpuTask c)).state ≠ .terminated)
      (hout : (m.sched.replaceCurrentTaskContext c name userData).2 =
        m.sched.setTask (m.sched.perCpuTask c)
          { m.sched.tasks (m.sched.perCpuTask c) with name := name, userData := userData }) :
      SectionStep m (.replaceCurrentTaskContext c name userData)
        { m with
          sched := m.sched.setTask (m.sched.perCpuTask c)
            { m.sched.tasks (m.sched.perCpuTask c) with name := name, userData := userData } }
  | replaceFailed (c : ApicId) (name : List UInt8) (userData : Option Ctx) :
      SectionStep m (.replaceCurrentTaskContext c name userData) m

/-- Every section is one of these. -/
theorem sectionStep_of_next {m n : Smp} {op : SchedOp} (h : m.next op = some n) :
    SectionStep m op n := by
  cases op with
  | createTask name userData =>
    obtain rfl := Option.some.inj h
    exact .createTask name userData
  | start =>
    obtain ⟨hboot, h⟩ := Option.ite_none_left_eq_some.mp h
    obtain ⟨s, hs, rfl⟩ := Option.map_eq_some_iff.mp h
    have hs' := hs
    obtain ⟨-, h'⟩ := Option.ite_none_left_eq_some.mp hs'
    obtain rfl := Option.some.inj h'
    exact .start _ (by simpa using hboot) hs
  | startAp c =>
    obtain ⟨hoff, h⟩ := Option.ite_none_left_eq_some.mp h
    obtain rfl := Option.some.inj h
    simp only [Bool.or_eq_true, not_or, Bool.not_eq_true] at hoff
    exact .startAp c hoff.1
  | yield c =>
    obtain rfl := Option.some.inj (Option.ite_none_right_eq_some.mp h).2
    obtain ⟨n, f, hy⟩ := yield_fields m.sched c
    rw [hy]
    exact .yield c n f
  | preemptEntry c =>
    obtain rfl := Option.some.inj (Option.ite_none_right_eq_some.mp h).2
    obtain ⟨n, f, hy⟩ := preemptEntry_fields m.sched c
    rw [hy]
    exact .preemptEntry c n f
  | preempt c b regs =>
    obtain ⟨hon, h⟩ := Option.ite_none_right_eq_some.mp h
    obtain rfl := Option.some.inj h
    unfold Scheduler.preempt
    cases hs : m.sched.schedules with
    | true => exact .preempt c b regs hon hs
    | false => exact .preemptOff c b regs hs
  | sleep c ticks =>
    obtain ⟨⟨hrun, -⟩, h⟩ := Option.ite_none_right_eq_some.mp h
    obtain rfl := Option.some.inj h
    exact .sleep c ticks (of_decide_eq_true hrun)
  | terminateTask id =>
    obtain rfl := Option.some.inj h
    rcases terminateTask_cases m.sched id with ⟨hsame, -⟩ | ⟨i, hi, -, hid, -, hout⟩
    · rw [hsame]
      exact .terminateNone id
    · rw [hout]
      exact .terminateTask id i hi hid hout
  | exitTask c =>
    obtain ⟨hrun, h⟩ := Option.ite_none_right_eq_some.mp h
    obtain rfl := Option.some.inj h
    exact .exitTask c (of_decide_eq_true hrun)
  | detachCurrentTask c =>
    obtain rfl := Option.some.inj h
    by_cases hlt : m.sched.perCpuTask c < m.sched.taskCount
    · have hout : (m.sched.detachCurrentTask c).2 = _ := congrArg Prod.snd (if_pos hlt)
      rw [hout]
      exact .detachCurrentTask c hout
    · have hout : (m.sched.detachCurrentTask c).2 = _ := congrArg Prod.snd (if_neg hlt)
      rw [hout]
      exact .detachNone c
  | replaceCurrentTaskContext c name userData =>
    obtain rfl := Option.some.inj h
    rcases replaceCurrentTaskContext_cases m.sched c name userData with
      ⟨-, hsame⟩ | ⟨-, halive, hout⟩
    · rw [hsame]
      exact .replaceFailed c name userData
    · rw [hout]
      exact .replaceCurrentTaskContext c name userData halive hout

end VKernel.Proofs.Sched

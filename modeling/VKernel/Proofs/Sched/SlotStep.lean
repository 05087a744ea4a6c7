import VKernel.Proofs.Sched.MutualExclusion

/-!
# `VKernel.Proofs.Sched.SlotStep`: what a section can do to one slot

`tableStep_of_next` is the inversion of `Smp.next` for a single slot: a slot of the table
after a section was either just created, or it was there before and one of the few
constructors of `SlotStep` says how its task changed. The invariants of the later modules
are case analyses of it.
-/

set_option autoImplicit false

namespace VKernel.Proofs.Sched

open VKernel VKernel.Lib VKernel.Sched

/-- The section makes CPU `c` take a task. -/
def Dispatches (m : Smp) (op : SchedOp) (c : ApicId) : Prop :=
  (∃ b regs, op = .preempt c b regs) ∨ op = .start ∧ c = m.sched.bspApicId

/-- The changes that a section other than its creation makes to the task of a slot. -/
inductive SlotStep (m : Smp) : SchedOp → Nat → Task → Task → Prop
  /-- At most the tick wakes it up. -/
  | quiet {op : SchedOp} {i : Nat} {t u : Task} (h : Woken t u) : SlotStep m op i t u
  /-- Its CPU lets go of it. -/
  | released {c : ApicId} {b : Bool} {regs i : Nat} {t w u : Task}
      (hcpu : m.sched.perCpuTask c = i) (hw : Woken t w) (hr : Released w u) :
      SlotStep m (.preempt c b regs) i t u
  /-- A CPU takes it. -/
  | dispatched {op : SchedOp} {c : ApicId} {i : Nat} {t u : Task} (hop : Dispatches m op c)
      (hst : t.state ≠ .terminated)
      (haff : t.affinityCpu = none ∨ t.affinityCpu = some c) (hid : u.id = t.id)
      (hrun : u.state = .running) (hpin : u.affinityCpu = some c)
      (hcur : u.currentCpu = some c) (hdata : u.userData = t.userData) : SlotStep m op i t u
  /-- It goes to sleep. -/
  | slept {c : ApicId} {ticks i : Nat} {t : Task} (hcpu : m.sched.perCpuTask c = i)
      (n : Nat) : SlotStep m (.sleep c ticks) i t { t with wakeTick := n, state := .blocked }
  /-- It is terminated by its id. -/
  | terminated {id i : Nat} {t u : Task} (hid : t.id = id) (h : Terminated t u) :
      SlotStep m (.terminateTask id) i t u
  /-- It terminates itself, or a fault terminates it. -/
  | exited {op : SchedOp} {c : ApicId} {i : Nat} {t : Task} (hcpu : m.sched.perCpuTask c = i)
      (hop : op = .exitTask c ∨ op = .detachCurrentTask c) :
      SlotStep m op i t { t with state := .terminated, affinityCpu := none, userData := none }
  /-- It replaces its context. -/
  | replaced {c : ApicId} {name : List UInt8} {userData : Option Ctx} {i : Nat} {t : Task}
      (hcpu : m.sched.perCpuTask c = i) (hst : t.state ≠ .terminated) :
      SlotStep m (.replaceCurrentTaskContext c name userData) i t
        { t with name := name, userData := userData }

theorem Woken.refl (t : Task) : Woken t t := ⟨rfl, Or.inl rfl, rfl, rfl, rfl, rfl⟩

/-- Letting go of a task and taking it again in one section. -/
theorem Woken.ne_terminated {t w : Task} (h : Woken t w) (hw : w.state ≠ .terminated) :
    t.state ≠ .terminated := by
  intro ht
  rcases h.state with hsame | ⟨hblocked, -⟩
  · exact hw (hsame.trans ht)
  · exact absurd (hblocked.symm.trans ht) (by simp)

theorem releasedState_eq_terminated {st : TaskState} :
    releasedState st = .terminated ↔ st = .terminated := by
  cases st
  all_goals simp [releasedState]

/-- Of the sections other than `create_task` only a `sleep` brings a task back. -/
theorem SlotStep.keeps_terminated {m : Smp} {op : SchedOp} {i : Nat} {t u : Task}
    (h : SlotStep m op i t u) (ht : t = m.sched.tasks i) (hok : SleepsAlive m op)
    (hterm : t.state = .terminated) : u.state = .terminated := by
  cases h with
  | quiet hw =>
    rcases hw.state with hsame | ⟨hblocked, -⟩
    · exact hsame.trans hterm
    · exact absurd (hblocked.symm.trans hterm) (by simp)
  | released hcpu hw hr =>
    rw [hr.state, releasedState_eq_terminated]
    by_contra hne
    exact hw.ne_terminated hne hterm
  | dispatched hop hst => exact absurd hterm hst
  | slept hcpu n =>
    subst hcpu
    exact absurd (ht ▸ hterm) hok
  | terminated hid h => exact h.state
  | exited hcpu hop => rfl
  | replaced hcpu hst => exact absurd hterm hst

theorem SlotStep.id_eq {m : Smp} {op : SchedOp} {i : Nat} {t u : Task}
    (h : SlotStep m op i t u) : u.id = t.id := by
  cases h with
  | quiet hw => exact hw.id
  | released hcpu hw hr => exact hr.id.trans hw.id
  | dispatched hop hst haff hid => exact hid
  | slept hcpu n => rfl
  | terminated hid h => exact h.id
  | exited hcpu hop => rfl
  | replaced hcpu hst => rfl

/-- A context that a slot has after a section was there before, or the task has put it
there itself. -/
theorem SlotStep.userData_some {m : Smp} {op : SchedOp} {i : Nat} {t u : Task}
    (h : SlotStep m op i t u) {x : Ctx} (hx : u.userData = some x) :
    t.userData = some x ∨
      ∃ c name, op = .replaceCurrentTaskContext c name (some x) ∧ m.sched.perCpuTask c = i := by
  cases h with
  | quiet hw => exact Or.inl (hw.userData ▸ hx)
  | released hcpu hw hr =>
    rw [hr.userData] at hx
    split at hx
    · exact absurd hx (by simp)
    · exact Or.inl (hw.userData ▸ hx)
  | dispatched hop hst haff hid hrun hpin hcur hdata => exact Or.inl (hdata ▸ hx)
  | slept hcpu n => exact Or.inl hx
  | terminated hid h =>
    rw [h.userData] at hx
    split at hx
    · exact absurd hx (by simp)
    · exact Or.inl hx
  | exited hcpu hop => exact absurd hx (by simp)
  | replaced hcpu hst => exact Or.inr ⟨_, _, by simp only at hx; rw [hx], hcpu⟩

/-- What a section does to the table: `create_task` puts a new task into the slot that it
found, every other slot was there before. -/
inductive TableStep (m : Smp) (op : SchedOp) (s : Scheduler) (i : Nat) : Prop
  | created (name : List UInt8) (userData : Option Ctx) (hop : op = .createTask name userData)
      (hsome : (m.sched.createTask name userData).1 = some m.sched.nextTaskId)
      (hslot : i = m.sched.findAvailableTaskSlot)
      (htask : s.tasks i = m.sched.newTask i name userData)
  | kept (hlt : i < m.sched.taskCount) (h : SlotStep m op i (m.sched.tasks i) (s.tasks i))

/-- A slot is as it was, apart from the sleepers. -/
theorem TableStep.quiet {m : Smp} {op : SchedOp} {s : Scheduler} {i : Nat}
    (hlt : i < m.sched.taskCount) (h : Woken (m.sched.tasks i) (s.tasks i)) :
    TableStep m op s i :=
  .kept hlt (.quiet h)

/-- A section that rewrites one slot. -/
theorem tableStep_setTask {m : Smp} {op : SchedOp} {j : Nat} {t : Task}
    (h : j < m.sched.taskCount → SlotStep m op j (m.sched.tasks j) t) {i : Nat}
    (hi : i < m.sched.taskCount) : TableStep m op (m.sched.setTask j t) i := by
  by_cases hij : i = j
  · subst hij
    refine .kept hi ?_
    rw [setTask_same]
    exact h hi
  · refine .quiet hi ?_
    rw [setTask_ne _ _ _ _ hij]
    exact Woken.refl _

/-- A section after which a CPU has taken slot `k`, from a table in which the other slots
are as they were. -/
theorem slotStep_dispatch {m : Smp} {op : SchedOp} {c : ApicId} {s : Scheduler} {k : Nat}
    {t : Task} (hop : Dispatches m op c) (helig : s.eligible c k = true)
    (hw : Woken t (s.tasks k) ∨ ∃ w, Woken t w ∧ Released w (s.tasks k)) :
    SlotStep m op k t (s.claim (s.tasks k) c) := by
  obtain ⟨hready, -, haff, -⟩ := eligible_iff.mp helig
  have hpin : (s.claim (s.tasks k) c).affinityCpu = some c := by
    unfold Scheduler.claim
    rcases haff with haff | haff
    · simp [haff]
    · simp [haff]
  rcases hw with hw | ⟨w, hw, hrel⟩
  · exact .dispatched hop (hw.ne_terminated (by rw [hready]; simp)) (hw.affinity ▸ haff)
      hw.id rfl hpin rfl hw.userData
  · have hwst : w.state ≠ .terminated := by
      intro hterm
      rw [hrel.state, hterm] at hready
      exact absurd hready (by decide)
    refine .dispatched hop (hw.ne_terminated hwst) ?_ (hrel.id.trans hw.id) rfl hpin rfl ?_
    · rw [← hw.affinity, ← hrel.affinity]
      exact haff
    · exact (hrel.userData.trans (by simp [hwst])).trans hw.userData

theorem preemptRelease_affinity {s : Scheduler} {c : ApicId} {b : Bool} {regs i : Nat}
    (hi : i < s.taskCount) :
    ((s.preemptRelease c b regs).2.tasks i).affinityCpu = (s.tasks i).affinityCpu := by
  by_cases hic : i = s.perCpuTask c
  · subst hic
    obtain ⟨w, hw, hrel, -⟩ := preemptRelease_current s c b regs hi
    exact hrel.affinity.trans hw.affinity
  · exact (preemptRelease_other s c i b regs hic).affinity

theorem preemptLocked_taskCount {s : Scheduler} (hcount : s.taskCount ≤ MAX_TASKS) {c : ApicId}
    {b : Bool} {regs : Nat} : (s.preemptLocked c b regs).2.2.taskCount = s.taskCount := by
  have hrel := (preemptRelease_globals s c b regs).1
  rcases preemptLocked_cases s hcount c b regs with
    ⟨next, -, hout⟩ | ⟨-, -, hout⟩ | ⟨-, -, hout⟩
  all_goals rw [hout]
  all_goals exact hrel

/-- Letting go of the current task ends no task and brings none back. -/
theorem preemptRelease_ne_terminated {s : Scheduler} {c : ApicId} {b : Bool} {regs i : Nat}
    (hi : i < s.taskCount)
    (hst : ((s.preemptRelease c b regs).2.tasks i).state ≠ .terminated) :
    (s.tasks i).state ≠ .terminated := by
  by_cases hic : i = s.perCpuTask c
  · subst hic
    obtain ⟨w, hw, hrel, -⟩ := preemptRelease_current s c b regs hi
    rw [hrel.state, ne_eq, releasedState_eq_terminated] at hst
    exact hw.ne_terminated hst
  · exact (preemptRelease_other s c i b regs hic).ne_terminated hst

/-- `preempt` takes the context of its current task exactly when that is terminated. -/
theorem preemptLocked_taken {s : Scheduler} (hcount : s.taskCount ≤ MAX_TASKS) (c : ApicId)
    (b : Bool) (regs : Nat) :
    (s.preemptLocked c b regs).1 =
      if s.perCpuTask c < s.taskCount ∧ (s.tasks (s.perCpuTask c)).state = .terminated
      then (s.tasks (s.perCpuTask c)).userData else none := by
  have hrel : (s.preemptLocked c b regs).1 = (s.preemptRelease c b regs).1 := by
    rcases preemptLocked_cases s hcount c b regs with
      ⟨next, -, hout⟩ | ⟨-, -, hout⟩ | ⟨-, -, hout⟩
    all_goals rw [hout]
  rw [hrel]
  by_cases hlt : s.perCpuTask c < s.taskCount
  · obtain ⟨w, hw, -, htaken⟩ := preemptRelease_current s c b regs hlt
    rw [htaken, hw.userData]
    by_cases hterm : (s.tasks (s.perCpuTask c)).state = .terminated
    · have hwterm : w.state = .terminated := by
        by_contra hne
        exact hw.ne_terminated hne hterm
      simp [hlt, hterm, hwterm]
    · have hwterm : w.state ≠ .terminated := by
        intro hwt
        rcases hw.state with hsame | ⟨-, hready⟩
        · exact hterm (hsame.symm.trans hwt)
        · exact absurd (hready.symm.trans hwt) (by simp)
      simp [hterm, hwterm]
  · rw [preemptRelease_idle s c b regs (Nat.not_lt.mp hlt)]
    simp [hlt]

/-- A terminated current task is let go of for good: it is on no CPU and has no context. -/
theorem preemptLocked_terminated {s : Scheduler} (hcount : s.taskCount ≤ MAX_TASKS) {c : ApicId}
    (b : Bool) (regs : Nat) (hlt : s.perCpuTask c < s.taskCount)
    (hterm : (s.tasks (s.perCpuTask c)).state = .terminated) :
    ((s.preemptLocked c b regs).2.2.tasks (s.perCpuTask c)).state = .terminated ∧
      ((s.preemptLocked c b regs).2.2.tasks (s.perCpuTask c)).currentCpu = none ∧
      ((s.preemptLocked c b regs).2.2.tasks (s.perCpuTask c)).userData = none := by
  obtain ⟨w, hw, hrel, -⟩ := preemptRelease_current s c b regs hlt
  have hwterm : w.state = .terminated := by
    by_contra hne
    exact hw.ne_terminated hne hterm
  have hreleased : ((s.preemptRelease c b regs).2.tasks (s.perCpuTask c)).state = .terminated := by
    rw [hrel.state, hwterm]
    rfl
  have hdata : ((s.preemptRelease c b regs).2.tasks (s.perCpuTask c)).userData = none := by
    rw [hrel.userData, if_pos hwterm]
  rcases preemptLocked_cases s hcount c b regs with
    ⟨next, helig, hout⟩ | ⟨-, -, hout⟩ | ⟨-, -, hout⟩
  · have hne : s.perCpuTask c ≠ next := by
      intro heq
      have hready := (eligible_iff.mp helig).1
      rw [← heq, hreleased] at hready
      exact absurd hready (by simp)
    rw [hout]
    simp only [dispatch_ne _ _ _ _ hne]
    exact ⟨hreleased, hrel.current, hdata⟩
  · rw [hout]
    exact ⟨hreleased, hrel.current, hdata⟩
  · rw [hout]
    exact ⟨hreleased, hrel.current, hdata⟩

/-- The slot that `preempt` picks is the current one of its CPU afterwards. -/
theorem preemptLocked_task {s : Scheduler} (hcount : s.taskCount ≤ MAX_TASKS) {c : ApicId}
    {b : Bool} {regs next : Nat} (h : (s.preemptLocked c b regs).2.1 = .task next) :
    next < s.taskCount ∧
      ((s.preemptLocked c b regs).2.2.tasks next).currentCpu = some c := by
  rcases preemptLocked_cases s hcount c b regs with
    ⟨n, helig, hout⟩ | ⟨-, -, hout⟩ | ⟨-, -, hout⟩
  · rw [hout] at h ⊢
    obtain rfl : n = next := by simpa using h
    have hlt := (eligible_iff.mp helig).2.1
    rw [(preemptRelease_globals s c b regs).1] at hlt
    simp only [dispatch_same]
    exact ⟨hlt, rfl⟩
  · rw [hout] at h
    exact absurd h (by simp)
  · rw [hout] at h
    exact absurd h (by simp)

/-- The locked section of `preempt`, for one slot. -/
theorem tableStep_preemptLocked {m : Smp} (hcount : m.sched.taskCount ≤ MAX_TASKS) (c : ApicId)
    (b : Bool) (regs : Nat) {i : Nat} (hi : i < m.sched.taskCount) :
    TableStep m (.preempt c b regs) (m.sched.preemptLocked c b regs).2.2 i := by
  have hslot : Woken (m.sched.tasks i) ((m.sched.preemptRelease c b regs).2.tasks i) ∨
      m.sched.perCpuTask c = i ∧ ∃ w, Woken (m.sched.tasks i) w ∧
        Released w ((m.sched.preemptRelease c b regs).2.tasks i) := by
    by_cases hic : i = m.sched.perCpuTask c
    · subst hic
      obtain ⟨w, hw, hrel, -⟩ := preemptRelease_current m.sched c b regs hi
      exact Or.inr ⟨rfl, w, hw, hrel⟩
    · exact Or.inl (preemptRelease_other m.sched c i b regs hic)
  have hreleased : SlotStep m (.preempt c b regs) i (m.sched.tasks i)
      ((m.sched.preemptRelease c b regs).2.tasks i) := by
    rcases hslot with hw | ⟨hic, w, hw, hrel⟩
    · exact .quiet hw
    · exact .released hic hw hrel
  rcases preemptLocked_cases m.sched hcount c b regs with
    ⟨next, helig, hout⟩ | ⟨-, -, hout⟩ | ⟨-, -, hout⟩
  · rw [hout]
    refine .kept hi ?_
    by_cases hin : i = next
    · subst hin
      rw [dispatch_same]
      exact slotStep_dispatch (Or.inl ⟨b, regs, rfl⟩) helig
        (hslot.imp id And.right)
    · rw [dispatch_ne _ _ _ _ hin]
      exact hreleased
  · rw [hout]
    exact .kept hi hreleased
  · rw [hout]
    exact .kept hi hreleased

/-- The task that `start` runs is ready and not pinned to another CPU. -/
theorem start_first {s t : Scheduler} (h : SchedInv s) (hboot : s.schedulerActive = false)
    (hstart : s.start = some t) :
    (s.tasks (t.perCpuTask s.bspApicId)).state = .ready ∧
      ((s.tasks (t.perCpuTask s.bspApicId)).affinityCpu = none ∨
        (s.tasks (t.perCpuTask s.bspApicId)).affinityCpu = some s.bspApicId) := by
  unfold Scheduler.start at hstart
  by_cases h0 : s.taskCount = 0
  · simp [h0] at hstart
  · simp only [h0, if_false, Option.some.injEq] at hstart
    have hcpu : ∀ k, ({ s.dispatch s.bspApicId k with schedulerActive := true } :
        Scheduler).perCpuTask s.bspApicId = k := fun k => setCurrentTask_same _ _ _
    rw [← hstart, hcpu]
    by_cases hnone : s.taskCount ≤ s.pickNextTask s.bspApicId SCHED_NO_TASK
    · simp only [hnone, if_true]
      obtain ⟨hready, haff⟩ := (h.boot hboot).2 (by omega)
      exact ⟨hready, Or.inl haff⟩
    · simp only [hnone, if_false]
      obtain ⟨hready, -, haff, -⟩ :=
        eligible_iff.mp (pickNextTask_eligible h.count (Nat.not_le.mp hnone))
      exact ⟨hready, haff⟩

/-- After `start` the boot CPU runs a task. -/
theorem start_runs {s t : Scheduler} (hstart : s.start = some t) :
    t.perCpuTask t.bspApicId < t.taskCount := by
  unfold Scheduler.start at hstart
  by_cases h0 : s.taskCount = 0
  · simp [h0] at hstart
  · simp only [h0, if_false, Option.some.injEq] at hstart
    have hcpu : ∀ k, k < s.taskCount →
        ({ s.dispatch s.bspApicId k with schedulerActive := true } :
          Scheduler).perCpuTask s.bspApicId < s.taskCount :=
      fun k hk => (setCurrentTask_same s s.bspApicId k).trans_lt hk
    rw [← hstart]
    refine hcpu _ ?_
    split
    · exact Nat.pos_of_ne_zero h0
    · rename_i hlt
      exact Nat.not_le.mp hlt

/-- `start`, for one slot. -/
theorem tableStep_start {m : Smp} (h : SchedInv m.sched)
    (hboot : m.sched.schedulerActive = false) {s : Scheduler} (hstart : m.sched.start = some s)
    {i : Nat} (hi : i < m.sched.taskCount) : TableStep m .start s i := by
  have htake : ∀ k, m.sched.eligible m.sched.bspApicId k = true →
      TableStep m .start
        { m.sched.dispatch m.sched.bspApicId k with schedulerActive := true } i := by
    intro k helig
    refine .kept hi ?_
    by_cases hik : i = k
    · subst hik
      simp only [dispatch_same]
      exact slotStep_dispatch (Or.inr ⟨rfl, rfl⟩) helig (Or.inl (Woken.refl _))
    · simp only [dispatch_ne _ _ _ _ hik]
      exact .quiet (Woken.refl _)
  unfold Scheduler.start at hstart
  by_cases h0 : m.sched.taskCount = 0
  · simp [h0] at hstart
  · simp only [h0, if_false, Option.some.injEq] at hstart
    rw [← hstart]
    by_cases hnone : m.sched.taskCount ≤ m.sched.pickNextTask m.sched.bspApicId SCHED_NO_TASK
    · simp only [hnone, if_true]
      obtain ⟨hready, haff⟩ := (h.boot hboot).2 (by omega)
      exact htake 0 (eligible_iff.mpr ⟨hready, by omega, Or.inl haff, by simp [Allowed]⟩)
    · simp only [hnone, if_false]
      exact htake _ (pickNextTask_eligible h.count (Nat.not_le.mp hnone))

/-- `create_task`, for one slot. -/
theorem tableStep_createTask {m : Smp} (name : List UInt8) (userData : Option Ctx) {i : Nat}
    (hi : i < (m.sched.createTask name userData).2.taskCount) :
    TableStep m (.createTask name userData) (m.sched.createTask name userData).2 i := by
  by_cases hfull : MAX_TASKS ≤ m.sched.findAvailableTaskSlot
  · have hout : m.sched.createTask name userData = (none, m.sched) := by
      unfold Scheduler.createTask
      simp [hfull]
    rw [hout] at hi ⊢
    exact .quiet hi (Woken.refl _)
  · by_cases hname : TASK_NAME_CAPACITY ≤ name.length
    · have hout : (m.sched.createTask name userData).2 =
          m.sched.setTask m.sched.findAvailableTaskSlot
            { m.sched.tasks m.sched.findAvailableTaskSlot with name := [] } := by
        unfold Scheduler.createTask
        simp [hfull, hname]
      rw [hout] at hi ⊢
      refine tableStep_setTask (fun _ => .quiet ?_) hi
      exact ⟨rfl, Or.inl rfl, rfl, rfl, rfl, rfl⟩
    · have hsome : (m.sched.createTask name userData).1 = some m.sched.nextTaskId := by
        unfold Scheduler.createTask
        simp [hfull, hname]
      have htasks : (m.sched.createTask name userData).2.tasks =
          (m.sched.setTask m.sched.findAvailableTaskSlot
            (m.sched.newTask m.sched.findAvailableTaskSlot name userData)).tasks := by
        unfold Scheduler.createTask
        simp [hfull, hname]
      have hcount : (m.sched.createTask name userData).2.taskCount =
          if m.sched.findAvailableTaskSlot = m.sched.taskCount then m.sched.taskCount + 1
          else m.sched.taskCount := by
        unfold Scheduler.createTask
        simp [hfull, hname]
      by_cases hslot : i = m.sched.findAvailableTaskSlot
      · refine .created name userData rfl hsome hslot ?_
        rw [htasks, hslot, setTask_same]
      · have hlt : i < m.sched.taskCount := by
          rw [hcount] at hi
          split at hi
          · omega
          · exact hi
        refine .quiet hlt ?_
        rw [htasks, setTask_ne _ _ _ _ hslot]
        exact Woken.refl _

theorem createTask_slot {s : Scheduler} {name : List UInt8} {userData : Option Ctx}
    (h : (s.createTask name userData).1.isSome = true) :
    (s.createTask name userData).2.tasks s.findAvailableTaskSlot =
      s.newTask s.findAvailableTaskSlot name userData := by
  unfold Scheduler.createTask at h ⊢
  by_cases hfull : MAX_TASKS ≤ s.findAvailableTaskSlot
  · simp [hfull] at h
  · by_cases hname : TASK_NAME_CAPACITY ≤ name.length
    · simp [hfull, hname] at h
    · simp [hfull, hname]

theorem createTask_nextTaskId {s : Scheduler} {name : List UInt8} {userData : Option Ctx}
    {id : Nat} (h : (s.createTask name userData).1 = some id) (hid : s.nextTaskId + 1 < U64) :
    (s.createTask name userData).2.nextTaskId = s.nextTaskId + 1 := by
  unfold Scheduler.createTask at h ⊢
  by_cases hfull : MAX_TASKS ≤ s.findAvailableTaskSlot
  · simp [hfull] at h
  · by_cases hname : TASK_NAME_CAPACITY ≤ name.length
    · simp [hfull, hname] at h
    · simp only [hfull, hname, if_false]
      exact add64_eq hid

/-- One section, for one slot of the new table. -/
theorem tableStep_of_next {m n : Smp} {op : SchedOp} (h : SmpInv m) (hstep : m.next op = some n)
    {i : Nat} (hi : i < n.sched.taskCount) : TableStep m op n.sched i := by
  cases sectionStep_of_next hstep with
  | createTask name userData => exact tableStep_createTask name userData hi
  | start _ hboot hs => exact tableStep_start h.sched hboot hs hi
  | preempt c b regs =>
    rw [preemptLocked_taskCount h.sched.count] at hi
    exact tableStep_preemptLocked h.sched.count c b regs hi
  | sleep => exact tableStep_setTask (fun _ => .slept rfl _) hi
  | terminateTask id j _ hid =>
    exact tableStep_setTask (fun _ => .terminated hid (terminated_spec _).1) hi
  | exitTask => exact tableStep_setTask (fun _ => .exited rfl (Or.inl rfl)) hi
  | detachCurrentTask => exact tableStep_setTask (fun _ => .exited rfl (Or.inr rfl)) hi
  | replaceCurrentTaskContext _ _ _ halive =>
    exact tableStep_setTask (fun _ => .replaced rfl halive) hi
  | startAp | yield | preemptEntry | preemptOff | terminateNone | detachNone | replaceFailed =>
    exact .quiet hi (Woken.refl _)

/-! ### The pin -/

/-- The pin of a slot that a CPU runs or is leaving. -/
def Pinned (t : Task) (c : ApicId) : Prop := t.state = .terminated ∨ t.affinityCpu = some c

/-- A section keeps the pin. -/
theorem Pinned.step {m : Smp} {op : SchedOp} {i : Nat} {u : Task} {c : ApicId}
    (h : Pinned (m.sched.tasks i) c) (hok : SleepsAlive m op)
    (hstep : SlotStep m op i (m.sched.tasks i) u) : Pinned u c := by
  by_cases hterm : (m.sched.tasks i).state = .terminated
  · exact Or.inl (hstep.keeps_terminated rfl hok hterm)
  · have haff := h.resolve_left hterm
    generalize ht : m.sched.tasks i = t at *
    cases hstep with
    | quiet hw => exact Or.inr (hw.affinity.trans haff)
    | released hcpu hw hr => exact Or.inr (hr.affinity.trans (hw.affinity.trans haff))
    | dispatched hop hst haff' hid hrun hpin =>
      rw [haff] at haff'
      rcases haff' with habs | heq
      · exact absurd habs (by simp)
      · exact Or.inr (hpin.trans heq.symm)
    | slept hcpu n => exact Or.inr haff
    | terminated hid h => exact Or.inl h.state
    | exited hcpu hop => exact Or.inl rfl
    | replaced hcpu hst => exact Or.inr haff

/-- The current task of a CPU is pinned to it. -/
theorem pinned_current {s : Scheduler} (h : SchedInv s) {c : ApicId}
    (hlt : s.perCpuTask c < s.taskCount) : Pinned (s.tasks (s.perCpuTask c)) c := by
  by_cases hterm : (s.tasks (s.perCpuTask c)).state = .terminated
  · exact Or.inl hterm
  · exact Or.inr (h.pinned _ hlt c ((h.own _ hlt c).mp rfl) hterm).1

/-! ### The globals -/

/-- What a section does to the globals: the table does not shrink, the scheduler is not
switched off again, and the id counter moves only when a task is created. -/
structure GlobalStep (m : Smp) (op : SchedOp) (s : Scheduler) : Prop where
  count : m.sched.taskCount ≤ s.taskCount
  active : m.sched.schedulerActive = true → s.schedulerActive = true
  nextId : s.nextTaskId = m.sched.nextTaskId ∨
    ∃ name userData, op = .createTask name userData ∧
      s.nextTaskId = add64 m.sched.nextTaskId 1

theorem GlobalStep.same {m : Smp} {op : SchedOp} {s : Scheduler}
    (hcount : s.taskCount = m.sched.taskCount)
    (hactive : s.schedulerActive = m.sched.schedulerActive)
    (hid : s.nextTaskId = m.sched.nextTaskId) : GlobalStep m op s :=
  ⟨hcount.ge, hactive.trans, Or.inl hid⟩

theorem globalStep_createTask {m : Smp} (name : List UInt8) (userData : Option Ctx) :
    GlobalStep m (.createTask name userData) (m.sched.createTask name userData).2 := by
  by_cases hfull : MAX_TASKS ≤ m.sched.findAvailableTaskSlot
  · have hout : (m.sched.createTask name userData).2 = m.sched := by
      simp [Scheduler.createTask, hfull]
    rw [hout]
    exact .same rfl rfl rfl
  · by_cases hname : TASK_NAME_CAPACITY ≤ name.length
    · have hout : (m.sched.createTask name userData).2 =
          m.sched.setTask m.sched.findAvailableTaskSlot
            { m.sched.tasks m.sched.findAvailableTaskSlot with name := [] } := by
        simp [Scheduler.createTask, hfull, hname]
      rw [hout]
      exact .same rfl rfl rfl
    · refine ⟨?_, fun hact => ?_, Or.inr ⟨name, userData, rfl, ?_⟩⟩
      · simp only [Scheduler.createTask, hfull, hname, if_false]
        split
        · omega
        · omega
      · simpa [Scheduler.createTask, hfull, hname] using hact
      · simp [Scheduler.createTask, hfull, hname]

/-- One section, for the globals. -/
theorem globalStep_of_next {m n : Smp} {op : SchedOp} (h : SmpInv m)
    (hstep : m.next op = some n) : GlobalStep m op n.sched := by
  cases sectionStep_of_next hstep with
  | createTask name userData => exact globalStep_createTask name userData
  | start => exact ⟨Nat.le_refl _, fun _ => rfl, Or.inl rfl⟩
  | preempt c b regs =>
    obtain ⟨hcount, hid, -, -, hact⟩ := preemptRelease_globals m.sched c b regs
    rcases preemptLocked_cases m.sched h.sched.count c b regs with
      ⟨k, -, hout⟩ | ⟨-, -, hout⟩ | ⟨-, -, hout⟩
    all_goals rw [hout]
    all_goals exact .same hcount hact hid
  | startAp | yield | preemptEntry | preemptOff | sleep | terminateTask | terminateNone | exitTask
  | detachCurrentTask | detachNone | replaceCurrentTaskContext | replaceFailed =>
    exact .same rfl rfl rfl

end VKernel.Proofs.Sched

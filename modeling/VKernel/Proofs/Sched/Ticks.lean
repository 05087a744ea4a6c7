import VKernel.Sched.Ticks
import VKernel.Proofs.Sched.RoundRobin
import VKernel.Proofs.Sched.Termination

/-!
# `VKernel.Proofs.Sched.Ticks`: the tick count is late by the interrupts to come

A timer interrupt that comes between the flag of `yield` and its `int` consumes the flag and is
not counted. The `int` of the same task is counted in its place, whenever that task runs again:
it is pinned to the CPU whose flag it has set. So the boot CPU's count is behind by the tasks that
have lost their flag and not yet raised their interrupt.

A task that loses its flag in the loop at the end of `exit_task` never raises it. The tick that it
owes is lost.
-/

set_option autoImplicit false

namespace VKernel.Proofs.Sched

open VKernel VKernel.Lib VKernel.Sched

/-- The runs without `terminate_task`. -/
def NoTerminateTask (_ : Clock) : ClockOp → Prop
  | .sched (.terminateTask _) => False
  | _ => True

instance (s : Clock) : ∀ op, Decidable (NoTerminateTask s op)
  | .sched op => match op with
    | .terminateTask _ => inferInstanceAs (Decidable False)
    | .createTask _ _ | .start | .startAp _ | .yield _ | .preemptEntry _ | .preempt _ _ _
    | .sleep _ _ | .exitTask _ | .detachCurrentTask _ | .replaceCurrentTaskContext _ _ _ =>
      inferInstanceAs (Decidable True)
  | .yield _ | .int _ | .timer _ | .preempt _ _ => inferInstanceAs (Decidable True)

/-- The condition on a step: there is no `terminate_task`; no timer interrupt of the boot CPU
consumes the flag of a terminated task; and the tick count does not wrap. -/
def TickOk (s : Clock) : ClockOp → Prop
  | .sched (.terminateTask _) => False
  | .timer c => c = s.smp.sched.bspApicId →
      (s.smp.sched.yieldInProgress c = true →
        (s.smp.sched.tasks (s.smp.sched.perCpuTask c)).state ≠ .terminated) ∧
      (s.smp.sched.yieldInProgress c = false → s.smp.sched.tickCount + 1 < U64)
  | .int c => c = s.smp.sched.bspApicId → s.smp.sched.yieldInProgress c = false →
      s.smp.sched.tickCount + 1 < U64
  | _ => True

instance (s : Clock) : ∀ op, Decidable (TickOk s op)
  | .sched op => match op with
    | .terminateTask _ => inferInstanceAs (Decidable False)
    | .createTask _ _ | .start | .startAp _ | .yield _ | .preemptEntry _ | .preempt _ _ _
    | .sleep _ _ | .exitTask _ | .detachCurrentTask _ | .replaceCurrentTaskContext _ _ _ =>
      inferInstanceAs (Decidable True)
  | .timer _ => inferInstanceAs (Decidable (_ → (_ → _) ∧ (_ → _)))
  | .int _ => inferInstanceAs (Decidable (_ → _ → _))
  | .yield _ | .preempt _ _ => inferInstanceAs (Decidable True)

/-! ### What the sections keep -/

/-- The clock's globals are the same. -/
structure SameClock (s t : Scheduler) : Prop where
  tickCount : t.tickCount = s.tickCount
  flags : t.yieldInProgress = s.yieldInProgress
  bsp : t.bspApicId = s.bspApicId

theorem sameClock_preemptLocked (s : Scheduler) (hcount : s.taskCount ≤ MAX_TASKS) (c : ApicId)
    (b : Bool) (regs : Nat) : SameClock s (s.preemptLocked c b regs).2.2 := by
  have hrel : SameClock s (s.preemptRelease c b regs).2 := by
    unfold Scheduler.preemptRelease
    simp only []
    split
    · exact ⟨rfl, rfl, rfl⟩
    · exact ⟨rfl, rfl, rfl⟩
  rcases preemptLocked_cases s hcount c b regs with
    ⟨next, -, hout⟩ | ⟨-, -, hout⟩ | ⟨-, -, hout⟩
  all_goals rw [hout]
  all_goals exact ⟨hrel.tickCount, hrel.flags, hrel.bsp⟩

/-- The locked sections do not touch the clock. -/
theorem sameClock_of_next {m n : Smp} {op : SchedOp} (h : SmpInv m)
    (hop : op.ofInterrupt = false ∨ ∃ c b regs, op = .preempt c b regs)
    (hstep : m.next op = some n) : SameClock m.sched n.sched := by
  cases sectionStep_of_next hstep with
  | createTask name userData =>
    simp only [Scheduler.createTask]
    split
    · exact ⟨rfl, rfl, rfl⟩
    · split
      · exact ⟨rfl, rfl, rfl⟩
      · exact ⟨rfl, rfl, rfl⟩
  | yield | preemptEntry => simp [SchedOp.ofInterrupt] at hop
  | preempt c b regs => exact sameClock_preemptLocked _ h.sched.count c b regs
  | start | startAp | preemptOff | sleep | terminateTask | terminateNone | exitTask
  | detachCurrentTask | detachNone | replaceCurrentTaskContext | replaceFailed =>
    exact ⟨rfl, rfl, rfl⟩

/-- A task that can only run on CPU `c`, and is on no other one. -/
structure Home (t : Task) (c : ApicId) : Prop where
  pinned : Pinned t c
  current : ∀ d, t.currentCpu = some d → d = c

/-- A section keeps the home of a task. By the cases of the step: only a CPU that takes the task
changes where it is, and that is the one it is pinned to. -/
theorem Home.step {m : Smp} {op : SchedOp} {i : Nat} {u : Task} {c : ApicId}
    (h : Home (m.sched.tasks i) c) (hok : SleepsAlive m op)
    (hstep : SlotStep m op i (m.sched.tasks i) u) : Home u c := by
  refine ⟨h.pinned.step hok hstep, fun d hd => ?_⟩
  obtain ⟨hpinned, hcurrent⟩ := h
  generalize m.sched.tasks i = t at *
  cases hstep with
  | quiet hw => exact hcurrent d (hw.current ▸ hd)
  | released hcpu hw hr => exact absurd (hr.current.symm.trans hd) (by simp)
  | @dispatched _ e _ _ _ hop hst haff hid hrun hpin hcur =>
    have hde : d = e := Option.some.inj (hd.symm.trans hcur)
    rw [hpinned.resolve_left hst] at haff
    rcases haff with habs | heq
    · exact absurd habs (by simp)
    · exact hde.trans (Option.some.inj heq).symm
  | slept hcpu n => exact hcurrent d hd
  | terminated hid h => exact hcurrent d (h.current ▸ hd)
  | exited hcpu hop => exact hcurrent d hd
  | replaced hcpu hst => exact hcurrent d hd

/-- Only `terminate_task` and the task itself terminate a task. -/
theorem SlotStep.terminated_before {m : Smp} {op : SchedOp} {i : Nat} {t u : Task}
    (h : SlotStep m op i t u) (hop : ∀ id, op ≠ .terminateTask id) (hterm : u.state = .terminated) :
    t.state = .terminated ∨
      ∃ c, (op = .exitTask c ∨ op = .detachCurrentTask c) ∧ m.sched.perCpuTask c = i := by
  cases h with
  | quiet hw =>
    by_contra hne
    rcases hw.state with hsame | ⟨-, hready⟩
    · exact hne (.inl (hsame.symm.trans hterm))
    · exact absurd (hready.symm.trans hterm) (by simp)
  | released hcpu hw hr =>
    rw [hr.state, releasedState_eq_terminated] at hterm
    rcases hw.state with hsame | ⟨-, hready⟩
    · exact .inl (hsame.symm.trans hterm)
    · exact absurd (hready.symm.trans hterm) (by simp)
  | dispatched hop hst haff hid hrun => exact absurd (hrun.symm.trans hterm) (by simp)
  | slept hcpu n => exact absurd hterm (by simp)
  | terminated hid h => exact absurd rfl (hop _)
  | @exited _ c _ _ hcpu hop => exact .inr ⟨c, hop, hcpu⟩
  | replaced hcpu hst => exact .inl hterm

/-! ### The invariant -/

/-- The invariant of the clock. A flag that is set is that of the current task, which has not been
interrupted since; and a task that waits for its `int` runs on no other CPU. -/
structure ClockInv (s : Clock) : Prop where
  smp : SmpInv s.smp
  exits : ∀ i < s.smp.sched.taskCount, (s.smp.sched.tasks i).state = .terminated →
    s.exiting i = true
  flag : ∀ c, s.smp.sched.yieldInProgress c = true →
    ∃ i, s.current c = some i ∧ s.pending i = some ⟨c, false⟩
  waits : ∀ i < s.smp.sched.taskCount, ∀ c, s.pending i = some ⟨c, false⟩ →
    s.smp.sched.perCpuTask c = i ∧ s.smp.sched.yieldInProgress c = true
  home : ∀ i < s.smp.sched.taskCount, ∀ p, s.pending i = some p →
    Home (s.smp.sched.tasks i) p.cpu
  alive : ∀ i < s.smp.sched.taskCount, s.pending i = some ⟨s.smp.sched.bspApicId, true⟩ →
    (s.smp.sched.tasks i).state ≠ .terminated
  time : s.timerInterrupts = s.smp.sched.tickCount + s.awaited.card

theorem current_iff {s : Clock} {c : ApicId} {i : Nat} :
    s.current c = some i ↔ s.smp.sched.perCpuTask c = i ∧ i < s.smp.sched.taskCount ∧
      s.entered c = none := by
  unfold Clock.current Scheduler.runsTask
  constructor
  · intro h
    split at h
    · rename_i hrun
      obtain rfl := Option.some.inj h
      exact ⟨rfl, by simpa using hrun.1, hrun.2⟩
    · simp at h
  · rintro ⟨rfl, hlt, hent⟩
    simp [hlt, hent]

theorem mem_awaited {s : Clock} {i : Nat} :
    i ∈ s.awaited ↔ i < s.smp.sched.taskCount ∧
      s.pending i = some ⟨s.smp.sched.bspApicId, true⟩ ∧
        (s.smp.sched.tasks i).state ≠ .terminated := by
  unfold Clock.awaited
  rw [Finset.mem_filter, Finset.mem_range]

/-- A CPU that runs a task is started. -/
theorem online_of_runs {m : Smp} (h : SmpInv m) {c : ApicId}
    (hlt : m.sched.perCpuTask c < m.sched.taskCount) : m.online c = true := by
  by_contra hoff
  have hno := h.offline c (by simpa using hoff)
  have hcount := h.sched.count
  rw [hno, SCHED_NO_TASK] at hlt
  omega

/-- What a locked section does to a slot, the point of its task, and whether that exits. -/
inductive SlotKept (s s' : Clock) (op : SchedOp) (i : Nat) : Prop
  | created (hpending : s'.pending i = none) (hstate : (s'.smp.sched.tasks i).state = .ready)
  | kept (hlt : i < s.smp.sched.taskCount) (hpending : s'.pending i = s.pending i)
      (hslot : SlotStep s.smp op i (s.smp.sched.tasks i) (s'.smp.sched.tasks i))
      (hexiting : s.exiting i = true → s'.exiting i = true)
      (hself : ∀ c, (op = .exitTask c ∨ op = .detachCurrentTask c) →
        s.smp.sched.perCpuTask c = i → s.pending i = none ∧ s'.exiting i = true)

/-- A locked section keeps the invariant, when the slots of live tasks and of those on a CPU are
not reused, and the CPUs whose flag is set stay where they are. -/
theorem ClockInv.locked {s s' : Clock} {op : SchedOp} (h : ClockInv s)
    (halive : SleepsAlive s.smp op)
    (hop : op.ofInterrupt = false ∨ ∃ c b regs, op = .preempt c b regs)
    (hterm : ∀ id, op ≠ .terminateTask id) (hstep : s.smp.next op = some s'.smp)
    (hslots : ∀ i < s'.smp.sched.taskCount, SlotKept s s' op i)
    (hlive : ∀ i < s.smp.sched.taskCount, (s.smp.sched.tasks i).state ≠ .terminated ∨
      (s.smp.sched.tasks i).currentCpu ≠ none → s'.pending i = s.pending i)
    (hflag : ∀ c, s.smp.sched.yieldInProgress c = true →
      s'.entered c = s.entered c ∧ s'.smp.sched.perCpuTask c = s.smp.sched.perCpuTask c)
    (htimers : s'.timerInterrupts = s.timerInterrupts) : ClockInv s' := by
  have hclock := sameClock_of_next h.smp hop hstep
  have hcount := (globalStep_of_next h.smp hstep).count
  -- the section terminates no task that is on the way to its interrupt
  have hstate : ∀ i, i < s'.smp.sched.taskCount → s'.pending i ≠ none →
      (s'.smp.sched.tasks i).state = .terminated → (s.smp.sched.tasks i).state = .terminated := by
    intro i hi hpending hdead
    cases hslots i hi with
    | created hnone hready => exact absurd hnone hpending
    | kept hlt hsame hslot hexiting hself =>
      rcases hslot.terminated_before hterm hdead with hbefore | ⟨c, hexit, hcpu⟩
      · exact hbefore
      · exact absurd (hsame.trans (hself c hexit hcpu).1) hpending
  refine ⟨h.smp.step halive hstep, fun i hi hdead => ?_, fun c hc => ?_, fun i hi c hp => ?_,
    fun i hi p hp => ?_, fun i hi hp hdead => ?_, ?_⟩
  · cases hslots i hi with
    | created hnone hready => exact absurd (hready.symm.trans hdead) (by simp)
    | kept hlt hsame hslot hexiting hself =>
      rcases hslot.terminated_before hterm hdead with hbefore | ⟨c, hexit, hcpu⟩
      · exact hexiting (h.exits i hlt hbefore)
      · exact (hself c hexit hcpu).2
  · rw [hclock.flags] at hc
    obtain ⟨i, hcurrent, hp⟩ := h.flag c hc
    obtain ⟨hcpu, hlt, hent⟩ := current_iff.mp hcurrent
    obtain ⟨hent', hcpu'⟩ := hflag c hc
    have hon : (s.smp.sched.tasks i).currentCpu = some c := (h.smp.sched.own i hlt c).mp hcpu
    refine ⟨i, current_iff.mpr ⟨hcpu'.trans hcpu, by omega, hent'.trans hent⟩, ?_⟩
    rw [hlive i hlt (.inr (by simp [hon])), hp]
  · cases hslots i hi with
    | created hnone hready => exact absurd (hnone.symm.trans hp) (by simp)
    | kept hlt hsame =>
      obtain ⟨hcpu, hc⟩ := h.waits i hlt c (hsame.symm.trans hp)
      exact ⟨(hflag c hc).2.trans hcpu, by rw [hclock.flags]; exact hc⟩
  · cases hslots i hi with
    | created hnone hready => exact absurd (hnone.symm.trans hp) (by simp)
    | kept hlt hsame hslot => exact (h.home i hlt p (hsame.symm.trans hp)).step halive hslot
  · have hdead' := hstate i hi (by simp [hp]) hdead
    cases hslots i hi with
    | created hnone hready => exact absurd (hnone.symm.trans hp) (by simp)
    | kept hlt hsame =>
      rw [hsame, hclock.bsp] at hp
      exact h.alive i hlt hp hdead'
  · have hsame : s'.awaited = s.awaited := by
      ext i
      rw [mem_awaited, mem_awaited, hclock.bsp]
      constructor
      · rintro ⟨hi, hp, hst⟩
        cases hslots i hi with
        | created hnone hready => exact absurd (hnone.symm.trans hp) (by simp)
        | kept hlt hsame hslot =>
          refine ⟨hlt, hsame.symm.trans hp, fun hdead => hst ?_⟩
          exact hslot.keeps_terminated rfl halive hdead
      · rintro ⟨hlt, hp, hst⟩
        have hp' := (hlive i hlt (.inl hst)).trans hp
        exact ⟨by omega, hp', fun hdead => hst (hstate i (by omega) (by simp [hp']) hdead)⟩
    rw [htimers, hclock.tickCount, hsame]
    exact h.time

/-! ### The steps -/

/-- The record of the tasks after a section: that of a slot is as before, or the slot has a new
task. -/
theorem after_cases (s : Clock) (op : SchedOp) (i : Nat) :
    s.pendingAfter op i = s.pending i ∧ (s.exiting i = true → s.exitingAfter op i = true) ∨
      ∃ name userData, op = .createTask name userData ∧
        (s.smp.sched.createTask name userData).1.isSome = true ∧
          i = s.smp.sched.findAvailableTaskSlot ∧ s.pendingAfter op i = none := by
  cases op with
  | createTask name userData =>
    by_cases hsome : (s.smp.sched.createTask name userData).1.isSome = true
    · by_cases hslot : i = s.smp.sched.findAvailableTaskSlot
      · subst hslot
        exact .inr ⟨name, userData, rfl, hsome, rfl, by simp [Clock.pendingAfter, hsome]⟩
      · refine .inl ⟨by simp [Clock.pendingAfter, hsome, hslot], fun hexit => ?_⟩
        simpa [Clock.exitingAfter, hsome, hslot] using hexit
    · exact .inl ⟨by simp [Clock.pendingAfter, hsome], fun hexit => by
        simpa [Clock.exitingAfter, hsome] using hexit⟩
  | exitTask c | detachCurrentTask c =>
    refine .inl ⟨rfl, fun hexit => ?_⟩
    by_cases hcpu : i = s.smp.sched.perCpuTask c
    · simp [Clock.exitingAfter, hcpu]
    · simpa [Clock.exitingAfter, hcpu] using hexit
  | _ => exact .inl ⟨rfl, id⟩

/-- The slot of a new task had no live task, and none that is on a CPU. -/
theorem newSlot_spec {s : Scheduler} {name : List UInt8} {userData : Option Ctx}
    (hsome : (s.createTask name userData).1.isSome = true)
    (hlt : s.findAvailableTaskSlot < s.taskCount) :
    (s.tasks s.findAvailableTaskSlot).state = .terminated ∧
      (s.tasks s.findAvailableTaskSlot).currentCpu = none := by
  have hfull : s.findAvailableTaskSlot < MAX_TASKS := by
    by_contra hfull
    simp [Scheduler.createTask, Nat.not_lt.mp hfull] at hsome
  rcases findAvailableTaskSlot_cases hfull with ⟨-, hterm, hcur⟩ | heq
  · exact ⟨hterm, hcur⟩
  · omega

/-- The caller of a section. -/
theorem mayCall_spec {s : Clock} {op : SchedOp} {c : ApicId} (h : s.mayCall op = true)
    (hcaller : op.caller = some c) :
    ∃ i, s.current c = some i ∧ s.pending i = none ∧
      (s.exiting i = false ∨ op = .exitTask c) := by
  unfold Clock.mayCall at h
  rw [hcaller] at h
  obtain ⟨i, hcurrent, hi⟩ := (Option.any_eq_true _ _).mp h
  simp only [Bool.and_eq_true, beq_iff_eq, Bool.or_eq_true, Bool.not_eq_true'] at hi
  exact ⟨i, hcurrent, hi⟩

theorem ClockInv.sched {s : Clock} {m : Smp} {op : SchedOp} (h : ClockInv s)
    (hterm : ∀ id, op ≠ .terminateTask id) (hop : op.ofInterrupt = false)
    (hcall : s.mayCall op = true) (hstep : s.smp.next op = some m) :
    ClockInv { s with smp := m, pending := s.pendingAfter op, exiting := s.exitingAfter op } := by
  -- a task that sleeps has not begun to exit
  have halive : SleepsAlive s.smp op := by
    cases op with
    | sleep c ticks =>
      obtain ⟨i, hcurrent, -, hexit⟩ := mayCall_spec hcall rfl
      obtain ⟨rfl, hlt, -⟩ := current_iff.mp hcurrent
      intro hdead
      have hexiting := h.exits _ hlt hdead
      rcases hexit with hno | heq
      · exact absurd (hexiting.symm.trans hno) (by simp)
      · exact absurd heq (by simp)
    | _ => trivial
  refine h.locked halive (.inl hop) hterm hstep (fun i hi => ?_) (fun i hlt hi => ?_)
    (fun c hc => ⟨rfl, ?_⟩) rfl
  · rcases after_cases s op i with ⟨hsame, hexiting⟩ | ⟨name, userData, rfl, hsome, rfl, hnone⟩
    · cases tableStep_of_next h.smp hstep hi with
      | created name userData hcreate hsome hslot htask =>
        refine .created ?_ ?_
        · subst hcreate hslot
          simp [Clock.pendingAfter, hsome]
        · show (m.sched.tasks i).state = _
          rw [htask]
          rfl
      | kept hlt hslot =>
        refine .kept hlt hsame hslot hexiting fun c hexit hcpu => ?_
        have hcaller : op.caller = some c := by
          rcases hexit with rfl | rfl
          · rfl
          · rfl
        obtain ⟨j, hcurrent, hp, -⟩ := mayCall_spec hcall hcaller
        obtain rfl : i = j := hcpu.symm.trans (current_iff.mp hcurrent).1
        refine ⟨hp, ?_⟩
        subst hcpu
        rcases hexit with rfl | rfl
        · simp [Clock.exitingAfter]
        · simp [Clock.exitingAfter]
    · refine .created hnone ?_
      obtain rfl := Option.some.inj hstep
      show ((s.smp.sched.createTask name userData).2.tasks _).state = _
      rw [createTask_slot hsome]
      rfl
  · rcases after_cases s op i with ⟨hsame, -⟩ | ⟨name, userData, rfl, hsome, rfl, -⟩
    · exact hsame
    · obtain ⟨hdead, hoff⟩ := newSlot_spec hsome hlt
      rcases hi with hst | hon
      · exact absurd hdead hst
      · exact absurd hoff hon
  · obtain ⟨i, hcurrent, -⟩ := h.flag c hc
    obtain ⟨rfl, hlt, -⟩ := current_iff.mp hcurrent
    refine (perCpuTask_of_next (online_of_runs h.smp hlt) (h.smp.sched.active hlt) ?_ hstep).1
    intro b regs heq
    exact absurd (heq ▸ hop) (by simp [SchedOp.ofInterrupt])

/-- The rest of `preempt`: the flag of its CPU is not set. -/
theorem ClockInv.preempt {s : Clock} {m : Smp} {c : ApicId} {b : Bool} {regs : Nat}
    (h : ClockInv s) (hent : s.entered c = some b)
    (hstep : s.smp.next (.preempt c b regs) = some m) :
    ClockInv { s with smp := m, entered := Function.update s.entered c none } := by
  have halive : SleepsAlive s.smp (.preempt c b regs) := trivial
  refine h.locked halive (.inr ⟨c, b, regs, rfl⟩) (by simp) hstep (fun i hi => ?_)
    (fun i hlt hi => rfl) (fun d hd => ?_) rfl
  · cases tableStep_of_next h.smp hstep hi with
    | created name userData hcreate => exact absurd hcreate (by simp)
    | kept hlt hslot => exact .kept hlt rfl hslot id (fun d hexit => absurd hexit (by simp))
  · obtain ⟨i, hcurrent, -⟩ := h.flag d hd
    obtain ⟨rfl, hlt, hnone⟩ := current_iff.mp hcurrent
    have hdc : d ≠ c := by
      rintro rfl
      exact absurd (hent.symm.trans hnone) (by simp)
    refine ⟨Function.update_of_ne hdc _ _, ?_⟩
    refine (perCpuTask_of_next (online_of_runs h.smp hlt) (h.smp.sched.active hlt) ?_ hstep).1
    intro b' regs' heq
    exact absurd (SchedOp.preempt.inj heq).1.symm hdc

/-- The entry of `preempt` clears the flag of its CPU, and counts a tick of the boot CPU when it
was not set. -/
theorem preemptEntry_spec {m n : Smp} {c : ApicId} (hstep : m.next (.preemptEntry c) = some n) :
    n.sched.tasks = m.sched.tasks ∧ n.sched.taskCount = m.sched.taskCount ∧
      n.sched.perCpuTask = m.sched.perCpuTask ∧ n.sched.bspApicId = m.sched.bspApicId ∧
      (∀ d, n.sched.yieldInProgress d = true ↔ d ≠ c ∧ m.sched.yieldInProgress d = true) ∧
      n.sched.tickCount =
        if m.sched.yieldInProgress c = false ∧ c = m.sched.bspApicId then
          add64 m.sched.tickCount 1
        else m.sched.tickCount := by
  simp only [Smp.next] at hstep
  split at hstep
  · obtain rfl := Option.some.inj hstep
    simp only []
    unfold Scheduler.preemptEntry
    cases hflag : m.sched.yieldInProgress c with
    | true =>
      refine ⟨rfl, rfl, rfl, rfl, fun d => ?_, by simp⟩
      by_cases hdc : d = c
      · simp [hdc]
      · simp [hdc]
    | false =>
      have hother : ∀ d, m.sched.yieldInProgress d = true ↔
          d ≠ c ∧ m.sched.yieldInProgress d = true := by
        refine fun d => ⟨fun hd => ⟨?_, hd⟩, And.right⟩
        rintro rfl
        exact absurd (hflag.symm.trans hd) (by simp)
      by_cases hc : c = m.sched.bspApicId
      · simpa [hc] using hother
      · simpa [hc] using hother
  · simp at hstep

/-- The entry of `preempt` on CPU `c` keeps the invariant, when the task that it interrupts has
its flag consumed or raises its interrupt, and the account is right. -/
theorem ClockInv.entry {s s' : Clock} {c : ApicId} (h : ClockInv s)
    (hstep : s.smp.next (.preemptEntry c) = some s'.smp)
    (hentered : ∀ d, d ≠ c → s'.entered d = s.entered d) (hexiting : s'.exiting = s.exiting)
    (hpending : ∀ j < s.smp.sched.taskCount,
      s'.pending j = s.pending j ∧ s.pending j ≠ some ⟨c, false⟩ ∨
        s.smp.sched.perCpuTask c = j ∧ (s'.pending j = none ∨ s'.pending j = some ⟨c, true⟩ ∧
          Home (s.smp.sched.tasks j) c ∧
            (c = s.smp.sched.bspApicId → (s.smp.sched.tasks j).state ≠ .terminated)))
    (htime : s'.timerInterrupts = s'.smp.sched.tickCount + s'.awaited.card) : ClockInv s' := by
  obtain ⟨htasks, hcount, hcpu, hbsp, hflags, -⟩ := preemptEntry_spec hstep
  refine ⟨h.smp.step (show SleepsAlive s.smp (.preemptEntry c) from trivial) hstep,
    fun i hi hdead => ?_, fun d hd => ?_, fun i hi d hp => ?_, fun i hi p hp => ?_,
    fun i hi hp => ?_, htime⟩
  · rw [htasks] at hdead
    rw [hexiting]
    exact h.exits i (hcount ▸ hi) hdead
  · obtain ⟨hdc, hd⟩ := (hflags d).mp hd
    obtain ⟨i, hcurrent, hp⟩ := h.flag d hd
    obtain ⟨hcpud, hlt, hnone⟩ := current_iff.mp hcurrent
    refine ⟨i, current_iff.mpr ⟨?_, hcount ▸ hlt, (hentered d hdc).trans hnone⟩, ?_⟩
    · rw [hcpu]
      exact hcpud
    · -- the task of another CPU is not the one that is interrupted
      rcases hpending i hlt with ⟨hsame, -⟩ | ⟨hcpuc, -⟩
      · exact hsame.trans hp
      · exact absurd (h.smp.sched.exclusive.one i hlt d c hcpud hcpuc) hdc
  · rw [hcount] at hi
    rcases hpending i hi with ⟨hsame, hne⟩ | ⟨-, hnone | ⟨hsome, -⟩⟩
    · rw [hsame] at hp
      obtain ⟨hcpud, hd⟩ := h.waits i hi d hp
      have hdc : d ≠ c := by
        rintro rfl
        exact hne hp
      exact ⟨by rw [hcpu]; exact hcpud, (hflags d).mpr ⟨hdc, hd⟩⟩
    · exact absurd (hnone.symm.trans hp) (by simp)
    · exact absurd (hsome.symm.trans hp) (by simp)
  · rw [hcount] at hi
    rw [htasks]
    rcases hpending i hi with ⟨hsame, -⟩ | ⟨-, hnone | ⟨hsome, hhome, -⟩⟩
    · exact h.home i hi p (hsame.symm.trans hp)
    · exact absurd (hnone.symm.trans hp) (by simp)
    · obtain rfl := Option.some.inj (hsome.symm.trans hp)
      exact hhome
  · rw [hcount] at hi
    rw [htasks]
    rw [hbsp] at hp
    rcases hpending i hi with ⟨hsame, -⟩ | ⟨-, hnone | ⟨hsome, -, hlive⟩⟩
    · exact h.alive i hi (hsame.symm.trans hp)
    · exact absurd (hnone.symm.trans hp) (by simp)
    · have heq := Option.some.inj (hsome.symm.trans hp)
      exact hlive (PendingYield.mk.inj heq).1

/-- The task that CPU `c` interrupts is the only one that has set the flag of CPU `c`. -/
theorem ClockInv.pending_ne {s : Clock} {c : ApicId} (h : ClockInv s) {j : Nat}
    (hj : j < s.smp.sched.taskCount)
    (hother : s.smp.sched.perCpuTask c ≠ j ∨ s.smp.sched.yieldInProgress c = false) :
    s.pending j ≠ some ⟨c, false⟩ := by
  intro hp
  obtain ⟨hcpu, hflag⟩ := h.waits j hj c hp
  rcases hother with hne | hno
  · exact hne hcpu
  · exact absurd (hflag.symm.trans hno) (by simp)

/-- The `int` of a task: it finds the flag of the task, or is counted in the place of the timer
interrupt that has found it. -/
theorem ClockInv.int {s s' : Clock} {c : ApicId} (h : ClockInv s) (hok : TickOk s (.int c))
    (hstep : s.next (.int c) = some s') : ClockInv s' := by
  obtain ⟨i, hcurrent, hstep⟩ := Option.bind_eq_some_iff.mp hstep
  split at hstep
  · simp at hstep
  · rename_i hpending
    obtain ⟨s₁, hs₁, rfl⟩ := Option.map_eq_some_iff.mp hstep
    obtain ⟨m, hm, rfl⟩ := Option.map_eq_some_iff.mp hs₁
    obtain ⟨hcpu, hlt, -⟩ := current_iff.mp hcurrent
    obtain ⟨p, hp⟩ := Option.ne_none_iff_exists'.mp hpending
    -- the task is on the CPU whose flag it has set
    have hhome : c = p.cpu := (h.home i hlt p hp).current c ((h.smp.sched.own i hlt c).mp hcpu)
    obtain ⟨htasks, hcount, -, hbsp, -, htick⟩ := preemptEntry_spec hm
    refine h.entry hm (fun d hd => Function.update_of_ne hd _ _) rfl (fun j hj => ?_) ?_
    · by_cases hji : j = i
      · subst hji
        exact .inr ⟨hcpu, .inl (Function.update_self _ _ _)⟩
      · refine .inl ⟨Function.update_of_ne hji _ _, h.pending_ne hj (.inl ?_)⟩
        exact fun heq => hji (heq.symm.trans hcpu)
    · show s.timerInterrupts = m.sched.tickCount + Finset.card (Clock.awaited _)
      have hawaited : ∀ k : Clock, k.smp = m → k.pending = Function.update s.pending i none →
          k.awaited = s.awaited.erase i := by
        rintro k rfl hk
        ext j
        rw [mem_awaited, Finset.mem_erase, mem_awaited, hk, htasks, hcount, hbsp]
        by_cases hji : j = i
        · simp [hji]
        · simp [hji]
      rw [hawaited _ rfl rfl, h.time, htick]
      by_cases howed : i ∈ s.awaited
      · -- the flag was consumed, and CPU `c` is the boot CPU
        obtain ⟨-, hbspTrue, -⟩ := mem_awaited.mp howed
        obtain rfl := Option.some.inj (hp.symm.trans hbspTrue)
        have hc : c = s.smp.sched.bspApicId := hhome
        have hflag : s.smp.sched.yieldInProgress c = false := by
          by_contra hset
          obtain ⟨j, hj, hpj⟩ := h.flag c (by simpa using hset)
          obtain rfl : i = j := hcpu.symm.trans (current_iff.mp hj).1
          exact absurd (hp.symm.trans hpj) (by simp)
        have hpos := Finset.card_pos.mpr ⟨i, howed⟩
        rw [if_pos ⟨hflag, hc⟩, add64_eq (hok hc hflag), Finset.card_erase_of_mem howed]
        omega
      · -- the flag is that of the task, or CPU `c` is not the boot CPU
        have hcount : ¬ (s.smp.sched.yieldInProgress c = false ∧ c = s.smp.sched.bspApicId) := by
          rintro ⟨hflag, hc⟩
          cases hconsumed : p.consumed with
          | true =>
            have hp' : s.pending i = some ⟨s.smp.sched.bspApicId, true⟩ := by
              rw [hp, ← hc, hhome, ← hconsumed]
            exact howed (mem_awaited.mpr ⟨hlt, hp', h.alive i hlt hp'⟩)
          | false =>
            have hp' : s.pending i = some ⟨c, false⟩ := by
              rw [hp, hhome, ← hconsumed]
            exact h.pending_ne hlt (.inr hflag) hp'
        rw [if_neg hcount, Finset.erase_eq_of_notMem howed]

/-- A timer interrupt: it is counted, or the task whose flag it consumes owes a tick. -/
theorem ClockInv.timer {s s' : Clock} {c : ApicId} (h : ClockInv s) (hok : TickOk s (.timer c))
    (hstep : s.next (.timer c) = some s') : ClockInv s' := by
  simp only [Clock.next] at hstep
  split at hstep
  · rename_i hent
    obtain ⟨s₁, hs₁, rfl⟩ := Option.map_eq_some_iff.mp hstep
    obtain ⟨m, hm, rfl⟩ := Option.map_eq_some_iff.mp hs₁
    obtain ⟨htasks, hcount, -, hbsp, -, htick⟩ := preemptEntry_spec hm
    cases hflag : s.smp.sched.yieldInProgress c with
    | false =>
      have hconsume : s.consume c = s.pending := by
        unfold Clock.consume
        split
        · simp [hflag]
        · rfl
      refine h.entry hm (fun d hd => Function.update_of_ne hd _ _) rfl (fun j hj => ?_) ?_
      · exact .inl ⟨congrFun hconsume j, h.pending_ne hj (.inr hflag)⟩
      · show (if c = s.smp.sched.bspApicId then _ else _)
          = m.sched.tickCount + Finset.card (Clock.awaited _)
        have hawaited : ∀ k : Clock, k.smp = m → k.pending = s.consume c →
            k.awaited = s.awaited := by
          rintro k rfl hk
          ext j
          rw [mem_awaited, mem_awaited, hk, hconsume, htasks, hcount, hbsp]
        rw [hawaited _ rfl rfl, h.time, htick]
        by_cases hc : c = s.smp.sched.bspApicId
        · rw [if_pos hc, if_pos ⟨hflag, hc⟩, add64_eq ((hok hc).2 hflag)]
          omega
        · rw [if_neg hc, if_neg fun hboth => hc hboth.2]
    | true =>
      obtain ⟨i, hcurrent, hp⟩ := h.flag c hflag
      obtain ⟨hcpu, hlt, -⟩ := current_iff.mp hcurrent
      have hconsume : s.consume c = Function.update s.pending i (some ⟨c, true⟩) := by
        simp [Clock.consume, hcurrent, hflag, hp]
      have hlive : c = s.smp.sched.bspApicId → (s.smp.sched.tasks i).state ≠ .terminated := by
        intro hc
        have hcond := (hok hc).1 hflag
        rw [hcpu] at hcond
        exact hcond
      refine h.entry hm (fun d hd => Function.update_of_ne hd _ _) rfl (fun j hj => ?_) ?_
      · show s.consume c j = _ ∧ _ ∨ _ ∧ (s.consume c j = _ ∨ s.consume c j = _ ∧ _)
        rw [hconsume]
        by_cases hji : j = i
        · subst hji
          exact .inr ⟨hcpu, .inr ⟨Function.update_self _ _ _, h.home j hlt _ hp, hlive⟩⟩
        · refine .inl ⟨Function.update_of_ne hji _ _, h.pending_ne hj (.inl ?_)⟩
          exact fun heq => hji (heq.symm.trans hcpu)
      · show (if c = s.smp.sched.bspApicId then _ else _)
          = m.sched.tickCount + Finset.card (Clock.awaited _)
        have hsame : m.sched.tickCount = s.smp.sched.tickCount := by
          rw [htick, if_neg fun hboth => absurd (hflag.symm.trans hboth.1) (by simp)]
        -- the task is not owed yet: its flag was still set
        have hnew : i ∉ s.awaited := by
          intro howed
          exact absurd (hp.symm.trans (mem_awaited.mp howed).2.1) (by simp)
        by_cases hc : c = s.smp.sched.bspApicId
        · have hawaited : ∀ k : Clock, k.smp = m → k.pending = s.consume c →
              k.awaited = insert i s.awaited := by
            rintro k rfl hk
            ext j
            rw [mem_awaited, Finset.mem_insert, mem_awaited, hk, hconsume, htasks, hcount, hbsp]
            by_cases hji : j = i
            · subst hji
              simp [hlt, hc, hlive hc]
            · simp [hji]
          rw [hawaited _ rfl rfl, if_pos hc, Finset.card_insert_of_notMem hnew, hsame, h.time]
          omega
        · have hawaited : ∀ k : Clock, k.smp = m → k.pending = s.consume c →
              k.awaited = s.awaited := by
            rintro k rfl hk
            ext j
            rw [mem_awaited, mem_awaited, hk, hconsume, htasks, hcount, hbsp]
            by_cases hji : j = i
            · subst hji
              simp [hc, hp]
            · simp [hji]
          rw [hawaited _ rfl rfl, if_neg hc, hsame, h.time]
  · simp at hstep

/-- `yield` up to its `int`: the flag is that of the current task. -/
theorem ClockInv.yield {s s' : Clock} {c : ApicId} (h : ClockInv s)
    (hstep : s.next (.yield c) = some s') : ClockInv s' := by
  obtain ⟨i, hcurrent, hstep⟩ := Option.bind_eq_some_iff.mp hstep
  obtain ⟨hcpu, hlt, hent⟩ := current_iff.mp hcurrent
  split at hstep
  · rename_i hpending
    obtain ⟨m, hm, rfl⟩ := Option.map_eq_some_iff.mp hstep
    have hinv : SmpInv m := h.smp.step (show SleepsAlive s.smp (.yield c) from trivial) hm
    simp only [Smp.next] at hm
    split at hm
    · obtain rfl := Option.some.inj hm
      by_cases hsched : s.smp.sched.schedules = true
      · rw [if_pos hsched]
        have hyield : s.smp.sched.yield c = { s.smp.sched with
            yieldInProgress := Function.update s.smp.sched.yieldInProgress c true } := by
          unfold Scheduler.schedules at hsched
          simp only [Bool.and_eq_true, decide_eq_true_eq] at hsched
          unfold Scheduler.yield
          have hidle : ¬ (¬ s.smp.sched.schedulerActive = true ∨ s.smp.sched.taskCount < 2) :=
            not_or.mpr ⟨not_not.mpr hsched.1, Nat.not_lt.mpr hsched.2⟩
          rw [if_neg (by simpa using hidle)]
        simp only [hyield] at hinv ⊢
        have hother : ∀ j, j ≠ i →
            Function.update s.pending i (some ⟨c, false⟩) j = s.pending j :=
          fun j hji => Function.update_of_ne hji _ _
        refine ⟨hinv, h.exits, fun d hd => ?_, fun j hj d hp => ?_, fun j hj p hp => ?_,
          fun j hj hp => ?_, ?_⟩
        · by_cases hdc : d = c
          · subst hdc
            exact ⟨i, hcurrent, Function.update_self _ _ _⟩
          · simp only [Function.update_of_ne hdc] at hd
            obtain ⟨j, hj, hp⟩ := h.flag d hd
            have hji : j ≠ i := by
              rintro rfl
              exact absurd (hpending.symm.trans hp) (by simp)
            exact ⟨j, hj, (hother j hji).trans hp⟩
        · by_cases hji : j = i
          · subst hji
            simp only [Function.update_self, Option.some.injEq, PendingYield.mk.injEq] at hp
            obtain ⟨rfl, -⟩ := hp
            exact ⟨hcpu, Function.update_self _ _ _⟩
          · obtain ⟨hcpud, hd⟩ := h.waits j hj d ((hother j hji).symm.trans hp)
            refine ⟨hcpud, ?_⟩
            show Function.update s.smp.sched.yieldInProgress c true d = true
            by_cases hdc : d = c
            · rw [hdc, Function.update_self]
            · rw [Function.update_of_ne hdc, hd]
        · by_cases hji : j = i
          · subst hji
            simp only [Function.update_self, Option.some.injEq] at hp
            obtain rfl := hp
            have hon := (h.smp.sched.own j hlt c).mp hcpu
            refine ⟨hcpu ▸ pinned_current h.smp.sched (hcpu ▸ hlt), fun d hd => ?_⟩
            exact Option.some.inj (hd.symm.trans hon)
          · exact h.home j hj p ((hother j hji).symm.trans hp)
        · have hji : j ≠ i := by
            rintro rfl
            simp [Function.update_self] at hp
          exact h.alive j hj ((hother j hji).symm.trans hp)
        · -- a flag that is set is not owed
          refine h.time.trans (congrArg (fun S => s.smp.sched.tickCount + Finset.card S) ?_)
          ext j
          rw [mem_awaited, mem_awaited]
          by_cases hji : j = i
          · simp [hji, hpending]
          · simp [hji]
      · -- with a single task nothing happens
        rw [if_neg hsched]
        have hyield : s.smp.sched.yield c = s.smp.sched := by
          unfold Scheduler.schedules at hsched
          unfold Scheduler.yield
          rw [if_pos ?_]
          by_cases hact : s.smp.sched.schedulerActive = true
          · simp only [hact, Bool.true_and, decide_eq_true_eq, not_le] at hsched
            simp [hsched]
          · simp [hact]
        simp only [hyield]
        exact h
    · simp at hm
  · simp at hstep

theorem ClockInv.step {s s' : Clock} {op : ClockOp} (h : ClockInv s) (hok : TickOk s op)
    (hstep : s.next op = some s') : ClockInv s' := by
  cases op with
  | yield c => exact h.yield hstep
  | int c => exact h.int hok hstep
  | timer c => exact h.timer hok hstep
  | preempt c regs =>
    obtain ⟨b, hent, hstep⟩ := Option.bind_eq_some_iff.mp hstep
    obtain ⟨m, hm, rfl⟩ := Option.map_eq_some_iff.mp hstep
    exact h.preempt hent hm
  | sched op =>
    simp only [Clock.next] at hstep
    split at hstep
    · rename_i hcall
      obtain ⟨m, hm, rfl⟩ := Option.map_eq_some_iff.mp hstep
      refine h.sched (fun id heq => ?_) hcall.1 hcall.2 hm
      subst heq
      exact hok
    · simp at hstep

theorem ClockInv.init (bsp : ApicId) :
    ClockInv ⟨⟨Scheduler.init bsp, fun _ => false⟩, fun _ => none, fun _ => none,
      fun _ => false, 0⟩ := by
  refine ⟨smpInv_init bsp, fun i hi => absurd hi (Nat.not_lt_zero i), fun c hc => ?_,
    fun i hi => absurd hi (Nat.not_lt_zero i), fun i hi => absurd hi (Nat.not_lt_zero i),
    fun i hi => absurd hi (Nat.not_lt_zero i), ?_⟩
  · exact absurd hc (by simp [Scheduler.init])
  · rfl

/-- In every run that meets the condition, `g_tick_count` is at most the number of timer
interrupts of the boot CPU, and behind it by exactly the interrupts that tasks on the boot CPU
have still to raise. -/
theorem tick_count_on_time (s : Clock) (hs : (clockSystem.restrict TickOk).Reachable s) :
    s.OnTime := by
  have h : ClockInv s := by
    refine hs.invariant (fun s hinit => ?_) (fun s op s' _ h hstep => ?_)
    · obtain ⟨bsp, rfl⟩ := hinit
      exact .init bsp
    · exact h.step hstep.1 hstep.2
  have htime := h.time
  unfold Clock.OnTime
  omega

/-- The clock of a machine with the boot CPU 0. -/
def bootClock : Clock :=
  ⟨⟨Scheduler.init 0, fun _ => false⟩, fun _ => none, fun _ => none, fun _ => false, 0⟩

/-- The shell and another task lose their flags to timer interrupts one after the other. Then the
shell raises its interrupt, and the other task still has to. -/
theorem tick_count_on_time_two_yields :
    ∃ s, (clockSystem.restrict TickOk).Reachable s ∧ s.timerInterrupts = 2 ∧
      s.smp.sched.tickCount = 1 ∧ s.OnTime := by
  have hrun : (TransitionSystem.run (TransitionSystem.guarded Clock.next TickOk) bootClock
      [.sched (.createTask [105, 100, 108, 101] none), .sched (.createTask [115, 104] none),
        .sched (.createTask [107] none), .sched .start,
        .yield 0, .timer 0, .preempt 0 0, .yield 0, .timer 0, .preempt 0 0,
        .int 0, .preempt 0 0]).any
          (fun s => s.timerInterrupts == 2 && s.smp.sched.tickCount == 1) = true := by
    with_unfolding_all decide
  obtain ⟨s, hs, hp⟩ := (Option.any_eq_true _ _).mp hrun
  simp only [Bool.and_eq_true, beq_iff_eq] at hp
  have hreach := TransitionSystem.reachable_of_guarded_run
    (show (clockSystem.restrict TickOk).Reachable bootClock from .init ⟨0, rfl⟩) hs
  exact ⟨s, hreach, hp.1, hp.2, tick_count_on_time s hreach⟩

/-- The shell exits and loses its flag in the loop of `exit_task`. A new task takes its slot, and
the tick is still missing when nobody waits for an interrupt. -/
theorem exit_loses_tick :
    ∃ s, (clockSystem.restrict NoTerminateTask).Reachable s ∧ s.timerInterrupts = 1 ∧
      s.smp.sched.tickCount = 0 ∧ s.awaited = ∅ ∧
      (∀ i < s.smp.sched.taskCount, s.pending i = none) ∧ ¬ s.OnTime := by
  have hrun : (TransitionSystem.run (TransitionSystem.guarded Clock.next NoTerminateTask) bootClock
      [.sched (.createTask [105, 100, 108, 101] none), .sched (.createTask [115, 104] none),
        .sched .start, .sched (.exitTask 0), .yield 0, .timer 0, .preempt 0 0,
        .sched (.createTask [107] none)]).any
          (fun s => s.timerInterrupts == 1 && s.smp.sched.tickCount == 0 &&
            decide (∀ i < s.smp.sched.taskCount, s.pending i = none)) = true := by
    decide
  obtain ⟨s, hs, hp⟩ := (Option.any_eq_true _ _).mp hrun
  simp only [Bool.and_eq_true, beq_iff_eq, decide_eq_true_eq] at hp
  obtain ⟨⟨htimers, htick⟩, hpending⟩ := hp
  have hawaited : s.awaited = ∅ := by
    refine Finset.eq_empty_of_forall_notMem fun i hi => ?_
    obtain ⟨hlt, hp, -⟩ := mem_awaited.mp hi
    exact absurd ((hpending i hlt).symm.trans hp) (by simp)
  refine ⟨s, TransitionSystem.reachable_of_guarded_run (.init ⟨0, rfl⟩) hs, htimers, htick,
    hawaited, hpending, fun hontime => ?_⟩
  have hcount := hontime.2
  rw [htimers, htick, hawaited, Finset.card_empty] at hcount
  exact absurd hcount (by decide)

end VKernel.Proofs.Sched

import VKernel.Proofs.Process.TeardownBooks

/-!
# `VKernel.Proofs.Process.Teardown`: a process is torn down once

`stub_exit`, `process_task_main` and `exec_impl` call `cleanup_process_context` while
`g_tasks[i].user_data` still points to the context, and clear the pointer only in
`exit_task`. In between the task is preemptible, and three things can go wrong: its own
CPU finds it terminated and takes the context a second time, `terminate_task` finds it off
the CPU and takes it, or a CPU dispatches it after the context was freed and reads the
address space through the stale pointer. `TeardownOk` excludes exactly these.
-/

set_option autoImplicit false

namespace VKernel.Proofs.Process

open VKernel VKernel.Lib VKernel.Sched VKernel.Process VKernel.Proofs.Sched

/-- The task of slot `i` is in its own exit, has called `cleanup_process_context`, and
`user_data` still points to the context. -/
def exitStarted (k : Kernel) (i : Nat) : Bool :=
  match k.pc i with
  | .cleanup .started x .exit => k.contextOf i == some x
  | .cleanup .freed x .exit => k.contextOf i == some x
  | _ => false

/-- The same, and the context is freed. -/
def exitFreed (k : Kernel) (i : Nat) : Bool :=
  match k.pc i with
  | .cleanup .freed x .exit => k.contextOf i == some x
  | _ => false

/-- The task that `preempt` goes on to is in its own exit and has freed its context. -/
def arrivesFreed (k : Kernel) : Switch → Bool
  | .task next => exitFreed k next
  | _ => false

/-- The condition on a step: only live tasks sleep; a task that has called
`cleanup_process_context` for its own exit is not found terminated by its CPU, is not found
off the CPU by `terminate_task`, and is not dispatched once its context is freed. -/
def TeardownOk (k : Kernel) : KernelOp → Prop
  | .sleep c _ => (k.smp.sched.tasks (k.smp.sched.perCpuTask c)).state ≠ .terminated
  | .preempt c b regs =>
    ((k.smp.sched.tasks (k.smp.sched.perCpuTask c)).state = .terminated →
      exitStarted k (k.smp.sched.perCpuTask c) = false) ∧
    arrivesFreed k (k.smp.sched.preemptLocked c b regs).2.1 = false
  | .terminateTask _ id =>
    ∀ i < k.smp.sched.taskCount, (k.smp.sched.tasks i).id = id →
      (k.smp.sched.tasks i).currentCpu = none → exitStarted k i = false
  | _ => True

instance (k : Kernel) : ∀ op, Decidable (TeardownOk k op)
  | .sleep _ _ => inferInstanceAs (Decidable (_ ≠ _))
  | .preempt _ _ _ => inferInstanceAs (Decidable (_ ∧ _))
  | .terminateTask _ _ => inferInstanceAs (Decidable (∀ i < _, _))
  | .createTask _ _ => inferInstanceAs (Decidable True)
  | .start | .startAp _ | .yield _ | .preemptEntry _ | .switchCleanup _ | .switchFree _
  | .switchReturn _ | .readContext _ | .exec _ _ _ | .detach _ | .beginExit _ | .cleanupStart _
  | .cleanupFree _ | .cleanupDone _ | .exitTask _ => inferInstanceAs (Decidable True)

theorem TeardownOk.sleepsAlive {k : Kernel} {op : KernelOp} {sop : SchedOp}
    (h : TeardownOk k op) (hsec : sectionOf op = some sop) : SleepsAlive k.smp sop := by
  cases op
  all_goals simp only [sectionOf, Option.some.injEq, reduceCtorEq] at hsec
  all_goals subst hsec
  all_goals first | exact h | trivial

/-- In its own exit, but not yet in `cleanup_process_context`. -/
theorem pending_of_not_exitStarted {k : Kernel} {i : Nat} {x : Ctx}
    (hdata : k.contextOf i = some x) (h : exitStarted k i = false) {st : Stage}
    (hpc : k.pc i = .cleanup st x .exit) : st = .pending := by
  cases st with
  | pending => rfl
  | started => simp [exitStarted, hpc, hdata] at h
  | freed => simp [exitStarted, hpc, hdata] at h

/-- The invariant. -/
structure TeardownInv (k : Kernel) : Prop where
  smp : SmpInv k.smp
  books : Books k
  gone : ∀ i < k.smp.sched.taskCount, Gone (k.smp.sched.tasks i) → k.contextOf i = none
  boot : k.smp.sched.schedulerActive = false → (∀ i, k.pc i = .normal) ∧ ∀ c, k.cpu c = .running
  arriving : ∀ c old cl n, k.cpu c = .switching old cl (.task n) →
    n < k.smp.sched.taskCount ∧ (k.smp.sched.tasks n).currentCpu = some c ∧ exitFreed k n = false
  clean : k.staleRead = false

/-! ### A slot that is read is live -/

/-- The context of a task that is not gone and has not freed it in its own exit. -/
theorem Books.not_stale {k : Kernel} (b : Books k) {i : Nat}
    (hlt : i < k.smp.sched.taskCount) (halive : ¬ Gone (k.smp.sched.tasks i))
    (hfreed : exitFreed k i = false) : k.stale i = false := by
  unfold Kernel.stale
  cases hdata : k.contextOf i with
  | none => rfl
  | some x =>
    simp only [Option.any_some]
    by_cases hexit : InExit k i x
    · obtain ⟨st, hpc⟩ := hexit
      refine b.live _ _ _ (.task hlt hpc halive) fun hst => ?_
      subst hst
      simp [exitFreed, hpc, hdata] at hfreed
    · exact b.live _ _ _ (.slot hlt hdata hexit) (by simp)

/-- A context that a party outside its exit can take is held by its slot or by its task. -/
theorem refers_of_contextOf {k : Kernel} {i : Nat} {x : Ctx}
    (hlt : i < k.smp.sched.taskCount) (hdata : k.contextOf i = some x)
    (halive : ¬ Gone (k.smp.sched.tasks i)) (hok : exitStarted k i = false) :
    Refers k (.slot i) x .pending ∨ Refers k (.task i) x .pending := by
  by_cases hexit : InExit k i x
  · obtain ⟨st, hpc⟩ := hexit
    obtain rfl := pending_of_not_exitStarted hdata hok hpc
    exact Or.inr (.task hlt hpc halive)
  · exact Or.inl (.slot hlt hdata hexit)

/-! ### The current task -/

/-- What it means to be the current task of a CPU outside `preempt`. -/
theorem TeardownInv.current {k : Kernel} (h : TeardownInv k) {c : ApicId} {i : Nat}
    (hcur : k.current c = some i) :
    k.cpu c = .running ∧ i < k.smp.sched.taskCount ∧ k.smp.sched.perCpuTask c = i ∧
      (k.smp.sched.tasks i).currentCpu = some c ∧ k.smp.sched.schedulerActive = true := by
  unfold Kernel.current at hcur
  split at hcur
  · rename_i hrun
    obtain rfl := Option.some.inj hcur
    have hlt : k.smp.sched.perCpuTask c < k.smp.sched.taskCount := by
      simpa [Scheduler.runsTask] using hrun.2
    exact ⟨hrun.1, hlt, rfl, (h.smp.sched.own _ hlt c).mp rfl, h.smp.sched.active hlt⟩
  · simp at hcur

theorem not_gone_of_currentCpu {t : Task} {c : ApicId} (h : t.currentCpu = some c) : ¬ Gone t :=
  fun hgone => absurd (hgone.2.symm.trans h) (by simp)

/-! ### The parts of the invariant that follow from the inversions -/

theorem slotStep_gone_userData {m : Smp} {op : SchedOp} {i : Nat} {t u : Task}
    (h : SlotStep m op i t u) (ht : Gone t → t.userData = none) (hu : Gone u) :
    u.userData = none := by
  obtain ⟨hterm, hcur⟩ := hu
  cases h with
  | quiet hw =>
    rw [hw.userData]
    refine ht ⟨?_, hw.current ▸ hcur⟩
    rcases hw.state with hsame | ⟨-, hready⟩
    · exact hsame ▸ hterm
    · exact absurd (hready.symm.trans hterm) (by simp)
  | released hcpu hw hr =>
    rw [hr.state, releasedState_eq_terminated] at hterm
    rw [hr.userData, if_pos hterm]
  | dispatched hop hst haff hid hrun => exact absurd (hrun.symm.trans hterm) (by simp)
  | slept hcpu n => exact absurd hterm (by simp)
  | terminated hid h => rw [h.userData, if_pos (h.current ▸ hcur)]
  | exited hcpu hop => rfl
  | replaced hcpu hst => exact absurd hterm hst

theorem slotStep_gone {m : Smp} {op : SchedOp} {i : Nat} {u : Task}
    (h : SlotStep m op i (m.sched.tasks i) u) (hok : SleepsAlive m op)
    (ht : Gone (m.sched.tasks i)) : Gone u := by
  refine ⟨h.keeps_terminated rfl hok ht.1, ?_⟩
  obtain ⟨hterm, hcur⟩ := ht
  generalize m.sched.tasks i = t at *
  cases h with
  | quiet hw => exact hw.current ▸ hcur
  | released hcpu hw hr => exact hr.current
  | dispatched hop hst => exact absurd hterm hst
  | slept hcpu n => exact hcur
  | terminated hid h => exact h.current ▸ hcur
  | exited hcpu hop => exact hcur
  | replaced hcpu hst => exact hcur

/-- Only `preempt` on its own CPU takes a task off the CPU. -/
theorem slotStep_currentCpu {m : Smp} {op : SchedOp} {i : Nat} {t u : Task} {c : ApicId}
    (h : SlotStep m op i t u) (hcur : t.currentCpu = some c)
    (hpinned : t.state ≠ .terminated → t.affinityCpu = some c)
    (hown : ∀ d, m.sched.perCpuTask d = i → d = c) (hop : ∀ b regs, op ≠ .preempt c b regs) :
    u.currentCpu = some c := by
  cases h with
  | quiet hw => exact hw.current.trans hcur
  | released hcpu hw hr => exact absurd (by rw [hown _ hcpu]) (hop _ _)
  | dispatched _ hst haff _ _ _ hcur' _ =>
    rename_i d
    rw [hpinned hst] at haff
    rcases haff with habs | heq
    · exact absurd habs (by simp)
    · exact hcur'.trans heq.symm
  | slept hcpu n => exact hcur
  | terminated hid hterm => exact hterm.current.trans hcur
  | exited hcpu hop => exact hcur
  | replaced hcpu hst => exact hcur

theorem TeardownInv.gone_step {k k' : Kernel} {op : KernelOp} (h : TeardownInv k)
    (hstep : k.next op = some k') :
    ∀ i < k'.smp.sched.taskCount, Gone (k'.smp.sched.tasks i) → k'.contextOf i = none := by
  intro i hi hgone
  unfold Kernel.contextOf
  rcases next_smp hstep with ⟨-, hsame⟩ | ⟨sop, -, hsop⟩
  · rw [hsame] at hi hgone ⊢
    exact h.gone i hi hgone
  · cases tableStep_of_next h.smp hsop hi with
    | created name userData hop hsome hslot htask =>
      rw [htask] at hgone
      exact absurd hgone.1 (by simp [Scheduler.newTask])
    | kept hlt hslot => exact slotStep_gone_userData hslot (h.gone i hlt) hgone

theorem TeardownInv.boot_step {k k' : Kernel} {op : KernelOp} (h : TeardownInv k)
    (hstep : k.next op = some k') (hboot : k'.smp.sched.schedulerActive = false) :
    (∀ i, k'.pc i = .normal) ∧ ∀ c, k'.cpu c = .running := by
  have hbefore : k.smp.sched.schedulerActive = false := by
    by_contra hact
    rcases next_smp hstep with ⟨-, hsame⟩ | ⟨sop, -, hsop⟩
    · rw [hsame] at hboot
      exact hact hboot
    · have := (globalStep_of_next h.smp hsop).active (by simpa using hact)
      exact absurd (this.symm.trans hboot) (by simp)
  obtain ⟨hpc, hcpu⟩ := h.boot hbefore
  refine ⟨fun i => ?_, fun c => ?_⟩
  · cases pcStep_of_next hstep i with
    | same hsame => exact hsame.trans (hpc i)
    | own c hcur =>
      obtain ⟨-, -, -, -, hact⟩ := h.current hcur
      exact absurd (hact.symm.trans hbefore) (by simp)
    | created name userData hop hnew hslot hnormal => exact hnormal
  · cases phaseStep_of_next hstep c with
    | same hsame => exact hsame.trans (hcpu c)
    | entered b regs hop hrun hsched hnew =>
      have hact := ((Bool.and_eq_true _ _).mp hsched).1
      exact absurd (hact.symm.trans hbefore) (by simp)
    | within old cl cl' sw hold => exact absurd ((hcpu c).symm.trans hold) (by simp)
    | left old sw hop hold hnew => exact hnew

theorem exitFreed_eq_false_iff {k : Kernel} {i : Nat} :
    exitFreed k i = false ↔ ∀ x, k.pc i = .cleanup .freed x .exit → k.contextOf i ≠ some x := by
  unfold exitFreed
  constructor
  · intro h x hpc hdata
    simp [hpc, hdata] at h
  · intro h
    split
    · rename_i x hpc
      simpa using h x hpc
    · rfl

/-- A context that a slot has after a step was there before, unless the step is `exec` on
the CPU that runs the slot, or created the task. -/
theorem TeardownInv.contextOf_before {k k' : Kernel} {op : KernelOp} (h : TeardownInv k)
    (hstep : k.next op = some k') {i : Nat} {x : Ctx} (hi : i < k'.smp.sched.taskCount)
    (hdata : k'.contextOf i = some x) :
    (i < k.smp.sched.taskCount ∧ k.contextOf i = some x) ∨
      (∃ c name ctx, op = .exec c name ctx ∧ k.current c = some i) ∨
      (∃ name userData, op = .createTask name userData ∧
        (k.smp.sched.createTask name userData).1.isSome = true ∧
        i = k.smp.sched.findAvailableTaskSlot) := by
  unfold Kernel.contextOf at hdata ⊢
  rcases next_smp hstep with ⟨-, hsame⟩ | ⟨sop, hsec, hsop⟩
  · rw [hsame] at hi hdata
    exact Or.inl ⟨hi, hdata⟩
  · cases tableStep_of_next h.smp hsop hi with
    | created name userData hop hsome hslot htask =>
      obtain rfl := sectionOf_eq_createTask (hsec.trans (congrArg some hop))
      exact Or.inr (Or.inr ⟨name, userData, rfl, by rw [hsome]; rfl, hslot⟩)
    | kept hlt hslot =>
      rcases hslot.userData_some hdata with hbefore | ⟨c, name, hop, hcpu⟩
      · exact Or.inl ⟨hlt, hbefore⟩
      · rw [hop] at hsec
        obtain ⟨ctx, rfl⟩ := sectionOf_eq_replace hsec
        exact Or.inr (Or.inl ⟨c, name, ctx, rfl, hcpu ▸ current_of_exec hstep⟩)

/-- A task that a CPU has dispatched and is switching to stays on that CPU. -/
theorem TeardownInv.arriving_step {k k' : Kernel} {op : KernelOp} (h : TeardownInv k)
    (hok : TeardownOk k op) (hstep : k.next op = some k') :
    ∀ c old cl n, k'.cpu c = .switching old cl (.task n) →
      n < k'.smp.sched.taskCount ∧ (k'.smp.sched.tasks n).currentCpu = some c ∧
        exitFreed k' n = false := by
  intro c old cl n hcpu
  have hinv' : SmpInv k'.smp := by
    rcases next_smp hstep with ⟨-, hsame⟩ | ⟨sop, hsec, hsop⟩
    · exact hsame ▸ h.smp
    · exact h.smp.step (hok.sleepsAlive hsec) hsop
  have hkeep : ∀ old₀ cl₀, k.cpu c = .switching old₀ cl₀ (.task n) →
      n < k'.smp.sched.taskCount ∧ (k'.smp.sched.tasks n).currentCpu = some c ∧
        exitFreed k' n = false := by
    intro old₀ cl₀ hold
    obtain ⟨hlt, hcur, hfreed⟩ := h.arriving c old₀ cl₀ n hold
    -- The CPU is in `preempt`, so it executes no task and makes no section.
    have hnot : ∀ d, k.current d ≠ some n := by
      intro d hd
      obtain ⟨hrun, -, -, hcur', -⟩ := h.current hd
      obtain rfl : c = d := Option.some.inj (hcur.symm.trans hcur')
      exact absurd (hrun.symm.trans hold) (by simp)
    have hslot : n ≠ k.smp.sched.findAvailableTaskSlot ∨
        ¬ k.smp.sched.findAvailableTaskSlot < MAX_TASKS := by
      by_contra hno
      simp only [not_or, ne_eq, not_not] at hno
      rcases findAvailableTaskSlot_cases hno.2 with ⟨-, -, hnone⟩ | hnew
      · rw [← hno.1, hcur] at hnone
        exact absurd hnone (by simp)
      · omega
    have hstay : n < k'.smp.sched.taskCount ∧ (k'.smp.sched.tasks n).currentCpu = some c := by
      rcases next_smp hstep with ⟨-, hsame⟩ | ⟨sop, hsec, hsop⟩
      · rw [hsame]
        exact ⟨hlt, hcur⟩
      · have hlt' : n < k'.smp.sched.taskCount :=
          lt_of_lt_of_le hlt (globalStep_of_next h.smp hsop).count
        refine ⟨hlt', ?_⟩
        cases tableStep_of_next h.smp hsop hlt' with
        | created name userData hop hsome hslot' htask =>
          rcases hslot with hne | hfull
          · exact absurd hslot' hne
          · simp [Scheduler.createTask, Nat.not_lt.mp hfull] at hsome
        | kept _ hs =>
          refine slotStep_currentCpu hs hcur
            (fun hst => (h.smp.sched.pinned n hlt c hcur hst).1) (fun d hd => ?_) ?_
          · have hcur' := (h.smp.sched.own n hlt d).mp hd
            exact Option.some.inj (hcur'.symm.trans hcur)
          · intro b regs hop
            rw [hop] at hsec
            obtain rfl := sectionOf_eq_preempt hsec
            exact absurd ((next_preempt hstep).1.symm.trans hold) (by simp)
    refine ⟨hstay.1, hstay.2, exitFreed_eq_false_iff.mpr fun x hpc hdata => ?_⟩
    have hpc' : k.pc n = .cleanup .freed x .exit := by
      cases pcStep_of_next hstep n with
      | same hsame => exact hsame ▸ hpc
      | own d hd => exact absurd hd (hnot d)
      | created name userData hop hnew hslot' hnormal =>
        exact absurd (hnormal.symm.trans hpc) (by simp)
    rcases h.contextOf_before hstep hstay.1 hdata with
      ⟨-, hbefore⟩ | ⟨d, _, _, -, hd⟩ | ⟨_, _, -, hnew, hs⟩
    · exact exitFreed_eq_false_iff.mp hfreed x hpc' hbefore
    · exact absurd hd (hnot d)
    · rcases hslot with hne | hfull
      · exact absurd hs hne
      · simp [Scheduler.createTask, Nat.not_lt.mp hfull] at hnew
  cases phaseStep_of_next hstep c with
  | same hsame => exact hkeep old cl (hsame ▸ hcpu)
  | entered b regs hop hrun hsched hnew =>
    subst hop
    rw [hnew, CpuPhase.switching.injEq] at hcpu
    obtain ⟨-, -, hnext⟩ := hcpu
    obtain ⟨-, rfl⟩ := ((next_preempt hstep).2.resolve_right fun hno =>
      absurd (hsched.symm.trans hno.1) (by simp))
    obtain ⟨hlt, hcur⟩ := preemptLocked_task h.smp.sched.count hnext
    have hlt' : n < (k.smp.sched.preemptLocked c b regs).2.2.taskCount := by
      rw [preemptLocked_taskCount h.smp.sched.count]
      exact hlt
    refine ⟨hlt', hcur, exitFreed_eq_false_iff.mpr fun x hpc hdata => ?_⟩
    have hcond := hok.2
    rw [hnext] at hcond
    rcases h.contextOf_before hstep hlt' hdata with
      ⟨-, hbefore⟩ | ⟨_, _, _, hop, -⟩ | ⟨_, _, hop, -, -⟩
    · exact exitFreed_eq_false_iff.mp hcond x hpc hbefore
    · exact absurd hop (by simp)
    · exact absurd hop (by simp)
  | within old₀ cl₀ cl₁ sw hold hnew hsec =>
    rw [hnew, CpuPhase.switching.injEq] at hcpu
    obtain ⟨-, -, rfl⟩ := hcpu
    exact hkeep old₀ cl₀ hold
  | left old₀ sw hop hold hnew => exact absurd (hnew.symm.trans hcpu) (by simp)

/-! ### The books -/

/-- A section that neither creates a task nor replaces a context gives nobody a context. -/
theorem refers_section {k : Kernel} {m : Smp} {sop : SchedOp} (h : SmpInv k.smp)
    (hok : SleepsAlive k.smp sop) (hm : k.smp.next sop = some m)
    (hcreate : ∀ name userData, sop = .createTask name userData →
      (k.smp.sched.createTask name userData).1.isSome = false)
    (hreplace : ∀ c name userData, sop ≠ .replaceCurrentTaskContext c name userData)
    {hd : Holder} {x : Ctx} {st : Stage} (hr : Refers { k with smp := m } hd x st) :
    Refers k hd x st := by
  cases hr with
  | slot hlt hdata hexit =>
    cases tableStep_of_next h hm hlt with
    | created name userData hop hsome =>
      exact absurd (hcreate name userData hop) (by simp [hsome])
    | kept hlt' hslot =>
      rcases hslot.userData_some hdata with hbefore | ⟨c, name, hop, -⟩
      · exact .slot hlt' hbefore hexit
      · exact absurd hop (hreplace c name _)
  | task hlt hpc halive =>
    cases tableStep_of_next h hm hlt with
    | created name userData hop hsome =>
      exact absurd (hcreate name userData hop) (by simp [hsome])
    | kept hlt' hslot =>
      exact .task hlt' hpc fun hgone => halive (slotStep_gone hslot hok hgone)
  | cpu hcpu => exact .cpu hcpu

/-- `preempt` hands the context of a terminated task to its CPU. -/
theorem TeardownInv.books_preempt {k k' : Kernel} {c : ApicId} {b : Bool} {regs : Nat}
    (h : TeardownInv k) (hok : TeardownOk k (.preempt c b regs))
    (hstep : k.next (.preempt c b regs) = some k') : Books k' := by
  obtain ⟨hrun, ⟨hsched, rfl⟩ | ⟨-, rfl⟩⟩ := next_preempt hstep
  · have hsection : ∀ {hd x st}, Refers { k with smp := { k.smp with
        sched := (k.smp.sched.preemptLocked c b regs).2.2 } } hd x st → Refers k hd x st := by
      intro hd x st hr
      rcases next_smp hstep with ⟨habs, -⟩ | ⟨sop, hsec, hsop⟩
      · exact absurd habs (by simp [sectionOf])
      · obtain rfl := Option.some.inj hsec
        exact refers_section h.smp (hok.sleepsAlive rfl) hsop (by simp) (by simp) hr
    generalize htaken : (k.smp.sched.preemptLocked c b regs).1 = taken
    -- Behind the lock the CPU itself refers to what it took, the others as the section left it.
    have hcases : ∀ hd x st, Refers (({ k with smp := { k.smp with
          sched := (k.smp.sched.preemptLocked c b regs).2.2 } }).enterSwitch c
          (k.smp.sched.perCpuTask c) taken (k.smp.sched.preemptLocked c b regs).2.1) hd x st →
        (hd = .cpu c ∧ taken = some x ∧ st = .pending) ∨
          (hd ≠ .cpu c ∧ Refers { k with smp := { k.smp with
            sched := (k.smp.sched.preemptLocked c b regs).2.2 } } hd x st) := by
      intro hd x st hr
      cases hr with
      | slot hlt hdata hexit => exact Or.inr ⟨by simp, .slot hlt hdata hexit⟩
      | task hlt hpc halive => exact Or.inr ⟨by simp, .task hlt hpc halive⟩
      | cpu hcpu =>
        rename_i d old sw
        by_cases hdc : d = c
        · subst hdc
          simp only [Kernel.enterSwitch, Function.update_self, CpuPhase.switching.injEq,
            Option.map_eq_some_iff, Prod.mk.injEq] at hcpu
          obtain ⟨-, ⟨y, hy, rfl, rfl⟩, -⟩ := hcpu
          exact Or.inl ⟨rfl, hy, rfl⟩
        · have hcpu' : k.cpu d = .switching old (some (st, x)) sw := by
            simpa [Kernel.enterSwitch, hdc] using hcpu
          exact Or.inr ⟨by simpa using hdc, .cpu hcpu'⟩
    cases taken with
    | none =>
      refine h.books.shrink (fun hd x st hr => ?_) rfl rfl (fun _ hu => hu)
      rcases hcases hd x st hr with ⟨-, habs, -⟩ | ⟨-, hold⟩
      · exact absurd habs (by simp)
      · exact hsection hold
    | some x =>
      rw [preemptLocked_taken h.smp.sched.count] at htaken
      split at htaken
      · rename_i hcond
        obtain ⟨hlt, hterm⟩ := hcond
        have hcur := (h.smp.sched.own _ hlt c).mp rfl
        obtain ⟨hterm', hcur', hdata'⟩ :=
          preemptLocked_terminated h.smp.sched.count b regs hlt hterm
        -- Neither the slot nor the task it was taken from can reach it any more.
        have hgone : ∀ y st, ¬ Refers { k with smp := { k.smp with
            sched := (k.smp.sched.preemptLocked c b regs).2.2 } }
            (.slot (k.smp.sched.perCpuTask c)) y st := by
          intro y st hr
          cases hr with
          | slot _ hdata _ => exact absurd (hdata'.symm.trans hdata) (by simp)
        have hgone' : ∀ y st, ¬ Refers { k with smp := { k.smp with
            sched := (k.smp.sched.preemptLocked c b regs).2.2 } }
            (.task (k.smp.sched.perCpuTask c)) y st := by
          intro y st hr
          cases hr with
          | task _ _ halive => exact halive ⟨hterm', hcur'⟩
        have hfrom := refers_of_contextOf hlt htaken (not_gone_of_currentCpu hcur)
          (hok.1 hterm)
        rcases hfrom with hfrom | hfrom
        all_goals
          refine h.books.move (g := .cpu c) hfrom (fun hd y st hr => ?_) rfl rfl rfl
          rcases hcases hd y st hr with ⟨rfl, hy, rfl⟩ | ⟨-, hold⟩
          · exact Or.inl ⟨rfl, (Option.some.inj hy).symm, rfl⟩
          · refine Or.inr ⟨hsection hold, fun hboth => ?_⟩
            obtain ⟨rfl, -⟩ := hboth
            first | exact hgone _ _ hold | exact hgone' _ _ hold
      · exact absurd htaken (by simp)
  · exact h.books

/-- `terminate_task` hands the context of a task that is off the CPU to its caller. -/
theorem TeardownInv.books_terminateTask {k k' : Kernel} {c : ApicId} {id : Nat}
    (h : TeardownInv k) (hok : TeardownOk k (.terminateTask c id))
    (hstep : k.next (.terminateTask c id) = some k') : Books k' := by
  have hsection : ∀ {m hd x st}, k.smp.next (.terminateTask id) = some m →
      Refers { k with smp := m } hd x st → Refers k hd x st := by
    intro m hd x st hm hr
    exact refers_section h.smp (hok.sleepsAlive rfl) hm (by simp) (by simp) hr
  cases kernelStep_of_next hstep with
  | terminateTask _ _ _ m _ hm =>
    exact h.books.shrink (fun hd x st => hsection hm) rfl rfl (fun _ hu => hu)
  | terminateTake _ _ i x m hi hm hsome =>
    obtain ⟨hcurrent, hnormal⟩ := current_of_inProgram hi
    obtain ⟨-, hilt, -, hicpu, -⟩ := h.current hcurrent
    obtain ⟨j, hj, -, hid, hjcur, hx, hout⟩ := terminateTask_taken hsome
    obtain ⟨hterm, -⟩ := terminated_spec (k.smp.sched.tasks j)
    have hm' := hm
    obtain rfl := Option.some.inj hm'
    have hij : i ≠ j := by
      intro heq
      rw [heq, hjcur] at hicpu
      exact absurd hicpu (by simp)
    -- The victim's slot and task can reach nothing after the section.
    have hslot : ∀ y st, ¬ Refers { k with smp := { k.smp with
        sched := (k.smp.sched.terminateTask id).2.2 } } (.slot j) y st := by
      intro y st hr
      cases hr with
      | slot _ hdata _ =>
        simp only [Kernel.contextOf, hout, setTask_same, hterm.userData, hjcur, if_true] at hdata
        exact absurd hdata (by simp)
    have htask : ∀ y st, ¬ Refers { k with smp := { k.smp with
        sched := (k.smp.sched.terminateTask id).2.2 } } (.task j) y st := by
      intro y st hr
      cases hr with
      | task _ _ halive =>
        refine halive ?_
        simp only [hout, setTask_same]
        exact ⟨hterm.state, hterm.current.trans hjcur⟩
    have hjalive : ¬ Gone (k.smp.sched.tasks j) := by
      intro hgone
      have := h.gone j hj hgone
      unfold Kernel.contextOf at this
      rw [hx] at this
      exact absurd this (by simp)
    have hfrom := refers_of_contextOf hj hx hjalive (hok j hj hid hjcur)
    have hrefs : ∀ hd y st, Refers (Kernel.goto { k with smp := { k.smp with
        sched := (k.smp.sched.terminateTask id).2.2 } } i
          (.cleanup .pending x .resume)) hd y st →
        (hd = .task i ∧ y = x ∧ st = .pending) ∨
        (hd ≠ .slot j ∧ hd ≠ .task j ∧ Refers k hd y st) := by
      intro hd y st hr
      rcases refers_goto hr with ⟨rfl, -, -, after, hp⟩ | ⟨rfl, rfl, hlt, hdata, -⟩ |
          ⟨-, -, hold⟩
      · simp only [TaskPc.cleanup.injEq] at hp
        exact Or.inl ⟨rfl, hp.2.1.symm, hp.1.symm⟩
      · refine Or.inr ⟨by simpa using hij, by simp, hsection hm (.slot hlt hdata ?_)⟩
        rintro ⟨s, hs⟩
        exact absurd (hnormal.symm.trans hs) (by simp)
      · refine Or.inr ⟨?_, ?_, hsection hm hold⟩
        · rintro rfl
          exact hslot y st hold
        · rintro rfl
          exact htask y st hold
    rcases hfrom with hfrom | hfrom
    · refine h.books.move (g := .task i) hfrom (fun hd y st hr => ?_) rfl rfl rfl
      exact (hrefs hd y st hr).imp (fun hnew => hnew) fun ho => ⟨ho.2.2, fun hb => ho.1 hb.1⟩
    · refine h.books.move (g := .task i) hfrom (fun hd y st hr => ?_) rfl rfl rfl
      exact (hrefs hd y st hr).imp (fun hnew => hnew) fun ho => ⟨ho.2.2, fun hb => ho.2.1 hb.1⟩

/-- A task in its program starts its own exit, or a fault takes its context: the context
passes from the slot to the task. -/
theorem Books.beginExit {k k' : Kernel} (b : Books k) {i : Nat} {x : Ctx}
    (hilt : i < k.smp.sched.taskCount) (hnormal : k.pc i = .normal)
    (hdata : k.contextOf i = some x)
    (hsub : ∀ hd y st, Refers k' hd y st →
      Refers (k.goto i (.cleanup .pending x .exit)) hd y st)
    (hstarted : k'.started = k.started) (hfreed : k'.freed = k.freed)
    (hused : k'.used = k.used) : Books k' := by
  have hexit : ¬ InExit k i x := by
    rintro ⟨s, hs⟩
    exact absurd (hnormal.symm.trans hs) (by simp)
  refine b.move (g := .task i) (.slot hilt hdata hexit) (fun hd y st hr => ?_)
    hstarted hfreed hused
  rcases refers_goto (hsub hd y st hr) with ⟨rfl, -, -, after, hp⟩ |
      ⟨rfl, rfl, -, hdata', hp⟩ | ⟨-, hne, hold⟩
  · simp only [TaskPc.cleanup.injEq] at hp
    exact Or.inl ⟨rfl, hp.2.1.symm, hp.1.symm⟩
  · obtain rfl : x = y := Option.some.inj (hdata.symm.trans hdata')
    exact absurd rfl (hp .pending)
  · exact Or.inr ⟨hold, fun hb => hne hb.1⟩

/-- The current task goes on in its cleanup. -/
theorem Books.cleanupStep {k k' : Kernel} (b : Books k) {i : Nat} {x : Ctx} {st st' : Stage}
    {after : After} (hilt : i < k.smp.sched.taskCount) (halive : ¬ Gone (k.smp.sched.tasks i))
    (hpc : k.pc i = .cleanup st x after)
    (hsub : ∀ hd y s, Refers k' hd y s → Refers (k.goto i (.cleanup st' x after)) hd y s)
    (hst : st = .pending ∧ st' = .started ∧
        k'.started = Function.update k.started x (k.started x + 1) ∧ k'.freed = k.freed ∨
      st = .started ∧ st' = .freed ∧ k'.started = k.started ∧
        k'.freed = Function.update k.freed x true)
    (hused : k'.used = k.used) : Books k' := by
  refine b.advance (.task hilt hpc halive) (fun hd y s hr => ?_) hst hused
  rcases refers_goto (hsub hd y s hr) with ⟨rfl, -, -, after', hp⟩ |
      ⟨rfl, rfl, hlt, hdata, hp⟩ | ⟨hne, -, hold⟩
  · simp only [TaskPc.cleanup.injEq] at hp
    exact Or.inl ⟨rfl, hp.2.1.symm, hp.1.symm⟩
  · refine Or.inr ⟨by simp, .slot hlt hdata ?_⟩
    rintro ⟨s', hs'⟩
    rw [hpc, TaskPc.cleanup.injEq] at hs'
    obtain ⟨-, rfl, rfl⟩ := hs'
    exact hp st' rfl
  · exact Or.inr ⟨hne, hold⟩

/-- The task leaves its cleanup behind. -/
theorem refers_of_goto_done {k : Kernel} {i : Nat} {p : TaskPc}
    (hp : ∀ s x after, p ≠ .cleanup s x after)
    (hslot : ∀ x, k.contextOf i = some x → ¬ InExit k i x) {hd : Holder} {x : Ctx} {st : Stage}
    (hr : Refers (k.goto i p) hd x st) : Refers k hd x st := by
  rcases refers_goto hr with ⟨-, -, -, after, hp'⟩ | ⟨rfl, rfl, hlt, hdata, -⟩ | ⟨-, -, hold⟩
  · exact absurd hp' (hp st x after)
  · exact .slot hlt hdata (hslot x hdata)
  · exact hold

/-- A fault takes the context away from the current task, which cleans it up. -/
theorem TeardownInv.books_detach {k k' : Kernel} {c : ApicId} (h : TeardownInv k)
    (hok : TeardownOk k (.detach c)) (hstep : k.next (.detach c) = some k') : Books k' := by
  -- The section and the move of the task's point commute.
  have hsection : ∀ {m i p hd x st}, k.smp.next (.detachCurrentTask c) = some m →
      Refers (Kernel.goto { k with smp := m } i p) hd x st → Refers (k.goto i p) hd x st := by
    intro m i p hd x st hm hr
    exact refers_section (k := k.goto i p) h.smp (hok.sleepsAlive rfl) hm (by simp) (by simp) hr
  cases kernelStep_of_next hstep with
  | detach _ i x m hi hm hdata =>
    obtain ⟨hcurrent, hnormal⟩ := current_of_inProgram hi
    obtain ⟨-, hilt, -, -, -⟩ := h.current hcurrent
    exact h.books.beginExit hilt hnormal hdata (fun hd y st hr => hsection hm hr) rfl rfl rfl
  | detachBare _ i m hi hm hdata =>
    refine h.books.shrink (fun hd x st hr => ?_) rfl rfl (fun _ hu => hu)
    exact refers_of_goto_done (by simp) (by simp [hdata]) (hsection hm hr)

/-- `exit_task` drops a pointer whose context is torn down. -/
theorem TeardownInv.books_exitTask {k k' : Kernel} {c : ApicId} (h : TeardownInv k)
    (hok : TeardownOk k (.exitTask c)) (hstep : k.next (.exitTask c) = some k') : Books k' := by
  cases kernelStep_of_next hstep with
  | exitTask _ i m hcurrent _ hm =>
    obtain ⟨-, -, hcpu, -, -⟩ := h.current hcurrent
    refine h.books.shrink (fun hd x st hr => ?_) rfl rfl (fun _ hu => hu)
    have hr' : Refers { k with smp := m } hd x st := by
      refine refers_of_goto_done (by simp) (fun y hy => ?_) hr
      -- `exit_task` has cleared the pointer.
      cases sectionStep_of_next hm with
      | exitTask => simp [Kernel.contextOf, Scheduler.exitTask, hcpu] at hy
    exact refers_section h.smp (hok.sleepsAlive rfl) hm (by simp) (by simp) hr'

/-- A new task brings its context with it. -/
theorem TeardownInv.books_createTask {k k' : Kernel} {name : List UInt8}
    {userData : Option Ctx} (h : TeardownInv k)
    (hok : TeardownOk k (.createTask name userData))
    (hstep : k.next (.createTask name userData) = some k') : Books k' := by
  cases kernelStep_of_next hstep with
  | createTask _ _ m hfresh hm =>
    by_cases hnew : (k.smp.sched.createTask name userData).1.isSome = true
    · simp only [hnew, if_true]
      have htask : m.sched.tasks k.smp.sched.findAvailableTaskSlot =
          k.smp.sched.newTask k.smp.sched.findAvailableTaskSlot name userData := by
        obtain rfl := Option.some.inj hm
        exact createTask_slot hnew
      have hcases : ∀ hd y st, Refers ({ k with
            smp := m
            used := fun x => k.used x || userData == some x
            pc := Function.update k.pc k.smp.sched.findAvailableTaskSlot .normal } : Kernel)
            hd y st →
          (hd = .slot k.smp.sched.findAvailableTaskSlot ∧ userData = some y ∧ st = .pending) ∨
            Refers k hd y st := by
        intro hd y st hr
        cases hr with
        | slot hlt hdata hexit =>
          rename_i j
          by_cases hj : j = k.smp.sched.findAvailableTaskSlot
          · subst hj
            simp only [Kernel.contextOf, htask] at hdata
            exact Or.inl ⟨rfl, hdata, rfl⟩
          · cases tableStep_of_next h.smp hm hlt with
            | created _ _ _ _ hslot => exact absurd hslot hj
            | kept hlt' hs =>
              rcases hs.userData_some hdata with hbefore | ⟨_, _, hop, -⟩
              · refine Or.inr (.slot hlt' hbefore fun hex => hexit ?_)
                obtain ⟨s, hs⟩ := hex
                exact ⟨s, (Function.update_of_ne hj ..).trans hs⟩
              · exact absurd hop (by simp)
        | task hlt hpc halive =>
          rename_i j after
          by_cases hj : j = k.smp.sched.findAvailableTaskSlot
          · simp [hj] at hpc
          · cases tableStep_of_next h.smp hm hlt with
            | created _ _ _ _ hslot => exact absurd hslot hj
            | kept hlt' hs =>
              have hpc' : k.pc j = .cleanup st y after :=
                (Function.update_of_ne hj ..).symm.trans hpc
              exact Or.inr (.task hlt' hpc' fun hgone =>
                halive (slotStep_gone hs (hok.sleepsAlive rfl) hgone))
        | cpu hcpu => exact Or.inr (.cpu hcpu)
      cases userData with
      | none =>
        refine h.books.shrink (fun hd y st hr => ?_) rfl rfl (fun x hx => by simp [hx])
        rcases hcases hd y st hr with ⟨-, habs, -⟩ | hold
        · exact absurd habs (by simp)
        · exact hold
      | some x =>
        refine h.books.attach (x := x) (g := .slot k.smp.sched.findAvailableTaskSlot)
          (by simpa using hfresh) (fun hd y st hr => ?_) rfl rfl (fun y => ?_)
        · rcases hcases hd y st hr with ⟨hslot, hy, hst⟩ | hold
          · exact Or.inl ⟨hslot, (Option.some.inj hy).symm, hst⟩
          · exact Or.inr hold
        · simp [Bool.beq_comm]
    · simp only [hnew]
      refine h.books.shrink (fun hd x st hr => ?_) rfl rfl (fun x hx => by simp [hx])
      refine refers_section h.smp (hok.sleepsAlive rfl) hm (fun name' userData' hop => ?_)
        (by simp) (hr.congr rfl rfl rfl)
      simp only [SchedOp.createTask.injEq] at hop
      obtain ⟨rfl, rfl⟩ := hop
      simpa using hnew

/-- The call that succeeds writes the current slot, -/
theorem replaceCurrentTaskContext_done {s : Scheduler} {c : ApicId} {name : List UInt8}
    {userData : Option Ctx} (h : (s.replaceCurrentTaskContext c name userData).1 = true) :
    (s.replaceCurrentTaskContext c name userData).2 = s.setTask (s.perCpuTask c)
      { s.tasks (s.perCpuTask c) with name := name, userData := userData } :=
  ((replaceCurrentTaskContext_cases s c name userData).resolve_left fun hno =>
    absurd (hno.1.symm.trans h) (by simp)).2.2

/-- and the one that fails nothing. -/
theorem replaceCurrentTaskContext_failed {s : Scheduler} {c : ApicId} {name : List UInt8}
    {userData : Option Ctx} (h : (s.replaceCurrentTaskContext c name userData).1 = false) :
    (s.replaceCurrentTaskContext c name userData).2 = s :=
  ((replaceCurrentTaskContext_cases s c name userData).resolve_right fun hno =>
    absurd (hno.1.symm.trans h) (by simp)).2

/-- Without its context, the slot of the current task refers to nothing. -/
theorem refers_of_setTask {k : Kernel} {i : Nat} {t : Task}
    (hstate : t.state = (k.smp.sched.tasks i).state)
    (hcur : t.currentCpu = (k.smp.sched.tasks i).currentCpu)
    {hd : Holder} {x : Ctx} {st : Stage} (hne : hd ≠ .slot i)
    (hr : Refers { k with smp := { k.smp with sched := k.smp.sched.setTask i t } } hd x st) :
    Refers k hd x st := by
  cases hr with
  | slot hlt hdata hexit =>
    rename_i j
    have hji : j ≠ i := by simpa using hne
    simp only [Kernel.contextOf, setTask_ne _ _ _ _ hji] at hdata
    exact .slot hlt hdata hexit
  | task hlt hpc halive =>
    rename_i j after
    refine .task hlt hpc fun hgone => halive ?_
    by_cases hji : j = i
    · subst hji
      simp only [setTask_same]
      exact ⟨hstate.trans hgone.1, hcur.trans hgone.2⟩
    · simp only [setTask_ne _ _ _ _ hji]
      exact hgone
  | cpu hcpu => exact .cpu hcpu

/-- `exec` attaches the new context and leaves the old one to the task. -/
theorem TeardownInv.books_exec {k k' : Kernel} {c : ApicId} {name : List UInt8} {ctx : Ctx}
    (h : TeardownInv k) (hstep : k.next (.exec c name ctx) = some k') : Books k' := by
  cases kernelStep_of_next hstep with
  | execFailed _ _ _ m hm hfail =>
    obtain rfl := Option.some.inj hm
    rw [replaceCurrentTaskContext_failed hfail]
    refine h.books.shrink (fun hd y st hr => ?_) rfl rfl (fun y hy => by simp [hy])
    exact hr.congr rfl rfl rfl
  | exec _ _ _ i x m hi hdata hfresh hm hdone =>
    obtain ⟨hcurrent, hnormal⟩ := current_of_inProgram hi
    obtain ⟨-, hilt, rfl, -, -⟩ := h.current hcurrent
    obtain rfl := Option.some.inj hm
    rw [replaceCurrentTaskContext_done hdone]
    generalize k.smp.sched.perCpuTask c = i at *
    have hexit : ¬ InExit k i x := by
      rintro ⟨s, hs⟩
      exact absurd (hnormal.symm.trans hs) (by simp)
    -- First the old context passes to the task, then the new one comes in.
    have hmid : Books (Kernel.goto { k with smp := { k.smp with
        sched := k.smp.sched.setTask i { k.smp.sched.tasks i with userData := none } } } i
        (.cleanup .pending x .resume)) := by
      refine h.books.move (g := .task i) (.slot hilt hdata hexit) (fun hd y st hr => ?_)
        rfl rfl rfl
      rcases refers_goto hr with ⟨rfl, -, -, after, hp⟩ | ⟨-, -, -, hdata', -⟩ |
          ⟨-, hne, hold⟩
      · simp only [TaskPc.cleanup.injEq] at hp
        exact Or.inl ⟨rfl, hp.2.1.symm, hp.1.symm⟩
      · simp [Kernel.contextOf] at hdata'
      · exact Or.inr ⟨refers_of_setTask (t := { k.smp.sched.tasks i with userData := none })
          rfl rfl hne hold, fun hb => hne hb.1⟩
    refine hmid.attach (x := ctx) (g := .slot i)
      (show k.used ctx = false by simpa using hfresh) (fun hd y st hr => ?_) rfl rfl
      (fun y => rfl)
    cases hr with
    | slot hlt hdata' hexit' =>
      rename_i j
      by_cases hji : j = i
      · subst hji
        simp only [Kernel.contextOf, Kernel.goto, setTask_same, Option.some.injEq] at hdata'
        exact Or.inl ⟨rfl, hdata'.symm, rfl⟩
      · simp only [Kernel.contextOf, Kernel.goto, setTask_ne _ _ _ _ hji] at hdata'
        refine Or.inr (.slot hlt ?_ hexit')
        simpa [Kernel.contextOf, Kernel.goto, setTask_ne _ _ _ _ hji] using hdata'
    | task hlt hpc halive =>
      rename_i j after
      refine Or.inr (.task hlt hpc fun hgone => halive ?_)
      by_cases hji : j = i
      · subst hji
        simp only [Kernel.goto, setTask_same] at hgone ⊢
        exact hgone
      · simp only [Kernel.goto, setTask_ne _ _ _ _ hji] at hgone ⊢
        exact hgone
    | cpu hcpu => exact Or.inr (.cpu hcpu)

/-- The cleanup that `preempt` makes behind its lock. -/
theorem TeardownInv.books_switch {k k' : Kernel} {c : ApicId} {old : Nat} {sw : Switch}
    {x : Ctx} {st : Stage} (h : TeardownInv k)
    (hcpu : k.cpu c = .switching old (some (st, x)) sw) (st' : Stage)
    (cl : Option (Stage × Ctx)) (hcl : ∀ s y, cl = some (s, y) → s = st' ∧ y = x)
    (hsmp : k'.smp = k.smp) (hpc : k'.pc = k.pc)
    (hcpu' : k'.cpu = Function.update k.cpu c (.switching old cl sw))
    (hst : st = .pending ∧ st' = .started ∧
        k'.started = Function.update k.started x (k.started x + 1) ∧ k'.freed = k.freed ∨
      st = .started ∧ st' = .freed ∧ k'.started = k.started ∧
        k'.freed = Function.update k.freed x true)
    (hused : k'.used = k.used) : Books k' := by
  refine h.books.advance (.cpu hcpu) (fun hd y s hr => ?_) hst hused
  have hr' : Refers { k with cpu := k'.cpu } hd y s := hr.congr hsmp hpc rfl
  cases hr' with
  | slot hlt hdata hexit => exact Or.inr ⟨by simp, .slot hlt hdata hexit⟩
  | task hlt hpc halive => exact Or.inr ⟨by simp, .task hlt hpc halive⟩
  | cpu hd' =>
    rename_i d old' sw'
    by_cases hdc : d = c
    · subst hdc
      simp only [hcpu', Function.update_self, CpuPhase.switching.injEq] at hd'
      obtain ⟨hs, hy⟩ := hcl s y hd'.2.1
      exact Or.inl ⟨rfl, hy, hs⟩
    · simp only [hcpu', Function.update_of_ne hdc] at hd'
      exact Or.inr ⟨by simpa using hdc, .cpu hd'⟩

/-- The books after any step. -/
theorem TeardownInv.books_step {k k' : Kernel} {op : KernelOp} (h : TeardownInv k)
    (hok : TeardownOk k op) (hstep : k.next op = some k') : Books k' := by
  cases kernelStep_of_next hstep with
  | createTask => exact h.books_createTask hok hstep
  | preempt | preemptOff => exact h.books_preempt hok hstep
  | terminateTask | terminateTake => exact h.books_terminateTask hok hstep
  | exec | execFailed => exact h.books_exec hstep
  | detach | detachBare => exact h.books_detach hok hstep
  | exitTask => exact h.books_exitTask hok hstep
  | start _ hm =>
    refine h.books.shrink (fun hd x st hr => ?_) rfl rfl (fun _ hu => hu)
    exact refers_section h.smp (hok.sleepsAlive rfl) hm (by simp) (by simp)
      (hr.congr rfl rfl rfl)
  | startAp _ _ hm | yield _ _ hm | preemptEntry _ _ hm | sleep _ _ _ hm =>
    refine h.books.shrink (fun hd x st hr => ?_) rfl rfl (fun _ hu => hu)
    exact refers_section h.smp (hok.sleepsAlive rfl) hm (by simp) (by simp) hr
  | switchCleanup c old x sw hcpu =>
    exact h.books_switch hcpu .started (some (.started, x)) (by simp) rfl rfl rfl
      (Or.inl ⟨rfl, rfl, rfl, rfl⟩) rfl
  | switchFree c old x sw hcpu =>
    exact h.books_switch hcpu .freed none (by simp) rfl rfl rfl
      (Or.inr ⟨rfl, rfl, rfl, rfl⟩) rfl
  | switchReturn c | switchBack c =>
    refine h.books.shrink (fun hd x st hr => ?_) rfl rfl (fun _ hu => hu)
    have hr' : Refers { k with cpu := Function.update k.cpu c .running } hd x st :=
      hr.congr rfl rfl rfl
    cases hr' with
    | slot hlt hdata hexit => exact .slot hlt hdata hexit
    | task hlt hpc halive => exact .task hlt hpc halive
    | cpu hd' =>
      rename_i d old' sw'
      by_cases hdc : d = c
      · simp [hdc] at hd'
      · simp only [Function.update_of_ne hdc] at hd'
        exact .cpu hd'
  | readContext =>
    exact h.books.shrink (fun hd x st hr => hr.congr rfl rfl rfl) rfl rfl (fun _ hu => hu)
  | beginExit c i x hi hdata =>
    obtain ⟨hcurrent, hnormal⟩ := current_of_inProgram hi
    obtain ⟨-, hilt, -, -, -⟩ := h.current hcurrent
    exact h.books.beginExit hilt hnormal hdata (fun hd y st hr => hr) rfl rfl rfl
  | cleanupStart c i x after hcurrent hpc =>
    obtain ⟨-, hilt, -, hicpu, -⟩ := h.current hcurrent
    exact h.books.cleanupStep hilt (not_gone_of_currentCpu hicpu) hpc
      (fun hd y s hr => hr.congr rfl rfl rfl) (Or.inl ⟨rfl, rfl, rfl, rfl⟩) rfl
  | cleanupFree c i x after hcurrent hpc =>
    obtain ⟨-, hilt, -, hicpu, -⟩ := h.current hcurrent
    exact h.books.cleanupStep hilt (not_gone_of_currentCpu hicpu) hpc
      (fun hd y s hr => hr.congr rfl rfl rfl) (Or.inr ⟨rfl, rfl, rfl, rfl⟩) rfl
  | cleanupDone c i x hcurrent hpc =>
    refine h.books.shrink (fun hd y st hr => ?_) rfl rfl (fun _ hu => hu)
    refine refers_of_goto_done (by simp) (fun y _ => ?_) hr
    rintro ⟨s, hs⟩
    rw [hpc] at hs
    exact absurd hs (by simp)

/-! ### Runs -/

theorem exitFreed_of_normal {k : Kernel} {i : Nat} (h : k.pc i = .normal) :
    exitFreed k i = false := by
  simp [exitFreed, h]

/-- No step reads a freed context. -/
theorem TeardownInv.clean_step {k k' : Kernel} {op : KernelOp} (h : TeardownInv k)
    (hok : TeardownOk k op) (hstep : k.next op = some k') : k'.staleRead = false := by
  have hclean := h.clean
  have hbooks := h.books_step hok hstep
  cases kernelStep_of_next hstep with
  | start m hm =>
    have hinv' : SmpInv m := h.smp.step (hok.sleepsAlive rfl) hm
    cases sectionStep_of_next hm with
    | start _ hboot hs =>
      have hpc := (h.boot hboot).1
      have hbsp := start_runs hs
      have hcur := (hinv'.sched.own _ hbsp _).mp rfl
      simp only [hclean, Bool.false_or]
      exact hbooks.not_stale hbsp (not_gone_of_currentCpu hcur) (exitFreed_of_normal (hpc _))
  | switchReturn c old n hcpu =>
    obtain ⟨hlt, hcur, hfreed⟩ := h.arriving c old none n hcpu
    simp only [hclean, Bool.false_or]
    exact h.books.not_stale hlt (not_gone_of_currentCpu hcur) hfreed
  | readContext c i hi =>
    obtain ⟨hcurrent, hnormal⟩ := current_of_inProgram hi
    obtain ⟨-, hlt, -, hcur, -⟩ := h.current hcurrent
    simp only [hclean, Bool.false_or]
    exact h.books.not_stale hlt (not_gone_of_currentCpu hcur) (exitFreed_of_normal hnormal)
  | createTask | startAp | yield | preemptEntry | preempt | preemptOff | switchCleanup
  | switchFree | switchBack | sleep | terminateTask | terminateTake | exec | execFailed | detach
  | detachBare | beginExit | cleanupStart | cleanupFree | cleanupDone | exitTask => exact hclean

theorem TeardownInv.step {k k' : Kernel} {op : KernelOp} (h : TeardownInv k)
    (hok : TeardownOk k op) (hstep : k.next op = some k') : TeardownInv k' where
  smp := smpInv_of_next h.smp (fun _ => hok.sleepsAlive) hstep
  books := h.books_step hok hstep
  gone := h.gone_step hstep
  boot := h.boot_step hstep
  arriving := h.arriving_step hok hstep
  clean := h.clean_step hok hstep

theorem TeardownInv.init (bsp : ApicId) : TeardownInv (Kernel.boot bsp) := by
  have hnone : ∀ h x st, ¬ Refers (Kernel.boot bsp) h x st := by
    intro h x st hr
    cases hr with
    | slot hlt => exact absurd hlt (Nat.not_lt_zero _)
    | task hlt => exact absurd hlt (Nat.not_lt_zero _)
    | cpu hcpu => exact absurd hcpu (by simp [Kernel.boot])
  refine ⟨smpInv_init bsp, ⟨⟨fun _ => none, fun h x st hr => absurd hr (hnone h x st)⟩, ?_, ?_, ?_,
    fun _ _ => ⟨rfl, rfl⟩, fun _ => Nat.zero_le 1⟩, fun i hi => absurd hi (Nat.not_lt_zero i),
    fun _ => ⟨fun _ => rfl, fun _ => rfl⟩, fun c old cl n hcpu => ?_, rfl⟩
  · exact fun h x st hr => absurd hr (hnone h x st)
  · exact fun h x st hr => absurd hr (hnone h x st)
  · exact fun h x st hr => absurd hr (hnone h x st)
  · exact absurd hcpu (by simp [Kernel.boot])

/-- In every run that meets the condition, `cleanup_process_context` is started at most
once for each context, and no step reads a context through `user_data` after it was
freed. -/
theorem teardown_once_of_run (k : Kernel) (hk : (kernelSystem.restrict TeardownOk).Reachable k) :
    (∀ x, k.started x ≤ 1) ∧ k.staleRead = false := by
  have h : TeardownInv k := by
    refine hk.invariant (fun k hinit => ?_) (fun k op k' _ h hstep => ?_)
    · obtain ⟨bsp, rfl⟩ := hinit
      exact .init bsp
    · exact h.step hstep.1 hstep.2
  exact ⟨h.books.once, h.clean⟩

/-- The steps up to the point where the shell runs on the boot CPU 0 and a process with
context 7 has called `cleanup_process_context` for its own exit on CPU 1. -/
def exitingTrace : List KernelOp :=
  [.createTask [105, 100, 108, 101] none, .createTask [115, 104] none, .start, .startAp 1,
    .createTask [112] (some 7), .preempt 1 true 0, .switchReturn 1, .beginExit 1,
    .cleanupStart 1]

/-- An exit that reaches `exit_task` before the next interrupt meets the condition. -/
theorem teardown_once_of_run_exit :
    ∃ k, TransitionSystem.run (TransitionSystem.guarded Kernel.next TeardownOk) (Kernel.boot 0)
        (exitingTrace ++ [.cleanupFree 1, .exitTask 1, .preempt 1 true 0, .switchReturn 1,
          .terminateTask 0 3]) = some k ∧
      k.started 7 = 1 ∧ k.freed 7 = true ∧ (∀ x, k.started x ≤ 1) ∧ k.staleRead = false := by
  have hrun : (TransitionSystem.run (TransitionSystem.guarded Kernel.next TeardownOk)
      (Kernel.boot 0) (exitingTrace ++ [.cleanupFree 1, .exitTask 1, .preempt 1 true 0,
        .switchReturn 1, .terminateTask 0 3])).any (fun k =>
          k.started 7 == 1 && k.freed 7) = true := by
    with_unfolding_all decide
  obtain ⟨k, hk, hp⟩ := (Option.any_eq_true _ _).mp hrun
  simp only [Bool.and_eq_true, beq_iff_eq] at hp
  exact ⟨k, hk, hp.1, hp.2, teardown_once_of_run k
    (TransitionSystem.reachable_of_guarded_run (.init ⟨0, rfl⟩) hk)⟩

/-- When the shell terminates the process inside its cleanup, the next interrupt of CPU 1
starts a second cleanup of the same context. When the interrupt comes after the context is
freed, CPU 1 reads the freed context to switch back to the process. -/
theorem exit_torn_down_twice :
    (∃ k, kernelSystem.Reachable k ∧ k.started 7 = 2) ∧
      ∃ k, kernelSystem.Reachable k ∧ k.staleRead = true := by
  have hrun : (TransitionSystem.run Kernel.next (Kernel.boot 0) (exitingTrace ++
      [.terminateTask 0 3, .preempt 1 true 0, .switchCleanup 1])).any
        (fun k => k.started 7 == 2) = true := by
    with_unfolding_all decide
  have hrun' : (TransitionSystem.run Kernel.next (Kernel.boot 0) (exitingTrace ++
      [.cleanupFree 1, .preempt 1 true 0, .switchReturn 1])).any
        (fun k => k.staleRead) = true := by
    decide
  obtain ⟨k, hk, hp⟩ := (Option.any_eq_true _ _).mp hrun
  obtain ⟨k', hk', hp'⟩ := (Option.any_eq_true _ _).mp hrun'
  exact ⟨⟨k, TransitionSystem.reachable_of_run (.init ⟨0, rfl⟩) hk, by simpa using hp⟩,
    ⟨k', TransitionSystem.reachable_of_run (.init ⟨0, rfl⟩) hk', hp'⟩⟩

end VKernel.Proofs.Process

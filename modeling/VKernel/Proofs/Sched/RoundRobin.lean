import VKernel.Proofs.Sched.Scheduler
import VKernel.Sched.Dispatches

/-!
# `VKernel.Proofs.Sched.RoundRobin`: no task is passed over

`candidates_eq` is the modular arithmetic of `pick_next_task`: its rounds look at the slots
in the order of `slotsAfter`, for a current slot that is a task, the idle task, none or
gone. `pickNextTask_eq` follows, and with it that a CPU whose ready tasks are a fixed set
takes them as a rotating queue (`rotates_dispatches`).
-/

set_option autoImplicit false

namespace VKernel.Proofs.Sched

open VKernel VKernel.Lib VKernel.Sched

/-! ### The order of the rounds -/

/-- The slots up to `m`, cut at a slot among them. -/
theorem cyclicAfter_slots {m cur : Nat} (hcur : cur ≤ m) :
    cyclicAfter (List.range' 1 m) cur = List.range' (cur + 1) (m - cur) ++ List.range' 1 cur := by
  have hcut : List.range' 1 m = List.range' 1 cur ++ List.range' (cur + 1) (m - cur) := by
    rw [Nat.add_comm cur 1, List.range'_append_1, Nat.add_sub_cancel' hcur]
  have hlow : ∀ y ∈ List.range' 1 cur, y ≤ cur := fun y hy => by
    have := (List.mem_range'_1.mp hy).2
    omega
  have hhigh : ∀ y ∈ List.range' (cur + 1) (m - cur), cur < y := fun y hy =>
    (List.mem_range'_1.mp hy).1
  have hlow₁ : (List.range' 1 cur).filter (cur < ·) = [] :=
    List.filter_eq_nil_iff.mpr fun y hy => by simpa using hlow y hy
  have hlow₂ : (List.range' 1 cur).filter (· ≤ cur) = List.range' 1 cur :=
    List.filter_eq_self.mpr fun y hy => by simpa using hlow y hy
  have hhigh₁ : (List.range' (cur + 1) (m - cur)).filter (cur < ·) =
      List.range' (cur + 1) (m - cur) :=
    List.filter_eq_self.mpr fun y hy => by simpa using hhigh y hy
  have hhigh₂ : (List.range' (cur + 1) (m - cur)).filter (· ≤ cur) = [] :=
    List.filter_eq_nil_iff.mpr fun y hy => by simpa using hhigh y hy
  unfold cyclicAfter
  rw [hcut, List.filter_append, List.filter_append, hlow₁, hlow₂, hhigh₁, hhigh₂,
    List.nil_append, List.append_nil]

/-- Behind all slots the order starts from the first one again. -/
theorem cyclicAfter_slots_past {m cur : Nat} (hcur : m ≤ cur) :
    cyclicAfter (List.range' 1 m) cur = List.range' 1 m := by
  have hle : ∀ y ∈ List.range' 1 m, y ≤ cur := fun y hy => by
    have := (List.mem_range'_1.mp hy).2
    omega
  unfold cyclicAfter
  rw [List.filter_eq_nil_iff.mpr fun y hy => by simpa using hle y hy,
    List.filter_eq_self.mpr fun y hy => by simpa using hle y hy, List.nil_append]

/-- The rounds of `pick_next_task` look at the slots in cyclic order. -/
theorem candidates_eq (s : Scheduler) (cur : Nat) :
    (List.range' 1 (s.taskCount - 1)).map (s.candidate cur) = s.slotsAfter cur := by
  unfold Scheduler.slotsAfter
  by_cases hcur : 0 < cur ∧ cur < s.taskCount
  · rw [cyclicAfter_slots (by omega)]
    refine List.ext_getElem ?_ fun k hk _ => ?_
    · rw [List.length_map, List.length_append, List.length_range', List.length_range',
        List.length_range']
      omega
    · rw [List.length_map, List.length_range'] at hk
      rw [List.getElem_map, List.getElem_range', List.getElem_append]
      unfold Scheduler.candidate
      rw [if_pos hcur]
      simp only [List.length_range', List.getElem_range']
      -- The first rounds stay below the modulus, the others are past it once.
      by_cases hlow : k < s.taskCount - 1 - cur
      · rw [dif_pos hlow, Nat.mod_eq_of_lt (by omega)]
        omega
      · rw [dif_neg hlow, show cur + (1 + 1 * k) - 1
          = (k - (s.taskCount - 1 - cur)) + (s.taskCount - 1) by omega, Nat.add_mod_right,
          Nat.mod_eq_of_lt (by omega)]
        omega
  · -- There is no current slot to start behind.
    have horder : cyclicAfter (List.range' 1 (s.taskCount - 1)) cur
        = List.range' 1 (s.taskCount - 1) := by
      by_cases h0 : cur = 0
      · rw [h0, cyclicAfter_slots (Nat.zero_le _)]
        exact List.append_nil _
      · exact cyclicAfter_slots_past (by omega)
    have hround : ∀ i ∈ List.range' 1 (s.taskCount - 1), s.candidate cur i = i := by
      intro i hi
      obtain ⟨hpos, hlt⟩ := List.mem_range'_1.mp hi
      unfold Scheduler.candidate
      rw [if_neg hcur]
      simp only [Nat.zero_add]
      rw [Nat.mod_eq_of_lt (by omega)]
      omega
    rw [horder, List.map_congr_left hround, List.map_id']

theorem mem_slotsAfter {s : Scheduler} {cur i : Nat} :
    i ∈ s.slotsAfter cur ↔ 0 < i ∧ i < s.taskCount := by
  unfold Scheduler.slotsAfter
  rw [mem_cyclicAfter, List.mem_range'_1]
  omega

/-- `pick_next_task` is round robin. -/
theorem pickNextTask_eq (s : Scheduler) (c : ApicId) (cur : Nat) :
    s.pickNextTask c cur = s.roundRobin c cur := by
  have hrounds : s.pickInRounds c cur = (s.slotsAfter cur).find? (s.eligible c) := by
    unfold Scheduler.pickInRounds
    rw [candidates_eq]
  unfold Scheduler.pickNextTask Scheduler.roundRobin
  rw [hrounds]
  by_cases h0 : s.taskCount = 0
  · -- An empty table has no slot to look at and no idle task.
    have hnone : (s.slotsAfter cur).find? (s.eligible c) = none :=
      List.find?_eq_none.mpr fun i hi => absurd (mem_slotsAfter.mp hi).2 (by omega)
    have hidle : ¬ s.eligible c 0 = true := fun h => by
      have := (eligible_iff.mp h).2.1
      omega
    rw [hnone, if_pos h0]
    exact (if_neg hidle).symm
  · rw [if_neg h0]
    cases hfind : (s.slotsAfter cur).find? (s.eligible c) with
    | some next => rfl
    | none =>
      -- The rounds end with the current slot, so testing it again changes nothing.
      have hcur : ¬ (0 < cur ∧ cur < s.taskCount ∧ s.eligible c cur = true) := fun h =>
        List.find?_eq_none.mp hfind cur (mem_slotsAfter.mpr ⟨h.1, h.2.1⟩) h.2.2
      exact if_neg hcur

theorem mem_readySet {s : Scheduler} {c : ApicId} {i : Nat} :
    i ∈ s.readySet c ↔ 0 < i ∧ s.eligible c i = true := by
  unfold Scheduler.readySet
  rw [Finset.mem_filter, Finset.mem_range]
  exact ⟨And.right, fun h => ⟨(eligible_iff.mp h.2).2.1, h⟩⟩

/-- No slot in the order is eligible when the ready set is empty. -/
theorem find?_slotsAfter_eq_none {s : Scheduler} {c : ApicId} {cur : Nat} :
    (s.slotsAfter cur).find? (s.eligible c) = none ↔ s.readySet c = ∅ := by
  rw [List.find?_eq_none, Finset.eq_empty_iff_forall_notMem]
  constructor
  · intro h i hi
    obtain ⟨hpos, helig⟩ := mem_readySet.mp hi
    exact h i (mem_slotsAfter.mpr ⟨hpos, (eligible_iff.mp helig).2.1⟩) helig
  · exact fun h i hi helig => h i (mem_readySet.mpr ⟨(mem_slotsAfter.mp hi).1, helig⟩)

/-- The idle task is picked only when no other task can run. -/
theorem roundRobin_eq_zero {s : Scheduler} {c : ApicId} {cur : Nat} :
    s.roundRobin c cur = 0 ↔ s.readySet c = ∅ ∧ s.eligible c 0 = true := by
  unfold Scheduler.roundRobin
  cases hfind : (s.slotsAfter cur).find? (s.eligible c) with
  | some next =>
    have hpos := (mem_slotsAfter.mp (List.mem_of_find?_eq_some hfind)).1
    have hset : s.readySet c ≠ ∅ := fun h => by
      rw [find?_slotsAfter_eq_none.mpr h] at hfind
      exact Option.some_ne_none _ hfind.symm
    exact ⟨fun h => absurd h (Nat.ne_of_gt hpos), fun h => absurd h.1 hset⟩
  | none =>
    rw [and_iff_right (find?_slotsAfter_eq_none.mp hfind)]
    by_cases hidle : s.eligible c 0 = true
    · simp [hidle]
    · simp [hidle, SCHED_NO_TASK, MAX_TASKS]

/-- No task is picked only when none can run. -/
theorem roundRobin_eq_none {s : Scheduler} (hcount : s.taskCount ≤ MAX_TASKS) {c : ApicId}
    {cur : Nat} : s.roundRobin c cur = SCHED_NO_TASK ↔ ∀ i, s.eligible c i = false := by
  have hsplit : (∀ i, s.eligible c i = false) ↔
      s.readySet c = ∅ ∧ s.eligible c 0 = false := by
    constructor
    · refine fun h => ⟨Finset.eq_empty_iff_forall_notMem.mpr fun i hi => ?_, h 0⟩
      rw [mem_readySet, h i] at hi
      exact Bool.noConfusion hi.2
    · rintro ⟨hset, hidle⟩ i
      by_cases h0 : i = 0
      · rw [h0, hidle]
      · have hnot : i ∉ s.readySet c := hset ▸ Finset.notMem_empty i
        rw [mem_readySet, not_and, Bool.not_eq_true] at hnot
        exact hnot (Nat.pos_of_ne_zero h0)
  rw [hsplit]
  unfold Scheduler.roundRobin
  cases hfind : (s.slotsAfter cur).find? (s.eligible c) with
  | some next =>
    have hlt := (mem_slotsAfter.mp (List.mem_of_find?_eq_some hfind)).2
    have hset : s.readySet c ≠ ∅ := fun h => by
      rw [find?_slotsAfter_eq_none.mpr h] at hfind
      exact Option.some_ne_none _ hfind.symm
    have hne : next ≠ SCHED_NO_TASK := Nat.ne_of_lt (Nat.lt_of_lt_of_le hlt hcount)
    exact ⟨fun h => absurd h hne, fun h => absurd h.1 hset⟩
  | none =>
    rw [and_iff_right (find?_slotsAfter_eq_none.mp hfind)]
    by_cases hidle : s.eligible c 0 = true
    · simp [hidle, SCHED_NO_TASK, MAX_TASKS]
    · simp [hidle]

/-! ### A CPU whose ready tasks stay the same -/

/-- The tasks of `S` in the order in which a CPU with current slot `cur` serves them. -/
def serviceQueue (S : Finset Nat) (cur : Nat) : List Nat :=
  cyclicAfter (S.sort (· ≤ ·)) cur

/-- The eligible slots of the order are the ready set in its service order. -/
theorem filter_slotsAfter (s : Scheduler) (c : ApicId) (cur : Nat) :
    (s.slotsAfter cur).filter (s.eligible c) = serviceQueue (s.readySet c) cur := by
  have hsorted : ((List.range' 1 (s.taskCount - 1)).filter (s.eligible c)).Pairwise (· < ·) :=
    (List.pairwise_lt_range').sublist List.filter_sublist
  have hset : ((List.range' 1 (s.taskCount - 1)).filter (s.eligible c)).toFinset
      = s.readySet c := by
    ext i
    rw [List.mem_toFinset, List.mem_filter, List.mem_range'_1, mem_readySet]
    constructor
    · exact fun h => ⟨by omega, h.2⟩
    · intro h
      have := (eligible_iff.mp h.2).2.1
      exact ⟨by omega, h.2⟩
  have hsort := (List.toFinset_sort (· ≤ ·) hsorted.nodup).mpr (hsorted.imp Nat.le_of_lt)
  unfold Scheduler.slotsAfter serviceQueue
  rw [filter_cyclicAfter, ← hsort, hset]

theorem serviceQueue_perm (S : Finset Nat) (cur : Nat) : (serviceQueue S cur).Perm S.toList :=
  (cyclicAfter_perm _ _).trans (Finset.sort_perm_toList _ _)

/-- The task that is served goes to the end of the queue. -/
theorem serviceQueue_step {S : Finset Nat} {cur x : Nat} {rest : List Nat}
    (h : serviceQueue S cur = x :: rest) : serviceQueue S x = rest ++ [x] :=
  cyclicAfter_step (Finset.sortedLT_sort S).pairwise h

/-- The pick is the head of the queue. -/
theorem roundRobin_of_queue {s : Scheduler} {c : ApicId} {cur x : Nat} {rest : List Nat}
    (h : serviceQueue (s.readySet c) cur = x :: rest) : s.roundRobin c cur = x := by
  have hfind : (s.slotsAfter cur).find? (s.eligible c) = some x := by
    rw [← List.head?_filter, filter_slotsAfter, h]
    rfl
  unfold Scheduler.roundRobin
  rw [hfind]

/-- `preempt` takes the task it picks. -/
theorem preemptLocked_picked {s : Scheduler} {c : ApicId} {timerTick : Bool} {regs x : Nat}
    (hpick : (s.preemptRelease c timerTick regs).2.pickNextTask c (s.perCpuTask c) = x)
    (hx : x < (s.preemptRelease c timerTick regs).2.taskCount) :
    (s.preemptLocked c timerTick regs).2.1 = .task x ∧
      (s.preemptLocked c timerTick regs).2.2.perCpuTask c = x ∧
      (s.preemptLocked c timerTick regs).2.2.schedulerActive = s.schedulerActive := by
  have hactive := (preemptRelease_globals s c timerTick regs).2.2.2.2
  unfold Scheduler.preemptLocked
  simp only [hpick, hx, if_true]
  exact ⟨trivial, setCurrentTask_same _ _ _, hactive⟩

/-- What `preempt` leaves on another CPU. -/
theorem preemptLocked_other (s : Scheduler) {c d : ApicId} (hd : d ≠ c) (timerTick : Bool)
    (regs : Nat) :
    (s.preemptLocked d timerTick regs).2.2.perCpuTask c = s.perCpuTask c ∧
      (s.preemptLocked d timerTick regs).2.2.schedulerActive = s.schedulerActive := by
  obtain ⟨-, -, hcpu, -, hactive⟩ := preemptRelease_globals s d timerTick regs
  have hset : ∀ i, ((s.preemptRelease d timerTick regs).2.setCurrentTask d i).perCpuTask c
      = s.perCpuTask c := fun i => by rw [setCurrentTask_ne _ _ _ _ hd.symm, hcpu]
  unfold Scheduler.preemptLocked
  simp only []
  split
  · exact ⟨hset _, hactive⟩
  · split
    · exact ⟨hset _, hactive⟩
    · exact ⟨congrFun hcpu c, hactive⟩

/-- A started CPU keeps its current task in every section but its own `preempt`. -/
theorem perCpuTask_of_next {m n : Smp} {op : SchedOp} {c : ApicId} (honline : m.online c = true)
    (hactive : m.sched.schedulerActive = true)
    (hop : ∀ timerTick regs, op = .preempt c timerTick regs → m.sched.schedules = false)
    (hstep : m.next op = some n) :
    n.sched.perCpuTask c = m.sched.perCpuTask c ∧ n.online c = true ∧
      n.sched.schedulerActive = true := by
  cases sectionStep_of_next hstep with
  | createTask name userData =>
    simp only [Scheduler.createTask]
    split
    · exact ⟨rfl, honline, hactive⟩
    · split
      · exact ⟨rfl, honline, hactive⟩
      · exact ⟨rfl, honline, hactive⟩
  | start _ hboot => exact absurd (hboot.symm.trans hactive) (by simp)
  | startAp d hoff =>
    -- `start_ap` is for a CPU that was not started.
    have hd : c ≠ d := fun h => by simp [← h, honline] at hoff
    exact ⟨setCurrentTask_ne _ _ _ _ hd, (Function.update_of_ne hd _ _).trans honline, hactive⟩
  | preempt d timerTick regs _ hs =>
    have hd : d ≠ c := by
      rintro rfl
      exact absurd hs (by simp [hop timerTick regs rfl])
    obtain ⟨hcpu, hact⟩ := preemptLocked_other m.sched hd timerTick regs
    exact ⟨hcpu, honline, hact.trans hactive⟩
  | yield | preemptEntry | preemptOff | sleep | terminateTask | terminateNone | exitTask
  | detachCurrentTask | detachNone | replaceCurrentTaskContext | replaceFailed =>
    exact ⟨rfl, honline, hactive⟩

/-- A `preempt` on a CPU with ready tasks takes the head of its queue. -/
theorem takes_preempt {m : Smp} {S : Finset Nat} {c : ApicId} {timerTick : Bool} {regs x : Nat}
    {rest : List Nat} (honline : m.online c = true) (hs : m.sched.schedules = true)
    (hready : (m.sched.preemptRelease c timerTick regs).2.readySet c = S)
    (hqueue : serviceQueue S (m.sched.perCpuTask c) = x :: rest) :
    m.takes c (.preempt c timerTick regs) = some x ∧
      (m.after (.preempt c timerTick regs)).sched.perCpuTask c = x ∧
      (m.after (.preempt c timerTick regs)).online c = true ∧
      (m.after (.preempt c timerTick regs)).sched.schedulerActive = true := by
  have hpick : (m.sched.preemptRelease c timerTick regs).2.pickNextTask c (m.sched.perCpuTask c)
      = x := by
    rw [pickNextTask_eq]
    exact roundRobin_of_queue (hready ▸ hqueue)
  have hmem : x ∈ (m.sched.preemptRelease c timerTick regs).2.readySet c := by
    rw [hready, ← Finset.mem_toList]
    exact (serviceQueue_perm S _).subset (hqueue ▸ List.mem_cons_self)
  have hx := (eligible_iff.mp (mem_readySet.mp hmem).2).2.1
  have hactive : m.sched.schedulerActive = true := by
    unfold Scheduler.schedules at hs
    exact (Bool.and_eq_true_iff.mp hs).1
  obtain ⟨htask, hcpu, hact⟩ := preemptLocked_picked hpick hx
  have hafter : m.after (.preempt c timerTick regs)
      = { m with sched := (m.sched.preemptLocked c timerTick regs).2.2 } := by
    simp [Smp.after, Smp.next, honline, Scheduler.preempt, hs]
  rw [hafter]
  refine ⟨?_, hcpu, honline, hact.trans hactive⟩
  simp [Smp.takes, honline, hs, htask]

/-- A section that takes no task for CPU `c` leaves its current task alone. -/
theorem after_of_takes_none {m : Smp} {S : Finset Nat} (hS : S.Nonempty) {op : SchedOp}
    {c : ApicId} (hready : m.FixedReady S c op) (honline : m.online c = true)
    (hactive : m.sched.schedulerActive = true) (hnone : m.takes c op = none) :
    (m.after op).sched.perCpuTask c = m.sched.perCpuTask c ∧ (m.after op).online c = true ∧
      (m.after op).sched.schedulerActive = true := by
  unfold Smp.after
  cases hstep : m.next op with
  | none => exact ⟨rfl, honline, hactive⟩
  | some n =>
    refine perCpuTask_of_next honline hactive (fun timerTick regs hop => ?_) hstep
    subst hop
    cases hs : m.sched.schedules with
    | false => rfl
    | true =>
      -- With a ready task `preempt` would have taken one.
      cases hqueue : serviceQueue S (m.sched.perCpuTask c) with
      | nil =>
        have hperm := serviceQueue_perm S (m.sched.perCpuTask c)
        rw [hqueue] at hperm
        exact absurd (Finset.toList_eq_nil.mp hperm.nil_eq.symm) hS.ne_empty
      | cons x rest =>
        have htakes := (takes_preempt honline hs (hready rfl) hqueue).1
        rw [hnone] at htakes
        exact absurd htakes.symm (Option.some_ne_none x)

/-- `start` takes the head of the boot CPU's queue. -/
theorem next_start_taken {m n : Smp} {x : Nat} {rest : List Nat} (hstep : m.next .start = some n)
    (hqueue : serviceQueue (m.sched.readySet m.sched.bspApicId) SCHED_NO_TASK = x :: rest) :
    n.sched.perCpuTask m.sched.bspApicId = x ∧ n.online m.sched.bspApicId = true ∧
      n.sched.schedulerActive = true := by
  have hpick : m.sched.pickNextTask m.sched.bspApicId SCHED_NO_TASK = x := by
    rw [pickNextTask_eq]
    exact roundRobin_of_queue hqueue
  have hmem : x ∈ m.sched.readySet m.sched.bspApicId := by
    rw [← Finset.mem_toList]
    exact (serviceQueue_perm _ _).subset (hqueue ▸ List.mem_cons_self)
  have hx := (eligible_iff.mp (mem_readySet.mp hmem).2).2.1
  simp only [Smp.next] at hstep
  split at hstep
  · simp at hstep
  · obtain ⟨s, hs, rfl⟩ := Option.map_eq_some_iff.mp hstep
    unfold Scheduler.start at hs
    split at hs
    · simp at hs
    · simp only [hpick, Nat.not_le.mpr hx, if_false] at hs
      obtain rfl := Option.some.inj hs
      exact ⟨setCurrentTask_same _ _ _, Function.update_self _ _ _, rfl⟩

/-- The slot that a section takes, and where its CPU is then. -/
theorem after_of_takes {m : Smp} {S : Finset Nat} (hS : S.Nonempty) {op : SchedOp} {c : ApicId}
    (hready : m.FixedReady S c op) {x : Nat} (hx : m.takes c op = some x) :
    ∃ cur rest, serviceQueue S cur = x :: rest ∧
      (m.online c = true → m.sched.schedulerActive = true → cur = m.sched.perCpuTask c) ∧
      (m.after op).sched.perCpuTask c = x ∧ (m.after op).online c = true ∧
      (m.after op).sched.schedulerActive = true := by
  have hcons : ∀ cur, ∃ y rest, serviceQueue S cur = y :: rest := by
    intro cur
    cases hqueue : serviceQueue S cur with
    | nil =>
      have hperm := serviceQueue_perm S cur
      rw [hqueue] at hperm
      exact absurd (Finset.toList_eq_nil.mp hperm.nil_eq.symm) hS.ne_empty
    | cons y rest => exact ⟨y, rest, rfl⟩
  cases op with
  | start =>
    -- Before `start` there is no current slot: the order begins at the first one.
    by_cases hc : c = m.sched.bspApicId
    · simp only [Smp.takes, if_pos hc] at hx
      obtain ⟨n, hn, rfl⟩ := Option.map_eq_some_iff.mp hx
      obtain ⟨y, rest, hqueue⟩ := hcons SCHED_NO_TASK
      have hactive : m.sched.schedulerActive = false := by
        by_contra hact
        simp [Smp.next, hact] at hn
      have hset : m.sched.readySet m.sched.bspApicId = S := hc ▸ hready hc
      obtain ⟨htaken, honline', hact'⟩ := next_start_taken hn (hset.symm ▸ hqueue)
      have hafter : m.after .start = n := by
        unfold Smp.after
        rw [hn]
        rfl
      rw [hafter, hc, htaken]
      exact ⟨_, rest, hqueue, fun _ hact => absurd hact (by simp [hactive]), rfl, honline', hact'⟩
    · simp only [Smp.takes, if_neg hc] at hx
      exact absurd hx.symm (Option.some_ne_none x)
  | preempt d timerTick regs =>
    by_cases hd : d = c ∧ m.online c = true ∧ m.sched.schedules = true
    · obtain ⟨rfl, honline, hs⟩ := hd
      obtain ⟨y, rest, hqueue⟩ := hcons (m.sched.perCpuTask d)
      obtain ⟨htakes, hafter⟩ := takes_preempt honline hs (hready rfl) hqueue
      obtain rfl : y = x := Option.some.inj (htakes.symm.trans hx)
      exact ⟨_, rest, hqueue, fun _ _ => rfl, hafter⟩
    · simp only [Smp.takes, if_neg hd] at hx
      exact absurd hx.symm (Option.some_ne_none x)
  | createTask | startAp | yield | preemptEntry | sleep | terminateTask | exitTask
  | detachCurrentTask | replaceCurrentTaskContext =>
    exact absurd hx.symm (Option.some_ne_none x)

/-- From a started CPU on, the tasks it takes are those of its queue. -/
theorem rotates_of_started {S : Finset Nat} (hS : S.Nonempty) {c : ApicId} :
    ∀ {ops : List SchedOp} {m : Smp}, m.online c = true → m.sched.schedulerActive = true →
      TransitionSystem.OkAlong Smp.after (Smp.FixedReady S c) m ops →
      Rotates (serviceQueue S (m.sched.perCpuTask c)) (m.dispatches c ops) := by
  intro ops
  induction ops with
  | nil => exact fun _ _ _ => .idle _
  | cons op ops ih =>
    intro m honline hactive hok
    unfold Smp.dispatches
    cases htakes : m.takes c op with
    | none =>
      obtain ⟨hcpu, honline', hactive'⟩ :=
        after_of_takes_none hS hok.1 honline hactive htakes
      exact hcpu ▸ ih honline' hactive' hok.2
    | some x =>
      obtain ⟨cur, rest, hqueue, hcur, hcpu, honline', hactive'⟩ :=
        after_of_takes hS hok.1 htakes
      obtain rfl := hcur honline hactive
      have hrest := ih honline' hactive' hok.2
      rw [hcpu, serviceQueue_step hqueue] at hrest
      rw [hqueue]
      exact .turn hrest

/-- The tasks that a CPU takes in a run are served as a queue of its ready tasks. -/
theorem rotates_dispatches {S : Finset Nat} (hS : S.Nonempty) {c : ApicId} :
    ∀ {ops : List SchedOp} {m : Smp},
      TransitionSystem.OkAlong Smp.after (Smp.FixedReady S c) m ops →
      ∃ cur, Rotates (serviceQueue S cur) (m.dispatches c ops) := by
  intro ops
  induction ops with
  | nil => exact fun _ => ⟨0, .idle _⟩
  | cons op ops ih =>
    intro m hok
    unfold Smp.dispatches
    cases htakes : m.takes c op with
    | none => exact ih hok.2
    | some x =>
      obtain ⟨cur, rest, hqueue, -, hcpu, honline', hactive'⟩ :=
        after_of_takes hS hok.1 htakes
      have hrest := rotates_of_started hS honline' hactive' hok.2
      rw [hcpu, serviceQueue_step hqueue] at hrest
      exact ⟨cur, hqueue ▸ .turn hrest⟩

/-- `pick_next_task` is round robin on every table, it picks the idle task only when no
other task can run and none only when no task can, and a CPU on which the ready tasks are
a fixed set takes each of them once in every window of that many dispatches. -/
theorem pickNextTask_roundRobin :
    (∀ (s : Scheduler) (c : ApicId) (cur : Nat), s.taskCount ≤ MAX_TASKS →
      s.pickNextTask c cur = s.roundRobin c cur ∧
      (s.pickNextTask c cur = 0 ↔
        s.eligible c 0 = true ∧ ∀ i, 0 < i → s.eligible c i = false) ∧
      (s.pickNextTask c cur = SCHED_NO_TASK ↔ ∀ i, s.eligible c i = false)) ∧
    (∀ (S : Finset Nat) (c : ApicId) (m : Smp) (ops : List SchedOp),
      TransitionSystem.OkAlong Smp.after (Smp.FixedReady S c) m ops →
      ∀ w, w <:+: m.dispatches c ops → w.length = S.card → w.Nodup ∧ ∀ i, i ∈ w ↔ i ∈ S) := by
  constructor
  · -- One dispatch is the first eligible slot in cyclic order.
    intro s c cur hcount
    have hempty : s.readySet c = ∅ ↔ ∀ i, 0 < i → s.eligible c i = false := by
      rw [Finset.eq_empty_iff_forall_notMem]
      exact forall_congr' fun i => by rw [mem_readySet, not_and, Bool.not_eq_true]
    rw [pickNextTask_eq]
    refine ⟨rfl, ?_, roundRobin_eq_none hcount⟩
    rw [roundRobin_eq_zero, hempty]
    exact and_comm
  · intro S c m ops hok w hw hlen
    by_cases hS : S.Nonempty
    · -- Over a run the dispatches go round one fixed queue, so a window is a permutation of it.
      obtain ⟨cur, hrot⟩ := rotates_dispatches hS hok
      have hqueue := serviceQueue_perm S cur
      have hperm : w.Perm S.toList :=
        (hrot.window hw (by rw [hqueue.length_eq, Finset.length_toList, hlen])).trans hqueue
      exact ⟨hperm.nodup_iff.mpr S.nodup_toList, fun i => hperm.mem_iff.trans Finset.mem_toList⟩
    · -- A window of no dispatches.
      obtain rfl := Finset.not_nonempty_iff_eq_empty.mp hS
      obtain rfl := List.eq_nil_of_length_eq_zero hlen
      exact ⟨List.nodup_nil, fun i => by simp⟩

/-- An idle task and two others, `start`, and three timer interrupts. -/
def twoTasksRun : List SchedOp :=
  [.createTask [0x69] none, .createTask [0x61] none, .createTask [0x62] none, .start,
    .preempt 0 true 0, .preempt 0 true 0, .preempt 0 true 0]

/-- The boot CPU 0 after `sched::init`. -/
def bootCpu : Smp := ⟨Scheduler.init 0, fun _ => false⟩

/-- Two tasks that are ready all the time. -/
theorem pickNextTask_roundRobin_two_tasks :
    (bootCpu.sched.pickNextTask 0 5 = bootCpu.sched.roundRobin 0 5) ∧
      bootCpu.dispatches 0 twoTasksRun = [1, 2, 1, 2] ∧
      ([2, 1].Nodup ∧ ∀ i, i ∈ [2, 1] ↔ i ∈ ({1, 2} : Finset Nat)) := by
  have hrun : bootCpu.dispatches 0 twoTasksRun = [1, 2, 1, 2] ∧
      TransitionSystem.OkAlong Smp.after (Smp.FixedReady {1, 2} 0) bootCpu twoTasksRun := by
    decide
  refine ⟨(pickNextTask_roundRobin.1 bootCpu.sched 0 5 (Nat.zero_le _)).1, hrun.1, ?_⟩
  exact pickNextTask_roundRobin.2 {1, 2} 0 bootCpu twoTasksRun hrun.2 [2, 1]
    (hrun.1 ▸ ⟨[1], [2], rfl⟩) rfl

end VKernel.Proofs.Sched

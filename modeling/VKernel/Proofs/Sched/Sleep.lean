import VKernel.Proofs.Sched.Scheduler
import VKernel.Sched.Sleep

/-!
# `VKernel.Proofs.Sched.Sleep`: when a sleep is long enough

The deadline `g_tick_count + ticks` is computed in `u64`. While a task is blocked nothing but a
new `sleep` of its own changes its deadline (`keepsDeadline_of_next`), so the task rests for as
long as the deadline says (`rested_of_deadline`). The deadline is the one that was asked for
exactly as long as the sum fits.

`timespecTicks_eq` is the conversion of a `timespec` below `2 ^ 64` ticks. From there on it
reduces the request modulo `2 ^ 64`.
-/

set_option autoImplicit false

namespace VKernel.Proofs.Sched

open VKernel VKernel.Lib VKernel.Sched

/-! ### The deadline of a blocked task -/

/-- If `u` is blocked then so was `t`, with the same deadline. -/
def KeepsDeadline (t u : Task) : Prop :=
  u.state = .blocked → t.state = .blocked ∧ u.wakeTick = t.wakeTick

theorem KeepsDeadline.refl (t : Task) : KeepsDeadline t t := fun h => ⟨h, rfl⟩

theorem KeepsDeadline.trans {t u v : Task} (h : KeepsDeadline t u) (h' : KeepsDeadline u v) :
    KeepsDeadline t v := by
  intro hv
  obtain ⟨hu, hwake⟩ := h' hv
  obtain ⟨ht, hwake'⟩ := h hu
  exact ⟨ht, hwake.trans hwake'⟩

theorem KeepsDeadline.of_awake {t u : Task} (h : u.state ≠ .blocked) : KeepsDeadline t u :=
  fun hu => absurd hu h

/-- Writing one slot. -/
theorem keepsDeadline_setTask {s : Scheduler} {i j : Nat} {u : Task}
    (h : KeepsDeadline (s.tasks j) u) : KeepsDeadline (s.tasks i) ((s.setTask j u).tasks i) := by
  by_cases hi : i = j
  · rw [hi, setTask_same]
    exact h
  · rw [setTask_ne _ _ _ _ hi]
    exact .refl _

theorem keepsDeadline_wake (s : Scheduler) (i : Nat) :
    KeepsDeadline (s.tasks i) (s.wakeSleepingTasks.tasks i) := by
  unfold Scheduler.wakeSleepingTasks
  simp only
  split
  · exact .of_awake (by simp)
  · exact .refl _

/-- Letting go of a task neither blocks it nor moves its deadline. -/
theorem keepsDeadline_release (s : Scheduler) (t : Task) (c : ApicId) (timerTick : Bool)
    (regs : Nat) : KeepsDeadline t (s.releaseCurrent t c timerTick regs).2 := by
  obtain ⟨n, hn⟩ := accountTaskTicks_fields s t c timerTick
  unfold Scheduler.releaseCurrent
  simp only [hn]
  by_cases hterm : t.state = .terminated ∧ t.userData ≠ none
  · rw [if_pos hterm]
    exact .of_awake (by simp [hterm.1])
  · rw [if_neg hterm]
    by_cases hrun : t.state = .running
    · rw [if_pos hrun]
      exact .of_awake (by simp)
    · rw [if_neg hrun]
      exact .refl t

theorem keepsDeadline_preemptRelease (s : Scheduler) (c : ApicId) (timerTick : Bool)
    (regs i : Nat) :
    KeepsDeadline (s.tasks i) ((s.preemptRelease c timerTick regs).2.tasks i) := by
  refine (keepsDeadline_wake s i).trans ?_
  unfold Scheduler.preemptRelease
  simp only
  split
  · exact keepsDeadline_setTask (keepsDeadline_release _ _ c timerTick regs)
  · exact .refl _

/-- The task that a CPU takes is running. -/
theorem keepsDeadline_dispatch (s : Scheduler) (c : ApicId) (next i : Nat) :
    KeepsDeadline (s.tasks i) ((s.dispatch c next).tasks i) :=
  keepsDeadline_setTask (s := s.setCurrentTask c next) (.of_awake (by simp [Scheduler.claim]))

theorem keepsDeadline_preemptLocked (s : Scheduler) (c : ApicId) (timerTick : Bool)
    (regs i : Nat) :
    KeepsDeadline (s.tasks i) ((s.preemptLocked c timerTick regs).2.2.tasks i) := by
  refine (keepsDeadline_preemptRelease s c timerTick regs i).trans ?_
  unfold Scheduler.preemptLocked
  simp only
  split
  · exact keepsDeadline_dispatch _ c _ i
  · split
    · exact .refl _
    · exact .refl _

theorem keepsDeadline_createTask (s : Scheduler) (name : List UInt8) (userData : Option Ctx)
    (i : Nat) : KeepsDeadline (s.tasks i) ((s.createTask name userData).2.tasks i) := by
  unfold Scheduler.createTask
  simp only
  split
  · exact .refl _
  · split
    · exact keepsDeadline_setTask (.refl _)
    · -- A new task is ready.
      exact keepsDeadline_setTask (.of_awake (by simp [Scheduler.newTask]))

/-- A task that is blocked after a section that is not its own `sleep` was blocked before, with
the same deadline. -/
theorem keepsDeadline_of_next {m n : Smp} {op : SchedOp} {i : Nat} (hstep : m.next op = some n)
    (hop : ¬ m.SleepsAgain i op) : KeepsDeadline (m.sched.tasks i) (n.sched.tasks i) := by
  cases sectionStep_of_next hstep with
  | createTask name userData => exact keepsDeadline_createTask m.sched name userData i
  | start => exact keepsDeadline_dispatch m.sched _ _ i
  | preempt c timerTick regs => exact keepsDeadline_preemptLocked m.sched c timerTick regs i
  | sleep c =>
    -- Another task goes to sleep.
    have hi : i ≠ m.sched.perCpuTask c := fun h => hop h.symm
    unfold Scheduler.sleep
    simp only [setTask_ne _ _ _ _ hi]
    exact .refl _
  | terminateTask _ j =>
    have hterm := (terminated_spec (m.sched.tasks j)).1.state
    exact keepsDeadline_setTask (.of_awake (by simp [hterm]))
  | exitTask | detachCurrentTask => exact keepsDeadline_setTask (.of_awake (by simp))
  | replaceCurrentTaskContext => exact keepsDeadline_setTask fun h => ⟨h, rfl⟩
  | startAp | yield | preemptEntry | preemptOff | terminateNone | detachNone | replaceFailed =>
    exact .refl _

/-- The same over a run. -/
theorem keepsDeadline_of_leads {m n : Smp} {i : Nat}
    (h : (schedSystem.restrict fun m op => ¬ m.SleepsAgain i op).Leads m n) :
    KeepsDeadline (m.sched.tasks i) (n.sched.tasks i) := by
  induction h with
  | refl => exact .refl _
  | step _ hstep ih => exact ih.trans (keepsDeadline_of_next hstep.2 hstep.1)

/-! ### Rest -/

/-- A task rests up to its deadline. -/
theorem rested_of_deadline {m : Smp} {i due : Nat} (h : due ≤ (m.sched.tasks i).wakeTick) :
    m.Rested i due := by
  intro n hrun hblocked hearly
  obtain ⟨-, hwake⟩ := keepsDeadline_of_leads hrun hblocked
  have hstay : ¬ (i < n.sched.taskCount ∧ (n.sched.tasks i).state = .blocked ∧
      (n.sched.tasks i).wakeTick ≤ n.sched.tickCount) := by
    rintro ⟨-, -, hpast⟩
    omega
  have hsame : n.sched.wakeSleepingTasks.tasks i = n.sched.tasks i := if_neg hstay
  rw [hsame, hblocked]
  simp

/-- A task that is awake is not woken. -/
theorem rested_of_awake {m : Smp} {i : Nat} (h : (m.sched.tasks i).state ≠ .blocked)
    (due : Nat) : m.Rested i due :=
  fun _ hrun hblocked _ => absurd (keepsDeadline_of_leads hrun hblocked).1 h

/-- A task whose deadline has passed is woken. -/
theorem not_rested_of_past {m : Smp} {i due : Nat} (hi : i < m.sched.taskCount)
    (hblocked : (m.sched.tasks i).state = .blocked)
    (hpast : (m.sched.tasks i).wakeTick ≤ m.sched.tickCount) (hearly : m.sched.tickCount < due) :
    ¬ m.Rested i due := by
  intro hrest
  refine hrest m .refl hblocked hearly ?_
  unfold Scheduler.wakeSleepingTasks
  simp only [if_pos (⟨hi, hblocked, hpast⟩ : _ ∧ _ ∧ _)]

/-- The boot CPU can take any number of timer interrupts before the count wraps. A flag that a
task has left behind costs one more interrupt. -/
theorem exists_ticks {m : Smp} {i : Nat} (hboot : m.online m.sched.bspApicId = true) :
    ∀ j, m.sched.tickCount + j < U64 →
      ∃ n, (schedSystem.restrict fun m op => ¬ m.SleepsAgain i op).Leads m n ∧
        n.sched.tickCount = m.sched.tickCount + j ∧ n.sched.tasks = m.sched.tasks ∧
        n.sched.taskCount = m.sched.taskCount ∧ n.sched.bspApicId = m.sched.bspApicId ∧
        n.online = m.online := by
  intro j
  induction j with
  | zero => exact fun _ => ⟨m, .refl, rfl, rfl, rfl, rfl, rfl⟩
  | succ j ih =>
    intro hlt
    obtain ⟨n, hrun, htick, htasks, hcount, hbsp, honline⟩ := ih (by omega)
    have hon : n.online n.sched.bspApicId = true := by rw [honline, hbsp, hboot]
    have hentry : ∀ k : Smp, k.online k.sched.bspApicId = true →
        (schedSystem.restrict fun m op => ¬ m.SleepsAgain i op).step k
          (.preemptEntry k.sched.bspApicId)
          { k with sched := (k.sched.preemptEntry k.sched.bspApicId).2 } :=
      fun k hk => ⟨id, if_pos hk⟩
    -- An interrupt without a pending flag is counted.
    have hcounted : ∀ k : Smp, k.sched.tickCount = m.sched.tickCount + j →
        k.sched.yieldInProgress k.sched.bspApicId = false →
        (k.sched.preemptEntry k.sched.bspApicId).2 =
          { k.sched with tickCount := m.sched.tickCount + (j + 1) } := by
      intro k hk hflag
      have hsum : add64 k.sched.tickCount 1 = m.sched.tickCount + (j + 1) := by
        rw [hk, add64_eq (by omega)]
        rfl
      unfold Scheduler.preemptEntry
      simp [hflag, hsum]
    cases hflag : n.sched.yieldInProgress n.sched.bspApicId with
    | false =>
      refine ⟨_, hrun.step (hentry n hon), ?_⟩
      rw [hcounted n htick hflag]
      exact ⟨rfl, htasks, hcount, hbsp, honline⟩
    | true =>
      have hconsumed : (n.sched.preemptEntry n.sched.bspApicId).2 =
          { n.sched with
            yieldInProgress :=
              Function.update n.sched.yieldInProgress n.sched.bspApicId false } := by
        unfold Scheduler.preemptEntry
        simp [hflag]
      have hfirst := hentry n hon
      rw [hconsumed] at hfirst
      have hsecond := hcounted { n with
        sched := { n.sched with
          yieldInProgress :=
            Function.update n.sched.yieldInProgress n.sched.bspApicId false } } htick
        (Function.update_self _ _ _)
      refine ⟨_, (hrun.step hfirst).step (hentry _ hon), ?_⟩
      rw [hsecond]
      exact ⟨rfl, htasks, hcount, hbsp, honline⟩

/-- What a `sleep` with a positive number of ticks leaves. -/
theorem sleepCall_sleeps {m n : Smp} {c : ApicId} {ticks : Nat} (hticks : ticks ≠ 0)
    (hcall : m.sleepCall c ticks = some n) :
    m.sched.perCpuTask c < m.sched.taskCount ∧ n.sched = m.sched.sleep c ticks ∧
      n.online = m.online := by
  simp only [Smp.sleepCall, if_neg hticks, Smp.next] at hcall
  split at hcall
  · rename_i hruns
    obtain rfl := Option.some.inj hcall
    exact ⟨of_decide_eq_true hruns.1, rfl, rfl⟩
  · simp at hcall

/-- A sleep of `ticks` in place of one up to `due` is long enough just when the deadline fits
and is not before `due`. -/
theorem rested_sleepCall {m n : Smp} {c : ApicId} {ticks due : Nat}
    (htick : m.sched.tickCount < U64) (hboot : m.online m.sched.bspApicId = true)
    (hticks : ticks ≠ 0) (hlt : ticks < U64) (hdue : m.sched.tickCount + ticks ≤ due)
    (hcall : m.sleepCall c ticks = some n) :
    n.Rested (m.sched.perCpuTask c) due ↔ m.sched.tickCount + ticks < U64 ∧
      due ≤ m.sched.tickCount + ticks := by
  obtain ⟨hruns, hsched, honline⟩ := sleepCall_sleeps hticks hcall
  have htask : n.sched.tasks (m.sched.perCpuTask c) =
      { m.sched.tasks (m.sched.perCpuTask c) with
        wakeTick := add64 m.sched.tickCount ticks, state := .blocked } := by
    rw [hsched]
    exact setTask_same _ _ _
  have hcount : n.sched.taskCount = m.sched.taskCount := by rw [hsched]; rfl
  have hnow : n.sched.tickCount = m.sched.tickCount := by rw [hsched]; rfl
  have hbsp : n.sched.bspApicId = m.sched.bspApicId := by rw [hsched]; rfl
  constructor
  · intro hrest
    by_cases hfits : m.sched.tickCount + ticks < U64
    · refine ⟨hfits, ?_⟩
      by_contra hshort
      -- The boot CPU counts up to the deadline, which is before `due`.
      obtain ⟨k, hrun, hk, hktasks, hkcount, -, -⟩ :=
        exists_ticks (i := m.sched.perCpuTask c) (m := n) (by rw [honline, hbsp, hboot]) ticks
          (by omega)
      have hrested : k.Rested (m.sched.perCpuTask c) due := fun l hl => hrest l (hrun.trans hl)
      refine not_rested_of_past ?_ ?_ ?_ ?_ hrested
      · omega
      · rw [hktasks, htask]
      · rw [hktasks, htask, add64_eq hfits]
        show m.sched.tickCount + ticks ≤ k.sched.tickCount
        omega
      · omega
    · -- The sum wraps, so the deadline has passed already.
      have hwrap : add64 m.sched.tickCount ticks = m.sched.tickCount + ticks - U64 := by
        unfold add64
        rw [Nat.mod_eq_sub_mod (by omega), Nat.mod_eq_of_lt (by omega)]
      refine absurd hrest (not_rested_of_past ?_ ?_ ?_ ?_)
      · omega
      · rw [htask]
      · rw [htask]
        simp only [hwrap]
        omega
      · omega
  · rintro ⟨hfits, hlate⟩
    refine rested_of_deadline ?_
    rw [htask, add64_eq hfits]
    exact hlate

/-! ### The conversion of a `timespec` -/

/-- The conversion reduces the request modulo `2 ^ 64`, and makes a request that comes out as 0
one tick. -/
theorem timespecTicks_eq (seconds nanos : Nat) :
    let n := seconds * SCHED_TICK_HZ + (nanos * SCHED_TICK_HZ + 999999999) / 1000000000
    timespecTicks seconds nanos =
      if n % U64 = 0 ∧ (seconds ≠ 0 ∨ nanos ≠ 0) then 1 else n % U64 := by
  intro n
  have hsum : add64 (seconds * SCHED_TICK_HZ % U64)
      ((nanos * SCHED_TICK_HZ + 999999999) / 1000000000) = n % U64 := by
    unfold add64
    exact Nat.mod_add_mod _ _ _
  unfold timespecTicks
  simp only [hsum]

/-- The seconds are whole ticks, so only the nanoseconds are rounded. -/
theorem ticksRoundedUp_eq (t : Timespec) :
    t.ticksRoundedUp = t.tvSec.toNat * SCHED_TICK_HZ +
      (t.tvNsec.toNat * SCHED_TICK_HZ + 999999999) / 1000000000 := by
  unfold Timespec.ticksRoundedUp SCHED_TICK_HZ
  omega

/-- The ticks of an accepted request: none for a request of no time, else at least one, and
never more than was asked for. Below `2 ^ 64` they are what was asked for. -/
theorem timespecTicks_spec (t : Timespec) :
    timespecTicks t.tvSec.toNat t.tvNsec.toNat < U64 ∧
      timespecTicks t.tvSec.toNat t.tvNsec.toNat ≤ t.ticksRoundedUp ∧
      (timespecTicks t.tvSec.toNat t.tvNsec.toNat = 0 ↔ t.ticksRoundedUp = 0) ∧
      (t.ticksRoundedUp < U64 →
        timespecTicks t.tvSec.toNat t.tvNsec.toNat = t.ticksRoundedUp) := by
  have heq := timespecTicks_eq t.tvSec.toNat t.tvNsec.toNat
  rw [← ticksRoundedUp_eq] at heq
  have hzero : t.ticksRoundedUp = 0 ↔ ¬ (t.tvSec.toNat ≠ 0 ∨ t.tvNsec.toNat ≠ 0) := by
    rw [ticksRoundedUp_eq, SCHED_TICK_HZ]
    omega
  have hone : 1 < U64 := by rw [U64_eq]; decide
  have hmod := Nat.mod_lt t.ticksRoundedUp U64_pos
  have hle := Nat.mod_le t.ticksRoundedUp U64
  rw [heq]
  split
  · rename_i hforced
    have hpos : t.ticksRoundedUp ≠ 0 := fun h => hzero.mp h hforced.2
    refine ⟨hone, by omega, by omega, fun hlt => ?_⟩
    rw [Nat.mod_eq_of_lt hlt] at hforced
    exact absurd hforced.1 hpos
  · rename_i hfree
    refine ⟨hmod, hle, ⟨fun h => hzero.mpr fun hne => hfree ⟨h, hne⟩, fun h => ?_⟩,
      fun hlt => Nat.mod_eq_of_lt hlt⟩
    rw [h, Nat.zero_mod]

/-- A call of `nanosleep` that is accepted sleeps for the converted ticks. -/
theorem nanosleepCall_sleeps {m n : Smp} {c : ApicId} {clockId flags : Nat} {req : Timespec}
    {rem : Option Timespec} (hcall : m.nanosleepCall c clockId flags (some req) rem = some n) :
    let ticks := timespecTicks req.tvSec.toNat req.tvNsec.toNat
    ticks = 0 ∧ n = m ∨ ticks ≠ 0 ∧ m.sleepCall c ticks = some n := by
  intro ticks
  unfold Smp.nanosleepCall sleepFromTimespec at hcall
  simp only at hcall
  split at hcall
  · simp at hcall
  · rename_i hok
    split at hok
    · simp at hok
    · split at hok
      · simp at hok
      · split at hok
        · simp at hok
        · obtain ⟨-, rfl⟩ := Prod.mk.inj (Except.ok.inj hok)
          by_cases h0 : ticks = 0
          · rw [if_neg (not_not.mpr h0)] at hcall
            exact .inl ⟨h0, (Option.some.inj hcall).symm⟩
          · rw [if_pos h0] at hcall
            exact .inr ⟨h0, hcall⟩

/-- A task that calls `sleep` or `nanosleep` rests for the whole time exactly when the tick count
at its end fits in 64 bits. -/
theorem sleep_rests_iff {m : Smp} {c : ApicId} (htick : m.sched.tickCount < U64)
    (hboot : m.online m.sched.bspApicId = true)
    (hawake : (m.sched.tasks (m.sched.perCpuTask c)).state ≠ .blocked) :
    (∀ (ticks : Nat) (n : Smp), ticks < U64 → m.sleepCall c ticks = some n →
      (n.Rested (m.sched.perCpuTask c) (m.sched.tickCount + ticks) ↔
        m.sched.tickCount + ticks < U64)) ∧
    (∀ (clockId flags : Nat) (req : Timespec) (rem : Option Timespec) (n : Smp),
      m.nanosleepCall c clockId flags (some req) rem = some n →
      (n.Rested (m.sched.perCpuTask c) (m.sched.tickCount + req.ticksRoundedUp) ↔
        m.sched.tickCount + req.ticksRoundedUp < U64)) := by
  constructor
  · intro ticks n hlt hcall
    by_cases h0 : ticks = 0
    · -- Nothing but a yield: the task is not asleep.
      subst h0
      rw [Smp.sleepCall, if_pos rfl, Smp.next] at hcall
      split at hcall
      · obtain rfl := Option.some.inj hcall
        obtain ⟨k, f, hy⟩ := yield_fields m.sched c
        rw [hy]
        refine iff_of_true (rested_of_awake ?_ _) htick
        exact hawake
      · simp at hcall
    · rw [rested_sleepCall htick hboot h0 hlt (Nat.le_refl _) hcall]
      exact and_iff_left (Nat.le_refl _)
  · intro clockId flags req rem n hcall
    obtain ⟨hlt, hle, hzero, hexact⟩ := timespecTicks_spec req
    rcases nanosleepCall_sleeps hcall with ⟨h0, rfl⟩ | ⟨h0, hsleep⟩
    · -- A request of no ticks is no sleep.
      rw [hzero.mp h0]
      exact iff_of_true (rested_of_awake hawake _) htick
    · rw [rested_sleepCall htick hboot h0 hlt (Nat.add_le_add_left hle _) hsleep]
      constructor
      · -- The ticks were rounded up, and they are exact when nothing wraps.
        rintro ⟨hfits, hlate⟩
        omega
      · intro hfits
        have := hexact (by omega)
        omega

/-- The boot CPU 0 runs a task in slot 1 beside the idle task, and no tick has passed. -/
def oneSleeper : Smp :=
  [.createTask [0x69] none, .createTask [0x61] none, .start].foldl
    (fun m op => (m.next op).getD m) ⟨Scheduler.init 0, fun _ => false⟩

/-- A sleep of one second. -/
theorem sleep_rests_iff_one_second :
    (∀ n, oneSleeper.sleepCall 0 5 = some n → n.Rested (oneSleeper.sched.perCpuTask 0)
      (oneSleeper.sched.tickCount + 5)) ∧
    (∀ n, oneSleeper.nanosleepCall 0 0 0 (some ⟨1, 1⟩) none = some n →
      n.Rested (oneSleeper.sched.perCpuTask 0)
        (oneSleeper.sched.tickCount + Timespec.ticksRoundedUp ⟨1, 1⟩)) := by
  have hstate : oneSleeper.sched.tickCount = 0 ∧
      oneSleeper.online oneSleeper.sched.bspApicId = true ∧
      (oneSleeper.sched.tasks (oneSleeper.sched.perCpuTask 0)).state ≠ .blocked ∧
      Timespec.ticksRoundedUp ⟨1, 1⟩ = 101 := by
    decide
  have hsmall : 101 < U64 := by rw [U64_eq]; decide
  have hrests := sleep_rests_iff (m := oneSleeper) (c := 0) (by omega) hstate.2.1 hstate.2.2.1
  refine ⟨fun n hn => (hrests.1 5 n (by omega) hn).mpr (by omega),
    fun n hn => (hrests.2 0 0 ⟨1, 1⟩ none n hn).mpr (by omega)⟩

/-- A request of `2 ^ 62` seconds is `25 * 2 ^ 64` ticks: the product wraps to 0, the guard for a
request that rounds to nothing makes it 1, and the next tick wakes the task. -/
theorem huge_nanosleep_ends_at_once :
    ∃ n, oneSleeper.nanosleepCall 0 0 0 (some ⟨2 ^ 62, 0⟩) none = some n ∧
      ¬ n.Rested (oneSleeper.sched.perCpuTask 0)
        (oneSleeper.sched.tickCount + Timespec.ticksRoundedUp ⟨2 ^ 62, 0⟩) := by
  have hrun : ∃ n, oneSleeper.nanosleepCall 0 0 0 (some ⟨2 ^ 62, 0⟩) none = some n ∧
      ∃ k, n.next (.preemptEntry 0) = some k ∧ (k.sched.tasks 1).state = .blocked ∧
        k.sched.tickCount = 1 ∧ (k.sched.wakeSleepingTasks.tasks 1).state = .ready := by
    have hsome : ((oneSleeper.nanosleepCall 0 0 0 (some ⟨2 ^ 62, 0⟩) none).bind fun n =>
        (n.next (.preemptEntry 0)).map fun k => decide ((k.sched.tasks 1).state = .blocked ∧
          k.sched.tickCount = 1 ∧ (k.sched.wakeSleepingTasks.tasks 1).state = .ready)) =
        some true := by
      with_unfolding_all decide
    obtain ⟨n, hn, hsome⟩ := Option.bind_eq_some_iff.mp hsome
    obtain ⟨k, hk, htrue⟩ := Option.map_eq_some_iff.mp hsome
    exact ⟨n, hn, k, hk, of_decide_eq_true htrue⟩
  have hstart : oneSleeper.sched.perCpuTask 0 = 1 ∧ oneSleeper.sched.tickCount = 0 ∧
      1 < Timespec.ticksRoundedUp ⟨2 ^ 62, 0⟩ := by
    decide
  obtain ⟨n, hn, k, hk, hblocked, htick, hready⟩ := hrun
  refine ⟨n, hn, fun hrest => ?_⟩
  rw [hstart.1] at hrest
  exact hrest k (.step .refl ⟨id, hk⟩) hblocked (by omega) hready

end VKernel.Proofs.Sched

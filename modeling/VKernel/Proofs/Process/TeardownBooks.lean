import VKernel.Proofs.Process.KernelStep

/-!
# `VKernel.Proofs.Process.TeardownBooks`: who may still clean up a context

At any time at most one party can reach a process context in order to clean it up: the
slot it is attached to, the task that is around its own call of
`cleanup_process_context`, or the CPU that took it in `preempt`. `Refers` is that relation
and `Books` the bookkeeping over it: a context has one holder, and the number of calls
started for it follows from how far the holder has come.

A task that is terminated and on no CPU never executes again, so it holds nothing
(`Gone`), whatever point it had reached.
-/

set_option autoImplicit false

namespace VKernel.Proofs.Process

open VKernel VKernel.Lib VKernel.Sched VKernel.Process VKernel.Proofs.Sched

/-- The parties that can reach a context. -/
inductive Holder
  | slot (i : Nat)
  | task (i : Nat)
  | cpu (c : ApicId)
  deriving DecidableEq

/-- The task was terminated and its CPU has let go of it. -/
def Gone (t : Task) : Prop := t.state = .terminated ∧ t.currentCpu = none

/-- The task of slot `i` is in its own exit, with context `x`. -/
def InExit (k : Kernel) (i : Nat) (x : Ctx) : Prop := ∃ st, k.pc i = .cleanup st x .exit

/-- The party `h` can reach context `x` for a cleanup that has come to a stage. A slot whose
task is already in its own exit with the context counts as that task. -/
inductive Refers (k : Kernel) : Holder → Ctx → Stage → Prop
  | slot {i : Nat} {x : Ctx} (hlt : i < k.smp.sched.taskCount)
      (hdata : k.contextOf i = some x) (hexit : ¬ InExit k i x) : Refers k (.slot i) x .pending
  | task {i : Nat} {x : Ctx} {st : Stage} {after : After} (hlt : i < k.smp.sched.taskCount)
      (hpc : k.pc i = .cleanup st x after) (halive : ¬ Gone (k.smp.sched.tasks i)) :
      Refers k (.task i) x st
  | cpu {c : ApicId} {old : Nat} {sw : Switch} {x : Ctx} {st : Stage}
      (hcpu : k.cpu c = .switching old (some (st, x)) sw) : Refers k (.cpu c) x st

/-- `Refers` looks at the scheduler, the points of the tasks and the phases of the CPUs. -/
theorem Refers.congr {k k' : Kernel} {h : Holder} {x : Ctx} {st : Stage} (hr : Refers k' h x st)
    (hsmp : k'.smp = k.smp) (hpc : k'.pc = k.pc) (hcpu : k'.cpu = k.cpu) : Refers k h x st := by
  cases hr with
  | slot hlt hdata hexit =>
    refine .slot (hsmp ▸ hlt) ?_ ?_
    · unfold Kernel.contextOf at hdata ⊢
      rwa [hsmp] at hdata
    · unfold InExit at hexit ⊢
      rwa [hpc] at hexit
  | task hlt hpc' halive => exact .task (hsmp ▸ hlt) (hpc ▸ hpc') (hsmp ▸ halive)
  | cpu hcpu' => exact .cpu (hcpu ▸ hcpu')

/-- Who refers to a context when the task of slot `i` has reached another point. -/
theorem refers_goto {k : Kernel} {i : Nat} {p : TaskPc} {h : Holder} {x : Ctx} {st : Stage}
    (hr : Refers (k.goto i p) h x st) :
    (h = .task i ∧ i < k.smp.sched.taskCount ∧ ¬ Gone (k.smp.sched.tasks i) ∧
      ∃ after, p = .cleanup st x after) ∨
    (h = .slot i ∧ st = .pending ∧ i < k.smp.sched.taskCount ∧ k.contextOf i = some x ∧
      ∀ s, p ≠ .cleanup s x .exit) ∨
    (h ≠ .task i ∧ h ≠ .slot i ∧ Refers k h x st) := by
  cases hr with
  | slot hlt hdata hexit =>
    rename_i j
    by_cases hji : j = i
    · subst hji
      refine Or.inr (Or.inl ⟨rfl, rfl, hlt, hdata, fun s hp => hexit ⟨s, ?_⟩⟩)
      rw [goto_pc_same, hp]
    · refine Or.inr (Or.inr ⟨by simp, by simpa using hji, .slot hlt hdata fun hex => hexit ?_⟩)
      obtain ⟨s, hs⟩ := hex
      exact ⟨s, (goto_pc_ne hji).trans hs⟩
  | task hlt hpc halive =>
    rename_i j after
    by_cases hji : j = i
    · subst hji
      rw [goto_pc_same] at hpc
      exact Or.inl ⟨rfl, hlt, halive, after, hpc⟩
    · rw [goto_pc_ne hji] at hpc
      exact Or.inr (Or.inr ⟨by simpa using hji, by simp, .task hlt hpc halive⟩)
  | cpu hcpu => exact Or.inr (Or.inr ⟨by simp, by simp, .cpu hcpu⟩)

/-- The books: one holder for each context, and the calls started and the contexts freed
follow from the stage. -/
structure Books (k : Kernel) : Prop where
  holder : ∃ ho : Ctx → Option Holder, ∀ h x st, Refers k h x st → ho x = some h
  started : ∀ h x st, Refers k h x st → k.started x = if st = .pending then 0 else 1
  live : ∀ h x st, Refers k h x st → st ≠ .freed → k.freed x = false
  used : ∀ h x st, Refers k h x st → k.used x = true
  fresh : ∀ x, k.used x = false → k.started x = 0 ∧ k.freed x = false
  once : ∀ x, k.started x ≤ 1

theorem Books.unique {k : Kernel} (b : Books k) {h h' : Holder} {x : Ctx} {st st' : Stage}
    (hr : Refers k h x st) (hr' : Refers k h' x st') : h = h' := by
  obtain ⟨ho, hho⟩ := b.holder
  exact Option.some.inj ((hho h x st hr).symm.trans (hho h' x st' hr'))

/-- Nobody gets a new context. -/
theorem Books.shrink {k k' : Kernel} (b : Books k)
    (hsub : ∀ h x st, Refers k' h x st → Refers k h x st)
    (hstarted : k'.started = k.started) (hfreed : k'.freed = k.freed)
    (hused : ∀ x, k.used x = true → k'.used x = true) : Books k' where
  holder := by
    obtain ⟨ho, hho⟩ := b.holder
    exact ⟨ho, fun h x st hr => hho h x st (hsub h x st hr)⟩
  started h x st hr := hstarted ▸ b.started h x st (hsub h x st hr)
  live h x st hr := hfreed ▸ b.live h x st (hsub h x st hr)
  used h x st hr := hused x (b.used h x st (hsub h x st hr))
  fresh x hx := by
    rw [hstarted, hfreed]
    refine b.fresh x ?_
    by_contra hu
    exact absurd ((hused x (by simpa using hu)).symm.trans hx) (by simp)
  once := hstarted ▸ b.once

/-- A context passes to a party at some stage of its cleanup, and nothing else changes. The lemmas
that follow are the ways in which this happens. -/
theorem Books.place {k k' : Kernel} (b : Books k) {g : Holder} {x : Ctx} {st' : Stage}
    (hcases : ∀ h y st, Refers k' h y st →
      (h = g ∧ y = x ∧ st = st') ∨ (Refers k h y st ∧ y ≠ x))
    (hstarted : k'.started x = if st' = .pending then 0 else 1)
    (hlive : st' ≠ .freed → k'.freed x = false)
    (hother : ∀ y, y ≠ x → k'.started y = k.started y ∧ k'.freed y = k.freed y)
    (hused : ∀ y, k'.used y = (k.used y || y == x)) : Books k' where
  holder := by
    obtain ⟨ho, hho⟩ := b.holder
    refine ⟨Function.update ho x (some g), fun h y st hr => ?_⟩
    rcases hcases h y st hr with ⟨rfl, rfl, -⟩ | ⟨hold, hne⟩
    · exact Function.update_self ..
    · rw [Function.update_of_ne hne]
      exact hho h y st hold
  started h y st hr := by
    rcases hcases h y st hr with ⟨-, rfl, rfl⟩ | ⟨hold, hne⟩
    · exact hstarted
    · rw [(hother y hne).1]
      exact b.started h y st hold
  live h y st hr hst := by
    rcases hcases h y st hr with ⟨-, rfl, rfl⟩ | ⟨hold, hne⟩
    · exact hlive hst
    · rw [(hother y hne).2]
      exact b.live h y st hold hst
  used h y st hr := by
    rw [hused]
    rcases hcases h y st hr with ⟨-, rfl, -⟩ | ⟨hold, -⟩
    · simp
    · simp [b.used h y st hold]
  fresh y hy := by
    rw [hused, Bool.or_eq_false_iff, beq_eq_false_iff_ne] at hy
    rw [(hother y hy.2).1, (hother y hy.2).2]
    exact b.fresh y hy.1
  once y := by
    by_cases hyx : y = x
    · rw [hyx, hstarted]
      split <;> decide
    · rw [(hother y hyx).1]
      exact b.once y

/-- A context that has a holder was used before. -/
theorem Books.used_or {k : Kernel} (b : Books k) {h : Holder} {x : Ctx} {st : Stage}
    (hr : Refers k h x st) (y : Ctx) : k.used y = (k.used y || y == x) := by
  by_cases hyx : y = x
  · rw [hyx, b.used h x st hr, Bool.true_or]
  · rw [beq_eq_false_iff_ne.mpr hyx, Bool.or_false]

/-- A context that nobody has started to clean up passes from one party to another. -/
theorem Books.move {k k' : Kernel} (b : Books k) {f g : Holder} {x : Ctx}
    (hfrom : Refers k f x .pending)
    (hsub : ∀ h y st, Refers k' h y st →
      (h = g ∧ y = x ∧ st = .pending) ∨ (Refers k h y st ∧ ¬ (h = f ∧ y = x)))
    (hstarted : k'.started = k.started) (hfreed : k'.freed = k.freed)
    (hused : k'.used = k.used) : Books k' := by
  have hcases : ∀ h y st, Refers k' h y st →
      (h = g ∧ y = x ∧ st = .pending) ∨ (Refers k h y st ∧ y ≠ x) := by
    intro h y st hr
    rcases hsub h y st hr with hnew | ⟨hold, hne⟩
    · exact Or.inl hnew
    · refine Or.inr ⟨hold, fun hyx => hne ⟨?_, hyx⟩⟩
      subst hyx
      exact b.unique hold hfrom
  exact b.place hcases (hstarted ▸ b.started _ _ _ hfrom) (hfreed ▸ b.live _ _ _ hfrom)
    (fun _ _ => ⟨congrFun hstarted _, congrFun hfreed _⟩) (hused ▸ b.used_or hfrom)

/-- The holder of a context goes on to the next stage of its cleanup. -/
theorem Books.advance {k k' : Kernel} (b : Books k) {hd : Holder} {x : Ctx} {st st' : Stage}
    (hhold : Refers k hd x st)
    (hsub : ∀ h y s, Refers k' h y s →
      (h = hd ∧ y = x ∧ s = st') ∨ (h ≠ hd ∧ Refers k h y s))
    (hst : st = .pending ∧ st' = .started ∧
        k'.started = Function.update k.started x (k.started x + 1) ∧ k'.freed = k.freed ∨
      st = .started ∧ st' = .freed ∧ k'.started = k.started ∧
        k'.freed = Function.update k.freed x true)
    (hused : k'.used = k.used) : Books k' := by
  have hcases : ∀ h y s, Refers k' h y s →
      (h = hd ∧ y = x ∧ s = st') ∨ (Refers k h y s ∧ y ≠ x) := by
    intro h y s hr
    rcases hsub h y s hr with hnew | ⟨hne, hold⟩
    · exact Or.inl hnew
    · exact Or.inr ⟨hold, fun hyx => hne (b.unique hold (hyx ▸ hhold))⟩
  have hcount := b.started _ _ _ hhold
  have hlive := b.live _ _ _ hhold
  rcases hst with ⟨rfl, rfl, hs, hf⟩ | ⟨rfl, rfl, hs, hf⟩
  · refine b.place hcases ?_ (fun _ => ?_) (fun y hy => ?_) (hused ▸ b.used_or hhold)
    · rw [hs, Function.update_self, hcount]
      rfl
    · rw [hf]
      exact hlive (by simp)
    · rw [hs, hf, Function.update_of_ne hy]
      exact ⟨rfl, rfl⟩
  · refine b.place hcases ?_ (fun h => absurd rfl h) (fun y hy => ?_) (hused ▸ b.used_or hhold)
    · rw [hs, hcount]
      rfl
    · rw [hs, hf, Function.update_of_ne hy]
      exact ⟨rfl, rfl⟩

/-- A new context is attached to a slot. -/
theorem Books.attach {k k' : Kernel} (b : Books k) {g : Holder} {x : Ctx}
    (hnew : k.used x = false)
    (hsub : ∀ h y st, Refers k' h y st →
      (h = g ∧ y = x ∧ st = .pending) ∨ Refers k h y st)
    (hstarted : k'.started = k.started) (hfreed : k'.freed = k.freed)
    (hused : ∀ y, k'.used y = (k.used y || y == x)) : Books k' := by
  have hcases : ∀ h y st, Refers k' h y st →
      (h = g ∧ y = x ∧ st = .pending) ∨ (Refers k h y st ∧ y ≠ x) := by
    intro h y st hr
    rcases hsub h y st hr with hnew' | hold
    · exact Or.inl hnew'
    · refine Or.inr ⟨hold, fun hyx => ?_⟩
      rw [← hyx, b.used h y st hold] at hnew
      exact absurd hnew (by simp)
  exact b.place hcases (hstarted ▸ (b.fresh x hnew).1) (fun _ => hfreed ▸ (b.fresh x hnew).2)
    (fun _ _ => ⟨congrFun hstarted _, congrFun hfreed _⟩) hused

end VKernel.Proofs.Process

import VKernel.Sync.Spinlock

/-!
# `VKernel.Proofs.Sync.Spinlock`: exclusion, and no interrupts inside of a critical section

`spinlock_safe` holds in every state of every interleaving:

* at most one CPU is between the exchange that takes a lock and the store that gives it back,
  and `locked` names that CPU;
* that CPU has its interrupts off, so the section is the frame that the CPU executes and never
  one that was interrupted. A CPU therefore never spins on a lock that a frame below the
  current one holds, which is the deadlock that `spinlock.h` describes;
* `saved_flags` still says what `acquire` of the present holder put there, and `release`
  restores the flag to what it was when the lock was taken.

The last two rest on the order in which locks are given back. The flag of an inner lock is
off, since it was read inside of a section, so only the outermost `release` turns the
interrupts on again. `Nested` is that invariant of the list of held locks.
-/

set_option autoImplicit false

namespace VKernel.Proofs.Sync

open VKernel.Lib VKernel.Sync
open VKernel.Sched (ApicId)

variable {Lk : Type}

/-! ### What is held -/

/-- Only the outermost lock may have been taken with interrupts on. -/
def Nested : List (Lk × Bool) → Prop
  | [] => True
  | (_, flags) :: rest => (rest ≠ [] → flags = false) ∧ Nested rest

/-- The frame is between the exchange that takes `l` and the store that gives it back. -/
def Frame.Owns (f : Frame Lk) (l : Lk) : Prop :=
  l ∈ f.held.map Prod.fst ∨ ∃ flags, f.pc = .storing l flags

/-- CPU `c` executes a critical section of `l`. -/
def Owns (m : Machine Lk) (c : ApicId) (l : Lk) : Prop := Frame.Owns (m.cpus c).top l

/-- A frame that may be interrupted: it holds nothing, and of the lock's code it has run at most
the read of the flags, which found the interrupts on. -/
def Calm (f : Frame Lk) : Prop :=
  f.held = [] ∧ (f.pc = .idle ∨ ∃ l tryOnly, f.pc = .flagsRead l true tryOnly)

theorem Calm.not_owns {f : Frame Lk} (h : Calm f) (l : Lk) : ¬ Frame.Owns f l := by
  rintro (hl | ⟨flags, hpc⟩)
  · rw [h.1] at hl
    exact absurd hl List.not_mem_nil
  · rcases h.2 with hidle | ⟨_, _, hread⟩
    · rw [hidle] at hpc
      cases hpc
    · rw [hread] at hpc
      cases hpc

/-- What the place in the lock's code says about the flag of the CPU and about the list of held
locks. -/
def PcOk (interrupts : Bool) (held : List (Lk × Bool)) : Pc Lk → Prop
  | .idle => held ≠ [] → interrupts = false
  | .flagsRead _ flags _ => flags = interrupts ∧ (held ≠ [] → interrupts = false)
  | .spinning _ flags _ => interrupts = false ∧ (held ≠ [] → flags = false)
  | .storing l flags =>
    interrupts = false ∧ (held ≠ [] → flags = false) ∧ l ∉ held.map Prod.fst
  | .releasing l flags => interrupts = false ∧ held.head? = some (l, flags)
  | .restoring flags was => interrupts = false ∧ flags = was ∧ (held ≠ [] → flags = false)

/-- The invariant of one CPU. -/
structure CpuOk (cpu : Cpu Lk) : Prop where
  pc : PcOk cpu.interrupts cpu.top.held cpu.top.pc
  nested : Nested cpu.top.held
  nodup : (cpu.top.held.map Prod.fst).Nodup
  calm : ∀ f ∈ cpu.suspended, Calm f

/-- The invariant. -/
structure SpinInv (m : Machine Lk) : Prop where
  cpu : ∀ c, CpuOk (m.cpus c)
  pool : ∀ frames ∈ m.pool, ∀ f ∈ frames, Calm f
  /-- `locked` names the owner. -/
  owner : ∀ c l, Owns m c l → (m.locks l).locked = self c
  /-- A lock that is marked has an owner. -/
  owned : ∀ l, (m.locks l).locked ≠ 0 → ∃ c, Owns m c l
  saved : ∀ c, ∀ h ∈ (m.cpus c).top.held, (m.locks h.1).savedFlags = h.2

theorem self_ne_zero (c : ApicId) : self c ≠ 0 := Nat.succ_ne_zero _

theorem self_inj {c d : ApicId} (h : self c = self d) : c = d :=
  Fin.ext (Nat.succ_inj.mp h)

/-- With interrupts on, a CPU is outside of every critical section. -/
theorem CpuOk.calm_top {cpu : Cpu Lk} (h : CpuOk cpu) (hon : cpu.interrupts = true) :
    Calm cpu.top := by
  have hpc := h.pc
  have hno : ¬ cpu.interrupts = false := by
    rw [hon]
    exact Bool.noConfusion
  have hempty : (cpu.top.held ≠ [] → cpu.interrupts = false) → cpu.top.held = [] :=
    fun himp => by_contra fun hne => hno (himp hne)
  cases hcase : cpu.top.pc with
  | idle =>
    rw [hcase] at hpc
    exact ⟨hempty hpc, Or.inl hcase⟩
  | flagsRead l flags tryOnly =>
    rw [hcase] at hpc
    refine ⟨hempty hpc.2, Or.inr ⟨l, tryOnly, ?_⟩⟩
    rw [hcase, hpc.1, hon]
  | spinning l flags tryOnly =>
    rw [hcase] at hpc
    exact absurd hpc.1 hno
  | storing l flags =>
    rw [hcase] at hpc
    exact absurd hpc.1 hno
  | releasing l flags =>
    rw [hcase] at hpc
    exact absurd hpc.1 hno
  | restoring flags was =>
    rw [hcase] at hpc
    exact absurd hpc.1 hno

/-- The owner of a lock has its interrupts off. -/
theorem CpuOk.masked {cpu : Cpu Lk} (h : CpuOk cpu) {l : Lk} (hl : Frame.Owns cpu.top l) :
    cpu.interrupts = false := by
  by_contra hon
  exact (h.calm_top (Bool.not_eq_false _ ▸ hon)).not_owns l hl

section Step

variable {m m' : Machine Lk} {c : ApicId}

@[simp] theorem setCpu_self (m : Machine Lk) (c : ApicId) (cpu : Cpu Lk) :
    (m.setCpu c cpu).cpus c = cpu := Function.update_self ..

@[simp] theorem setCpu_of_ne (m : Machine Lk) {c d : ApicId} (cpu : Cpu Lk) (h : d ≠ c) :
    (m.setCpu c cpu).cpus d = m.cpus d := Function.update_of_ne h ..

/-- A step of one CPU that leaves the locks alone, and neither takes nor gives back one. -/
theorem SpinInv.setCpu {cpu : Cpu Lk} (h : SpinInv m) (hcpu : CpuOk cpu)
    (howns : ∀ l, Frame.Owns cpu.top l ↔ Frame.Owns (m.cpus c).top l)
    (hheld : cpu.top.held = (m.cpus c).top.held) : SpinInv (m.setCpu c cpu) := by
  have hiff : ∀ d l, Owns (m.setCpu c cpu) d l ↔ Owns m d l := by
    intro d l
    unfold Owns
    by_cases hdc : d = c
    · subst hdc
      rw [setCpu_self]
      exact howns l
    · rw [setCpu_of_ne m cpu hdc]
  constructor
  · intro d
    by_cases hdc : d = c
    · subst hdc
      rwa [setCpu_self]
    · rw [setCpu_of_ne m cpu hdc]
      exact h.cpu d
  · exact h.pool
  · exact fun d l hd => h.owner d l ((hiff d l).mp hd)
  · intro l hl
    obtain ⟨d, hd⟩ := h.owned l hl
    exact ⟨d, (hiff d l).mpr hd⟩
  · intro d
    by_cases hdc : d = c
    · subst hdc
      rw [setCpu_self, hheld]
      exact h.saved d
    · rw [setCpu_of_ne m cpu hdc]
      exact h.saved d

/-- A frame that holds the same locks, and neither before nor after has just taken one, owns the
same locks. -/
theorem owns_congr {f g : Frame Lk} (hheld : f.held = g.held)
    (hf : ∀ l flags, f.pc ≠ .storing l flags) (hg : ∀ l flags, g.pc ≠ .storing l flags) (l : Lk) :
    Frame.Owns f l ↔ Frame.Owns g l := by
  unfold Frame.Owns
  rw [hheld]
  constructor
  · rintro (h | ⟨flags, h⟩)
    · exact Or.inl h
    · exact absurd h (hf l flags)
  · rintro (h | ⟨flags, h⟩)
    · exact Or.inl h
    · exact absurd h (hg l flags)

/-- A move inside of the lock's code without an access to the lock. -/
theorem SpinInv.setPc {pc : Pc Lk} (interrupts : Bool) (h : SpinInv m)
    (hpc : PcOk interrupts (m.cpus c).top.held pc)
    (hold : ∀ l flags, (m.cpus c).top.pc ≠ .storing l flags)
    (hnew : ∀ l flags, pc ≠ .storing l flags) :
    SpinInv (m.setCpu c
      { m.cpus c with interrupts := interrupts, top := { (m.cpus c).top with pc := pc } }) :=
  h.setCpu ⟨hpc, (h.cpu c).nested, (h.cpu c).nodup, (h.cpu c).calm⟩
    (owns_congr rfl hnew hold) rfl

/-- Two CPUs never own one lock. -/
theorem SpinInv.exclusive {d : ApicId} {l : Lk} (h : SpinInv m) (hc : Owns m c l)
    (hd : Owns m d l) : c = d :=
  self_inj ((h.owner c l hc).symm.trans (h.owner d l hd))

/-- A frame that is calm may become, or stop being, the one that is executed. -/
theorem owns_iff_of_calm {f g : Frame Lk} (hf : Calm f) (hg : Calm g) (l : Lk) :
    Frame.Owns f l ↔ Frame.Owns g l :=
  ⟨fun h => absurd h (hf.not_owns l), fun h => absurd h (hg.not_owns l)⟩

theorem calm_idle : Calm (⟨.idle, []⟩ : Frame Lk) := ⟨rfl, Or.inl rfl⟩

/-- A CPU that executes a calm frame with its interrupts on is in order. -/
theorem cpuOk_of_calm {f : Frame Lk} {suspended : List (Frame Lk)} (hf : Calm f)
    (hs : ∀ g ∈ suspended, Calm g) : CpuOk ⟨true, f, suspended⟩ := by
  obtain ⟨hheld, hpc⟩ := hf
  have hne : ¬ f.held ≠ [] := fun hne => hne hheld
  refine ⟨?_, ?_, ?_, hs⟩
  · show PcOk true f.held f.pc
    rcases hpc with hidle | ⟨l, tryOnly, hread⟩
    · rw [hidle]
      exact fun h => absurd h hne
    · rw [hread]
      exact ⟨rfl, fun h => absurd h hne⟩
  · show Nested f.held
    rw [hheld]
    exact trivial
  · show (f.held.map Prod.fst).Nodup
    rw [hheld]
    exact List.nodup_nil

/-- The call of `acquire` or `try_acquire`. -/
theorem SpinInv.call {l : Lk} {tryOnly : Bool} (h : SpinInv m) (hpc : (m.cpus c).top.pc = .idle) :
    SpinInv (m.setPc c (.flagsRead l (m.cpus c).interrupts tryOnly)) := by
  have hok := (h.cpu c).pc
  rw [hpc] at hok
  refine h.setPc (m.cpus c).interrupts ⟨rfl, hok⟩ ?_ nofun
  rw [hpc]
  exact nofun

variable [DecidableEq Lk]

/-- The exchange that takes a free lock. -/
theorem SpinInv.take {l : Lk} {flags tryOnly : Bool} (h : SpinInv m)
    (hpc : (m.cpus c).top.pc = .spinning l flags tryOnly) (hfree : (m.locks l).locked = 0) :
    SpinInv { m.setPc c (.storing l flags) with
      locks := Function.update m.locks l { m.locks l with locked := self c } } := by
  have hno : ∀ d, ¬ Owns m d l := by
    intro d hd
    exact self_ne_zero d ((h.owner d l hd).symm.trans hfree)
  have hok := (h.cpu c).pc
  rw [hpc] at hok
  have hheld : l ∉ (m.cpus c).top.held.map Prod.fst := fun hl => hno c (Or.inl hl)
  -- The new owner is `c`, and of `l` only.
  have howns : ∀ d k, Owns (m.setPc c (.storing l flags)) d k ↔ Owns m d k ∨ (d = c ∧ k = l) := by
    intro d k
    unfold Owns Machine.setPc
    by_cases hdc : d = c
    · subst hdc
      rw [setCpu_self]
      unfold Frame.Owns
      rw [hpc]
      constructor
      · rintro (hk | ⟨flags', hk⟩)
        · exact Or.inl (Or.inl hk)
        · cases hk
          exact Or.inr ⟨rfl, rfl⟩
      · rintro ((hk | ⟨flags', hk⟩) | ⟨-, rfl⟩)
        · exact Or.inl hk
        · cases hk
        · exact Or.inr ⟨flags, rfl⟩
    · rw [setCpu_of_ne m _ hdc]
      exact ⟨Or.inl, fun hk => hk.elim id fun hk => absurd hk.1 hdc⟩
  constructor
  · intro d
    show CpuOk ((m.setPc c (.storing l flags)).cpus d)
    unfold Machine.setPc
    by_cases hdc : d = c
    · subst hdc
      rw [setCpu_self]
      exact ⟨⟨hok.1, hok.2, hheld⟩, (h.cpu d).nested, (h.cpu d).nodup, (h.cpu d).calm⟩
    · rw [setCpu_of_ne m _ hdc]
      exact h.cpu d
  · exact h.pool
  · intro d k hd
    show (Function.update m.locks l _ k).locked = self d
    rcases (howns d k).mp hd with hold | ⟨rfl, rfl⟩
    · have hkl : k ≠ l := by
        rintro rfl
        exact hno d hold
      rw [Function.update_of_ne hkl]
      exact h.owner d k hold
    · rw [Function.update_self]
  · intro k hk
    by_cases hkl : k = l
    · exact ⟨c, (howns c k).mpr (Or.inr ⟨rfl, hkl⟩)⟩
    · have hk' : (Function.update m.locks l { m.locks l with locked := self c } k).locked ≠ 0 := hk
      rw [Function.update_of_ne hkl] at hk'
      obtain ⟨d, hd⟩ := h.owned k hk'
      exact ⟨d, (howns d k).mpr (Or.inl hd)⟩
  · intro d x hx
    show (Function.update m.locks l _ x.1).savedFlags = x.2
    have hx' : x ∈ (m.cpus d).top.held := by
      by_cases hdc : d = c
      · subst hdc
        have hx'' : x ∈ ((m.setPc d (.storing l flags)).cpus d).top.held := hx
        unfold Machine.setPc at hx''
        rwa [setCpu_self] at hx''
      · have hx'' : x ∈ ((m.setPc c (.storing l flags)).cpus d).top.held := hx
        unfold Machine.setPc at hx''
        rwa [setCpu_of_ne m _ hdc] at hx''
    have hsaved := h.saved d x hx'
    by_cases hxl : x.1 = l
    · rw [hxl, Function.update_self]
      rwa [hxl] at hsaved
    · rw [Function.update_of_ne hxl]
      exact hsaved

/-- The store to `saved_flags`, with which `acquire` returns. -/
theorem SpinInv.store {l : Lk} {flags : Bool} (h : SpinInv m)
    (hpc : (m.cpus c).top.pc = .storing l flags) :
    SpinInv { m.setCpu c
        { m.cpus c with top := ⟨.idle, (l, flags) :: (m.cpus c).top.held⟩ } with
      locks := Function.update m.locks l { m.locks l with savedFlags := flags } } := by
  have hok := (h.cpu c).pc
  rw [hpc] at hok
  obtain ⟨hoff, hflags, hfresh⟩ := hok
  have hmine : Owns m c l := Or.inr ⟨flags, hpc⟩
  have howns : ∀ d k, Owns (m.setCpu c
      { m.cpus c with top := ⟨.idle, (l, flags) :: (m.cpus c).top.held⟩ }) d k ↔ Owns m d k := by
    intro d k
    unfold Owns
    by_cases hdc : d = c
    · subst hdc
      rw [setCpu_self]
      unfold Frame.Owns
      rw [hpc]
      constructor
      · rintro (hk | ⟨flags', hk⟩)
        · rcases List.mem_cons.mp hk with hkl | hk
          · exact Or.inr ⟨flags, by rw [show k = l from hkl]⟩
          · exact Or.inl hk
        · cases hk
      · rintro (hk | ⟨flags', hk⟩)
        · exact Or.inl (List.mem_cons_of_mem _ hk)
        · cases hk
          exact Or.inl List.mem_cons_self
    · rw [setCpu_of_ne m _ hdc]
  have hlocked : ∀ k, (Function.update m.locks l { m.locks l with savedFlags := flags } k).locked =
      (m.locks k).locked := by
    intro k
    by_cases hkl : k = l
    · rw [hkl, Function.update_self]
    · rw [Function.update_of_ne hkl]
  constructor
  · intro d
    show CpuOk ((m.setCpu c _).cpus d)
    by_cases hdc : d = c
    · subst hdc
      rw [setCpu_self]
      exact ⟨fun _ => hoff, ⟨hflags, (h.cpu d).nested⟩,
        List.nodup_cons.mpr ⟨hfresh, (h.cpu d).nodup⟩, (h.cpu d).calm⟩
    · rw [setCpu_of_ne m _ hdc]
      exact h.cpu d
  · exact h.pool
  · intro d k hd
    exact (hlocked k).trans (h.owner d k ((howns d k).mp hd))
  · intro k hk
    obtain ⟨d, hd⟩ := h.owned k (hlocked k ▸ hk)
    exact ⟨d, (howns d k).mpr hd⟩
  · intro d x hx
    show (Function.update m.locks l _ x.1).savedFlags = x.2
    have hx' : x ∈ ((m.setCpu c _).cpus d).top.held := hx
    by_cases hdc : d = c
    · subst hdc
      rw [setCpu_self] at hx'
      rcases List.mem_cons.mp hx' with rfl | hx'
      · rw [Function.update_self]
      · -- The other locks of this frame are not `l`.
        have hxl : x.1 ≠ l := by
          intro hxl
          exact hfresh (hxl ▸ List.mem_map_of_mem hx')
        rw [Function.update_of_ne hxl]
        exact h.saved d x hx'
    · rw [setCpu_of_ne m _ hdc] at hx'
      have hxl : x.1 ≠ l := by
        intro hxl
        exact hdc (h.exclusive (hxl ▸ Or.inl (List.mem_map_of_mem hx')) hmine)
      rw [Function.update_of_ne hxl]
      exact h.saved d x hx'

/-- The store with which `release` gives the lock back. -/
theorem SpinInv.unlock {l : Lk} {flags : Bool} (h : SpinInv m)
    (hpc : (m.cpus c).top.pc = .releasing l flags) :
    SpinInv { m.setCpu c
        { m.cpus c with
          top :=
            { pc := .restoring flags (((m.cpus c).top.held.head?.map Prod.snd).getD flags)
              held := (m.cpus c).top.held.tail } } with
      locks := Function.update m.locks l { m.locks l with locked := 0 } } := by
  have hok := (h.cpu c).pc
  rw [hpc] at hok
  obtain ⟨hoff, hhead⟩ := hok
  obtain ⟨rest, hheld⟩ : ∃ rest, (m.cpus c).top.held = (l, flags) :: rest := by
    cases hlist : (m.cpus c).top.held with
    | nil =>
      rw [hlist] at hhead
      cases hhead
    | cons x rest =>
      rw [hlist, List.head?_cons] at hhead
      exact ⟨rest, by rw [Option.some.inj hhead]⟩
  have hnodup := (h.cpu c).nodup
  have hnested := (h.cpu c).nested
  rw [hheld] at hnodup hnested
  obtain ⟨hfresh, hnodup⟩ := List.nodup_cons.mp hnodup
  have hmine : Owns m c l := Or.inl (by rw [hheld]; exact List.mem_cons_self)
  rw [hheld, List.head?_cons, Option.map_some, Option.getD_some, List.tail_cons]
  have howns : ∀ d k, Owns (m.setCpu c
      { m.cpus c with top := ⟨.restoring flags flags, rest⟩ }) d k ↔ Owns m d k ∧ k ≠ l := by
    intro d k
    unfold Owns
    by_cases hdc : d = c
    · subst hdc
      rw [setCpu_self]
      unfold Frame.Owns
      rw [hpc, hheld]
      constructor
      · rintro (hk | ⟨flags', hk⟩)
        · refine ⟨Or.inl (List.mem_cons_of_mem _ hk), ?_⟩
          rintro rfl
          exact hfresh hk
        · cases hk
      · rintro ⟨hk | ⟨flags', hk⟩, hne⟩
        · rcases List.mem_cons.mp hk with hkl | hk
          · exact absurd hkl hne
          · exact Or.inl hk
        · cases hk
    · rw [setCpu_of_ne m _ hdc]
      refine ⟨fun hk => ⟨hk, ?_⟩, And.left⟩
      rintro rfl
      exact hdc (h.exclusive hk hmine)
  constructor
  · intro d
    show CpuOk ((m.setCpu c _).cpus d)
    by_cases hdc : d = c
    · subst hdc
      rw [setCpu_self]
      exact ⟨⟨hoff, rfl, hnested.1⟩, hnested.2, hnodup, (h.cpu d).calm⟩
    · rw [setCpu_of_ne m _ hdc]
      exact h.cpu d
  · exact h.pool
  · intro d k hd
    obtain ⟨hold, hkl⟩ := (howns d k).mp hd
    show (Function.update m.locks l _ k).locked = self d
    rw [Function.update_of_ne hkl]
    exact h.owner d k hold
  · intro k hk
    have hk' : (Function.update m.locks l { m.locks l with locked := 0 } k).locked ≠ 0 := hk
    have hkl : k ≠ l := by
      rintro rfl
      rw [Function.update_self] at hk'
      exact hk' rfl
    rw [Function.update_of_ne hkl] at hk'
    obtain ⟨d, hd⟩ := h.owned k hk'
    exact ⟨d, (howns d k).mpr ⟨hd, hkl⟩⟩
  · intro d x hx
    show (Function.update m.locks l _ x.1).savedFlags = x.2
    have hx' : x ∈ ((m.setCpu c { m.cpus c with
        top := ⟨.restoring flags flags, rest⟩ }).cpus d).top.held := hx
    have hold : x ∈ (m.cpus d).top.held := by
      by_cases hdc : d = c
      · subst hdc
        rw [setCpu_self] at hx'
        rw [hheld]
        exact List.mem_cons_of_mem _ hx'
      · rwa [setCpu_of_ne m _ hdc] at hx'
    have hsaved := h.saved d x hold
    by_cases hxl : x.1 = l
    · rw [hxl, Function.update_self]
      rwa [hxl] at hsaved
    · rw [Function.update_of_ne hxl]
      exact hsaved

/-- The lock's code keeps the invariant. -/
theorem SpinInv.stepRun (h : SpinInv m) (hstep : m.stepRun c = some m') : SpinInv m' := by
  have hok := (h.cpu c).pc
  unfold Machine.stepRun at hstep
  cases hpc : (m.cpus c).top.pc with
  | idle => simp [hpc] at hstep
  | flagsRead l flags tryOnly =>
    rw [hpc] at hok
    simp only [hpc, Option.some.injEq] at hstep
    subst hstep
    refine h.setPc _ ⟨rfl, fun hne => hok.1.trans (hok.2 hne)⟩ ?_ nofun
    rw [hpc]
    exact nofun
  | spinning l flags tryOnly =>
    rw [hpc] at hok
    simp only [hpc] at hstep
    split_ifs at hstep with hfree htry
    · cases hstep
      exact h.take hpc hfree
    · cases hstep
      refine h.setPc _ (fun hne => ?_) ?_ nofun
      · rw [hok.1, hok.2 hne]
        rfl
      · rw [hpc]
        exact nofun
    · cases hstep
      exact h
  | storing l flags =>
    simp only [hpc, Option.some.injEq] at hstep
    subst hstep
    exact h.store hpc
  | releasing l flags =>
    simp only [hpc, Option.some.injEq] at hstep
    subst hstep
    exact h.unlock hpc
  | restoring flags was =>
    rw [hpc] at hok
    simp only [hpc, Option.some.injEq] at hstep
    subst hstep
    refine h.setPc _ (fun hne => ?_) ?_ nofun
    · rw [hok.1, hok.2.2 hne]
      rfl
    · rw [hpc]
      exact nofun

/-- Every step keeps the invariant. -/
theorem SpinInv.step {op : SpinOp Lk} (h : SpinInv m) (hstep : m.next op = some m') :
    SpinInv m' := by
  cases op with
  | acquire c l =>
    simp only [Machine.next] at hstep
    split_ifs at hstep with hpc
    cases hstep
    exact h.call hpc
  | tryAcquire c l =>
    simp only [Machine.next] at hstep
    split_ifs at hstep with hpc
    cases hstep
    exact h.call hpc
  | release c =>
    simp only [Machine.next] at hstep
    cases hheld : (m.cpus c).top.held with
    | nil => simp [hheld] at hstep
    | cons x rest =>
      obtain ⟨l, flags⟩ := x
      simp only [hheld] at hstep
      split_ifs at hstep with hpc
      cases hstep
      have hok := (h.cpu c).pc
      rw [hpc] at hok
      have hoff : (m.cpus c).interrupts = false :=
        hok (by rw [hheld]; exact List.cons_ne_nil _ _)
      have hsaved : (m.locks l).savedFlags = flags :=
        h.saved c (l, flags) (by rw [hheld]; exact List.mem_cons_self)
      refine h.setPc (m.cpus c).interrupts ⟨hoff, ?_⟩ ?_
        nofun
      · rw [hheld, hsaved]
        rfl
      · rw [hpc]
        exact nofun
  | run c => exact h.stepRun hstep
  | setInterrupts c on =>
    simp only [Machine.next] at hstep
    split_ifs at hstep with htop
    cases hstep
    refine h.setCpu ⟨?_, (h.cpu c).nested, (h.cpu c).nodup, (h.cpu c).calm⟩ (fun _ => Iff.rfl) rfl
    show PcOk on (m.cpus c).top.held (m.cpus c).top.pc
    rw [htop]
    exact fun hne => absurd rfl hne
  | interrupt c =>
    simp only [Machine.next] at hstep
    split_ifs at hstep with hon
    cases hstep
    have hcalm := (h.cpu c).calm_top hon
    refine h.setCpu ⟨fun hne => absurd rfl hne, trivial, List.nodup_nil, fun f hf => ?_⟩
      (owns_iff_of_calm calm_idle hcalm) hcalm.1.symm
    rcases List.mem_cons.mp hf with rfl | hf
    · exact hcalm
    · exact (h.cpu c).calm f hf
  | iretq c =>
    simp only [Machine.next] at hstep
    cases hsus : (m.cpus c).suspended with
    | nil => simp [hsus] at hstep
    | cons frame rest =>
      simp only [hsus] at hstep
      split_ifs at hstep with htop
      cases hstep
      have hcalm := (h.cpu c).calm
      rw [hsus] at hcalm
      have hframe := hcalm frame List.mem_cons_self
      refine h.setCpu
        (cpuOk_of_calm hframe fun g hg => hcalm g (List.mem_cons_of_mem _ hg)) ?_ ?_
      · rw [htop]
        exact owns_iff_of_calm hframe calm_idle
      · rw [htop]
        exact hframe.1
  | createTask =>
    simp only [Machine.next, Option.some.injEq] at hstep
    subst hstep
    refine { h with pool := fun frames hframes f hf => ?_ }
    rcases List.mem_cons.mp hframes with rfl | hframes
    · rw [List.mem_singleton.mp hf]
      exact calm_idle
    · exact h.pool frames hframes f hf
  | switchStack c i =>
    simp only [Machine.next] at hstep
    cases hpool : m.pool[i]? with
    | none => simp [hpool] at hstep
    | some frames =>
      simp only [hpool] at hstep
      split_ifs at hstep with htop
      cases hstep
      have hmem := List.mem_of_getElem? hpool
      have hset : SpinInv (m.setCpu c { m.cpus c with suspended := frames }) := h.setCpu
        ⟨(h.cpu c).pc, (h.cpu c).nested, (h.cpu c).nodup, h.pool frames hmem⟩
        (fun _ => Iff.rfl) rfl
      refine { hset with pool := fun frames' hframes' => ?_ }
      rcases List.mem_or_eq_of_mem_set hframes' with hold | rfl
      · exact h.pool frames' hold
      · exact (h.cpu c).calm

theorem SpinInv.of_reachable (hm : (spinSystem Lk).Reachable m) : SpinInv m := by
  refine hm.invariant (fun m hinit => ?_) fun _ _ _ _ h hstep => h.step hstep
  obtain ⟨hcpus, hfree, hpool⟩ := hinit
  have hnone : ∀ c l, ¬ Owns m c l := by
    intro c l
    unfold Owns
    rw [(hcpus c).1]
    exact calm_idle.not_owns l
  refine ⟨fun c => ?_, ?_, fun c l hl => absurd hl (hnone c l), fun l hl => absurd (hfree l) hl,
    fun c x hx => ?_⟩
  · have htop := (hcpus c).1
    constructor
    · rw [htop]
      exact fun hne => absurd rfl hne
    · rw [htop]
      exact trivial
    · rw [htop]
      exact List.nodup_nil
    · rw [(hcpus c).2]
      exact fun f hf => absurd hf List.not_mem_nil
  · rw [hpool]
    exact fun frames hframes => absurd hframes List.not_mem_nil
  · rw [(hcpus c).1] at hx
    exact absurd hx List.not_mem_nil

end Step

/-! ### Every interleaving -/

/-- What the lock guarantees. -/
structure SpinlockSafe [DecidableEq Lk] (m : Machine Lk) : Prop where
  /-- At most one CPU is in a critical section of a lock. -/
  exclusive : ∀ l c d, Owns m c l → Owns m d l → c = d
  /-- `held_by_self` is exact. -/
  heldBySelf : ∀ c l, (m.locks l).heldBySelf c = true ↔ Owns m c l
  /-- A CPU in a critical section takes no interrupt. -/
  masked : ∀ c l, Owns m c l → (m.cpus c).interrupts = false
  /-- What was interrupted, on a CPU or switched away, is in no critical section. -/
  suspended : ∀ c, ∀ f ∈ (m.cpus c).suspended, ∀ l, ¬ Frame.Owns f l
  pool : ∀ frames ∈ m.pool, ∀ f ∈ frames, ∀ l, ¬ Frame.Owns f l
  /-- A CPU that spins on a lock that it owns is calling `acquire` inside of the same section. -/
  noSelfDeadlock : ∀ c l flags tryOnly, (m.cpus c).top.pc = .spinning l flags tryOnly →
    (m.locks l).heldBySelf c = true → l ∈ (m.cpus c).top.held.map Prod.fst
  /-- `release` leaves the interrupt flag as `acquire` of the same section found it: the flag is
  off until the last step, and that step makes it `was`. -/
  restored : ∀ c flags was, (m.cpus c).top.pc = .restoring flags was →
    flags = was ∧ (m.cpus c).interrupts = false ∧
      ∃ m', m.next (.run c) = some m' ∧ (m'.cpus c).interrupts = was ∧
        (m'.cpus c).top = ⟨.idle, (m.cpus c).top.held⟩
  /-- So does `try_acquire` when it gives up. -/
  gaveUp : ∀ c l flags, (m.cpus c).top.pc = .spinning l flags true → (m.locks l).locked ≠ 0 →
    (m.cpus c).interrupts = false ∧
      ∃ m', m.next (.run c) = some m' ∧ (m'.cpus c).interrupts = flags ∧
        (m'.cpus c).top = ⟨.idle, (m.cpus c).top.held⟩
  /-- While a section is left, an outer one keeps the interrupts off. -/
  outer : ∀ c flags was, (m.cpus c).top.pc = .restoring flags was →
    (m.cpus c).top.held ≠ [] → flags = false

/-- In every interleaving of CPUs that take and give back locks in nested order, are interrupted
and switch between tasks, the lock excludes, its holder is never interrupted, and the interrupt
flag comes back as it was. -/
theorem spinlock_safe [DecidableEq Lk] (m : Machine Lk) (hm : (spinSystem Lk).Reachable m) :
    SpinlockSafe m := by
  have h := SpinInv.of_reachable hm
  have hself : ∀ c l, (m.locks l).heldBySelf c = true ↔ Owns m c l := by
    intro c l
    constructor
    · intro hheld
      have hlocked : (m.locks l).locked = self c := eq_of_beq hheld
      obtain ⟨d, hd⟩ := h.owned l (by rw [hlocked]; exact self_ne_zero c)
      exact self_inj (hlocked.symm.trans (h.owner d l hd)) ▸ hd
    · exact fun hc => beq_iff_eq.mpr (h.owner c l hc)
  constructor
  · exact fun l c d => h.exclusive
  · exact hself
  · exact fun c l hl => (h.cpu c).masked hl
  · exact fun c f hf => ((h.cpu c).calm f hf).not_owns
  · exact fun frames hframes f hf => (h.pool frames hframes f hf).not_owns
  · intro c l flags tryOnly hpc hheld
    rcases (hself c l).mp hheld with hmem | ⟨flags', hstoring⟩
    · exact hmem
    · rw [hpc] at hstoring
      cases hstoring
  · intro c flags was hpc
    have hok := (h.cpu c).pc
    rw [hpc] at hok
    obtain ⟨hoff, rfl, -⟩ := hok
    refine ⟨rfl, hoff, _, by rw [Machine.next, Machine.stepRun, hpc], ?_, ?_⟩
    · rw [setCpu_self, hoff, Bool.false_or]
    · rw [setCpu_self]
  · intro c l flags hpc hlocked
    have hok := (h.cpu c).pc
    rw [hpc] at hok
    refine ⟨hok.1, _, by rw [Machine.next, Machine.stepRun, hpc]; exact if_neg hlocked, ?_, ?_⟩
    · rw [setCpu_self, hok.1, Bool.false_or]
    · rw [setCpu_self]
  · intro c flags was hpc
    have hok := (h.cpu c).pc
    rw [hpc] at hok
    exact hok.2.2

/-- Two locks, one taken inside of the other, with an interrupt in front of the section and
another CPU that spins. -/
def nestedRun : List (SpinOp Bool) :=
  [.setInterrupts 0 true, .acquire 0 false, .interrupt 0, .iretq 0, .run 0, .run 0, .run 0,
    .acquire 0 true, .run 0, .run 0, .run 0, .acquire 1 true, .run 1, .run 1, .release 0, .run 0]

/-- A CPU that is about to restore the flag inside another section, and one that spins. -/
theorem spinlock_safe_nested : ∃ m, (spinSystem Bool).Reachable m ∧
    (m.cpus 0).top = ⟨.restoring false false, [(false, true)]⟩ ∧
    (m.cpus 1).top.pc = .spinning true false false ∧ SpinlockSafe m := by
  have hrun : (TransitionSystem.run Machine.next
      (⟨fun _ => ⟨false, ⟨.idle, []⟩, []⟩, fun _ => .free, []⟩ : Machine Bool) nestedRun).any
        (fun m => decide ((m.cpus 0).top = ⟨.restoring false false, [(false, true)]⟩ ∧
          (m.cpus 1).top.pc = .spinning true false false)) = true := by
    with_unfolding_all decide
  obtain ⟨m, hm, hfacts⟩ := (Option.any_eq_true _ _).mp hrun
  have hreach : (spinSystem Bool).Reachable m :=
    TransitionSystem.reachable_of_run
      (.init ⟨fun _ => ⟨rfl, rfl⟩, fun _ => rfl, rfl⟩) hm
  obtain ⟨htop, hpc⟩ := of_decide_eq_true hfacts
  exact ⟨m, hreach, htop, hpc, spinlock_safe m hreach⟩

end VKernel.Proofs.Sync

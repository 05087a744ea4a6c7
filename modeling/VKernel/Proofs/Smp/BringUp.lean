import Mathlib.Data.List.Nodup
import VKernel.Smp.BringUp

/-!
# `VKernel.Proofs.Smp.BringUp`: the CPUs that are started

`bringUp_safe` holds in every state of every interleaving. A CPU that took its steps while the
boot CPU was waiting for it has the stack of its own index, so two such CPUs share no byte of
stack, and a CPU that is marked online has answered. A CPU that is late takes the stack of
whatever CPU the boot CPU is busy with by then, and its answer counts for that one.
`late_shares_stack` is a run in which this happens.

`bootSlot_private_iff` is about the descriptor tables. The boot CPU takes its slot before the
CPUs are numbered, so it has that slot for itself exactly when it is the first in the list. This
needs no distinct ids: its invariant is `SlotInv`.

The invariant is `BringUpInv`. What carries it is that the ids are distinct: a CPU gets one
INIT, in the round of the loop that has its index, so before this round it is in reset and
after it never returns to reset.
-/

set_option autoImplicit false

namespace VKernel.Proofs.Smp

open VKernel.Lib VKernel.Smp
open VKernel.Sched (ApicId)

/-! ### The list of the CPUs -/

/-- What the enumeration says about its list: the boot CPU is the only one marked online. -/
theorem online_of_mem_enumerate {bsp : ApicId} (entries : List MadtLapic) :
    ∀ cpu ∈ enumerate bsp entries, cpu.online = true → cpu.apicId = bsp := by
  suffices h : ∀ cpus : List CpuInfo, (∀ cpu ∈ cpus, cpu.online = true → cpu.apicId = bsp) →
      ∀ cpu ∈ entries.foldl (addLapic bsp) cpus, cpu.online = true → cpu.apicId = bsp from
    h [] fun cpu hcpu => absurd hcpu List.not_mem_nil
  induction entries with
  | nil => exact fun _ h => h
  | cons entry entries ih =>
    intro cpus h
    refine ih _ fun cpu hcpu hon => ?_
    simp only [addLapic] at hcpu
    split_ifs at hcpu
    · exact h cpu hcpu hon
    · exact h cpu hcpu hon
    · rcases List.mem_append.mp hcpu with hold | hnew
      · exact h cpu hold hon
      · rw [List.mem_singleton.mp hnew] at hon ⊢
        exact of_decide_eq_true hon

/-- Only the boot CPU is listed as online. -/
theorem online_of_mem_listCpus {bsp : ApicId} {entries : List MadtLapic} {cpu : CpuInfo}
    (hcpu : cpu ∈ listCpus bsp entries) (hon : cpu.online = true) : cpu.apicId = bsp := by
  unfold listCpus at hcpu
  split at hcpu
  · rw [List.mem_singleton.mp hcpu]
  · exact online_of_mem_enumerate entries cpu hcpu hon

/-- Marking a CPU online or offline renames none. -/
theorem map_apicId_modify (cpus : List CpuInfo) (i : Nat) (online : Bool) :
    (cpus.modify i fun cpu => { cpu with online := online }).map CpuInfo.apicId =
      cpus.map CpuInfo.apicId := by
  refine List.ext_getElem? fun j => ?_
  rw [List.getElem?_map, List.getElem?_map, List.getElem?_modify]
  cases cpus[j]? with
  | none => rfl
  | some cpu => by_cases h : i = j <;> simp [h]

/-- The id at an index. -/
def idAt (cpus : List CpuInfo) (j : Nat) : Option ApicId := (cpus.map CpuInfo.apicId)[j]?

/-- The id at an index. -/
theorem idAt_eq_some {cpus : List CpuInfo} {j : Nat} {cpu : CpuInfo} (h : cpus[j]? = some cpu) :
    idAt cpus j = some cpu.apicId := by
  rw [idAt, List.getElem?_map, h]
  rfl

/-- An index with an id is in the list. -/
theorem lt_of_idAt {cpus : List CpuInfo} {j : Nat} {c : ApicId} (h : idAt cpus j = some c) :
    j < cpus.length := by
  have hlt := (List.getElem?_eq_some_iff.mp h).1
  rwa [List.length_map] at hlt

/-- Distinct ids stand at distinct indices. -/
theorem idAt_inj {cpus : List CpuInfo} (hnodup : (cpus.map CpuInfo.apicId).Nodup) {i j : Nat}
    {c : ApicId} (hi : idAt cpus i = some c) (hj : idAt cpus j = some c) : i = j :=
  (List.getElem?_inj (List.getElem?_eq_some_iff.mp hi).1 hnodup).mp (hi.trans hj.symm)

/-- The index of a CPU in the list is that of an entry with its id. -/
theorem idAt_currentCpuIndex {cpus : List CpuInfo} {j : Nat} {c : ApicId}
    (hj : idAt cpus j = some c) : idAt cpus (currentCpuIndex cpus c) = some c := by
  have hlt := lt_of_idAt hj
  have hid : (cpus.get ⟨j, hlt⟩).apicId = c := by
    have h := idAt_eq_some (List.getElem?_eq_getElem hlt)
    exact Option.some.inj (h.symm.trans hj)
  unfold currentCpuIndex
  cases hfind : cpus.findIdx? fun cpu => decide (cpu.apicId = c) with
  | none =>
    rw [List.findIdx?_eq_none_iff] at hfind
    have hno := hfind _ (cpus.get_mem ⟨j, hlt⟩)
    exact absurd hid (of_decide_eq_false hno)
  | some i =>
    obtain ⟨hi, hfound, -⟩ := List.findIdx?_eq_some_iff_getElem.mp hfind
    rw [idAt_eq_some (List.getElem?_eq_getElem hi), of_decide_eq_true hfound]

/-- Among distinct ids it is the index of the CPU. -/
theorem currentCpuIndex_eq {cpus : List CpuInfo} (hnodup : (cpus.map CpuInfo.apicId).Nodup)
    {j : Nat} {c : ApicId} (hj : idAt cpus j = some c) : currentCpuIndex cpus c = j :=
  idAt_inj hnodup (idAt_currentCpuIndex hj) hj

/-! ### What a step does -/

/-- The steps of the exchange, with what each of them finds. -/
inductive BringUpStep (bsp : ApicId) (base : Nat) (s : BringUp) : BringUpOp → BringUp → Prop
  | skip {i : Nat} (hpc : s.pc = .next i) (hid : idAt s.cpus i = some bsp) :
      BringUpStep bsp base s .bsp { s with pc := .next (i + 1) }
  | enter {i : Nat} {c : ApicId} (hpc : s.pc = .next i) (hid : idAt s.cpus i = some c)
      (hne : c ≠ bsp) : BringUpStep bsp base s .bsp { s with pc := .writeStack i }
  | writeStack {i : Nat} (hpc : s.pc = .writeStack i) :
      BringUpStep bsp base s .bsp { s with tramStack := stackTop base i, pc := .clearReady i }
  | clearReady {i : Nat} (hpc : s.pc = .clearReady i) :
      BringUpStep bsp base s .bsp { s with tramReady := 0, pc := .sendInit i }
  | sendInit {i : Nat} (hpc : s.pc = .sendInit i) :
      BringUpStep bsp base s .bsp { s.send i .init with pc := .sendSipi i }
  | sendSipi {i : Nat} {pc : BspPc} (hpc : s.pc = .sendSipi i ∧ pc = .sendSecondSipi i ∨
      s.pc = .sendSecondSipi i ∧ pc = .waitReady i READY_POLLS) :
      BringUpStep bsp base s .bsp { s.send i .startup with pc := pc }
  | poll {i polls : Nat} (hpc : s.pc = .waitReady i (polls + 1)) :
      BringUpStep bsp base s .bsp { s with pc := .waitReady i polls }
  | finish {i polls : Nat} {online : Bool} (hpc : s.pc = .waitReady i polls)
      (hready : online = true → s.tramReady ≠ 0) :
      BringUpStep bsp base s .bsp { s.setOnline i online with pc := .next (i + 1) }
  | init {c : ApicId} {rest : List Ipi} (hipis : s.ipis c = .init :: rest) :
      BringUpStep bsp base s (.deliver c) { s with
        ipis := Function.update s.ipis c rest
        aps := Function.update s.aps c { s.aps c with phase := .waitSipi } }
  | startup {c : ApicId} {rest : List Ipi} (hipis : s.ipis c = .startup :: rest)
      (hwait : (s.aps c).phase = .waitSipi) :
      BringUpStep bsp base s (.deliver c) { s with
        ipis := Function.update s.ipis c rest
        aps := Function.update s.aps c { s.aps c with phase := .trampoline } }
  | ignored {c : ApicId} {rest : List Ipi} (hipis : s.ipis c = .startup :: rest)
      (hwait : (s.aps c).phase ≠ .waitSipi) :
      BringUpStep bsp base s (.deliver c) { s with ipis := Function.update s.ipis c rest }
  | loadStack {c : ApicId} (hphase : (s.aps c).phase = .trampoline) :
      BringUpStep bsp base s (.ap c) { s with
        aps := Function.update s.aps c { s.aps c with
          phase := .entered, stack := s.tramStack
          late := (s.aps c).late || decide (s.served ≠ some c) } }
  | activate {c : ApicId} (hphase : (s.aps c).phase = .entered) :
      BringUpStep bsp base s (.ap c) { s with
        aps := Function.update s.aps c { s.aps c with
          phase := .activated, slot := currentCpuIndex s.cpus c } }
  | answer {c : ApicId} (hphase : (s.aps c).phase = .activated) :
      BringUpStep bsp base s (.ap c) { s with
        tramReady := 1
        aps := Function.update s.aps c { s.aps c with
          phase := .ready, late := (s.aps c).late || decide (s.served ≠ some c) } }

/-- The boot CPU takes one of these steps, -/
theorem bringUpStep_of_stepBsp {bsp : ApicId} {base : Nat} {s t : BringUp}
    (hstep : s.stepBsp bsp base = some t) : BringUpStep bsp base s .bsp t := by
  unfold BringUp.stepBsp at hstep
  cases hpc : s.pc with
  | next i =>
    rw [hpc] at hstep
    cases hcpu : s.cpus[i]? with
    | none => simp [hcpu] at hstep
    | some cpu =>
      simp only [hcpu] at hstep
      split_ifs at hstep with hbsp
      · cases hstep
        exact .skip hpc (hbsp ▸ idAt_eq_some hcpu)
      · cases hstep
        exact .enter hpc (idAt_eq_some hcpu) hbsp
  | writeStack i =>
    rw [hpc] at hstep
    cases hstep
    exact .writeStack hpc
  | clearReady i =>
    rw [hpc] at hstep
    cases hstep
    exact .clearReady hpc
  | sendInit i =>
    rw [hpc] at hstep
    cases hstep
    exact .sendInit hpc
  | sendSipi i =>
    rw [hpc] at hstep
    cases hstep
    exact .sendSipi (Or.inl ⟨hpc, rfl⟩)
  | sendSecondSipi i =>
    rw [hpc] at hstep
    cases hstep
    exact .sendSipi (Or.inr ⟨hpc, rfl⟩)
  | waitReady i polls =>
    rw [hpc] at hstep
    cases polls with
    | zero =>
      cases hstep
      exact .finish hpc fun hcon => absurd hcon Bool.false_ne_true
    | succ polls =>
      simp only at hstep
      split_ifs at hstep with hready
      · cases hstep
        exact .finish hpc fun _ => hready
      · cases hstep
        exact .poll hpc

/-- and so do an IPI and the CPU that it is for. -/
theorem bringUpStep_of_next {bsp : ApicId} {base : Nat} {s t : BringUp} {op : BringUpOp}
    (hstep : s.next bsp base op = some t) : BringUpStep bsp base s op t := by
  cases op with
  | bsp => exact bringUpStep_of_stepBsp hstep
  | deliver c =>
    have hstep : s.stepDeliver c = some t := hstep
    unfold BringUp.stepDeliver at hstep
    cases hipis : s.ipis c with
    | nil => simp [hipis] at hstep
    | cons ipi rest =>
      cases ipi with
      | init =>
        simp only [hipis, Option.some.injEq] at hstep
        obtain rfl := hstep
        exact .init hipis
      | startup =>
        simp only [hipis, Option.some.injEq] at hstep
        obtain rfl := hstep
        by_cases hwait : (s.aps c).phase = .waitSipi
        · simp only [hwait, if_true]
          exact .startup hipis hwait
        · simp only [hwait, if_false, Function.update_eq_self]
          exact .ignored hipis hwait
  | ap c =>
    have hstep : s.stepAp c = some t := hstep
    unfold BringUp.stepAp at hstep
    cases hphase : (s.aps c).phase with
    | off => simp [hphase] at hstep
    | waitSipi => simp [hphase] at hstep
    | ready => simp [hphase] at hstep
    | trampoline =>
      simp only [hphase, Option.some.injEq] at hstep
      obtain rfl := hstep
      exact .loadStack hphase
    | entered =>
      simp only [hphase, Option.some.injEq] at hstep
      obtain rfl := hstep
      exact .activate hphase
    | activated =>
      simp only [hphase, Option.some.injEq] at hstep
      obtain rfl := hstep
      exact .answer hphase

/-! ### The invariant -/

/-- The first index to which nothing was sent yet. -/
def fence : BspPc → Nat
  | .next i | .writeStack i | .clearReady i | .sendInit i => i
  | .sendSipi i | .sendSecondSipi i | .waitReady i _ => i + 1

/-- `TRAM_STACK` was written in this round of the loop. -/
def wroteStack : BspPc → Bool
  | .next _ | .writeStack _ => false
  | _ => true

/-- `TRAM_READY` was cleared in this round of the loop. -/
def clearedReady : BspPc → Bool
  | .sendInit _ | .sendSipi _ | .sendSecondSipi _ | .waitReady _ _ => true
  | _ => false

/-- The boot CPU has sent an IPI to `c`, which has the index `j`. -/
structure Contacted (bsp : ApicId) (s : BringUp) (c : ApicId) (j : Nat) : Prop where
  id : idAt s.cpus j = some c
  ne : c ≠ bsp
  lt : j < fence s.pc

/-- `c` has written `TRAM_READY`, or some CPU was late. -/
def Answered (s : BringUp) (c : ApicId) : Prop :=
  (s.aps c).phase = .ready ∨ ∃ d, (s.aps d).late = true

/-- A stack of an index from `j` on. -/
def StackFrom (base : Nat) (s : BringUp) (j stack : Nat) : Prop :=
  ∃ k, j ≤ k ∧ k < s.cpus.length ∧ stack = stackTop base k

/-- The invariant of the exchange. -/
structure BringUpInv (bsp : ApicId) (base : Nat) (cpus : List CpuInfo) (s : BringUp) : Prop where
  ids : s.cpus.map CpuInfo.apicId = cpus.map CpuInfo.apicId
  /-- A CPU to which nothing was sent is in reset, and nothing is on the way to it. -/
  quiet : ∀ c, (∀ j, ¬ Contacted bsp s c j) → (s.aps c).phase = .off ∧ s.ipis c = []
  /-- At most one INIT is on the way to a CPU, and then the CPU is in reset. -/
  one : ∀ c, (s.ipis c).count .init ≤ 1
  reset : ∀ c, .init ∈ s.ipis c → (s.aps c).phase = .off
  /-- Inside of a round the index is that of another CPU. -/
  round : (∀ i, s.pc ≠ .next i) → ∃ c, idAt s.cpus s.pc.index = some c ∧ c ≠ bsp
  tram : wroteStack s.pc = true → s.tramStack = stackTop base s.pc.index
  tramFrom : ∀ c j, Contacted bsp s c j → StackFrom base s j s.tramStack
  stack : ∀ c j, idAt s.cpus j = some c → (s.aps c).phase.hasStack = true →
    (s.aps c).late = false → (s.aps c).stack = stackTop base j
  stackFrom : ∀ c j, idAt s.cpus j = some c → (s.aps c).phase.hasStack = true →
    StackFrom base s j (s.aps c).stack
  slot : ∀ c j, idAt s.cpus j = some c → (s.aps c).phase.hasSlot = true → (s.aps c).slot = j
  answer : clearedReady s.pc = true → s.tramReady ≠ 0 →
    ∀ c, idAt s.cpus s.pc.index = some c → Answered s c
  online : ∀ cpu ∈ s.cpus, cpu.online = true → cpu.apicId = bsp ∨ Answered s cpu.apicId

section Invariant

variable {bsp : ApicId} {base : Nat} {cpus : List CpuInfo} {s t : BringUp}

/-- A CPU that left reset was contacted. -/
theorem BringUpInv.contacted (h : BringUpInv bsp base cpus s) {c : ApicId}
    (hc : (s.aps c).phase ≠ .off ∨ s.ipis c ≠ []) : ∃ j, Contacted bsp s c j := by
  by_contra hno
  have hquiet := h.quiet c (not_exists.mp hno)
  rcases hc with hc | hc
  · exact hc hquiet.1
  · exact hc hquiet.2

/-- The boot CPU serves the CPU with the index of the loop. -/
theorem served_eq (s : BringUp) : s.served = idAt s.cpus s.pc.index := by
  rw [idAt, List.getElem?_map]
  rfl

/-- The invariant holds before the first step. -/
theorem BringUpInv.start (hon : ∀ cpu ∈ cpus, cpu.online = true → cpu.apicId = bsp)
    (hs : BringUp.Start cpus s) : BringUpInv bsp base cpus s := by
  have hoff := hs.off
  have hnone : ∀ c j, ¬ Contacted bsp s c j := by
    intro c j hc
    have hlt := hc.lt
    rw [hs.pc_eq] at hlt
    exact absurd hlt (Nat.not_lt_zero j)
  constructor
  · rw [hs.cpus_eq]
  · exact fun c _ => ⟨hoff c, hs.ipis_eq c⟩
  · intro c
    rw [hs.ipis_eq]
    exact Nat.zero_le 1
  · exact fun c _ => hoff c
  · exact fun h => absurd hs.pc_eq (h 0)
  · intro h
    rw [hs.pc_eq] at h
    exact absurd h Bool.false_ne_true
  · exact fun c j hc => absurd hc (hnone c j)
  · intro c j _ h
    rw [hoff c] at h
    exact absurd h Bool.false_ne_true
  · intro c j _ h
    rw [hoff c] at h
    exact absurd h Bool.false_ne_true
  · intro c j _ h
    rw [hoff c] at h
    exact absurd h Bool.false_ne_true
  · intro h
    rw [hs.pc_eq] at h
    exact absurd h Bool.false_ne_true
  · intro cpu hcpu hcon
    rw [hs.cpus_eq] at hcpu
    exact Or.inl (hon cpu hcpu hcon)

/-- A step that only moves the boot CPU on, past an index that needs no start. -/
theorem BringUpInv.skip {i : Nat} (h : BringUpInv bsp base cpus s) (hpc : s.pc = .next i)
    (hbsp : idAt s.cpus i = some bsp) :
    BringUpInv bsp base cpus { s with pc := .next (i + 1) } := by
  -- The boot CPU's own index joins the indices behind the fence, but it is nobody's contact.
  have hcon : ∀ c j, Contacted bsp { s with pc := .next (i + 1) } c j ↔ Contacted bsp s c j := by
    intro c j
    constructor
    · intro hc
      have hji : j ≠ i := by
        rintro rfl
        exact hc.ne (Option.some.inj (hc.id.symm.trans hbsp))
      have hlt : j < i + 1 := hc.lt
      refine ⟨hc.id, hc.ne, ?_⟩
      show j < fence s.pc
      rw [hpc]
      show j < i
      omega
    · intro hc
      have hlt := hc.lt
      rw [hpc] at hlt
      exact ⟨hc.id, hc.ne, Nat.lt_succ_of_lt hlt⟩
  exact
    { h with
      quiet := fun c hno => h.quiet c fun j hc => hno j ((hcon c j).mpr hc)
      round := fun hno => absurd rfl (hno (i + 1))
      tram := fun hw => absurd hw Bool.false_ne_true
      tramFrom := fun c j hc => h.tramFrom c j ((hcon c j).mp hc)
      answer := fun hw => absurd hw Bool.false_ne_true }

/-- A step that enters the round of another CPU. -/
theorem BringUpInv.enter {i : Nat} {c : ApicId} (h : BringUpInv bsp base cpus s)
    (hpc : s.pc = .next i) (hid : idAt s.cpus i = some c) (hne : c ≠ bsp) :
    BringUpInv bsp base cpus { s with pc := .writeStack i } := by
  have hcon : ∀ c j, Contacted bsp { s with pc := .writeStack i } c j ↔ Contacted bsp s c j := by
    intro c j
    have hf : fence s.pc = i := by rw [hpc]; rfl
    exact ⟨fun hc => ⟨hc.id, hc.ne, hf ▸ hc.lt⟩, fun hc => ⟨hc.id, hc.ne, hf ▸ hc.lt⟩⟩
  exact
    { h with
      quiet := fun d hno => h.quiet d fun j hd => hno j ((hcon d j).mpr hd)
      round := fun _ => ⟨c, hid, hne⟩
      tram := fun hw => absurd hw Bool.false_ne_true
      tramFrom := fun d j hd => h.tramFrom d j ((hcon d j).mp hd)
      answer := fun hw => absurd hw Bool.false_ne_true }

/-- The boot CPU writes the stack pointer. -/
theorem BringUpInv.writeStack {i : Nat} (h : BringUpInv bsp base cpus s)
    (hpc : s.pc = .writeStack i) :
    BringUpInv bsp base cpus { s with tramStack := stackTop base i, pc := .clearReady i } := by
  have hf : fence s.pc = i := by rw [hpc]; rfl
  obtain ⟨c, hid, hne⟩ := h.round fun j hj => by rw [hpc] at hj; cases hj
  have hid' : idAt s.cpus i = some c := by rwa [hpc] at hid
  exact
    { h with
      quiet := fun d hno => h.quiet d fun j hd => hno j ⟨hd.id, hd.ne, hf ▸ hd.lt⟩
      round := fun _ => ⟨c, hid', hne⟩
      tram := fun _ => rfl
      -- Everyone contacted so far has a smaller index than the stack that is announced now.
      tramFrom := fun d j hd => ⟨i, Nat.le_of_lt hd.lt, lt_of_idAt hid', rfl⟩
      answer := fun hw => absurd hw Bool.false_ne_true }

/-- It clears the flag. -/
theorem BringUpInv.clearReady {i : Nat} (h : BringUpInv bsp base cpus s)
    (hpc : s.pc = .clearReady i) :
    BringUpInv bsp base cpus { s with tramReady := 0, pc := .sendInit i } := by
  have hf : fence s.pc = i := by rw [hpc]; rfl
  have hround := h.round fun j hj => by rw [hpc] at hj; cases hj
  have htram := h.tram (by rw [hpc]; rfl)
  rw [hpc] at hround htram
  exact
    { h with
      quiet := fun d hno => h.quiet d fun j hd => hno j ⟨hd.id, hd.ne, hf ▸ hd.lt⟩
      round := fun _ => hround
      tram := fun _ => htram
      tramFrom := fun d j hd => h.tramFrom d j ⟨hd.id, hd.ne, hf ▸ hd.lt⟩
      answer := fun _ h0 => absurd rfl h0 }

/-- Sending an IPI, seen from the queues. -/
theorem send_eq {i : Nat} {c : ApicId} (ipi : Ipi) (hid : idAt s.cpus i = some c) :
    s.send i ipi = { s with ipis := Function.update s.ipis c (s.ipis c ++ [ipi]) } := by
  unfold BringUp.send
  cases hcpu : s.cpus[i]? with
  | none =>
    rw [idAt, List.getElem?_map, hcpu] at hid
    cases hid
  | some cpu =>
    obtain rfl : cpu.apicId = c := Option.some.inj ((idAt_eq_some hcpu).symm.trans hid)
    rfl

/-- The INIT of a round. The CPU is in reset, since nothing was sent to it before. -/
theorem BringUpInv.sendInit {i : Nat} (hnodup : (cpus.map CpuInfo.apicId).Nodup)
    (h : BringUpInv bsp base cpus s) (hpc : s.pc = .sendInit i) :
    BringUpInv bsp base cpus { s.send i .init with pc := .sendSipi i } := by
  obtain ⟨c, hid, hne⟩ := h.round fun j hj => by rw [hpc] at hj; cases hj
  have htram := h.tram (by rw [hpc]; rfl)
  have hanswer := h.answer (by rw [hpc]; rfl)
  rw [hpc] at hid htram hanswer
  have hid : idAt s.cpus i = some c := hid
  rw [send_eq .init hid]
  have hf : fence s.pc = i := by rw [hpc]; rfl
  have hfresh : ∀ j, ¬ Contacted bsp s c j := by
    intro j hc
    have hlt := hc.lt
    have hji := idAt_inj (h.ids ▸ hnodup) hc.id hid
    omega
  obtain ⟨hoff, hempty⟩ := h.quiet c hfresh
  have hcon : ∀ d j, Contacted bsp s d j → Contacted bsp
      { s with
        ipis := Function.update s.ipis c (s.ipis c ++ [.init]), pc := .sendSipi i } d j := by
    intro d j hd
    have hlt := hd.lt
    exact ⟨hd.id, hd.ne, by show j < i + 1; omega⟩
  have hnew : Contacted bsp
      { s with
        ipis := Function.update s.ipis c (s.ipis c ++ [.init]), pc := .sendSipi i } c i :=
    ⟨hid, hne, Nat.lt_succ_self i⟩
  exact
    { h with
      quiet := by
        intro d hno
        have hdc : d ≠ c := by
          rintro rfl
          exact hno i hnew
        have hquiet := h.quiet d fun j hd => hno j (hcon d j hd)
        refine ⟨hquiet.1, ?_⟩
        show Function.update s.ipis c _ d = []
        rw [Function.update_of_ne hdc]
        exact hquiet.2
      one := by
        intro d
        show (Function.update s.ipis c _ d).count _ ≤ 1
        by_cases hdc : d = c
        · rw [hdc, Function.update_self, hempty]
          decide
        · rw [Function.update_of_ne hdc]
          exact h.one d
      reset := by
        intro d hd
        by_cases hdc : d = c
        · rw [hdc]
          exact hoff
        · have hd' : Ipi.init ∈ Function.update s.ipis c (s.ipis c ++ [.init]) d := hd
          rw [Function.update_of_ne hdc] at hd'
          exact h.reset d hd'
      round := fun _ => ⟨c, hid, hne⟩
      tram := fun _ => htram
      tramFrom := by
        intro d j hd
        refine ⟨i, ?_, lt_of_idAt hid, htram⟩
        have hlt : j < i + 1 := hd.lt
        omega
      answer := fun _ => hanswer }

/-- A SIPI of a round. -/
theorem BringUpInv.sendSipi {i : Nat} {pc : BspPc} (h : BringUpInv bsp base cpus s)
    (hpc : s.pc = .sendSipi i ∧ pc = .sendSecondSipi i ∨
      s.pc = .sendSecondSipi i ∧ pc = .waitReady i READY_POLLS) :
    BringUpInv bsp base cpus { s.send i .startup with pc } := by
  have hindex : s.pc.index = i ∧ pc.index = i := by
    rcases hpc with ⟨h₁, h₂⟩ | ⟨h₁, h₂⟩ <;> exact ⟨h₁ ▸ rfl, h₂ ▸ rfl⟩
  have hfence : fence s.pc = fence pc := by
    rcases hpc with ⟨h₁, h₂⟩ | ⟨h₁, h₂⟩ <;> rw [h₁, h₂] <;> rfl
  have hflags : wroteStack s.pc = true ∧ clearedReady s.pc = true := by
    rcases hpc with ⟨h₁, -⟩ | ⟨h₁, -⟩ <;> rw [h₁] <;> exact ⟨rfl, rfl⟩
  obtain ⟨c, hid, hne⟩ := h.round fun j hj => by
    rcases hpc with ⟨h₁, -⟩ | ⟨h₁, -⟩ <;> rw [h₁] at hj <;> cases hj
  have htram := h.tram hflags.1
  have hanswer := h.answer hflags.2
  rw [hindex.1] at hid htram hanswer
  rw [send_eq .startup hid]
  have hcontact : Contacted bsp s c i := by
    refine ⟨hid, hne, ?_⟩
    rcases hpc with ⟨h₁, -⟩ | ⟨h₁, -⟩ <;> rw [h₁] <;> exact Nat.lt_succ_self i
  have hcon : ∀ d j, Contacted bsp
      { s with ipis := Function.update s.ipis c (s.ipis c ++ [.startup]), pc } d j ↔
        Contacted bsp s d j :=
    fun d j => ⟨fun hd => ⟨hd.id, hd.ne, hfence ▸ hd.lt⟩, fun hd => ⟨hd.id, hd.ne, hfence ▸ hd.lt⟩⟩
  exact
    { h with
      quiet := by
        intro d hno
        have hdc : d ≠ c := by
          rintro rfl
          exact hno i ((hcon d i).mpr hcontact)
        have hquiet := h.quiet d fun j hd => hno j ((hcon d j).mpr hd)
        refine ⟨hquiet.1, ?_⟩
        show Function.update s.ipis c _ d = []
        rw [Function.update_of_ne hdc]
        exact hquiet.2
      one := by
        intro d
        show (Function.update s.ipis c _ d).count _ ≤ 1
        by_cases hdc : d = c
        · rw [hdc, Function.update_self, List.count_append]
          exact h.one c
        · rw [Function.update_of_ne hdc]
          exact h.one d
      reset := by
        intro d hd
        have hd' : Ipi.init ∈ Function.update s.ipis c (s.ipis c ++ [.startup]) d := hd
        by_cases hdc : d = c
        · rw [hdc, Function.update_self] at hd'
          rw [hdc]
          refine h.reset c ?_
          simpa using hd'
        · rw [Function.update_of_ne hdc] at hd'
          exact h.reset d hd'
      round := fun _ => ⟨c, hindex.2.symm ▸ hid, hne⟩
      tram := fun _ => by
        show s.tramStack = stackTop base pc.index
        rw [hindex.2]
        exact htram
      tramFrom := fun d j hd => h.tramFrom d j ((hcon d j).mp hd)
      answer := fun _ h0 d hd => hanswer h0 d (by rw [← hindex.2]; exact hd) }

/-- A poll that finds nothing. -/
theorem BringUpInv.poll {i polls : Nat} (h : BringUpInv bsp base cpus s)
    (hpc : s.pc = .waitReady i (polls + 1)) :
    BringUpInv bsp base cpus { s with pc := .waitReady i polls } := by
  have hf : fence s.pc = i + 1 := by rw [hpc]; rfl
  have hround := h.round fun j hj => by rw [hpc] at hj; cases hj
  have htram := h.tram (by rw [hpc]; rfl)
  have hanswer := h.answer (by rw [hpc]; rfl)
  rw [hpc] at hround htram hanswer
  have hcon : ∀ d j, Contacted bsp { s with pc := .waitReady i polls } d j ↔ Contacted bsp s d j :=
    fun d j => ⟨fun hd => ⟨hd.id, hd.ne, hf.symm ▸ hd.lt⟩,
      fun hd => ⟨hd.id, hd.ne, (hf ▸ hd.lt : j < i + 1)⟩⟩
  exact
    { h with
      quiet := fun d hno => h.quiet d fun j hd => hno j ((hcon d j).mpr hd)
      round := fun _ => hround
      tram := fun _ => htram
      tramFrom := fun d j hd => h.tramFrom d j ((hcon d j).mp hd)
      answer := fun _ => hanswer }

/-- The end of a round, with the result that is noted for its CPU. -/
theorem BringUpInv.finish {i polls : Nat} {online : Bool} (h : BringUpInv bsp base cpus s)
    (hpc : s.pc = .waitReady i polls)
    (hon : online = true → ∀ c, idAt s.cpus i = some c → Answered s c) :
    BringUpInv bsp base cpus { s.setOnline i online with pc := .next (i + 1) } := by
  have hf : fence s.pc = i + 1 := by rw [hpc]; rfl
  have hmap := map_apicId_modify s.cpus i online
  have hid : ∀ j, idAt (s.setOnline i online).cpus j = idAt s.cpus j := by
    intro j
    show ((s.cpus.modify i _).map _)[j]? = _
    rw [hmap]
    rfl
  have hlen : (s.setOnline i online).cpus.length = s.cpus.length := List.length_modify ..
  have hcon : ∀ d j, Contacted bsp { s.setOnline i online with pc := .next (i + 1) } d j ↔
      Contacted bsp s d j := by
    intro d j
    constructor
    · exact fun hd => ⟨(hid j).symm.trans hd.id, hd.ne, hf ▸ hd.lt⟩
    · exact fun hd => ⟨(hid j).trans hd.id, hd.ne, hf ▸ hd.lt⟩
  constructor
  · exact hmap.trans h.ids
  · exact fun d hno => h.quiet d fun j hd => hno j ((hcon d j).mpr hd)
  · exact h.one
  · exact h.reset
  · exact fun hno => absurd rfl (hno (i + 1))
  · exact fun hw => absurd hw Bool.false_ne_true
  · intro d j hd
    obtain ⟨k, hjk, hk, heq⟩ := h.tramFrom d j ((hcon d j).mp hd)
    exact ⟨k, hjk, hlen.symm ▸ hk, heq⟩
  · exact fun d j hd => h.stack d j ((hid j).symm.trans hd)
  · intro d j hd hstack
    obtain ⟨k, hjk, hk, heq⟩ := h.stackFrom d j ((hid j).symm.trans hd) hstack
    exact ⟨k, hjk, hlen.symm ▸ hk, heq⟩
  · exact fun d j hd => h.slot d j ((hid j).symm.trans hd)
  · exact fun hw => absurd hw Bool.false_ne_true
  · -- Only the entry of this round has changed.
    intro cpu hcpu hcon
    obtain ⟨j, hj⟩ := List.mem_iff_getElem?.mp hcpu
    have hj : (s.cpus.modify i fun cpu => { cpu with online := online })[j]? = some cpu := hj
    rw [List.getElem?_modify] at hj
    cases hold : s.cpus[j]? with
    | none => simp [hold] at hj
    | some old =>
      by_cases hij : i = j
      · simp only [hold, hij, if_true, Option.map_eq_map, Option.map_some] at hj
        obtain rfl := Option.some.inj hj
        have hidj : idAt s.cpus j = some old.apicId := idAt_eq_some hold
        exact Or.inr (hon hcon old.apicId (hij ▸ hidj))
      · simp only [hold, hij, if_false, Option.map_eq_map, Option.map_some] at hj
        obtain rfl := Option.some.inj hj
        exact h.online old (List.mem_of_getElem? hold) hcon

/-- An IPI leaves the queue. -/
theorem BringUpInv.pop {c : ApicId} {ipi : Ipi} {rest : List Ipi}
    (h : BringUpInv bsp base cpus s) (hipis : s.ipis c = ipi :: rest) :
    BringUpInv bsp base cpus { s with ipis := Function.update s.ipis c rest } := by
  obtain ⟨j, hj⟩ := h.contacted (c := c) (Or.inr (by rw [hipis]; exact List.cons_ne_nil _ _))
  exact
    { h with
      quiet := by
        intro d hno
        have hdc : d ≠ c := by
          rintro rfl
          exact hno j ⟨hj.id, hj.ne, hj.lt⟩
        have hquiet := h.quiet d fun k hd => hno k ⟨hd.id, hd.ne, hd.lt⟩
        refine ⟨hquiet.1, ?_⟩
        show Function.update s.ipis c rest d = []
        rw [Function.update_of_ne hdc]
        exact hquiet.2
      one := by
        intro d
        show (Function.update s.ipis c rest d).count _ ≤ 1
        by_cases hdc : d = c
        · have hone := h.one c
          rw [hipis] at hone
          rw [hdc, Function.update_self]
          exact Nat.le_trans (List.count_le_count_cons) hone
        · rw [Function.update_of_ne hdc]
          exact h.one d
      reset := by
        intro d hd
        have hd' : Ipi.init ∈ Function.update s.ipis c rest d := hd
        by_cases hdc : d = c
        · rw [hdc, Function.update_self] at hd'
          rw [hdc]
          exact h.reset c (by rw [hipis]; exact List.mem_cons_of_mem _ hd')
        · rw [Function.update_of_ne hdc] at hd'
          exact h.reset d hd'
      tramFrom := fun d k hd => h.tramFrom d k ⟨hd.id, hd.ne, hd.lt⟩ }

/-- A CPU that was contacted changes its state. What it has answered stays answered. -/
theorem BringUpInv.setAp {c : ApicId} {j : Nat} {ap : Ap}
    (hnodup : (cpus.map CpuInfo.apicId).Nodup) (h : BringUpInv bsp base cpus s)
    (hj : Contacted bsp s c j) (hinit : Ipi.init ∉ s.ipis c)
    (hstack : ap.phase.hasStack = true →
      (ap.late = false → ap.stack = stackTop base j) ∧ StackFrom base s j ap.stack)
    (hslot : ap.phase.hasSlot = true → ap.slot = j)
    (hready : (s.aps c).phase = .ready → ap.phase = .ready)
    (hlate : (s.aps c).late = true → ap.late = true) :
    BringUpInv bsp base cpus { s with aps := Function.update s.aps c ap } := by
  have hself : Function.update s.aps c ap c = ap := Function.update_self ..
  have hother : ∀ d, d ≠ c → Function.update s.aps c ap d = s.aps d :=
    fun d hd => Function.update_of_ne hd ..
  have hindex : ∀ k, idAt s.cpus k = some c → k = j :=
    fun k hk => idAt_inj (h.ids ▸ hnodup) hk hj.id
  have hanswered : ∀ d, Answered s d →
      Answered { s with aps := Function.update s.aps c ap } d := by
    intro d hd
    rcases hd with hd | ⟨e, he⟩
    · left
      show (Function.update s.aps c ap d).phase = .ready
      by_cases hdc : d = c
      · subst hdc
        rw [hself]
        exact hready hd
      · rw [hother d hdc]
        exact hd
    · right
      refine ⟨e, ?_⟩
      show (Function.update s.aps c ap e).late = true
      by_cases hec : e = c
      · subst hec
        rw [hself]
        exact hlate he
      · rw [hother e hec]
        exact he
  exact
    { h with
      quiet := by
        intro d hno
        have hdc : d ≠ c := by
          rintro rfl
          exact hno j ⟨hj.id, hj.ne, hj.lt⟩
        have hquiet := h.quiet d fun k hd => hno k ⟨hd.id, hd.ne, hd.lt⟩
        refine ⟨?_, hquiet.2⟩
        show (Function.update s.aps c ap d).phase = .off
        rw [hother d hdc]
        exact hquiet.1
      reset := by
        intro d hd
        have hdc : d ≠ c := by
          rintro rfl
          exact hinit hd
        show (Function.update s.aps c ap d).phase = .off
        rw [hother d hdc]
        exact h.reset d hd
      tramFrom := fun d k hd => h.tramFrom d k ⟨hd.id, hd.ne, hd.lt⟩
      stack := by
        intro d k hd
        show (Function.update s.aps c ap d).phase.hasStack = true →
          (Function.update s.aps c ap d).late = false →
            (Function.update s.aps c ap d).stack = stackTop base k
        by_cases hdc : d = c
        · subst hdc
          rw [hself, hindex k hd]
          exact fun hp => (hstack hp).1
        · rw [hother d hdc]
          exact h.stack d k hd
      stackFrom := by
        intro d k hd
        show (Function.update s.aps c ap d).phase.hasStack = true →
          StackFrom base s k (Function.update s.aps c ap d).stack
        by_cases hdc : d = c
        · subst hdc
          rw [hself, hindex k hd]
          exact fun hp => (hstack hp).2
        · rw [hother d hdc]
          exact h.stackFrom d k hd
      slot := by
        intro d k hd
        show (Function.update s.aps c ap d).phase.hasSlot = true →
          (Function.update s.aps c ap d).slot = k
        by_cases hdc : d = c
        · subst hdc
          rw [hself, hindex k hd]
          exact hslot
        · rw [hother d hdc]
          exact h.slot d k hd
      answer := fun hw h0 d hd => hanswered d (h.answer hw h0 d hd)
      online := fun cpu hcpu hon => (h.online cpu hcpu hon).imp id (hanswered _) }

/-- A CPU that runs was contacted, and no INIT is on the way to it. -/
theorem BringUpInv.running {c : ApicId} (h : BringUpInv bsp base cpus s)
    (hc : (s.aps c).phase ≠ .off) : Ipi.init ∉ s.ipis c ∧ ∃ j, Contacted bsp s c j :=
  ⟨fun hinit => hc (h.reset c hinit), h.contacted (Or.inl hc)⟩

/-- An INIT arrives. It was the only one, and it finds the CPU in reset. -/
theorem BringUpInv.init {c : ApicId} {rest : List Ipi}
    (hnodup : (cpus.map CpuInfo.apicId).Nodup) (h : BringUpInv bsp base cpus s)
    (hipis : s.ipis c = .init :: rest) :
    BringUpInv bsp base cpus { s with
      ipis := Function.update s.ipis c rest
      aps := Function.update s.aps c { s.aps c with phase := .waitSipi } } := by
  have hpop := h.pop hipis
  obtain ⟨j, hj⟩ := h.contacted (c := c) (Or.inr (by rw [hipis]; exact List.cons_ne_nil _ _))
  have hj' : Contacted bsp { s with ipis := Function.update s.ipis c rest } c j :=
    ⟨hj.id, hj.ne, hj.lt⟩
  have hoff := h.reset c (by rw [hipis]; exact List.mem_cons_self)
  have hinit : Ipi.init ∉ Function.update s.ipis c rest c := by
    have hone := h.one c
    rw [hipis, List.count_cons_self] at hone
    rw [Function.update_self]
    exact List.count_eq_zero.mp (by omega)
  refine hpop.setAp hnodup hj' hinit ?_ ?_ ?_ id
  · exact fun hp => absurd hp Bool.false_ne_true
  · exact fun hp => absurd hp Bool.false_ne_true
  · intro hready
    rw [show (s.aps c).phase = .off from hoff] at hready
    cases hready

/-- A SIPI starts the CPU that waits for it. -/
theorem BringUpInv.startup {c : ApicId} {rest : List Ipi}
    (hnodup : (cpus.map CpuInfo.apicId).Nodup) (h : BringUpInv bsp base cpus s)
    (hipis : s.ipis c = .startup :: rest) (hwait : (s.aps c).phase = .waitSipi) :
    BringUpInv bsp base cpus { s with
      ipis := Function.update s.ipis c rest
      aps := Function.update s.aps c { s.aps c with phase := .trampoline } } := by
  have hpop := h.pop hipis
  obtain ⟨hinit, j, hj⟩ := hpop.running (c := c) (by
    show (s.aps c).phase ≠ .off
    rw [hwait]
    exact ApPhase.noConfusion)
  refine hpop.setAp hnodup hj hinit ?_ ?_ ?_ id
  · exact fun hp => absurd hp Bool.false_ne_true
  · exact fun hp => absurd hp Bool.false_ne_true
  · intro hready
    rw [show (s.aps c).phase = .waitSipi from hwait] at hready
    cases hready

/-- A CPU loads its stack. -/
theorem BringUpInv.loadStack {c : ApicId} (hnodup : (cpus.map CpuInfo.apicId).Nodup)
    (h : BringUpInv bsp base cpus s) (hphase : (s.aps c).phase = .trampoline) :
    BringUpInv bsp base cpus { s with aps := Function.update s.aps c { s.aps c with
      phase := .entered, stack := s.tramStack
      late := (s.aps c).late || decide (s.served ≠ some c) } } := by
  obtain ⟨hinit, j, hj⟩ := h.running (c := c) (by rw [hphase]; exact ApPhase.noConfusion)
  refine h.setAp hnodup hj hinit (fun _ => ⟨fun hlate => ?_, h.tramFrom c j hj⟩)
    (fun hp => absurd hp Bool.false_ne_true)
    (fun hready => by rw [hphase] at hready; cases hready)
    (fun hlate => by simp [hlate])
  -- The boot CPU is in the round of `c`, and has sent to it, so the stack is that of `j`.
  have hserved : s.served = some c := by
    have h₂ := (Bool.or_eq_false_iff.mp hlate).2
    exact not_not.mp (of_decide_eq_false h₂)
  rw [served_eq] at hserved
  have hji : s.pc.index = j := idAt_inj (h.ids ▸ hnodup) hserved hj.id
  have hlt := hj.lt
  have hwrote : wroteStack s.pc = true := by
    cases hpc : s.pc with
    | next i =>
      rw [hpc] at hji hlt
      exact absurd hlt (by rw [← hji]; exact Nat.lt_irrefl i)
    | writeStack i =>
      rw [hpc] at hji hlt
      exact absurd hlt (by rw [← hji]; exact Nat.lt_irrefl i)
    | clearReady i => rfl
    | sendInit i => rfl
    | sendSipi i => rfl
    | sendSecondSipi i => rfl
    | waitReady i polls => rfl
  exact hji ▸ h.tram hwrote

/-- A CPU takes its descriptor tables. -/
theorem BringUpInv.activate {c : ApicId} (hnodup : (cpus.map CpuInfo.apicId).Nodup)
    (h : BringUpInv bsp base cpus s) (hphase : (s.aps c).phase = .entered) :
    BringUpInv bsp base cpus { s with aps := Function.update s.aps c { s.aps c with
      phase := .activated, slot := currentCpuIndex s.cpus c } } := by
  obtain ⟨hinit, j, hj⟩ := h.running (c := c) (by rw [hphase]; exact ApPhase.noConfusion)
  have hstack : (s.aps c).phase.hasStack = true := by rw [hphase]; rfl
  exact h.setAp hnodup hj hinit
    (fun _ => ⟨h.stack c j hj.id hstack, h.stackFrom c j hj.id hstack⟩)
    (fun _ => currentCpuIndex_eq (h.ids ▸ hnodup) hj.id)
    (fun hready => by rw [hphase] at hready; cases hready) id

/-- A CPU answers. The answer is its own, or it is late. -/
theorem BringUpInv.answered {c : ApicId} (hnodup : (cpus.map CpuInfo.apicId).Nodup)
    (h : BringUpInv bsp base cpus s) (hphase : (s.aps c).phase = .activated) :
    BringUpInv bsp base cpus { s with
      tramReady := 1
      aps := Function.update s.aps c { s.aps c with
        phase := .ready, late := (s.aps c).late || decide (s.served ≠ some c) } } := by
  obtain ⟨hinit, j, hj⟩ := h.running (c := c) (by rw [hphase]; exact ApPhase.noConfusion)
  have hstack : (s.aps c).phase.hasStack = true := by rw [hphase]; rfl
  have hslot : (s.aps c).phase.hasSlot = true := by rw [hphase]; rfl
  have hset : BringUpInv bsp base cpus { s with aps := Function.update s.aps c { s.aps c with
      phase := .ready, late := (s.aps c).late || decide (s.served ≠ some c) } } :=
    h.setAp hnodup hj hinit
    (fun _ => ⟨fun hlate => h.stack c j hj.id hstack (Bool.or_eq_false_iff.mp hlate).1,
      h.stackFrom c j hj.id hstack⟩)
    (fun _ => h.slot c j hj.id hslot) (fun _ => rfl) (fun hlate => by simp [hlate])
  refine { hset with tramFrom := ?_, quiet := ?_, answer := ?_ }
  · exact fun d hno => hset.quiet d fun k hd => hno k ⟨hd.id, hd.ne, hd.lt⟩
  · exact fun d k hd => hset.tramFrom d k ⟨hd.id, hd.ne, hd.lt⟩
  · -- The answer is that of `c`, which is late unless the boot CPU waits for it.
    intro _ _ d hd
    by_cases hserved : s.served = some c
    · obtain rfl : d = c := by
        rw [served_eq] at hserved
        exact Option.some.inj (hd.symm.trans hserved)
      left
      show (Function.update s.aps d _ d).phase = .ready
      rw [Function.update_self]
    · right
      refine ⟨c, ?_⟩
      show (Function.update s.aps c _ c).late = true
      rw [Function.update_self]
      simp [hserved]

/-- Any step. -/
theorem BringUpInv.step {op : BringUpOp} (hnodup : (cpus.map CpuInfo.apicId).Nodup)
    (h : BringUpInv bsp base cpus s) (hstep : s.next bsp base op = some t) :
    BringUpInv bsp base cpus t := by
  cases bringUpStep_of_next hstep with
  | skip hpc hid => exact h.skip hpc hid
  | enter hpc hid hne => exact h.enter hpc hid hne
  | writeStack hpc => exact h.writeStack hpc
  | clearReady hpc => exact h.clearReady hpc
  | sendInit hpc => exact h.sendInit hnodup hpc
  | sendSipi hpc => exact h.sendSipi hpc
  | poll hpc => exact h.poll hpc
  | finish hpc hready =>
    refine h.finish hpc fun hon c hc => h.answer (by rw [hpc]; rfl) (hready hon) c ?_
    rw [hpc]
    exact hc
  | init hipis => exact h.init hnodup hipis
  | startup hipis hwait => exact h.startup hnodup hipis hwait
  | ignored hipis hwait => exact h.pop hipis
  | loadStack hphase => exact h.loadStack hnodup hphase
  | activate hphase => exact h.activate hnodup hphase
  | answer hphase => exact h.answered hnodup hphase

/-- The invariant holds in every run. -/
theorem BringUpInv.of_reachable (hnodup : (cpus.map CpuInfo.apicId).Nodup)
    (hon : ∀ cpu ∈ cpus, cpu.online = true → cpu.apicId = bsp)
    (hs : (bringUp bsp base cpus).Reachable s) : BringUpInv bsp base cpus s :=
  hs.invariant (fun _ h => .start hon h) fun _ _ _ _ h hstep => h.step hnodup hstep

end Invariant

/-! ### Every interleaving -/

/-- What holds of the CPUs in every state of the exchange. -/
structure BringUpSafe (bsp : ApicId) (base : Nat) (s : BringUp) : Prop where
  /-- Only a listed CPU is started, and never the boot CPU. -/
  listed : ∀ c, (s.aps c).phase ≠ .off → c ≠ bsp ∧ ∃ j, idAt s.cpus j = some c
  /-- A CPU that was not late has the stack of its index. -/
  ownStack : ∀ c j, idAt s.cpus j = some c → (s.aps c).phase.hasStack = true →
    (s.aps c).late = false → (s.aps c).stack = stackTop base j
  /-- Any other has the stack of an index behind its own, or of its own. -/
  someStack : ∀ c j, idAt s.cpus j = some c → (s.aps c).phase.hasStack = true →
    StackFrom base s j (s.aps c).stack
  /-- The stacks of two CPUs that were not late are disjoint. -/
  apart : ∀ c d, c ≠ d → (s.aps c).phase.hasStack = true → (s.aps d).phase.hasStack = true →
    (s.aps c).late = false → (s.aps d).late = false →
      (s.aps c).stack + AP_STACK_SIZE ≤ (s.aps d).stack ∨
        (s.aps d).stack + AP_STACK_SIZE ≤ (s.aps c).stack
  /-- Every CPU, late or not, has the descriptor tables of its own index. -/
  slot : ∀ c j, idAt s.cpus j = some c → (s.aps c).phase.hasSlot = true → (s.aps c).slot = j
  /-- A CPU that is marked online is the boot CPU or has answered, unless one was late. -/
  online : ∀ cpu ∈ s.cpus, cpu.online = true →
    cpu.apicId = bsp ∨ (s.aps cpu.apicId).phase = .ready ∨ ∃ d, (s.aps d).late = true

/-- A CPU with a stack has been started. -/
theorem hasStack_ne_off {ap : Ap} (h : ap.phase.hasStack = true) : ap.phase ≠ .off := by
  intro hoff
  rw [hoff] at h
  exact absurd h Bool.false_ne_true

/-- The invariant gives the safety of the run. -/
theorem BringUpInv.safe {bsp : ApicId} {base : Nat} {cpus : List CpuInfo} {s : BringUp}
    (h : BringUpInv bsp base cpus s) : BringUpSafe bsp base s where
  listed c hc := by
    obtain ⟨j, hj⟩ := h.contacted (Or.inl hc)
    exact ⟨hj.ne, j, hj.id⟩
  ownStack := h.stack
  someStack := h.stackFrom
  apart c d hcd hc hd hlc hld := by
    obtain ⟨i, hi⟩ := h.contacted (Or.inl (hasStack_ne_off hc))
    obtain ⟨j, hj⟩ := h.contacted (Or.inl (hasStack_ne_off hd))
    have hij : i ≠ j := by
      rintro rfl
      exact hcd (Option.some.inj (hi.id.symm.trans hj.id))
    rw [h.stack c i hi.id hc hlc, h.stack d j hj.id hd hld]
    unfold stackTop AP_STACK_SIZE
    omega
  slot := h.slot
  online := h.online

/-- For every MADT whose usable entries have distinct APIC ids, in every interleaving of the
boot CPU, the IPIs and the CPUs that are started: a CPU that took its steps while the boot CPU
was waiting for it runs on the stack of its own index, and a CPU marked online has answered
unless some CPU was late. -/
theorem bringUp_safe (bsp : ApicId) (base : Nat) (entries : List MadtLapic)
    (hnodup : ((listCpus bsp entries).map CpuInfo.apicId).Nodup) (s : BringUp)
    (hs : (bringUp bsp base (listCpus bsp entries)).Reachable s) : BringUpSafe bsp base s :=
  (BringUpInv.of_reachable hnodup (fun _ => online_of_mem_listCpus) hs).safe

/-- The state in front of the loop. -/
def startState (cpus : List CpuInfo) : BringUp :=
  ⟨cpus, .next 0, 0, 0, fun _ => [], fun _ => ⟨.off, 0, 0, false⟩⟩

theorem start_startState (cpus : List CpuInfo) : BringUp.Start cpus (startState cpus) :=
  ⟨rfl, rfl, fun _ => rfl, fun _ => rfl, fun _ => rfl⟩

/-- The boot CPU with the id 0 and two more, one of them only online capable. -/
def threeLapics : List MadtLapic := [⟨0, 0, 1⟩, ⟨1, 1, 2⟩, ⟨7, 7, 0⟩, ⟨2, 2, 1⟩]

/-- A run in which CPU 1 answers in time. -/
def promptRun : List BringUpOp :=
  List.replicate 7 .bsp ++ [.deliver 1, .deliver 1, .ap 1, .ap 1, .deliver 1, .ap 1, .bsp]

/-- A run in which every CPU answers in time. -/
theorem bringUp_safe_prompt : ∃ s, (bringUp 0 0x100000 (listCpus 0 threeLapics)).Reachable s ∧
    cpuCount s.cpus = 2 ∧ (s.aps 1).stack = 0x120000 ∧ BringUpSafe 0 0x100000 s := by
  have hrun : (TransitionSystem.run (BringUp.next 0 0x100000)
      (startState (listCpus 0 threeLapics)) promptRun).any (fun s =>
        decide (cpuCount s.cpus = 2 ∧ (s.aps 1).stack = 0x120000)) = true := by
    with_unfolding_all decide
  obtain ⟨s, hs, hfacts⟩ := (Option.any_eq_true _ _).mp hrun
  obtain ⟨hcount, hstack⟩ := of_decide_eq_true hfacts
  have hreach : (bringUp 0 0x100000 (listCpus 0 threeLapics)).Reachable s :=
    TransitionSystem.reachable_of_run (.init (start_startState _)) hs
  exact ⟨s, hreach, hcount, hstack, bringUp_safe 0 0x100000 threeLapics (by decide) s hreach⟩

/-! ### A CPU that is late -/

/-- When nobody answers, the boot CPU gives up and goes on to the next index. -/
theorem leads_timeout {bsp : ApicId} {base : Nat} {cpus : List CpuInfo} {i : Nat} :
    ∀ (polls : Nat) (s : BringUp), s.pc = .waitReady i polls → s.tramReady = 0 →
      (bringUp bsp base cpus).Leads s { s.setOnline i false with pc := .next (i + 1) } := by
  intro polls
  induction polls with
  | zero =>
    intro s hpc _
    refine .step .refl (l := .bsp) ?_
    show s.stepBsp bsp base = some _
    unfold BringUp.stepBsp
    rw [hpc]
  | succ polls ih =>
    intro s hpc hready
    have hpoll : s.stepBsp bsp base = some { s with pc := .waitReady i polls } := by
      unfold BringUp.stepBsp
      rw [hpc]
      simp [hready]
    exact TransitionSystem.Leads.trans (.step .refl (l := .bsp) hpoll)
      (ih { s with pc := .waitReady i polls } rfl hready)

/-- The boot CPU waits for CPU 1, which has not seen an IPI yet. -/
def waitingForOne : BringUp :=
  (TransitionSystem.run (BringUp.next 0 0x100000) (startState (listCpus 0 threeLapics))
    (List.replicate 7 .bsp)).getD (startState [])

/-- After the boot CPU has given up on CPU 1, it announces the stack of CPU 2, and then both
CPUs get their IPIs. CPU 1 answers first. -/
def lateRun : List BringUpOp :=
  List.replicate 6 .bsp ++
    [.deliver 1, .deliver 1, .deliver 2, .deliver 2, .ap 1, .ap 2, .ap 1, .ap 1,
    .bsp]

/-- A run in which CPU 1 is late: it runs on the stack of CPU 2, and CPU 2 is marked online
before it has answered. -/
theorem late_shares_stack : ∃ s, (bringUp 0 0x100000 (listCpus 0 threeLapics)).Reachable s ∧
    (s.aps 1).phase = .ready ∧ (s.aps 2).phase = .entered ∧ (s.aps 1).stack = (s.aps 2).stack ∧
    s.cpus.map CpuInfo.online = [true, false, true] := by
  have hwait : TransitionSystem.run (BringUp.next 0 0x100000)
      (startState (listCpus 0 threeLapics)) (List.replicate 7 .bsp) = some waitingForOne := by
    unfold waitingForOne
    refine (Option.some_get ?_).symm.trans (congrArg some (Option.get_eq_getD _))
    with_unfolding_all decide
  have hreach : (bringUp 0 0x100000 (listCpus 0 threeLapics)).Reachable waitingForOne :=
    TransitionSystem.reachable_of_run (.init (start_startState _)) hwait
  have hpc : waitingForOne.pc = .waitReady 1 READY_POLLS := by with_unfolding_all decide
  have hready : waitingForOne.tramReady = 0 := by with_unfolding_all decide
  have hlate := hreach.of_leads (leads_timeout READY_POLLS waitingForOne hpc hready)
  have hrun : (TransitionSystem.run (BringUp.next 0 0x100000)
      { waitingForOne.setOnline 1 false with pc := .next 2 } lateRun).any (fun s =>
        decide ((s.aps 1).phase = .ready ∧ (s.aps 2).phase = .entered ∧
          (s.aps 1).stack = (s.aps 2).stack ∧
          s.cpus.map CpuInfo.online = [true, false, true])) = true := by
    with_unfolding_all decide
  obtain ⟨s, hs, hfacts⟩ := (Option.any_eq_true _ _).mp hrun
  exact ⟨s, TransitionSystem.reachable_of_run hlate hs, of_decide_eq_true hfacts⟩

/-! ### The slot of the boot CPU -/

/-- The steps up to the point at which the CPU at index 0 has its descriptor tables. -/
def firstApRun (c : ApicId) : List BringUpOp :=
  List.replicate 6 .bsp ++ [.deliver c, .deliver c, .ap c, .ap c]

/-- When another CPU is first in the list, it comes up with slot 0. -/
theorem first_ap_takes_slot {bsp : ApicId} (base : Nat) {cpu : CpuInfo} (rest : List CpuInfo)
    (hne : cpu.apicId ≠ bsp) :
    ∃ s, (bringUp bsp base (cpu :: rest)).Reachable s ∧
      (s.aps cpu.apicId).phase.hasSlot = true ∧ (s.aps cpu.apicId).slot = 0 := by
  have hrun : ∃ s, TransitionSystem.run (BringUp.next bsp base) (startState (cpu :: rest))
      (firstApRun cpu.apicId) = some s ∧ (s.aps cpu.apicId).phase.hasSlot = true ∧
        (s.aps cpu.apicId).slot = 0 := by
    simp [firstApRun, TransitionSystem.run, BringUp.next, BringUp.stepBsp, BringUp.stepDeliver,
      BringUp.stepAp, BringUp.send, startState, hne, currentCpuIndex, List.findIdx?_cons,
      ApPhase.hasSlot, List.replicate]
  obtain ⟨s, hs, hslot⟩ := hrun
  exact ⟨s, TransitionSystem.reachable_of_run (.init (start_startState _)) hs, hslot⟩

/-- What holds of the slots also when two entries of the MADT have one id. -/
structure SlotInv (bsp : ApicId) (cpus : List CpuInfo) (s : BringUp) : Prop where
  ids : s.cpus.map CpuInfo.apicId = cpus.map CpuInfo.apicId
  round : (∀ i, s.pc ≠ .next i) → ∃ c, idAt cpus s.pc.index = some c ∧ c ≠ bsp
  /-- What was sent to or started is in the list, and not the boot CPU. -/
  listed : ∀ c, s.ipis c ≠ [] ∨ (s.aps c).phase ≠ .off → c ≠ bsp ∧ ∃ j, idAt cpus j = some c
  slot : ∀ c, (s.aps c).phase.hasSlot = true → idAt cpus (s.aps c).slot = some c

section Slots

variable {bsp : ApicId} {base : Nat} {cpus : List CpuInfo} {s t : BringUp}

/-- The ids do not change. -/
theorem SlotInv.idAt_eq (h : SlotInv bsp cpus s) (j : Nat) : idAt s.cpus j = idAt cpus j := by
  rw [idAt, h.ids, idAt]

/-- A step inside of a round stays with its CPU. -/
theorem SlotInv.sameRound {pc : BspPc} (h : SlotInv bsp cpus s) (hround : ∀ i, s.pc ≠ .next i)
    (hpc : pc.index = s.pc.index) : ∃ c, idAt cpus pc.index = some c ∧ c ≠ bsp := by
  rw [hpc]
  exact h.round hround

/-- The CPU of the round gets an IPI. -/
theorem SlotInv.send {i : Nat} {pc : BspPc} (h : SlotInv bsp cpus s) (ipi : Ipi)
    (hi : s.pc.index = i) (hround : ∀ i, s.pc ≠ .next i) (hpc : pc.index = i) :
    SlotInv bsp cpus { s.send i ipi with pc := pc } := by
  obtain ⟨c, hc, hne⟩ := h.round hround
  rw [hi] at hc
  rw [send_eq ipi ((h.idAt_eq i).trans hc)]
  refine ⟨h.ids, fun _ => ⟨c, hpc ▸ hc, hne⟩, fun d hd => ?_, h.slot⟩
  by_cases hdc : d = c
  · exact hdc ▸ ⟨hne, i, hc⟩
  · refine h.listed d (hd.imp_left fun hipis => ?_)
    dsimp only at hipis
    rwa [Function.update_of_ne hdc] at hipis

/-- A CPU that is in the list changes its state. -/
theorem SlotInv.setAp {c : ApicId} {ap : Ap} {ready : Nat} (h : SlotInv bsp cpus s)
    (hc : c ≠ bsp ∧ ∃ j, idAt cpus j = some c)
    (hslot : ap.phase.hasSlot = true → idAt cpus ap.slot = some c) :
    SlotInv bsp cpus { s with tramReady := ready, aps := Function.update s.aps c ap } := by
  refine ⟨h.ids, h.round, fun d hd => ?_, fun d hd => ?_⟩
  · by_cases hdc : d = c
    · exact hdc ▸ hc
    · refine h.listed d (hd.imp_right fun hphase => ?_)
      dsimp only at hphase
      rwa [Function.update_of_ne hdc] at hphase
  · dsimp only at hd ⊢
    by_cases hdc : d = c
    · rw [hdc, Function.update_self] at hd ⊢
      exact hslot hd
    · rw [Function.update_of_ne hdc] at hd ⊢
      exact h.slot d hd

/-- The end of a round. -/
theorem SlotInv.finish (h : SlotInv bsp cpus s) (i k : Nat) (online : Bool) :
    SlotInv bsp cpus { s.setOnline i online with pc := .next k } :=
  ⟨(map_apicId_modify s.cpus i online).trans h.ids, fun hround => absurd rfl (hround k), h.listed,
    h.slot⟩

/-- An IPI leaves the queue. -/
theorem SlotInv.pop {c : ApicId} {ipi : Ipi} {rest : List Ipi} (h : SlotInv bsp cpus s)
    (hipis : s.ipis c = ipi :: rest) : (c ≠ bsp ∧ ∃ j, idAt cpus j = some c) ∧
      SlotInv bsp cpus { s with ipis := Function.update s.ipis c rest } := by
  have hc := h.listed c (Or.inl (by rw [hipis]; exact List.cons_ne_nil _ _))
  refine ⟨hc, h.ids, h.round, fun d hd => ?_, h.slot⟩
  by_cases hdc : d = c
  · exact hdc ▸ hc
  · refine h.listed d (hd.imp_left fun hne => ?_)
    dsimp only at hne
    rwa [Function.update_of_ne hdc] at hne

/-- A CPU that runs is in the list. -/
theorem SlotInv.running {c : ApicId} (h : SlotInv bsp cpus s) (hc : (s.aps c).phase ≠ .off) :
    c ≠ bsp ∧ ∃ j, idAt cpus j = some c :=
  h.listed c (Or.inr hc)

/-- Any step keeps the slots. -/
theorem SlotInv.step {op : BringUpOp} (h : SlotInv bsp cpus s)
    (hstep : s.next bsp base op = some t) : SlotInv bsp cpus t := by
  cases bringUpStep_of_next hstep with
  | skip hpc hid => exact ⟨h.ids, fun hround => absurd rfl (hround _), h.listed, h.slot⟩
  | @enter i c hpc hid hne =>
    exact ⟨h.ids, fun _ => ⟨c, (h.idAt_eq i).symm.trans hid, hne⟩, h.listed, h.slot⟩
  | writeStack hpc =>
    exact ⟨h.ids, fun _ => h.sameRound (by rw [hpc]; exact fun _ => BspPc.noConfusion)
      (by rw [hpc]; rfl), h.listed, h.slot⟩
  | clearReady hpc =>
    exact ⟨h.ids, fun _ => h.sameRound (by rw [hpc]; exact fun _ => BspPc.noConfusion)
      (by rw [hpc]; rfl), h.listed, h.slot⟩
  | sendInit hpc =>
    exact h.send _ (by rw [hpc]; rfl) (by rw [hpc]; exact fun _ => BspPc.noConfusion) rfl
  | sendSipi hpc =>
    rcases hpc with ⟨hpc, rfl⟩ | ⟨hpc, rfl⟩
    · exact h.send _ (by rw [hpc]; rfl) (by rw [hpc]; exact fun _ => BspPc.noConfusion) rfl
    · exact h.send _ (by rw [hpc]; rfl) (by rw [hpc]; exact fun _ => BspPc.noConfusion) rfl
  | poll hpc =>
    exact ⟨h.ids, fun _ => h.sameRound (by rw [hpc]; exact fun _ => BspPc.noConfusion)
      (by rw [hpc]; rfl), h.listed, h.slot⟩
  | @finish i _ online hpc hready => exact h.finish i (i + 1) online
  | init hipis =>
    obtain ⟨hc, hpop⟩ := h.pop hipis
    exact hpop.setAp hc fun hp => absurd hp Bool.false_ne_true
  | startup hipis hwait =>
    obtain ⟨hc, hpop⟩ := h.pop hipis
    exact hpop.setAp hc fun hp => absurd hp Bool.false_ne_true
  | ignored hipis hwait => exact (h.pop hipis).2
  | loadStack hphase =>
    exact h.setAp (h.running (by rw [hphase]; exact ApPhase.noConfusion))
      fun hp => absurd hp Bool.false_ne_true
  | activate hphase =>
    -- The index is found by the id, so it is that of an entry with this id.
    have hc := h.running (by rw [hphase]; exact ApPhase.noConfusion)
    obtain ⟨j, hj⟩ := hc.2
    exact h.setAp hc fun _ =>
      (h.idAt_eq _).symm.trans (idAt_currentCpuIndex ((h.idAt_eq j).trans hj))
  | @answer c hphase =>
    have hc := h.running (by rw [hphase]; exact ApPhase.noConfusion)
    exact h.setAp hc fun _ => h.slot c (by rw [hphase]; rfl)

/-- The slots are as stated in every run. -/
theorem SlotInv.of_reachable (hs : (bringUp bsp base cpus).Reachable s) : SlotInv bsp cpus s := by
  refine hs.invariant (fun s h => ?_) fun s op t _ h hstep => ?_
  · refine ⟨by rw [h.cpus_eq], fun hround => absurd h.pc_eq (hround 0), fun c hc => ?_,
      fun c hc => ?_⟩
    · rcases hc with hc | hc
      · exact absurd (h.ipis_eq c) hc
      · exact absurd (h.off c) hc
    · rw [h.off c] at hc
      exact absurd hc Bool.false_ne_true
  · exact h.step hstep

end Slots

/-- The boot CPU loads the descriptor tables of slot 0 before the CPUs are numbered. In every
run no other CPU takes that slot, if and only if the boot CPU is the first in the list: the
first usable entry of the MADT, or the only CPU where the MADT has no usable entry. -/
theorem bootSlot_private_iff (bsp : ApicId) (base : Nat) (entries : List MadtLapic) :
    (∀ s, (bringUp bsp base (listCpus bsp entries)).Reachable s → ∀ c,
      (s.aps c).phase.hasSlot = true → (s.aps c).slot ≠ bootSlot) ↔
      idAt (listCpus bsp entries) 0 = some bsp := by
  have hboot : bootSlot = 0 := by decide
  rw [hboot]
  constructor
  · intro hprivate
    cases hlist : listCpus bsp entries with
    | nil =>
      -- The list is never empty.
      unfold listCpus at hlist
      split at hlist
      · cases hlist
      · exact absurd hlist ‹_›
    | cons cpu rest =>
      by_contra hid
      have hne : cpu.apicId ≠ bsp := fun heq => hid (by rw [← heq]; rfl)
      obtain ⟨s, hs, hslot, hzero⟩ := first_ap_takes_slot base rest hne
      exact hprivate s (hlist ▸ hs) cpu.apicId hslot hzero
  · intro hfirst s hs c hslot hzero
    have hinv := SlotInv.of_reachable hs
    have hoff : (s.aps c).phase ≠ .off := by
      intro hoff
      rw [hoff] at hslot
      exact absurd hslot Bool.false_ne_true
    have hid := hinv.slot c hslot
    rw [hzero] at hid
    exact (hinv.listed c (Or.inr hoff)).1 (Option.some.inj (hid.symm.trans hfirst))

/-- With the boot CPU listed last, another CPU gets its slot. -/
theorem bootSlot_private_iff_reversed :
    ¬ ∀ s, (bringUp 0 0 (listCpus 0 [⟨1, 1, 1⟩, ⟨0, 0, 1⟩])).Reachable s → ∀ c,
      (s.aps c).phase.hasSlot = true → (s.aps c).slot ≠ bootSlot := by
  rw [bootSlot_private_iff 0 0 [⟨1, 1, 1⟩, ⟨0, 0, 1⟩]]
  decide

end VKernel.Proofs.Smp

import VKernel.Process.SharedWindow
import VKernel.Proofs.Memory.UserPages

/-!
# `VKernel.Proofs.Process.SharedWindow`: when a framebuffer is really shared

The window is made page by page, so `shareLoop_outcome` says how far the loop gets, and from that
the two calls follow: all pages are mapped, or those before the first that has no tables.

Three things go wrong. `byte_size` multiplies in 64 bits and only notices a product that is 0, and
`align_up` wraps near `2 ^ 64`: the call then maps a piece of the surface, or nothing, and
succeeds. And when the loop of `remap_target_framebuffer` stops midway, only the pages that it
reached are unmapped. The pages of the old window behind them stay, and they may be the source's.

A surface may begin in the user range and end behind it, where the tables of the source are those
of the firmware. `FirmwareHalf` says what is asked of them, and `SourceSteady` is what the loop
needs of the whole source.
-/

set_option autoImplicit false
set_option maxRecDepth 20000

namespace VKernel.Proofs.Process

open VKernel VKernel.Memory VKernel.Process VKernel.Proofs.Memory VKernel.Lib

/-! ### The condition -/

/-- A surface that a process describes by an address of its own. -/
structure UserSurface (fb : FramebufferInfo) : Prop where
  lo : USER_IMAGE_BASE ≤ fb.base
  hi : fb.base < USER_MAP_LIMIT
  width : fb.width < 2 ^ 32
  height : fb.height < 2 ^ 32
  stride : fb.stride < 2 ^ 32

/-- `src` is an address space whose tables lie in the memory of `s`, next to those of `s`. -/
structure Beside (s src : VmState) : Prop where
  reachable : vmSystem.Reachable src
  words : ∀ p ∈ src.vm.tables, ∀ i < 512, s.vm.mem (slot p i) = src.vm.mem (slot p i)
  used : ∀ p ∈ src.vm.tables, UsedAt s.vm.alloc p
  apart : ∀ p ∈ src.vm.tables, p ∉ s.vm.tables

/-- The kernel's half of the source's tables, which comes from the firmware: it lies neither in
free memory nor in the tables of the target, its physical addresses have 52 bits, and it does not
fill the first TiB behind the user range. -/
structure FirmwareHalf (s src : VmState) : Prop where
  fixed : ∀ m : Words, (∀ a, ¬ FreeAt s.vm.alloc a →
      (∀ p ∈ s.vm.tables, ¬ (p ≤ a ∧ a < p + PAGE_SIZE_4K)) → m a = s.vm.mem a) →
    ∀ v, USER_MAP_LIMIT ≤ v → v < 2 ^ 48 →
      debugResolve m src.as v = debugResolve s.vm.mem src.as v
  wide : ∀ v, USER_MAP_LIMIT ≤ v → v < 2 ^ 48 → ∀ phys flags,
    debugResolve s.vm.mem src.as v = some (phys, flags) → phys < 2 ^ 52
  gap : ∃ v, USER_MAP_LIMIT ≤ v ∧ v < USER_MAP_LIMIT + 2 ^ 40 ∧
    debugResolve s.vm.mem src.as v = none

/-- The pages that the window of a surface takes. -/
def windowPages (fb : FramebufferInfo) : Nat :=
  mappedBytes fb (fb.byteSize.getD 0) / PAGE_SIZE_4K

/-- The call gives up before it maps a page. -/
def Refused (s src : VmState) (fb : FramebufferInfo) : Prop :=
  fb.byteSize = none ∨
    sourceResolves s.vm.mem src.as (alignDown fb.base PAGE_SIZE_4K) 0 (windowPages fb) = false

instance (s src : VmState) (fb : FramebufferInfo) : Decidable (Refused s src fb) :=
  inferInstanceAs (Decidable (_ ∨ _))

/-- The window of an override ends in the user range. -/
def OverrideFits (cur : FbOverride) : Prop :=
  USER_SHARED_BASE + cur.oldMappedBytes ≤ USER_MAP_LIMIT

/-- The bytes of the surface, with those before it on its first page, can be rounded up to whole
pages in 64 bits. -/
def WholeSurface (fb : FramebufferInfo) : Prop :=
  fb.base % PAGE_SIZE_4K + 4 * (fb.stride * fb.height) + PAGE_SIZE_4K ≤ U64

/-- The first `n` pages of the window can be mapped: there is a page for each table that is missing
on the way, and the source does not map them to physical page 0. -/
def WindowFor (s src : VmState) (fb : FramebufferInfo) (n : Nat) : Prop :=
  (takeTables (missingTables (tableThere s.vm.mem s.as) (USER_SHARED_BASE / PAGE_SIZE_4K) n)
    s.vm.alloc).isSome = true ∧
  ∀ j < n, ∀ phys flags, debugResolve s.vm.mem src.as
    (alignDown fb.base PAGE_SIZE_4K + j * PAGE_SIZE_4K) = some (phys, flags) → phys ≠ 0

/-- A physical page of the user range of an address space. -/
def IsPageOf (m : Words) (as : AddressSpace) (page : Nat) : Prop :=
  ∃ v phys flags, USER_IMAGE_BASE ≤ v ∧ v < USER_MAP_LIMIT ∧
    debugResolve m as v = some (phys, flags) ∧ phys / PAGE_SIZE_4K = page

/-- In memory `m'`, nothing from `lo` to `hi` maps to a page that `source` had in memory `m`. -/
def NoneLeft (m : Words) (source : AddressSpace) (m' : Words) (target : AddressSpace)
    (lo hi : Nat) : Prop :=
  ∀ v, lo ≤ v → v < hi → ∀ phys flags, debugResolve m' target v = some (phys, flags) →
    ¬ IsPageOf m source (phys / PAGE_SIZE_4K)

/-- The end of the longer one of the new and the old window. -/
def windowEnd (fb : FramebufferInfo) (old : Nat) : Nat :=
  USER_SHARED_BASE + max (windowPages fb * PAGE_SIZE_4K) old

/-- When `remap_target_framebuffer` keeps its word: it refuses, or it maps all pages of a surface
that can be rounded, or it stops at a page behind which the window has none of the source's. -/
def KeepsWindow (s src : VmState) (fb : FramebufferInfo) (old : Nat) : Prop :=
  Refused s src fb ∨ WindowFor s src fb (windowPages fb) ∧ WholeSurface fb ∨
    ¬ WindowFor s src fb (windowPages fb) ∧
      ∀ k < windowPages fb, 0 < k → WindowFor s src fb k → ¬ WindowFor s src fb (k + 1) →
        NoneLeft s.vm.mem src.as s.vm.mem s.as (USER_SHARED_BASE + k * PAGE_SIZE_4K)
          (windowEnd fb old)

/-- When `remap_framebuffer_override` keeps its word. -/
def KeepsNewWindow (s src : VmState) (fb : FramebufferInfo) : Prop :=
  Refused s src fb ∨ (WindowFor s src fb (windowPages fb) → WholeSurface fb)

/-! ### What the calls promise -/

/-- Both processes have addresses for the byte at offset `d`, and they lead to the same place. -/
def SharedAt (m : Words) (source : AddressSpace) (m' : Words) (target : AddressSpace)
    (base base' d : Nat) : Prop :=
  base + d < U64 ∧ base' + d < U64 ∧ ∃ phys flags flags',
    debugResolve m source (base + d) = some (phys, flags) ∧
      debugResolve m' target (base' + d) = some (phys, flags')

/-- All pixels are shared. -/
def SurfaceShared (m : Words) (source : AddressSpace) (m' : Words) (target : AddressSpace)
    (fb : FramebufferInfo) (base' : Nat) : Prop :=
  ∀ x < fb.width, ∀ y < fb.height,
    SharedAt m source m' target fb.base base' (4 * (y * fb.stride + x))

/-- The offset in the window that the loop reaches, and 0 when it does not run. -/
def offsetReached (s src : VmState) (fb : FramebufferInfo) : Nat :=
  if Refused s src fb then 0
  else (shareLoop s.as src.as (alignDown fb.base PAGE_SIZE_4K) 0 (windowPages fb) s.vm).2.1

/-- What the two answers of `remap_target_framebuffer` stand for. -/
structure RemapOk (s src : VmState) (cur : FbOverride) (fb : FramebufferInfo)
    (out : Bool × FbOverride × Vm) : Prop where
  shared : out.1 = true →
    SurfaceShared s.vm.mem src.as out.2.2.mem s.as fb out.2.1.override.base
  trimmed : out.1 = true → ∀ v, USER_SHARED_BASE + windowPages fb * PAGE_SIZE_4K ≤ v →
    v < USER_SHARED_BASE + cur.oldMappedBytes → debugResolve out.2.2.mem s.as v = none
  undone : out.1 = false → 0 < offsetReached s src fb →
    NoneLeft s.vm.mem src.as out.2.2.mem s.as USER_SHARED_BASE (windowEnd fb cur.oldMappedBytes)

/-- What the two answers of `remap_framebuffer_override` stand for. A new process has no window
before this one. -/
structure OverrideOk (s src : VmState) (fb : FramebufferInfo)
    (out : Bool × FramebufferInfo × Bool × Vm) : Prop where
  shared : out.1 = true → out.2.2.1 = true →
    SurfaceShared s.vm.mem src.as out.2.2.2.mem s.as fb out.2.1.base
  undone : out.1 = false → 0 < offsetReached s src fb →
    NoneLeft s.vm.mem src.as out.2.2.2.mem s.as USER_SHARED_BASE (windowEnd fb 0)

/-! ### Another address space in the same memory -/

section Pages

variable {s : Vm} {target source : AddressSpace} {T U : Tables}

/-- What the source maps its pages to stays while the target takes tables. -/
structure SourceSteady (s : Vm) (source : AddressSpace) : Prop where
  fixed : ∀ s' e, Grown s s' e → ∀ v, USER_IMAGE_BASE ≤ v → v < 2 ^ 48 →
    debugResolve s'.mem source v = debugResolve s.mem source v
  wide : ∀ v, USER_IMAGE_BASE ≤ v → v < 2 ^ 48 → ∀ phys flags,
    debugResolve s.mem source v = some (phys, flags) → phys < 2 ^ 52

/-- The source is steady from a later state on. -/
theorem SourceSteady.grown {s' : Vm} {e : Nat} (h : SourceSteady s source) (hg : Grown s s' e) :
    SourceSteady s' source where
  fixed s'' _ hg' v hv hv' :=
    (h.fixed s'' _ (hg.trans hg') v hv hv').trans (h.fixed s' e hg v hv hv').symm
  wide v hv hv' phys flags hres :=
    h.wide v hv hv' phys flags ((h.fixed s' e hg v hv hv').symm.trans hres)

/-- A page of the source can be mapped as it is. -/
theorem SourceSteady.page {v phys flags : Nat} (h : SourceSteady s source) (hdvd : PAGE_SIZE_4K ∣ v)
    (hv : USER_IMAGE_BASE ≤ v) (hv' : v < 2 ^ 48)
    (hres : debugResolve s.mem source v = some (phys, flags)) :
    alignDown phys PAGE_SIZE_4K = phys ∧ isAligned phys PAGE_SIZE_4K = true ∧
      phys &&& PA_MASK = phys := by
  have hphys := debugResolve_dvd hdvd hres
  have hmask := and_PA_MASK hphys (h.wide v hv hv' phys flags hres)
  refine ⟨?_, (isAligned_iff _).mpr (Nat.mod_eq_zero_of_dvd hphys), hmask⟩
  rw [← hmask, alignDown_PA]

/-- What a page is mapped to has the bits of a page address only. -/
theorem resolve_page {m : Words} {page : Nat} {e : Nat × Nat} (h : resolve m U page = some e) :
    ∃ x, e.1 = x &&& PA_MASK := by
  unfold resolve at h
  split at h
  · contradiction
  · unfold leafOf at h
    split at h
    · contradiction
    · obtain rfl := Option.some.inj h
      exact ⟨_, rfl⟩

/-- The tree of the source in the memory of the target. -/
theorem Beside.tree {s src : VmState} (h : Beside s src) :
    ∃ U, PageTree s.vm.mem src.as.pml4Phys src.vm.tables U := by
  obtain ⟨A, ⟨U, hinv, -⟩, -⟩ := refines_of_reachable h.reachable
  exact ⟨U, (hinv.tree.of_agree fun p hp _ i hi => h.words p hp i hi).1⟩

/-- The words of the source's tables are not free, and no words of the target's. -/
theorem Beside.outside {s src : VmState} {p j : Nat} (h : Beside s src) (hs : VmInv s.vm s.as T)
    (hp : p ∈ src.vm.tables) (hok : TableOk p) (hj : j < 512) :
    ¬ FreeAt s.vm.alloc (slot p j) ∧
      ∀ q ∈ s.vm.tables, ¬ (q ≤ slot p j ∧ slot p j < q + PAGE_SIZE_4K) := by
  have hused : UsedAt s.vm.alloc (slot p j) := hs.alloc.usedAt_page (h.used p hp) hok.dvd
    (Nat.le_add_right p _) (by unfold slot PAGE_SIZE_4K; omega)
  refine ⟨fun hfree => hs.alloc.not_used hfree hused, fun q hq hin => ?_⟩
  -- Two pages that meet are one page.
  obtain ⟨n, k, -, hT⟩ := hs.owned.named q hq
  obtain ⟨a, ha⟩ := (hs.tree.table _ _ _ hT).2.dvd
  obtain ⟨b, hb⟩ := hok.dvd
  have hpq : p = q := by
    unfold slot PAGE_SIZE_4K at *
    omega
  exact h.apart p hp (hpq ▸ hq)

/-- A source beside the target is steady. -/
theorem Beside.steady {s src : VmState} (h : Beside s src) (hs : VmInv s.vm s.as T)
    (hkernel : FirmwareHalf s src) : SourceSteady s.vm src.as := by
  obtain ⟨U, htree⟩ := h.tree
  refine ⟨fun s' e hg v hv hv' => ?_, fun v hv hv' phys flags hres => ?_⟩
  · by_cases hhalf : v < USER_MAP_LIMIT
    · obtain ⟨htree', hsame⟩ := htree.of_agree fun p hp hok j hj =>
        hg.outside (h.outside hs hp hok hj).1 (h.outside hs hp hok hj).2
      have huser := userKey_of_user hv hhalf
      rw [debugResolve_eq htree' huser, debugResolve_eq htree huser, hsame]
    · exact hkernel.fixed s'.mem (fun a hfree hout => hg.outside hfree hout) v
        (Nat.le_of_not_lt hhalf) hv'
  · by_cases hhalf : v < USER_MAP_LIMIT
    · rw [debugResolve_eq htree (userKey_of_user hv hhalf), Option.map_eq_some_iff] at hres
      obtain ⟨e, he, heq⟩ := hres
      obtain ⟨x, hx⟩ := resolve_page he
      have hle : x &&& PA_MASK ≤ PA_MASK := Nat.and_le_right
      have hoff : v % PAGE_SIZE_4K < PAGE_SIZE_4K := Nat.mod_lt _ (by decide)
      rw [hx, Prod.mk.injEq] at heq
      unfold PA_MASK at hle heq
      unfold PAGE_SIZE_4K at hoff heq
      omega
    · exact hkernel.wide v (Nat.le_of_not_lt hhalf) hv' phys flags hres

/-- Nothing is mapped in the kernel's half. -/
theorem Beside.firmwareHalf {s src : VmState} (h : Beside s src) (hs : vmSystem.Reachable s)
    (hslots : ∀ i < 512, 256 ≤ i →
      s.vm.mem (slot (tableFromPhys src.as.pml4Phys) i) &&& PTE_PRESENT = 0) :
    FirmwareHalf s src := by
  obtain ⟨A, ⟨T, hinv, -⟩, -⟩ := refines_of_reachable hs
  obtain ⟨U, htree⟩ := h.tree
  obtain ⟨hroot, hok⟩ := htree.table _ _ _ htree.root
  have hnone : ∀ m : Words, (∀ i < 512, m (slot src.as.pml4Phys i) =
      s.vm.mem (slot src.as.pml4Phys i)) → ∀ v, USER_MAP_LIMIT ≤ v → v < 2 ^ 48 →
        debugResolve m src.as v = none := by
    intro m hsame v hv hv'
    have hindex : pml4Idx v < 512 ∧ 256 ≤ pml4Idx v := by
      rw [pml4Idx_eq]
      unfold USER_MAP_LIMIT at hv
      unfold PAGE_SIZE_4K
      omega
    have hslot := hslots _ hindex.1 hindex.2
    have hphys : tableFromPhys src.as.pml4Phys = src.as.pml4Phys := page_and_PA_MASK hok
    rw [hphys, ← hsame _ hindex.1] at hslot
    unfold debugResolve
    rw [if_neg (Nat.ne_of_gt hok.pos), hphys, if_pos (.inl hslot)]
  have hself := hnone s.vm.mem fun _ _ => rfl
  refine ⟨fun m hsame v hv hv' => ?_, fun v hv hv' phys flags hres => ?_, USER_MAP_LIMIT,
    Nat.le_refl _, by decide, hself _ (Nat.le_refl _) (by decide)⟩
  · rw [hself v hv hv']
    refine hnone m (fun i hi => ?_) v hv hv'
    exact hsame _ (h.outside hinv hroot hok hi).1 (h.outside hinv hroot hok hi).2
  · rw [hself v hv hv'] at hres
    exact absurd hres.symm (Option.some_ne_none _)

/-- The flags of the window. -/
def windowFlags : Nat := MAP_WRITABLE ||| MAP_USER

/-- `n` pages from page `i` of the window on can be mapped. -/
def Supplied (s : Vm) (T : Tables) (source : AddressSpace) (start i n : Nat) : Prop :=
  (takeTables (missingTables (hasTable T) (USER_SHARED_BASE / PAGE_SIZE_4K + i) n)
    s.alloc).isSome = true ∧
  ∀ j < n, ∀ phys flags,
    debugResolve s.mem source (start + (i + j) * PAGE_SIZE_4K) = some (phys, flags) → phys ≠ 0

/-- No pages need no supply. -/
theorem supplied_zero (s : Vm) (T : Tables) (source : AddressSpace) (start i : Nat) :
    Supplied s T source start i 0 :=
  ⟨rfl, fun j hj => absurd hj (Nat.not_lt_zero j)⟩

/-- The loop maps `k` of `n` pages from page `i` on. -/
structure ShareOutcome (target source : AddressSpace) (T : Tables) (start i n : Nat) (s : Vm)
    (k : Nat) (s' : Vm) : Prop where
  result : shareLoop target source start (i * PAGE_SIZE_4K) n s =
    (decide (k = n), (i + k) * PAGE_SIZE_4K, s')
  le : k ≤ n
  supplied : ∀ j ≤ n, Supplied s T source start i j ↔ j ≤ k
  inv : ∃ T', VmInv s' target T' ∧ ∀ page, resolve s'.mem T' page =
    if USER_SHARED_BASE / PAGE_SIZE_4K + i ≤ page ∧
        page < USER_SHARED_BASE / PAGE_SIZE_4K + i + k then
      (debugResolve s.mem source
        (start + (page - USER_SHARED_BASE / PAGE_SIZE_4K) * PAGE_SIZE_4K)).map
        fun e => (e.1, pageFlags windowFlags)
    else resolve s.mem T page

variable (target) in
/-- The body of the loop for page `i` of the window, when the source has it. -/
theorem shareLoop_succ {start i phys flags : Nat} (n : Nat)
    (hfrom : start + i * PAGE_SIZE_4K < 2 ^ 48)
    (hto : USER_SHARED_BASE + i * PAGE_SIZE_4K < USER_MAP_LIMIT)
    (he : debugResolve s.mem source (start + i * PAGE_SIZE_4K) = some (phys, flags))
    (hphys : alignDown phys PAGE_SIZE_4K = phys) :
    shareLoop target source start (i * PAGE_SIZE_4K) (n + 1) s =
      match s.mapPage target (USER_SHARED_BASE + i * PAGE_SIZE_4K) phys windowFlags with
      | (false, s) => (false, i * PAGE_SIZE_4K, s)
      | (true, s) => shareLoop target source start ((i + 1) * PAGE_SIZE_4K) n s := by
  have hsource : add64 start (i * PAGE_SIZE_4K) = start + i * PAGE_SIZE_4K :=
    add64_eq (Nat.lt_trans hfrom (by rw [U64_eq]; decide))
  have htarget : add64 USER_SHARED_BASE (i * PAGE_SIZE_4K) =
      USER_SHARED_BASE + i * PAGE_SIZE_4K :=
    add64_eq (Nat.lt_trans hto (by rw [U64_eq]; decide))
  rw [shareLoop, hsource, he]
  dsimp only
  rw [hphys, htarget, Nat.add_mul i 1, Nat.one_mul]
  rfl

/-- The first page is not mapped, and so none is. -/
theorem ShareOutcome.stop {start i n phys flags : Nat} {s₁ : Vm} {T₁ : Tables}
    (hcall : shareLoop target source start (i * PAGE_SIZE_4K) (n + 1) s =
      (false, i * PAGE_SIZE_4K, s₁))
    (hinv : VmInv s₁ target T₁)
    (hsame : ∀ page, resolve s₁.mem T₁ page = resolve s.mem T page)
    (he : debugResolve s.mem source (start + i * PAGE_SIZE_4K) = some (phys, flags))
    (hwhy : phys = 0 ∨
      takeTables (missingAt (hasTable T) (USER_SHARED_BASE / PAGE_SIZE_4K + i)) s.alloc = none) :
    ShareOutcome target source T start i (n + 1) s 0 s₁ where
  result := by
    rw [hcall]
    simp
  le := Nat.zero_le _
  supplied j hj := by
    cases j with
    | zero => exact ⟨fun _ => Nat.le_refl 0, fun _ => supplied_zero s T source start i⟩
    | succ j =>
      refine ⟨fun hcon => ?_, fun hcon => absurd hcon (Nat.not_succ_le_zero j)⟩
      rcases hwhy with hzero | htake
      · exact absurd hzero (hcon.2 0 (Nat.zero_lt_succ _) phys flags he)
      · have hnone : takeTables (missingTables (hasTable T)
            (USER_SHARED_BASE / PAGE_SIZE_4K + i) (j + 1)) s.alloc = none :=
          takeTables_none htake (Nat.le_add_right _ _)
        have hsome := hcon.1
        rw [hnone] at hsome
        exact absurd hsome Bool.false_ne_true
  inv := by
    refine ⟨T₁, hinv, fun page => ?_⟩
    rw [if_neg (by omega), hsame]

/-- The first page is mapped, and then the others as far as the loop gets. -/
theorem ShareOutcome.cons {start i n k phys flags : Nat} {s₁ s₂ : Vm} {T₁ : Tables}
    (hrest : ShareOutcome target source T₁ start (i + 1) n s₁ k s₂)
    (hcall : shareLoop target source start (i * PAGE_SIZE_4K) (n + 1) s =
      shareLoop target source start ((i + 1) * PAGE_SIZE_4K) n s₁)
    (hgrown : Grown s s₁ (missingAt (hasTable T) (USER_SHARED_BASE / PAGE_SIZE_4K + i)))
    (hhas : hasTable T₁ = withPath (hasTable T) (USER_SHARED_BASE / PAGE_SIZE_4K + i))
    (hsame : ∀ j < i + 1 + n, debugResolve s₁.mem source (start + j * PAGE_SIZE_4K) =
      debugResolve s.mem source (start + j * PAGE_SIZE_4K))
    (he : debugResolve s.mem source (start + i * PAGE_SIZE_4K) = some (phys, flags))
    (hne : phys ≠ 0)
    (hone : ∀ page, resolve s₁.mem T₁ page =
      if page = USER_SHARED_BASE / PAGE_SIZE_4K + i then some (phys, pageFlags windowFlags)
      else resolve s.mem T page) :
    ShareOutcome target source T start i (n + 1) s (k + 1) s₂ where
  result := by
    rw [hcall, hrest.result]
    simp [Nat.add_comm, Nat.add_left_comm]
  le := Nat.succ_le_succ hrest.le
  supplied j hj := by
    cases j with
    | zero => exact ⟨fun _ => Nat.zero_le _, fun _ => supplied_zero s T source start i⟩
    | succ j =>
      rw [Nat.succ_le_succ_iff, ← hrest.supplied j (Nat.le_of_succ_le_succ hj), Supplied, Supplied,
        missingTables, takeTables_add, hgrown.taken, Option.bind_some, hhas, Nat.add_assoc]
      refine and_congr_right fun _ => ⟨fun hall l hl p f he' => ?_, fun hall l hl p f he' => ?_⟩
      · rw [hsame _ (by omega), Nat.add_right_comm, Nat.add_assoc] at he'
        exact hall (l + 1) (Nat.succ_lt_succ hl) p f he'
      · cases l with
        | zero =>
          rw [Nat.add_zero, he, Option.some.injEq, Prod.mk.injEq] at he'
          exact he'.1 ▸ hne
        | succ l =>
          refine hall l (Nat.lt_of_succ_lt_succ hl) p f ?_
          rw [hsame _ (by omega), Nat.add_right_comm, Nat.add_assoc]
          exact he'
  inv := by
    obtain ⟨T₂, hinv₂, hres₂⟩ := hrest.inv
    have hle := hrest.le
    refine ⟨T₂, hinv₂, fun page => ?_⟩
    rw [hres₂]
    by_cases hin : USER_SHARED_BASE / PAGE_SIZE_4K + (i + 1) ≤ page ∧
        page < USER_SHARED_BASE / PAGE_SIZE_4K + (i + 1) + k
    · rw [if_pos hin, if_pos (by omega), hsame _ (by omega)]
    · rw [if_neg hin, hone]
      by_cases heq : page = USER_SHARED_BASE / PAGE_SIZE_4K + i
      · rw [if_pos heq, if_pos (by omega), heq, Nat.add_sub_cancel_left, he]
        rfl
      · rw [if_neg heq, if_neg (by omega)]

/-- How far the loop gets: to the first page of the window for which there is no table, or whose
source is physical page 0. -/
theorem shareLoop_outcome {start i n : Nat} (h : VmInv s target T) (hsrc : SourceSteady s source)
    (hdvd : PAGE_SIZE_4K ∣ start) (hlo : USER_IMAGE_BASE ≤ start)
    (hfrom : start + (i + n) * PAGE_SIZE_4K ≤ 2 ^ 48)
    (hto : USER_SHARED_BASE + (i + n) * PAGE_SIZE_4K ≤ USER_MAP_LIMIT)
    (hres : ∀ j < i + n, debugResolve s.mem source (start + j * PAGE_SIZE_4K) ≠ none) :
    ∃ k s', ShareOutcome target source T start i n s k s' := by
  induction n generalizing s T i with
  | zero =>
    refine ⟨0, s, rfl, Nat.le_refl 0, fun j hj => ?_, T, h, fun page => ?_⟩
    · obtain rfl : j = 0 := Nat.le_zero.mp hj
      exact ⟨fun _ => Nat.le_refl 0, fun _ => supplied_zero s T source start i⟩
    · rw [if_neg (by omega)]
  | succ n ih =>
    have hbelow : ∀ j < i + (n + 1), start + j * PAGE_SIZE_4K < 2 ^ 48 := fun j hj =>
      Nat.lt_of_lt_of_le (Nat.add_lt_add_left (Nat.mul_lt_mul_of_pos_right hj (by decide)) _) hfrom
    have hfirst : USER_SHARED_BASE + i * PAGE_SIZE_4K < USER_MAP_LIMIT := by
      unfold PAGE_SIZE_4K at *
      omega
    obtain ⟨⟨phys, flags⟩, he⟩ := Option.ne_none_iff_exists'.mp (hres i (by omega))
    obtain ⟨hdown, halign, hmask⟩ := hsrc.page (Nat.dvd_add hdvd (Nat.dvd_mul_left _ i))
      (Nat.le_trans hlo (Nat.le_add_right _ _)) (hbelow i (by omega)) he
    have hbody := shareLoop_succ target n (hbelow i (by omega)) hfirst he hdown
    by_cases hzero : phys = 0
    · have hcall : s.mapPage target (USER_SHARED_BASE + i * PAGE_SIZE_4K) phys windowFlags =
          (false, s) := if_pos (.inr hzero)
      rw [hcall] at hbody
      exact ⟨0, s, .stop hbody h (fun _ => rfl) he (.inl hzero)⟩
    have hpage : (USER_SHARED_BASE + i * PAGE_SIZE_4K) / PAGE_SIZE_4K =
        USER_SHARED_BASE / PAGE_SIZE_4K + i := Nat.add_mul_div_right _ _ (by decide)
    have hoff : (USER_SHARED_BASE + i * PAGE_SIZE_4K) % PAGE_SIZE_4K = 0 :=
      Nat.mod_eq_zero_of_dvd (Nat.dvd_add ⟨0x7E0000000, by decide⟩ (Nat.dvd_mul_left _ _))
    have huser : UserKey 0 ((USER_SHARED_BASE + i * PAGE_SIZE_4K) / PAGE_SIZE_4K) :=
      userKey_of_user (Nat.le_trans (by decide) (Nat.le_add_right USER_SHARED_BASE _)) hfirst
    have hcases := mapPage_cases windowFlags h huser hzero ((isAligned_iff _).mpr hoff) halign
    rw [hpage, hmask] at hcases
    rcases hcases with ⟨s₁, T₁, -, hcall, htake, hinv, -, hsame⟩ |
      ⟨s₁, T₁, hcall, hinv, hgrown, hhas, hone⟩
    · rw [hcall] at hbody
      exact ⟨0, s₁, .stop hbody hinv hsame he (.inr htake)⟩
    · rw [hcall] at hbody
      have hnext : i + 1 + n = i + (n + 1) := by omega
      have hsame₁ : ∀ j < i + 1 + n, debugResolve s₁.mem source (start + j * PAGE_SIZE_4K) =
          debugResolve s.mem source (start + j * PAGE_SIZE_4K) := fun j hj =>
        hsrc.fixed s₁ _ hgrown _ (Nat.le_trans hlo (Nat.le_add_right _ _)) (hbelow j (hnext ▸ hj))
      obtain ⟨k, s₂, hrest⟩ := ih (i := i + 1) hinv (hsrc.grown hgrown) (by rwa [hnext])
        (by rwa [hnext]) fun j hj => by
          rw [hsame₁ j hj]
          exact hres j (hnext ▸ hj)
      exact ⟨k + 1, s₂, hrest.cons hbody hgrown hhas hsame₁ he hzero hone⟩

/-- The check of the source, page by page. -/
theorem sourceResolves_iff (m : Words) (as : AddressSpace) (start i n : Nat) :
    sourceResolves m as start (i * PAGE_SIZE_4K) n = true ↔
      ∀ j < n, (debugResolve m as (add64 start ((i + j) * PAGE_SIZE_4K))).isSome = true := by
  induction n generalizing i with
  | zero => exact ⟨fun _ j hj => absurd hj (Nat.not_lt_zero j), fun _ => rfl⟩
  | succ n ih =>
    have hstep : i * PAGE_SIZE_4K + PAGE_SIZE_4K = (i + 1) * PAGE_SIZE_4K := by
      rw [Nat.add_mul, Nat.one_mul]
    rw [sourceResolves, Bool.and_eq_true, hstep, ih]
    constructor
    · rintro ⟨hfirst, hrest⟩ j hj
      cases j with
      | zero => exact hfirst
      | succ j =>
        have hat := hrest j (Nat.lt_of_succ_lt_succ hj)
        rwa [Nat.add_right_comm, Nat.add_assoc] at hat
    · intro hall
      refine ⟨hall 0 (Nat.zero_lt_succ _), fun j hj => ?_⟩
      rw [Nat.add_right_comm, Nat.add_assoc]
      exact hall (j + 1) (Nat.succ_lt_succ hj)

/-- No process has more than `2 ^ 28` pages in a row. -/
theorem pages_le {m : Words} {root p n : Nat} {tables : List Nat}
    (h : PageTree m root tables U)
    (hres : ∀ j < n, resolve m U (p + j) ≠ none) : n ≤ 2 ^ 28 := by
  have hkeys : (n + 511) / 512 ≤ 2 ^ 19 := by
    refine h.keys_le (a := p / 512) fun i hi hnone => ?_
    have hpage : (p + 512 * i) / 512 = p / 512 + i := Nat.add_mul_div_left _ _ (by decide)
    refine hres (512 * i) (by omega) ?_
    rw [resolve, hpage, hnone]
  omega

/-- Looking up an address after `unmap_range` of whole pages. -/
theorem debugResolve_unmapRange {as : AddressSpace} {virt size v : Nat} (h : VmInv s as T)
    (hlo : USER_IMAGE_BASE ≤ virt) (hhi : virt + size ≤ USER_MAP_LIMIT)
    (hvirt : PAGE_SIZE_4K ∣ virt)
    (hsize : PAGE_SIZE_4K ∣ size) (hv : USER_IMAGE_BASE ≤ v) (hv' : v < USER_MAP_LIMIT) :
    debugResolve (s.unmapRange as virt size).mem as v =
      if virt ≤ v ∧ v < virt + size then none else debugResolve s.mem as v := by
  obtain ⟨hinv, hres⟩ := unmapRange_spec h hlo hhi
  have huser := userKey_of_user hv hv'
  have hiff : size ≠ 0 ∧ virt / PAGE_SIZE_4K ≤ v / PAGE_SIZE_4K ∧
      v / PAGE_SIZE_4K * PAGE_SIZE_4K < virt + size ↔ virt ≤ v ∧ v < virt + size := by
    obtain ⟨a, rfl⟩ := hvirt
    obtain ⟨b, rfl⟩ := hsize
    unfold PAGE_SIZE_4K
    omega
  rw [debugResolve_eq hinv.tree huser, debugResolve_eq h.tree huser, hres, if_congr hiff rfl rfl]
  split
  · rfl
  · rfl

end Pages

/-! ### The loop on a surface -/

section Surface

variable {s src : VmState} {fb : FramebufferInfo} {T : Tables} {old : Nat}

/-- The loop maps `k` pages of the window, and moves no other page. -/
structure WindowOutcome (s src : VmState) (fb : FramebufferInfo) (k : Nat) (s' : Vm) : Prop where
  result : shareLoop s.as src.as (alignDown fb.base PAGE_SIZE_4K) 0 (windowPages fb) s.vm =
    (decide (k = windowPages fb), k * PAGE_SIZE_4K, s')
  le : k ≤ windowPages fb
  room : USER_SHARED_BASE + windowPages fb * PAGE_SIZE_4K ≤ USER_MAP_LIMIT
  supplied : ∀ j ≤ windowPages fb, WindowFor s src fb j ↔ j ≤ k
  inv : ∃ T', VmInv s' s.as T'
  mapped : ∀ d < k * PAGE_SIZE_4K, ∃ phys flags,
    debugResolve s.vm.mem src.as (alignDown fb.base PAGE_SIZE_4K + d) = some (phys, flags) ∧
      debugResolve s'.mem s.as (USER_SHARED_BASE + d) = some (phys, pageFlags windowFlags)
  kept : ∀ v, USER_SHARED_BASE + k * PAGE_SIZE_4K ≤ v → v < USER_MAP_LIMIT →
    debugResolve s'.mem s.as v = debugResolve s.vm.mem s.as v

/-- The first page of the surface. -/
theorem alignDown_base (hfb : UserSurface fb) :
    alignDown fb.base PAGE_SIZE_4K = fb.base / PAGE_SIZE_4K * PAGE_SIZE_4K := by
  refine alignDown_eq (k := 12) ?_ (by decide)
  have hhi := hfb.hi
  rw [U64_eq]
  unfold USER_MAP_LIMIT at hhi
  omega

/-- It lies in the user range. -/
theorem alignDown_base_bounds (hfb : UserSurface fb) :
    PAGE_SIZE_4K ∣ alignDown fb.base PAGE_SIZE_4K ∧
      USER_IMAGE_BASE ≤ alignDown fb.base PAGE_SIZE_4K ∧
      alignDown fb.base PAGE_SIZE_4K < USER_MAP_LIMIT := by
  have hlo := hfb.lo
  have hhi := hfb.hi
  rw [alignDown_base hfb]
  refine ⟨Nat.dvd_mul_left _ _, ?_, Nat.lt_of_le_of_lt (Nat.div_mul_le_self _ _) hhi⟩
  unfold USER_IMAGE_BASE PAGE_SIZE_4K at *
  omega

/-- The source has at most `2 ^ 28` of its own pages in a row and fewer of the kernel's behind
them. -/
theorem rowOfPages_le {start n : Nat} (hsrc : Beside s src) (hkernel : FirmwareHalf s src)
    (hdvd : PAGE_SIZE_4K ∣ start) (hlo : USER_IMAGE_BASE ≤ start) (hhi : start < USER_MAP_LIMIT)
    (hres : ∀ j < n, debugResolve s.vm.mem src.as (start + j * PAGE_SIZE_4K) ≠ none) :
    n ≤ 2 ^ 29 := by
  obtain ⟨U, htree⟩ := hsrc.tree
  obtain ⟨gap, hgap, hgap', hnone⟩ := hkernel.gap
  have huser : min n ((USER_MAP_LIMIT - start) / PAGE_SIZE_4K) ≤ 2 ^ 28 := by
    refine pages_le htree (p := start / PAGE_SIZE_4K) fun j hj hmissing => ?_
    have hpage : (start + j * PAGE_SIZE_4K) / PAGE_SIZE_4K = start / PAGE_SIZE_4K + j :=
      Nat.add_mul_div_right _ _ (by decide)
    have hin : start + j * PAGE_SIZE_4K < USER_MAP_LIMIT := by
      unfold PAGE_SIZE_4K at *
      omega
    have hkey := userKey_of_user (Nat.le_trans hlo (Nat.le_add_right _ (j * PAGE_SIZE_4K))) hin
    refine hres j (by omega) ?_
    rw [debugResolve_eq htree hkey, hpage, hmissing]
    rfl
  -- The page of the gap is not in the row.
  have hend : n ≤ (gap - start) / PAGE_SIZE_4K := by
    refine Nat.le_of_not_lt fun hlt => hres _ hlt ?_
    have hsplit : gap = start + (gap - start) / PAGE_SIZE_4K * PAGE_SIZE_4K +
        (gap - start) % PAGE_SIZE_4K := by
      rw [Nat.add_assoc, Nat.div_add_mod', Nat.add_sub_cancel' (by omega)]
    rw [hsplit, debugResolve_add _ _ (Nat.dvd_add hdvd (Nat.dvd_mul_left _ _))
      (Nat.mod_lt _ (by decide)), Option.map_eq_none_iff] at hnone
    exact hnone
  unfold PAGE_SIZE_4K USER_MAP_LIMIT at *
  omega

/-- The pages of the surface of a call that does not refuse: there are at most `2 ^ 29`, and the
source maps them all. -/
theorem source_resolves (hsrc : Beside s src) (hkernel : FirmwareHalf s src) (hfb : UserSurface fb)
    (hgo : ¬ Refused s src fb) :
    windowPages fb ≤ 2 ^ 29 ∧ ∀ j < windowPages fb, debugResolve s.vm.mem src.as
      (alignDown fb.base PAGE_SIZE_4K + j * PAGE_SIZE_4K) ≠ none := by
  obtain ⟨hdvd, hlo, hhi⟩ := alignDown_base_bounds hfb
  rw [Refused, not_or, Bool.not_eq_false] at hgo
  have hall := (sourceResolves_iff s.vm.mem src.as (alignDown fb.base PAGE_SIZE_4K) 0
    (windowPages fb)).mp (by rw [Nat.zero_mul]; exact hgo.2)
  have hsome : ∀ j < windowPages fb, j ≤ 2 ^ 29 → debugResolve s.vm.mem src.as
      (alignDown fb.base PAGE_SIZE_4K + j * PAGE_SIZE_4K) ≠ none := by
    intro j hj hsmall hnone
    have hsum : add64 (alignDown fb.base PAGE_SIZE_4K) ((0 + j) * PAGE_SIZE_4K) =
        alignDown fb.base PAGE_SIZE_4K + j * PAGE_SIZE_4K := by
      rw [Nat.zero_add]
      refine add64_eq ?_
      rw [U64_eq]
      unfold USER_MAP_LIMIT at hhi
      unfold PAGE_SIZE_4K at *
      omega
    have hat := hall j hj
    rw [hsum, hnone] at hat
    exact absurd hat Bool.false_ne_true
  have hle := rowOfPages_le (n := min (windowPages fb) (2 ^ 29 + 1)) hsrc hkernel hdvd hlo hhi
    fun j hj => hsome j (by omega) (by omega)
  have hle : windowPages fb ≤ 2 ^ 29 := by omega
  exact ⟨hle, fun j hj => hsome j hj (by omega)⟩

/-- The two ways to say that pages of the window can be mapped. -/
theorem windowFor_iff {j : Nat} (h : VmInv s.vm s.as T)
    (hroom : USER_SHARED_BASE + windowPages fb * PAGE_SIZE_4K ≤ USER_MAP_LIMIT)
    (hj : j ≤ windowPages fb) :
    WindowFor s src fb j ↔ Supplied s.vm T src.as (alignDown fb.base PAGE_SIZE_4K) 0 j := by
  have hthere : missingTables (tableThere s.vm.mem s.as) (USER_SHARED_BASE / PAGE_SIZE_4K) j =
      missingTables (hasTable T) (USER_SHARED_BASE / PAGE_SIZE_4K) j := by
    refine missingTables_congr (fun l key h1 h3 hkey => ?_) fun i hi => ?_
    · rw [tableThere, h.tree.tableAt_eq rfl h1 h3 hkey, hasTable]
    · rw [userKey_zero]
      unfold USER_SHARED_BASE PAGE_SIZE_4K USER_MAP_LIMIT USER_IMAGE_BASE at *
      omega
  rw [WindowFor, Supplied, hthere, Nat.add_zero]
  simp only [Nat.zero_add]

/-- The loop of a call that does not refuse. -/
theorem shareLoop_window (h : VmInv s.vm s.as T) (hsrc : Beside s src)
    (hkernel : FirmwareHalf s src) (hfb : UserSurface fb) (hgo : ¬ Refused s src fb) :
    ∃ k s', WindowOutcome s src fb k s' := by
  obtain ⟨hdvd, hlo, hhi⟩ := alignDown_base_bounds hfb
  obtain ⟨hfew, hres⟩ := source_resolves hsrc hkernel hfb hgo
  have hroom : USER_SHARED_BASE + windowPages fb * PAGE_SIZE_4K ≤ USER_MAP_LIMIT := by
    unfold USER_SHARED_BASE PAGE_SIZE_4K USER_MAP_LIMIT
    omega
  have hfrom : alignDown fb.base PAGE_SIZE_4K + windowPages fb * PAGE_SIZE_4K ≤ 2 ^ 48 := by
    unfold PAGE_SIZE_4K USER_MAP_LIMIT at *
    omega
  obtain ⟨k, s', ho⟩ := shareLoop_outcome (i := 0) (n := windowPages fb) h
    (hsrc.steady h hkernel) hdvd hlo (by rwa [Nat.zero_add]) (by rwa [Nat.zero_add])
    (by rwa [Nat.zero_add])
  have hle := ho.le
  obtain ⟨T', hinv', hpages⟩ := ho.inv
  simp only [Nat.add_zero] at hpages
  refine ⟨k, s', ?_, ho.le, hroom,
    fun j hj => (windowFor_iff h hroom hj).trans (ho.supplied j hj), ⟨T', hinv'⟩,
    fun d hd => ?_, fun v hv hv' => ?_⟩
  · have hresult := ho.result
    rwa [Nat.zero_mul, Nat.zero_add] at hresult
  · -- An address of the window, and the same offset in the surface.
    have hj : d / PAGE_SIZE_4K < k := Nat.div_lt_of_lt_mul (by rwa [Nat.mul_comm])
    have hpage : (USER_SHARED_BASE + d) / PAGE_SIZE_4K =
        USER_SHARED_BASE / PAGE_SIZE_4K + d / PAGE_SIZE_4K := by
      unfold USER_SHARED_BASE PAGE_SIZE_4K
      omega
    have hoff : (USER_SHARED_BASE + d) % PAGE_SIZE_4K = d % PAGE_SIZE_4K := by
      unfold USER_SHARED_BASE PAGE_SIZE_4K
      omega
    have hd' : alignDown fb.base PAGE_SIZE_4K + d =
        alignDown fb.base PAGE_SIZE_4K + d / PAGE_SIZE_4K * PAGE_SIZE_4K + d % PAGE_SIZE_4K := by
      rw [Nat.add_assoc, Nat.div_add_mod']
    obtain ⟨e, he⟩ := Option.ne_none_iff_exists'.mp (hres _ (Nat.lt_of_lt_of_le hj hle))
    have huser : UserKey 0 ((USER_SHARED_BASE + d) / PAGE_SIZE_4K) := by
      refine userKey_of_user (Nat.le_trans (by decide) (Nat.le_add_right USER_SHARED_BASE _)) ?_
      refine Nat.lt_of_lt_of_le (Nat.add_lt_add_left (Nat.lt_of_lt_of_le hd ?_) _) hroom
      exact Nat.mul_le_mul_right _ hle
    refine ⟨e.1 + d % PAGE_SIZE_4K, e.2, ?_, ?_⟩
    · rw [hd', debugResolve_add _ _ (Nat.dvd_add hdvd (Nat.dvd_mul_left _ _))
        (Nat.mod_lt _ (by decide)), he]
      rfl
    · rw [debugResolve_eq hinv'.tree huser, hpage, hpages,
        if_pos ⟨Nat.le_add_right _ _, Nat.add_lt_add_left hj _⟩, Nat.add_sub_cancel_left, he, hoff]
      rfl
  · have huser : UserKey 0 (v / PAGE_SIZE_4K) := by
      refine userKey_of_user (Nat.le_trans ?_ hv) hv'
      unfold USER_IMAGE_BASE USER_SHARED_BASE
      omega
    rw [debugResolve_eq hinv'.tree huser, debugResolve_eq h.tree huser, hpages, if_neg ?_]
    unfold USER_SHARED_BASE PAGE_SIZE_4K at *
    omega

/-! ### Sizes -/

/-- What `byte_size` accepts, and the product that it returns. -/
theorem byteSize_some {bytes : Nat} (hfb : UserSurface fb) (h : fb.byteSize = some bytes) :
    validateFb fb = true ∧ 0 < fb.height ∧ 0 < fb.width ∧ fb.width ≤ fb.stride ∧
      bytes = 4 * (fb.stride * fb.height) % U64 := by
  unfold FramebufferInfo.byteSize at h
  split at h
  · contradiction
  rename_i hgood
  simp only [not_or] at hgood
  obtain ⟨hvalid, hbase, hwidth, hheight, hstride⟩ := hgood
  have hpixels : fb.stride * fb.height % U64 = fb.stride * fb.height := by
    have hlt : fb.stride * fb.height < 2 ^ 32 * 2 ^ 32 := Nat.mul_lt_mul'' hfb.stride hfb.height
    rw [← Nat.pow_add, ← U64_eq] at hlt
    exact Nat.mod_eq_of_lt hlt
  dsimp only at h
  split at h
  · contradiction
  refine ⟨?_, Nat.pos_of_ne_zero hheight, Nat.pos_of_ne_zero hwidth, Nat.le_of_not_lt hstride, ?_⟩
  · simp only [validateFb, bne_iff_ne, Bool.and_eq_true, decide_eq_true_eq]
    exact ⟨⟨⟨⟨hvalid, hbase⟩, Nat.pos_of_ne_zero hwidth⟩, Nat.pos_of_ne_zero hheight⟩,
      Nat.le_of_not_lt hstride⟩
  · rw [← Option.some.inj h, hpixels, Nat.mul_comm]

/-- `align_up` to pages gives whole pages, also when it wraps. -/
theorem dvd_alignUp {val : Nat} (hval : val < U64) : PAGE_SIZE_4K ∣ alignUp val PAGE_SIZE_4K := by
  by_cases hwrap : val + 2 ^ 12 ≤ U64
  · exact alignUp_dvd (k := 12) (by decide) hwrap
  · rw [show PAGE_SIZE_4K = 2 ^ 12 from rfl,
      alignUp_wrapped (k := 12) (by decide) hval (Nat.lt_of_not_le hwrap)]
    exact Nat.dvd_zero _

/-- The bytes of the window are its pages. -/
theorem mappedBytes_eq {bytes : Nat} (h : fb.byteSize = some bytes) :
    mappedBytes fb bytes = windowPages fb * PAGE_SIZE_4K := by
  rw [windowPages, h, Option.getD_some]
  exact (Nat.div_mul_cancel (dvd_alignUp (add64_lt _ _))).symm

/-- An old window consists of pages. -/
theorem oldMappedBytes_dvd (cur : FbOverride) : PAGE_SIZE_4K ∣ cur.oldMappedBytes := by
  unfold FbOverride.oldMappedBytes
  split
  · split
    · exact Nat.dvd_zero _
    · exact dvd_alignUp (add64_lt _ _)
  · exact Nat.dvd_zero _

/-- The offset of the surface in its first page. -/
theorem base_offset (fb : FramebufferInfo) :
    fb.base &&& (PAGE_SIZE_4K - 1) = fb.base % PAGE_SIZE_4K :=
  Nat.and_two_pow_sub_one_eq_mod fb.base 12

/-- The same offset, as a difference. -/
theorem sub_base (hfb : UserSurface fb) :
    sub64 fb.base (alignDown fb.base PAGE_SIZE_4K) = fb.base &&& (PAGE_SIZE_4K - 1) := by
  have hdiv := Nat.div_add_mod' fb.base PAGE_SIZE_4K
  rw [alignDown_base hfb, base_offset, sub64_eq (Nat.div_mul_le_self _ _)]
  omega

/-- A surface that is not in the shared window has no pages there. -/
theorem overrideFits_of_outside {cur : FbOverride} (h : ¬ (cur.valid = true ∧
    USER_SHARED_BASE ≤ cur.override.base ∧ cur.override.base < USER_MAP_LIMIT)) :
    OverrideFits cur := by
  rw [OverrideFits, FbOverride.oldMappedBytes, if_neg h]
  decide

/-- The pages of a new override, as the next call computes them. -/
theorem oldMappedBytes_window {bytes : Nat} (h : fb.byteSize = some bytes) :
    FbOverride.oldMappedBytes
      ⟨{ fb with base := USER_SHARED_BASE + fb.base % PAGE_SIZE_4K }, true, 0, 0⟩ =
        windowPages fb * PAGE_SIZE_4K := by
  have hoff : fb.base % PAGE_SIZE_4K < PAGE_SIZE_4K := Nat.mod_lt _ (by decide)
  have hlt : USER_SHARED_BASE + fb.base % PAGE_SIZE_4K < USER_MAP_LIMIT := by
    unfold USER_SHARED_BASE PAGE_SIZE_4K USER_MAP_LIMIT at *
    omega
  have hsize : FramebufferInfo.byteSize
      { fb with base := USER_SHARED_BASE + fb.base % PAGE_SIZE_4K } = some bytes := by
    unfold FramebufferInfo.byteSize at h ⊢
    split at h
    · contradiction
    rename_i hgood
    simp only [not_or] at hgood
    rw [if_neg (by simp only [not_or]; exact
      ⟨hgood.1, Nat.ne_of_gt (Nat.add_pos_left (by decide) _),
      hgood.2.2⟩)]
    exact h
  have hdown : alignDown (USER_SHARED_BASE + fb.base % PAGE_SIZE_4K) PAGE_SIZE_4K =
      USER_SHARED_BASE := by
    have heq := alignDown_eq (k := 12) (Nat.lt_trans hlt (by rw [U64_eq]; decide)) (by decide)
    refine heq.trans ?_
    unfold USER_SHARED_BASE PAGE_SIZE_4K
    omega
  rw [FbOverride.oldMappedBytes, if_pos ⟨rfl, Nat.le_add_right _ _, hlt⟩, hsize]
  dsimp only
  rw [hdown, sub64_eq (Nat.le_add_right _ _), Nat.add_sub_cancel_left, ← base_offset,
    ← mappedBytes_eq h, mappedBytes]

/-- When the surface can be rounded, its pixels are in the window. -/
theorem pixel_lt {x y bytes : Nat} (hfb : UserSurface fb) (h : fb.byteSize = some bytes)
    (hwhole : WholeSurface fb) (hx : x < fb.width) (hy : y < fb.height) :
    fb.base % PAGE_SIZE_4K + 4 * (y * fb.stride + x) < windowPages fb * PAGE_SIZE_4K := by
  obtain ⟨-, -, -, hstride, hbytes⟩ := byteSize_some hfb h
  have hrow : y * fb.stride + x < fb.stride * fb.height := by
    calc y * fb.stride + x < y * fb.stride + fb.stride := by omega
      _ = (y + 1) * fb.stride := (Nat.succ_mul y fb.stride).symm
      _ ≤ fb.height * fb.stride := Nat.mul_le_mul_right _ hy
      _ = fb.stride * fb.height := Nat.mul_comm _ _
  unfold WholeSurface at hwhole
  have hpage : 0 < PAGE_SIZE_4K := by decide
  have hfit : bytes = 4 * (fb.stride * fb.height) := by
    rw [hbytes]
    exact Nat.mod_eq_of_lt (by omega)
  have hsum : add64 (fb.base &&& (PAGE_SIZE_4K - 1)) bytes =
      fb.base % PAGE_SIZE_4K + 4 * (fb.stride * fb.height) := by
    rw [base_offset, hfit]
    exact add64_eq (by omega)
  rw [← mappedBytes_eq h, mappedBytes, hsum]
  refine Nat.lt_of_lt_of_le ?_ (le_alignUp (k := 12) (by decide) hwhole)
  omega

/-- When it cannot, the last row is beyond the last address. -/
theorem not_surfaceShared {bytes base' : Nat} {m m' : Words} {source target : AddressSpace}
    (hfb : UserSurface fb) (h : fb.byteSize = some bytes) (hwrap : ¬ WholeSurface fb) :
    ¬ SurfaceShared m source m' target fb base' := by
  intro hshared
  obtain ⟨-, hheight, hwidth, -, -⟩ := byteSize_some hfb h
  obtain ⟨hlast, -⟩ := hshared 0 hwidth (fb.height - 1) (Nat.sub_lt hheight Nat.one_pos)
  have hrow : (fb.height - 1) * fb.stride + fb.stride = fb.stride * fb.height := by
    rw [← Nat.succ_mul, Nat.succ_eq_add_one, Nat.sub_add_cancel hheight, Nat.mul_comm]
  have hlo := hfb.lo
  have hsmall := hfb.stride
  unfold WholeSurface at hwrap
  rw [U64_eq] at hlast hwrap
  unfold USER_IMAGE_BASE at hlo
  unfold PAGE_SIZE_4K at hwrap
  omega

/-! ### The calls -/

/-- What counts about the state after a success. -/
structure WindowMade (s src : VmState) (fb : FramebufferInfo) (old : Nat) (s' : Vm) : Prop where
  mapped : ∀ d < windowPages fb * PAGE_SIZE_4K, ∃ phys flags,
    debugResolve s.vm.mem src.as (alignDown fb.base PAGE_SIZE_4K + d) = some (phys, flags) ∧
      debugResolve s'.mem s.as (USER_SHARED_BASE + d) = some (phys, pageFlags windowFlags)
  trimmed : ∀ v, USER_SHARED_BASE + windowPages fb * PAGE_SIZE_4K ≤ v → v < USER_SHARED_BASE + old →
    debugResolve s'.mem s.as v = none

/-- A window with all pages shares the surface if and only if it could be rounded. -/
theorem WindowMade.shared_iff {bytes : Nat} {s' : Vm} (hm : WindowMade s src fb old s')
    (hfb : UserSurface fb) (h : fb.byteSize = some bytes)
    (hroom : USER_SHARED_BASE + windowPages fb * PAGE_SIZE_4K ≤ USER_MAP_LIMIT) :
    SurfaceShared s.vm.mem src.as s'.mem s.as fb (USER_SHARED_BASE + fb.base % PAGE_SIZE_4K) ↔
      WholeSurface fb := by
  refine ⟨fun hshared => ?_, fun hwhole x hx y hy => ?_⟩
  · by_contra hwrap
    exact not_surfaceShared hfb h hwrap hshared
  · have hlt := pixel_lt hfb h hwhole hx hy
    obtain ⟨phys, flags, hsource, htarget⟩ := hm.mapped _ hlt
    have hbase : fb.base + 4 * (y * fb.stride + x) =
        alignDown fb.base PAGE_SIZE_4K + (fb.base % PAGE_SIZE_4K + 4 * (y * fb.stride + x)) := by
      rw [alignDown_base hfb, ← Nat.add_assoc, Nat.div_add_mod']
    have hhi := hfb.hi
    have hsmall : windowPages fb * PAGE_SIZE_4K ≤ USER_MAP_LIMIT := by omega
    rw [← hbase] at hsource
    rw [← Nat.add_assoc] at htarget
    refine ⟨?_, ?_, phys, flags, pageFlags windowFlags, hsource, htarget⟩
    · rw [U64_eq]
      unfold USER_MAP_LIMIT at *
      omega
    · rw [U64_eq]
      unfold USER_MAP_LIMIT at *
      omega

/-- Dropping the stale pages leaves the new ones. -/
theorem WindowOutcome.made {s' : Vm} (ho : WindowOutcome s src fb (windowPages fb) s')
    (hold : USER_SHARED_BASE + old ≤ USER_MAP_LIMIT) (hdvd : PAGE_SIZE_4K ∣ old) :
    WindowMade s src fb old (if windowPages fb * PAGE_SIZE_4K < old then
      s'.unmapRange s.as (USER_SHARED_BASE + windowPages fb * PAGE_SIZE_4K)
        (old - windowPages fb * PAGE_SIZE_4K) else s') := by
  obtain ⟨T', hinv'⟩ := ho.inv
  have hroom := ho.room
  have hpages : PAGE_SIZE_4K ∣ windowPages fb * PAGE_SIZE_4K := Nat.dvd_mul_left _ _
  have hlow : USER_IMAGE_BASE ≤ USER_SHARED_BASE := by decide
  by_cases hlt : windowPages fb * PAGE_SIZE_4K < old
  · rw [if_pos hlt]
    have hend : USER_SHARED_BASE + windowPages fb * PAGE_SIZE_4K +
        (old - windowPages fb * PAGE_SIZE_4K) = USER_SHARED_BASE + old := by omega
    have hlook := fun v hv hv' => debugResolve_unmapRange (v := v) hinv'
      (Nat.le_trans hlow (Nat.le_add_right _ (windowPages fb * PAGE_SIZE_4K)))
      (by rw [hend]; exact hold)
      (Nat.dvd_add ⟨0x7E0000000, by decide⟩ hpages) (Nat.dvd_sub hdvd hpages) hv hv'
    refine ⟨fun d hd => ?_, fun v hv hv' => ?_⟩
    · rw [hlook _ (by omega) (by omega), if_neg (by omega)]
      exact ho.mapped d hd
    · rw [hlook _ (by omega) (by omega), if_pos (by omega)]
  · rw [if_neg hlt]
    exact ⟨ho.mapped, fun v hv hv' => by omega⟩

/-- After the pages that were reached are unmapped, something of the source is left if and only if
it was there before behind them. -/
theorem WindowOutcome.noneLeft_iff {k top : Nat} {s' : Vm} (ho : WindowOutcome s src fb k s')
    (htop : top ≤ USER_MAP_LIMIT) :
    NoneLeft s.vm.mem src.as (s'.unmapRange s.as USER_SHARED_BASE (k * PAGE_SIZE_4K)).mem s.as
        USER_SHARED_BASE top ↔
      NoneLeft s.vm.mem src.as s.vm.mem s.as (USER_SHARED_BASE + k * PAGE_SIZE_4K) top := by
  obtain ⟨T', hinv'⟩ := ho.inv
  have hroom := ho.room
  have hreached : k * PAGE_SIZE_4K ≤ windowPages fb * PAGE_SIZE_4K := Nat.mul_le_mul_right _ ho.le
  have hlow : USER_IMAGE_BASE ≤ USER_SHARED_BASE := by decide
  have hlook := fun v hv hv' => debugResolve_unmapRange (v := v) hinv' hlow
    (Nat.le_trans (Nat.add_le_add_left hreached _) hroom) ⟨0x7E0000000, by decide⟩
    (Nat.dvd_mul_left _ k) hv hv'
  constructor
  · intro hnone v hv hv' phys flags hres
    refine hnone v (by omega) hv' phys flags ?_
    rw [hlook v (by omega) (by omega), if_neg (by omega), ho.kept v hv (by omega), hres]
  · intro hnone v hv hv' phys flags hres
    rw [hlook v (by omega) (by omega)] at hres
    split at hres
    · exact absurd hres.symm (Option.some_ne_none _)
    · rw [ho.kept v (by omega) (by omega)] at hres
      exact hnone v (by omega) hv' phys flags hres

/-- A call that refuses changes nothing. -/
theorem remapTargetFramebuffer_refused (cur : FbOverride) (hfb : UserSurface fb)
    (hno : Refused s src fb) :
    remapTargetFramebuffer s.vm (some s.as) (some src.as) cur fb = (false, cur, s.vm) := by
  unfold remapTargetFramebuffer
  cases hvalid : validateFb fb with
  | false => rw [if_pos rfl]
  | true =>
    rw [if_neg (by simp)]
    cases hbytes : fb.byteSize with
    | none => rfl
    | some bytes =>
      have hstop := hno.resolve_left (by rw [hbytes]; exact Option.some_ne_none _)
      rw [windowPages, hbytes, Option.getD_some] at hstop
      dsimp only
      rw [if_pos ⟨hfb.lo, hfb.hi⟩, if_pos hstop]

/-- A call that does not refuse depends on how far the loop gets. -/
theorem remapTargetFramebuffer_runs {k : Nat} {s' : Vm} (cur : FbOverride) (hfb : UserSurface fb)
    (hgo : ¬ Refused s src fb) (ho : WindowOutcome s src fb k s') :
    remapTargetFramebuffer s.vm (some s.as) (some src.as) cur fb =
      if k = windowPages fb then
        (true, ⟨{ fb with base := USER_SHARED_BASE + fb.base % PAGE_SIZE_4K }, true, 0, 0⟩,
          if windowPages fb * PAGE_SIZE_4K < cur.oldMappedBytes then
            s'.unmapRange s.as (USER_SHARED_BASE + windowPages fb * PAGE_SIZE_4K)
              (cur.oldMappedBytes - windowPages fb * PAGE_SIZE_4K)
          else s')
      else (false, ⟨.empty, false, 0, 0⟩,
        if 0 < k * PAGE_SIZE_4K then s'.unmapRange s.as USER_SHARED_BASE (k * PAGE_SIZE_4K)
        else s') := by
  rw [Refused, not_or] at hgo
  obtain ⟨bytes, hbytes⟩ := Option.ne_none_iff_exists'.mp hgo.1
  have hvalid := (byteSize_some hfb hbytes).1
  have hcount : mappedBytes fb bytes / PAGE_SIZE_4K = windowPages fb := by
    rw [windowPages, hbytes, Option.getD_some]
  have hsum : add64 USER_SHARED_BASE (windowPages fb * PAGE_SIZE_4K) =
      USER_SHARED_BASE + windowPages fb * PAGE_SIZE_4K := by
    have hroom := ho.room
    refine add64_eq ?_
    rw [U64_eq]
    unfold USER_MAP_LIMIT at hroom
    omega
  unfold remapTargetFramebuffer
  rw [if_neg (by rw [hvalid]; exact Bool.noConfusion), hbytes]
  dsimp only
  rw [if_pos ⟨hfb.lo, hfb.hi⟩, hcount, if_neg hgo.2, ho.result, mappedBytes_eq hbytes, base_offset,
    hsum]
  by_cases hk : k = windowPages fb
  · rw [if_pos hk, decide_eq_true hk]
  · rw [if_neg hk, decide_eq_false hk]

/-- A call that is refused changes nothing. -/
theorem remapFramebufferOverride_refused (hno : Refused s src fb) (hfb : UserSurface fb) :
    ∃ ok out, remapFramebufferOverride s.vm (some s.as) (some src.as) (some fb) =
      (ok, out, false, s.vm) := by
  unfold remapFramebufferOverride
  dsimp only
  cases hbytes : fb.byteSize with
  | none => exact ⟨_, _, rfl⟩
  | some bytes =>
    have hstop := hno.resolve_left (by rw [hbytes]; exact Option.some_ne_none _)
    rw [windowPages, hbytes, Option.getD_some, mappedBytes, ← sub_base hfb] at hstop
    dsimp only
    rw [if_neg (by rw [not_or]; exact ⟨Nat.not_lt.mpr hfb.lo, Nat.not_le.mpr hfb.hi⟩),
      if_pos hstop]
    exact ⟨_, _, rfl⟩

/-- A call that gets to its loop. -/
theorem remapFramebufferOverride_runs {k : Nat} {s' : Vm} (hfb : UserSurface fb)
    (hgo : ¬ Refused s src fb) (ho : WindowOutcome s src fb k s') :
    remapFramebufferOverride s.vm (some s.as) (some src.as) (some fb) =
      if k = windowPages fb then
        (true, { fb with base := USER_SHARED_BASE + fb.base % PAGE_SIZE_4K }, true, s')
      else (false, .empty, false,
        s'.unmapRange s.as USER_SHARED_BASE (windowPages fb * PAGE_SIZE_4K)) := by
  rw [Refused, not_or] at hgo
  obtain ⟨bytes, hbytes⟩ := Option.ne_none_iff_exists'.mp hgo.1
  have hmapped := mappedBytes_eq hbytes
  have hcount : windowPages fb * PAGE_SIZE_4K / PAGE_SIZE_4K = windowPages fb :=
    Nat.mul_div_cancel _ (by decide)
  unfold remapFramebufferOverride
  rw [mappedBytes] at hmapped
  dsimp only
  rw [hbytes]
  dsimp only
  rw [if_neg (by rw [not_or]; exact ⟨Nat.not_lt.mpr hfb.lo, Nat.not_le.mpr hfb.hi⟩), sub_base hfb,
    hmapped,
    hcount, if_neg hgo.2, ho.result, base_offset]
  by_cases hk : k = windowPages fb
  · rw [if_pos hk, decide_eq_true hk]
  · rw [if_neg hk, decide_eq_false hk]

/-- The loop stops where the supply does. -/
theorem WindowOutcome.reached_iff {k : Nat} {s' : Vm} (ho : WindowOutcome s src fb k s') :
    WindowFor s src fb (windowPages fb) ↔ k = windowPages fb := by
  rw [ho.supplied _ (Nat.le_refl _)]
  exact ⟨fun hle => Nat.le_antisymm ho.le hle, fun heq => Nat.le_of_eq heq.symm⟩

/-- How far the loop got, in bytes. -/
theorem WindowOutcome.offsetReached_eq {k : Nat} {s' : Vm} (ho : WindowOutcome s src fb k s')
    (hgo : ¬ Refused s src fb) : offsetReached s src fb = k * PAGE_SIZE_4K := by
  rw [offsetReached, if_neg hgo, ho.result]

/-- The call on another process. -/
theorem remapTargetFramebuffer_iff (h : VmInv s.vm s.as T) (hsrc : Beside s src)
    (hkernel : FirmwareHalf s src) {cur : FbOverride} (hold : OverrideFits cur)
    (hfb : UserSurface fb) (hgo : ¬ Refused s src fb) :
    RemapOk s src cur fb (remapTargetFramebuffer s.vm (some s.as) (some src.as) cur fb) ↔
      WindowFor s src fb (windowPages fb) ∧ WholeSurface fb ∨
        ¬ WindowFor s src fb (windowPages fb) ∧
          ∀ k < windowPages fb, 0 < k → WindowFor s src fb k → ¬ WindowFor s src fb (k + 1) →
            NoneLeft s.vm.mem src.as s.vm.mem s.as (USER_SHARED_BASE + k * PAGE_SIZE_4K)
              (windowEnd fb cur.oldMappedBytes) := by
  obtain ⟨k, s', ho⟩ := shareLoop_window h hsrc hkernel hfb hgo
  obtain ⟨bytes, hbytes⟩ := Option.ne_none_iff_exists'.mp (not_or.mp hgo).1
  have hcall := remapTargetFramebuffer_runs cur hfb hgo ho
  have htop : windowEnd fb cur.oldMappedBytes ≤ USER_MAP_LIMIT := by
    have hroom := ho.room
    unfold OverrideFits at hold
    unfold windowEnd
    omega
  rw [hcall, ho.reached_iff]
  by_cases hk : k = windowPages fb
  · obtain rfl := hk
    have hmade := ho.made hold (oldMappedBytes_dvd cur)
    have hiff := hmade.shared_iff hfb hbytes ho.room
    rw [if_pos rfl]
    constructor
    · intro hok
      exact .inl ⟨rfl, hiff.mp (hok.shared rfl)⟩
    · intro hcond
      have hwhole := (hcond.resolve_right fun hcon => hcon.1 rfl).2
      exact ⟨fun _ => hiff.mpr hwhole, fun _ => hmade.trimmed, fun hcon => Bool.noConfusion hcon⟩
  · rw [if_neg hk]
    have hlt : k < windowPages fb := Nat.lt_of_le_of_ne ho.le hk
    -- The loop stops at the one `k` that the condition is about.
    have hstop : ∀ j < windowPages fb, WindowFor s src fb j → ¬ WindowFor s src fb (j + 1) →
        j = k := by
      intro j hj hfor hnot
      rw [ho.supplied j (Nat.le_of_lt hj)] at hfor
      rw [ho.supplied (j + 1) hj] at hnot
      omega
    have hundone : 0 < k → (NoneLeft s.vm.mem src.as
        (if 0 < k * PAGE_SIZE_4K then s'.unmapRange s.as USER_SHARED_BASE (k * PAGE_SIZE_4K)
          else s').mem s.as USER_SHARED_BASE (windowEnd fb cur.oldMappedBytes) ↔
        NoneLeft s.vm.mem src.as s.vm.mem s.as (USER_SHARED_BASE + k * PAGE_SIZE_4K)
          (windowEnd fb cur.oldMappedBytes)) := by
      intro hpos
      rw [if_pos (Nat.mul_pos hpos (by decide))]
      exact ho.noneLeft_iff htop
    constructor
    · intro hok
      refine .inr ⟨hk, fun j hj hpos hfor hnot => ?_⟩
      obtain rfl := hstop j hj hfor hnot
      refine (hundone hpos).mp (hok.undone rfl ?_)
      rw [ho.offsetReached_eq hgo]
      exact Nat.mul_pos hpos (by decide)
    · intro hcond
      refine ⟨fun hcon => Bool.noConfusion hcon, fun hcon => Bool.noConfusion hcon,
        fun _ hpos => ?_⟩
      rw [ho.offsetReached_eq hgo] at hpos
      have hpos' := Nat.pos_of_mul_pos_right hpos
      refine (hundone hpos').mpr ((hcond.resolve_left fun hcon => hk hcon.1).2 k hlt hpos' ?_ ?_)
      · exact (ho.supplied k ho.le).mpr (Nat.le_refl k)
      · rw [ho.supplied (k + 1) hlt]
        exact Nat.not_succ_le_self k

/-- The call of the process on its own surface. -/
theorem remapFramebufferOverride_iff (h : VmInv s.vm s.as T) (hsrc : Beside s src)
    (hkernel : FirmwareHalf s src) (hfb : UserSurface fb) (hgo : ¬ Refused s src fb) :
    OverrideOk s src fb (remapFramebufferOverride s.vm (some s.as) (some src.as) (some fb)) ↔
      (WindowFor s src fb (windowPages fb) → WholeSurface fb) := by
  obtain ⟨k, s', ho⟩ := shareLoop_window h hsrc hkernel hfb hgo
  obtain ⟨bytes, hbytes⟩ := Option.ne_none_iff_exists'.mp (not_or.mp hgo).1
  rw [remapFramebufferOverride_runs hfb hgo ho, ho.reached_iff]
  by_cases hk : k = windowPages fb
  · obtain rfl := hk
    have hmade := ho.made (show USER_SHARED_BASE + 0 ≤ USER_MAP_LIMIT by decide) (Nat.dvd_zero _)
    rw [if_neg (Nat.not_lt_zero _)] at hmade
    have hiff := hmade.shared_iff hfb hbytes ho.room
    rw [if_pos rfl]
    refine ⟨fun hok _ => hiff.mp (hok.shared rfl rfl), fun hcond => ⟨fun _ _ => ?_, fun hcon => ?_⟩⟩
    · exact hiff.mpr (hcond rfl)
    · exact Bool.noConfusion hcon
  · rw [if_neg hk]
    refine ⟨fun _ hcon => absurd hcon hk,
      fun _ => ⟨fun hcon => Bool.noConfusion hcon, fun _ _ => ?_⟩⟩
    -- The whole window is unmapped, however far the loop got.
    obtain ⟨T', hinv'⟩ := ho.inv
    have hroom := ho.room
    have hlow : USER_IMAGE_BASE ≤ USER_SHARED_BASE := by decide
    intro v hv hv' phys flags hres
    rw [windowEnd, Nat.max_zero] at hv'
    rw [debugResolve_unmapRange hinv' hlow hroom ⟨0x7E0000000, by decide⟩ (Nat.dvd_mul_left _ _)
      (by omega) (by omega), if_pos ⟨hv, hv'⟩] at hres
    exact absurd hres.symm (Option.some_ne_none _)

end Surface

/-- For every reachable address space of the target, every other one next to it as the source and
every override before: each of the two calls keeps its word if and only if its condition holds,
and leaves an override whose window ends in the user range. -/
theorem remapFramebuffer_shares (s src : VmState) (hs : vmSystem.Reachable s) (hsrc : Beside s src)
    (hkernel : FirmwareHalf s src) (cur : FbOverride) (hold : OverrideFits cur)
    (fb : FramebufferInfo) (hfb : UserSurface fb) :
    let remapped := remapTargetFramebuffer s.vm (some s.as) (some src.as) cur fb
    let loaded := remapFramebufferOverride s.vm (some s.as) (some src.as) (some fb)
    (RemapOk s src cur fb remapped ↔ KeepsWindow s src fb cur.oldMappedBytes) ∧
      (OverrideOk s src fb loaded ↔ KeepsNewWindow s src fb) ∧
      OverrideFits remapped.2.1 ∧ OverrideFits ⟨loaded.2.1, loaded.2.2.1, 0, 0⟩ := by
  obtain ⟨A, ⟨T, h, -⟩, -⟩ := refines_of_reachable hs
  dsimp only
  by_cases hno : Refused s src fb
  · -- A call that refuses maps nothing and keeps its word.
    have hreached : ¬ 0 < offsetReached s src fb := by
      rw [offsetReached, if_pos hno]
      exact Nat.lt_irrefl 0
    obtain ⟨ok, out, hnew⟩ := remapFramebufferOverride_refused hno hfb
    rw [remapTargetFramebuffer_refused cur hfb hno, hnew]
    refine ⟨⟨fun _ => .inl hno, fun _ => ?_⟩, ⟨fun _ => .inl hno, fun _ => ?_⟩, hold,
      overrideFits_of_outside fun hcon => Bool.noConfusion hcon.1⟩
    · exact ⟨fun hcon => Bool.noConfusion hcon, fun hcon => Bool.noConfusion hcon,
        fun _ hcon => absurd hcon hreached⟩
    · exact ⟨fun _ hcon => Bool.noConfusion hcon, fun _ hcon => absurd hcon hreached⟩
  · -- Otherwise the loop maps `k` pages, and the two calls differ in what they undo.
    obtain ⟨k, s', ho⟩ := shareLoop_window h hsrc hkernel hfb hno
    obtain ⟨bytes, hbytes⟩ := Option.ne_none_iff_exists'.mp (not_or.mp hno).1
    have hwindow : OverrideFits
        ⟨{ fb with base := USER_SHARED_BASE + fb.base % PAGE_SIZE_4K }, true, 0, 0⟩ := by
      rw [OverrideFits, oldMappedBytes_window hbytes]
      exact ho.room
    have hempty : OverrideFits ⟨.empty, false, 0, 0⟩ :=
      overrideFits_of_outside fun hcon => Bool.noConfusion hcon.1
    refine ⟨?_, ?_, ?_, ?_⟩
    · rw [KeepsWindow, or_iff_right hno]
      exact remapTargetFramebuffer_iff h hsrc hkernel hold hfb hno
    · rw [KeepsNewWindow, or_iff_right hno]
      exact remapFramebufferOverride_iff h hsrc hkernel hfb hno
    · rw [remapTargetFramebuffer_runs cur hfb hno ho]
      split
      · exact hwindow
      · exact hempty
    · rw [remapFramebufferOverride_runs hfb hno ho]
      split
      · exact hwindow
      · exact hempty

/-- An address space that is created while `src` is there lies beside it. -/
theorem beside_createAddressSpace {s src : VmState} (kernelCr3 as : Nat)
    (hsrc : vmSystem.Reachable src)
    (hcreate : Vm.createAddressSpace { src.vm with tables := [] } kernelCr3 as =
      some (s.as, s.vm)) :
    vmSystem.Reachable s ∧ Beside s src := by
  obtain ⟨A, ⟨U, hinv, -⟩, -⟩ := refines_of_reachable hsrc
  refine ⟨.init ⟨{ src.vm with tables := [] }, kernelCr3, as, hinv.alloc, rfl, hcreate⟩, ?_⟩
  unfold Vm.createAddressSpace at hcreate
  split at hcreate
  · contradiction
  cases hpage : ({ src.vm with tables := [] } : Vm).allocTablePage with
  | mk root vm' =>
    obtain ⟨-, -, hres⟩ := allocTablePage_spec (s := { src.vm with tables := [] }) hinv.alloc
      (fun p hp => absurd hp List.not_mem_nil) hpage
    simp only [hpage] at hcreate
    rcases hres with ⟨rfl, -, -⟩ | ⟨hroot0, hroot, -, hmem, htables, hgrown⟩
    · simp at hcreate
    rw [if_neg hroot0, Option.some.injEq, Prod.mk.injEq] at hcreate
    obtain ⟨-, hvm⟩ := hcreate
    -- The page of the new PML4 was free, so it is no table of `src`.
    have hfree : ∀ x, root ≤ x → x < root + PAGE_SIZE_4K → FreeAt src.vm.alloc x := by
      rcases hgrown.tables root (by rw [htables]; exact List.mem_cons_self) with hold | hnew
      · exact absurd hold List.not_mem_nil
      · exact hnew
    have hok : ∀ p ∈ src.vm.tables, TableOk p := fun p hp => by
      obtain ⟨n, k, -, hU⟩ := hinv.owned.named p hp
      exact (hinv.tree.table _ _ _ hU).2
    have hout : ∀ p ∈ src.vm.tables, ∀ i < 512,
        ¬ (root ≤ slot p i ∧ slot p i < root + PAGE_SIZE_4K) := fun p hp i hi hin =>
      hinv.alloc.not_used (hfree _ hin.1 hin.2) (hinv.alloc.usedAt_page (hinv.used p hp)
        (hok p hp).dvd (Nat.le_add_right p _) (by unfold slot PAGE_SIZE_4K; omega))
    have hdst : tableFromPhys root = root := page_and_PA_MASK hroot
    have hfirst : slot root USER_PML4_FIRST = root + 1024 := rfl
    have hlimit : slot root USER_PML4_LIMIT = root + 2048 := rfl
    refine ⟨hsrc, fun p hp i hi => ?_, fun p hp => ?_, fun p hp hmem' => ?_⟩
    · have hat := hout p hp i hi
      rw [← hvm]
      show clearUserSlots (copyPage vm'.mem (tableFromPhys root) (tableFromPhys kernelCr3))
        (tableFromPhys root) (slot p i) = _
      rw [hdst, clearUserSlots, hfirst, hlimit, if_neg (by unfold PAGE_SIZE_4K at hat; omega),
        copyPage, if_neg hat, hmem, zeroPage, zeroBytes, if_neg hat]
    · obtain ⟨r, hr, hu, hin⟩ := hinv.used p hp
      rw [← hvm]
      exact ⟨r, hgrown.kept r hr hu, hu, hin⟩
    · rw [← hvm] at hmem'
      have hmem'' : p ∈ vm'.tables := hmem'
      rw [htables, List.mem_singleton] at hmem''
      exact hout p hp 0 (by decide) (by rw [hmem'']; unfold slot PAGE_SIZE_4K; omega)

/-- Memory with eight free pages: two address spaces with one path of tables each. -/
def eightPages : Vm := ⟨⟨[⟨0x100000, 0x8000, false⟩], 8, 0, 8⟩, fun _ => 0, []⟩

/-- An address space before its first page. -/
def emptySource : VmState :=
  ((eightPages.createAddressSpace 0x1000 1).map fun out => ⟨out.2, out.1⟩).getD
    ⟨eightPages, ⟨0, 0, 0⟩⟩

/-- The address space with a page at the begin of the user range. -/
def sourceSpace : VmState :=
  ⟨(emptySource.vm.mapPage emptySource.as 0x400000000000 0x5000 3).2, emptySource.as⟩

/-- A second address space. -/
def targetSpace : VmState :=
  ((Vm.createAddressSpace { sourceSpace.vm with tables := [] } 0x1000 1).map
    fun out => ⟨out.2, out.1⟩).getD ⟨eightPages, ⟨0, 0, 0⟩⟩

theorem targetSpace_beside : vmSystem.Reachable targetSpace ∧ Beside targetSpace sourceSpace := by
  have halloc : AllocOk eightPages.alloc :=
    allocOk_singleton rfl ⟨by decide, by decide, by rw [U64_eq]; decide⟩ ⟨0x100, by decide⟩
      ⟨8, by decide⟩
  have hsome : (eightPages.createAddressSpace 0x1000 1).isSome = true ∧
      (emptySource.vm.mapPage emptySource.as 0x400000000000 0x5000 3).1 = true ∧
      (Vm.createAddressSpace { sourceSpace.vm with tables := [] } 0x1000 1).isSome = true := by
    with_unfolding_all decide
  obtain ⟨hfirst, hmap, hsecond⟩ := hsome
  have hempty : vmSystem.init emptySource := by
    refine ⟨eightPages, 0x1000, 1, halloc, rfl, ?_⟩
    obtain ⟨out, hout⟩ := Option.isSome_iff_exists.mp hfirst
    simp [emptySource, hout]
  have hsource : vmSystem.Reachable sourceSpace :=
    .step (l := .mapPage 0x400000000000 0x5000 3 true) (.init hempty)
      ⟨by decide, by decide, Prod.ext hmap rfl, rfl⟩
  refine beside_createAddressSpace 0x1000 1 hsource ?_
  obtain ⟨out, hout⟩ := Option.isSome_iff_exists.mp hsecond
  simp [targetSpace, hout]

theorem targetSpace_firmwareHalf : FirmwareHalf targetSpace sourceSpace :=
  targetSpace_beside.2.firmwareHalf targetSpace_beside.1 (by with_unfolding_all decide)

/-- A target with no window. -/
def noOverride : FbOverride := ⟨.empty, false, 0, 0⟩

theorem noOverride_fits : OverrideFits noOverride :=
  overrideFits_of_outside fun hcon => Bool.noConfusion hcon.1

/-- One pixel: the window is one page. -/
theorem remapFramebuffer_shares_one_pixel :
    (remapTargetFramebuffer targetSpace.vm (some targetSpace.as) (some sourceSpace.as) noOverride
      ⟨0x400000000123, 1, 1, 1, .rgbx8bpp, 1⟩).1 = true ∧
    RemapOk targetSpace sourceSpace noOverride ⟨0x400000000123, 1, 1, 1, .rgbx8bpp, 1⟩
      (remapTargetFramebuffer targetSpace.vm (some targetSpace.as) (some sourceSpace.as) noOverride
        ⟨0x400000000123, 1, 1, 1, .rgbx8bpp, 1⟩) := by
  have hrun : (remapTargetFramebuffer targetSpace.vm (some targetSpace.as) (some sourceSpace.as)
        noOverride ⟨0x400000000123, 1, 1, 1, .rgbx8bpp, 1⟩).1 = true ∧
      windowPages ⟨0x400000000123, 1, 1, 1, .rgbx8bpp, 1⟩ = 1 ∧
      alignDown 0x400000000123 PAGE_SIZE_4K = 0x400000000000 ∧
      debugResolve targetSpace.vm.mem sourceSpace.as 0x400000000000 = some (0x5000, pageFlags 3) ∧
      (takeTables (missingTables (tableThere targetSpace.vm.mem targetSpace.as)
        (USER_SHARED_BASE / PAGE_SIZE_4K) 1) targetSpace.vm.alloc).isSome = true := by
    with_unfolding_all decide
  obtain ⟨hok, hpages, hstart, hres, htables⟩ := hrun
  have hfb : UserSurface ⟨0x400000000123, 1, 1, 1, .rgbx8bpp, 1⟩ :=
    ⟨by decide, by decide, by decide, by decide, by decide⟩
  refine ⟨hok, (remapFramebuffer_shares targetSpace sourceSpace targetSpace_beside.1
    targetSpace_beside.2 targetSpace_firmwareHalf noOverride noOverride_fits _ hfb).1.mpr
      (.inr (.inl ⟨⟨?_, ?_⟩, ?_⟩))⟩
  · rw [hpages]
    exact htables
  · intro j hj phys flags hphys
    rw [hpages, Nat.lt_one_iff] at hj
    rw [hstart, hj, Nat.zero_mul, Nat.add_zero, hres, Option.some.injEq, Prod.mk.injEq] at hphys
    rw [← hphys.1]
    decide
  · unfold WholeSurface
    rw [U64_eq]
    decide

/-- A surface of `2 ^ 64 - 4` bytes. Rounding them up gives 0, so the call succeeds and maps
nothing, not even the page of the first pixel. -/
theorem huge_surface_maps_nothing :
    ¬ ∀ (s src : VmState), vmSystem.Reachable s → Beside s src → FirmwareHalf s src →
      ∀ cur, OverrideFits cur → ∀ fb, UserSurface fb →
        RemapOk s src cur fb (remapTargetFramebuffer s.vm (some s.as) (some src.as) cur fb) := by
  intro hclaim
  have hrun : (remapTargetFramebuffer targetSpace.vm (some targetSpace.as) (some sourceSpace.as)
        noOverride ⟨0x400000000000, 1, 0x7fffffff, 0x80000001, .rgbx8bpp, 1⟩).1 = true ∧
      (remapTargetFramebuffer targetSpace.vm (some targetSpace.as) (some sourceSpace.as)
        noOverride ⟨0x400000000000, 1, 0x7fffffff, 0x80000001, .rgbx8bpp, 1⟩).2.1.override.base =
        0x7E0000000000 ∧
      debugResolve (remapTargetFramebuffer targetSpace.vm (some targetSpace.as)
        (some sourceSpace.as) noOverride
        ⟨0x400000000000, 1, 0x7fffffff, 0x80000001, .rgbx8bpp, 1⟩).2.2.mem targetSpace.as
        0x7E0000000000 = none := by
    with_unfolding_all decide
  obtain ⟨hok, hbase, hnone⟩ := hrun
  have hremap := hclaim targetSpace sourceSpace targetSpace_beside.1 targetSpace_beside.2
    targetSpace_firmwareHalf noOverride noOverride_fits
    ⟨0x400000000000, 1, 0x7fffffff, 0x80000001, .rgbx8bpp, 1⟩
    ⟨by decide, by decide, by decide, by decide, by decide⟩
  obtain ⟨-, -, phys, flags, flags', -, hres⟩ :=
    hremap.shared hok 0 (by decide) 0 (by decide)
  rw [hbase, Nat.zero_mul, Nat.mul_zero, Nat.add_zero, hnone] at hres
  exact absurd hres.symm (Option.some_ne_none _)

end VKernel.Proofs.Process

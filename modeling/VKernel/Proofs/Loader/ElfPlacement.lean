import VKernel.Loader.ElfPlacement
import VKernel.Proofs.Loader.ElfCorrect
import VKernel.Proofs.Memory.AlignedHeap
import Mathlib.Data.Nat.ModEq

/-!
# `VKernel.Proofs.Loader.ElfPlacement`: where an image lands, and how it is aligned

`load_impl` rounds `USER_IMAGE_BASE` up with the mask of a number that it takes from the file.
`alignUp_two_pow` says what that does to a value with one bit: it stays, unless the mask takes
the bit away. From this `loadsInWindow_iff` gets the files whose image lies in its window.

The buffer of the image is aligned to the largest alignment, but the bias is the difference of
the buffer and the lowest segment. `keepsAlignment_iff` says when the segments are aligned all
the same.
-/

set_option autoImplicit false
set_option maxRecDepth 20000

namespace VKernel.Proofs.Loader

open VKernel VKernel.Lib VKernel.Loader VKernel.Memory VKernel.Proofs.Memory

/-! ### Rounding up a single bit -/

section Bit

variable {k m : Nat}

/-- The sum of `align_up`, before the mask. -/
theorem alignUp_succ (val m : Nat) :
    alignUp val (m + 1) = (val + m) % U64 &&& not64 m := by
  have h1 : 1 < U64 := by
    rw [U64_eq]
    decide
  have hlt := Nat.mod_lt (val + m) U64_pos
  have hsum : sub64 (add64 val (m + 1)) 1 = (val + m) % U64 := by
    unfold add64 sub64
    rw [← Nat.add_assoc, Nat.add_mod, Nat.mod_eq_of_lt h1]
    by_cases hwrap : (val + m) % U64 = U64 - 1
    · rw [hwrap, Nat.sub_add_cancel U64_pos, Nat.mod_self, if_neg (by omega)]
    · rw [Nat.mod_eq_of_lt (show (val + m) % U64 + 1 < U64 by omega), if_pos (by omega)]
      omega
  unfold alignUp
  rw [hsum, sub64_eq (by omega), Nat.add_sub_cancel]

/-- The bits of the complement. -/
theorem testBit_not64 (hm : m < U64) (i : Nat) :
    (not64 m).testBit i = (decide (i < 64) && !m.testBit i) := by
  rw [U64_eq] at hm
  unfold not64
  rw [U64_eq, Nat.sub_sub, Nat.add_comm 1 m]
  exact Nat.testBit_two_pow_sub_succ hm i

/-- Adding a bit that is clear carries nowhere: the bits above stay. -/
theorem testBit_two_pow_add_above (hclear : m.testBit k = false) {i : Nat} (hi : k < i) :
    (2 ^ k + m).testBit i = m.testBit i := by
  have hdiv : (2 ^ k + m) / 2 ^ (k + 1) = m / 2 ^ (k + 1) := by
    have hpos := Nat.two_pow_pos k
    have heven : m / 2 ^ k % 2 = 0 := by
      simpa [Nat.testBit_eq_decide_div_mod_eq] using hclear
    rw [Nat.pow_succ, ← Nat.div_div_eq_div_mul, ← Nat.div_div_eq_div_mul,
      Nat.add_div_left _ hpos]
    omega
  obtain ⟨j, rfl⟩ : ∃ j, i = j + (k + 1) := ⟨i - (k + 1), by omega⟩
  rw [← Nat.testBit_div_two_pow, hdiv, Nat.testBit_div_two_pow]

/-- Rounding up a value with one bit: the mask leaves the bit or takes it away. -/
theorem alignUp_two_pow (hk : k < 64) (hm : m < U64) :
    (m.testBit k = false → alignUp (2 ^ k) (m + 1) = 2 ^ k) ∧
      (m.testBit k = true → (alignUp (2 ^ k) (m + 1)).testBit k = false) := by
  rw [alignUp_succ]
  constructor
  · intro hclear
    -- with the bit clear nothing is carried out of the word
    have hsum : ∀ i, ((2 ^ k + m) % U64).testBit i =
        (decide (i < 64) && (2 ^ k + m).testBit i) := by
      intro i
      rw [U64_eq, Nat.testBit_mod_two_pow]
    apply Nat.eq_of_testBit_eq
    intro i
    rw [Nat.testBit_and, hsum, testBit_not64 hm, Nat.testBit_two_pow]
    rcases Nat.lt_trichotomy i k with hlt | rfl | hgt
    · rw [Nat.testBit_two_pow_add_gt hlt]
      have hne : k ≠ i := by omega
      cases m.testBit i <;> simp [hne]
    · rw [Nat.testBit_two_pow_add_eq, hclear]
      simp [hk]
    · rw [testBit_two_pow_add_above hclear hgt]
      have hne : k ≠ i := by omega
      cases m.testBit i <;> simp [hne]
  · intro hset
    rw [Nat.testBit_and, testBit_not64 hm, hset]
    simp

end Bit

/-! ### The numbers of the headers -/

section Headers

variable {file : List UInt8} {ehdr : Ehdr}

/-- A header that is loaded. -/
theorem loadHeaders_cons_load {ph : Phdr} (phdrs : List Phdr) (h : ph.type = PT_LOAD) :
    loadHeaders (ph :: phdrs) = ph :: loadHeaders phdrs := by
  unfold loadHeaders
  rw [List.filter_cons_of_pos (by simpa using h)]

/-- A header that is not. -/
theorem loadHeaders_cons_other {ph : Phdr} (phdrs : List Phdr) (h : ph.type ≠ PT_LOAD) :
    loadHeaders (ph :: phdrs) = loadHeaders phdrs := by
  unfold loadHeaders
  rw [List.filter_cons_of_neg (by simpa using h)]

/-- The headers that are loaded. -/
theorem mem_loadHeaders {ph : Phdr} {phdrs : List Phdr} :
    ph ∈ loadHeaders phdrs ↔ ph ∈ phdrs ∧ ph.type = PT_LOAD := by
  unfold loadHeaders
  rw [List.mem_filter, decide_eq_true_iff]

/-- What one header does to the three numbers. -/
theorem spanAdd_numbers {fileSize : Nat} {span t : Span} {ph : Phdr}
    (h : span.add fileSize ehdr ph = .ok t) :
    (ph.type ≠ PT_LOAD → t.vaddrMin = span.vaddrMin ∧ t.vaddrMax = span.vaddrMax ∧
      t.maxAlign = span.maxAlign) ∧
    (ph.type = PT_LOAD → t.vaddrMin = min span.vaddrMin ph.vaddr ∧
      t.vaddrMax = max span.vaddrMax (add64 ph.vaddr ph.memsz) ∧
      t.maxAlign = max span.maxAlign ph.align) := by
  unfold Span.add at h
  replace h := (require_bind_eq_ok h).2
  simp only [] at h
  split at h
  · rename_i hother
    cases h
    refine ⟨fun _ => ?_, fun hload => absurd hload hother⟩
    split <;> exact ⟨rfl, rfl, rfl⟩
  · rename_i hload
    replace h := (require_bind_eq_ok h).2
    cases h
    refine ⟨fun hother => absurd hother hload, fun _ => ?_⟩
    split <;> exact ⟨rfl, rfl, rfl⟩

/-- The loop of step 6 computes the three folds over the `PT_LOAD` headers. -/
theorem spanFold_numbers {fileSize : Nat} {t : Span} : ∀ (phdrs : List Phdr) (span : Span),
    phdrs.foldlM (Span.add fileSize ehdr) span = .ok t →
      t.vaddrMin =
        (loadHeaders phdrs).foldl (fun low ph => min low ph.vaddr) span.vaddrMin ∧
      t.vaddrMax = (loadHeaders phdrs).foldl
        (fun high ph => max high (add64 ph.vaddr ph.memsz)) span.vaddrMax ∧
      t.maxAlign =
        (loadHeaders phdrs).foldl (fun align ph => max align ph.align) span.maxAlign := by
  intro phdrs
  induction phdrs with
  | nil =>
    intro span h
    cases h
    exact ⟨rfl, rfl, rfl⟩
  | cons ph phdrs ih =>
    intro span h
    rw [List.foldlM_cons] at h
    cases hadd : span.add fileSize ehdr ph with
    | error e =>
      rw [hadd] at h
      cases h
    | ok mid =>
      rw [hadd] at h
      obtain ⟨hother, hload⟩ := spanAdd_numbers hadd
      have hrest := ih mid h
      by_cases htype : ph.type = PT_LOAD
      · obtain ⟨hmin, hmax, halign⟩ := hload htype
        rw [loadHeaders_cons_load phdrs htype]
        simp only [List.foldl_cons]
        rw [← hmin, ← hmax, ← halign]
        exact hrest
      · obtain ⟨hmin, hmax, halign⟩ := hother htype
        rw [loadHeaders_cons_other phdrs htype, ← hmin, ← hmax, ← halign]
        exact hrest

/-- The span of an accepted file has the three numbers. -/
theorem computeSpan_numbers {phdrs : List Phdr} {span : Span}
    (h : computeSpan file ehdr phdrs = .ok span) :
    span.vaddrMin = lowestVaddr phdrs ∧ span.vaddrMax = highestEnd phdrs ∧
      span.maxAlign = largestAlign phdrs := by
  unfold computeSpan at h
  cases hfold : phdrs.foldlM (Span.add file.length ehdr) {} with
  | error e =>
    rw [hfold] at h
    cases h
  | ok t =>
    rw [hfold] at h
    cases (require_bind_eq_ok h).2
    exact spanFold_numbers phdrs {} hfold

/-- The size of the image is that of its pages. -/
theorem imageSize_eq {phdrs : List Phdr} {span : Span}
    (h : computeSpan file ehdr phdrs = .ok span) : span.imageSize = imageBytes phdrs := by
  obtain ⟨hmin, hmax, -⟩ := computeSpan_numbers h
  unfold Span.imageSize imageBytes
  rw [hmin, hmax]

/-- A maximum is reached: at the start of the fold or at one of the elements. -/
theorem foldl_max_cases {α : Type} (f : α → Nat) : ∀ (l : List α) (start : Nat),
    start ≤ l.foldl (fun high x => max high (f x)) start ∧
    (∀ x ∈ l, f x ≤ l.foldl (fun high x => max high (f x)) start) ∧
    (l.foldl (fun high x => max high (f x)) start = start ∨
      ∃ x ∈ l, l.foldl (fun high x => max high (f x)) start = f x) := by
  intro l
  induction l with
  | nil =>
    intro start
    exact ⟨Nat.le_refl _, fun _ h => absurd h List.not_mem_nil, .inl rfl⟩
  | cons a l ih =>
    intro start
    obtain ⟨hge, hall, hcases⟩ := ih (max start (f a))
    rw [List.foldl_cons]
    refine ⟨Nat.le_trans (Nat.le_max_left _ _) hge, fun x hx => ?_, ?_⟩
    · rcases List.mem_cons.mp hx with rfl | hx
      · exact Nat.le_trans (Nat.le_max_right _ _) hge
      · exact hall x hx
    · rcases hcases with heq | ⟨x, hx, heq⟩
      · rw [heq]
        rcases Nat.le_total start (f a) with hle | hle
        · exact .inr ⟨a, List.mem_cons_self .., Nat.max_eq_right hle⟩
        · exact .inl (Nat.max_eq_left hle)
      · exact .inr ⟨x, List.mem_cons_of_mem _ hx, heq⟩

/-- The largest alignment is a page or the alignment of a segment, and no segment has a larger
one. -/
theorem largestAlign_cases (phdrs : List Phdr) :
    4096 ≤ largestAlign phdrs ∧ (∀ ph ∈ loadHeaders phdrs, ph.align ≤ largestAlign phdrs) ∧
      (largestAlign phdrs = 4096 ∨ ∃ ph ∈ loadHeaders phdrs, largestAlign phdrs = ph.align) :=
  foldl_max_cases Phdr.align _ _

/-- The alignments of the headers of a file are `u64` values. -/
theorem largestAlign_lt (file : List UInt8) : largestAlign (fileHeaders file) < U64 := by
  rcases (largestAlign_cases (fileHeaders file)).2.2 with heq | ⟨ph, hph, heq⟩
  · rw [heq, U64_eq]
    decide
  · obtain ⟨i, -, rfl⟩ := List.mem_map.mp (mem_loadHeaders.mp hph).1
    rw [heq, U64_eq]
    exact leValue_lt _ _ 8

end Headers

/-! ### Loads that are not rejected -/

section Accepted

variable {α β : Type} {file : List UInt8} {place : Place}

/-- The computation returns no error. An access that leaves its range is none. -/
def Unrejected (x : Except Stop α) : Prop := ∀ e, x ≠ .error (.rejected e)

/-- A result is no rejection. -/
theorem unrejected_ok (v : α) : Unrejected (Except.ok v : Except Stop α) := fun _ => by simp

/-- An access outside is none either. -/
theorem unrejected_outside (a : Access) : Unrejected (.error (.outside a) : Except Stop α) :=
  fun _ => by simp

/-- Steps that reject nothing, in a row. -/
theorem unrejected_bind {x : Except Stop α} {f : α → Except Stop β} (hx : Unrejected x)
    (hf : ∀ v, Unrejected (f v)) : Unrejected (x >>= f) := by
  cases x with
  | ok v => exact hf v
  | error stop =>
    cases stop with
    | rejected e => exact absurd rfl (hx e)
    | outside a => exact unrejected_outside a

theorem unrejected_checkFile (offset length : Nat) : Unrejected (checkFile file offset length) := by
  unfold checkFile
  split
  · exact unrejected_ok _
  · exact unrejected_outside _

theorem unrejected_check (address length : Nat) : Unrejected (place.check address length) := by
  unfold Place.check
  split
  · exact unrejected_ok _
  · exact unrejected_outside _

theorem unrejected_copySegment (writeBias : Nat) (mem : Mem) (ph : Phdr) :
    Unrejected (copySegment file place writeBias mem ph) := by
  unfold copySegment copyFilePart clearBss
  split
  · exact unrejected_ok _
  · refine unrejected_bind ?_ fun mem' => ?_
    · split
      · exact unrejected_bind (unrejected_checkFile _ _) fun _ =>
          unrejected_bind (unrejected_check _ _) fun _ => unrejected_ok _
      · exact unrejected_ok _
    · split
      · exact unrejected_bind (unrejected_check _ _) fun _ => unrejected_ok _
      · exact unrejected_ok _

theorem unrejected_copySegments (writeBias : Nat) : ∀ (phdrs : List Phdr) (mem : Mem),
    Unrejected (phdrs.foldlM (copySegment file place writeBias) mem) := by
  intro phdrs
  induction phdrs with
  | nil => exact fun mem => unrejected_ok mem
  | cons ph phdrs ih =>
    intro mem
    rw [List.foldlM_cons]
    exact unrejected_bind (unrejected_copySegment _ _ _) ih

theorem unrejected_scanDynamic (mem : Mem) : ∀ fuel dyn relaVaddr relaSize,
    Unrejected (scanDynamic place mem fuel dyn relaVaddr relaSize) := by
  intro fuel
  induction fuel with
  | zero => exact fun _ _ _ => unrejected_outside _
  | succ fuel ih =>
    intro dyn relaVaddr relaSize
    unfold scanDynamic
    refine unrejected_bind (unrejected_check _ _) fun _ => ?_
    simp only []
    split
    · exact unrejected_ok _
    · split
      · exact unrejected_bind (unrejected_check _ _) fun _ => ih _ _ _
      · split
        · exact unrejected_bind (unrejected_check _ _) fun _ => ih _ _ _
        · exact ih _ _ _

theorem unrejected_applyRelocations (writeBias loadBias : Nat) : ∀ count entry (mem : Mem),
    Unrejected (applyRelocations place writeBias loadBias count entry mem) := by
  intro count
  induction count with
  | zero => exact fun _ mem => unrejected_ok mem
  | succ count ih =>
    intro entry mem
    unfold applyRelocations
    refine unrejected_bind (unrejected_check _ _) fun _ => ?_
    split
    · exact ih _ _
    · exact unrejected_bind (unrejected_check _ _) fun _ =>
        unrejected_bind (unrejected_check _ _) fun _ =>
          unrejected_bind (unrejected_check _ _) fun _ => ih _ _

theorem unrejected_fillImage (ehdr : Ehdr) (phdrs : List Phdr) (span : Span) :
    Unrejected (fillImage file ehdr phdrs span place) := by
  unfold fillImage
  refine unrejected_bind (unrejected_copySegments _ _ _) fun mem => ?_
  split
  · have htable : ∀ relaVaddr relaSize : Nat, Unrejected (
        if relaVaddr ≠ 0 ∧ relaSize ≥ RELA_SIZE then
          applyRelocations place (place.writeBias span) (place.loadBias span)
            (relaSize / RELA_SIZE) (add64 relaVaddr (place.writeBias span)) mem
        else pure mem) := by
      intro relaVaddr relaSize
      split
      · exact unrejected_applyRelocations _ _ _ _ _
      · exact unrejected_ok _
    unfold relocate
    simp only []
    split
    · exact htable 0 0
    · exact unrejected_bind (unrejected_scanDynamic _ _ _ _ _) fun table =>
        htable table.1 table.2
  · exact unrejected_ok _

variable {alloc : Allocators} {preferredBase : Option Nat}

/-- A computation that is not rejected got its first part. -/
theorem ok_of_unrejected_bind {x : Except Stop α} {f : α → Except Stop β} (hsafe : Safe x)
    (h : Unrejected (x >>= f)) : ∃ v, x = .ok v ∧ Unrejected (f v) := by
  cases x with
  | ok v => exact ⟨v, rfl, h⟩
  | error stop =>
    cases stop with
    | rejected e => exact absurd rfl (h e)
    | outside a => exact absurd rfl (hsafe a)

/-- The loader accepts a file exactly when it does not return an error. -/
theorem accepted_iff :
    (∀ e, loadImpl file alloc preferredBase ≠ .error (.rejected e)) ↔
      ∃ span place, Accepted file alloc preferredBase span place := by
  constructor
  · intro h
    obtain ⟨ehdr, hehdr, h⟩ := ok_of_unrejected_bind safe_checkHeader h
    obtain ⟨rfl, -⟩ := checkHeader_ok hehdr
    rw [readPhdrs_of_checkHeader hehdr, ok_bind] at h
    obtain ⟨span, hspan, h⟩ := ok_of_unrejected_bind computeSpan_spec.1 h
    cases hplace : choosePlace alloc preferredBase span with
    | some place => exact ⟨span, place, hehdr, hspan, hplace⟩
    | none =>
      have hnone : placeImage alloc preferredBase span = .error (.rejected .noMemory) := by
        unfold placeImage
        rw [hplace]
      rw [hnone] at h
      exact absurd rfl (h .noMemory)
  · rintro ⟨span, place, haccepted⟩
    show Unrejected _
    unfold loadImpl
    rw [haccepted.header, ok_bind, readPhdrs_of_checkHeader haccepted.header, ok_bind]
    show Unrejected (computeSpan file (parseEhdr file) (fileHeaders file) >>= _)
    rw [haccepted.spanned, ok_bind]
    refine unrejected_bind ?_ fun place' =>
      unrejected_bind (unrejected_fillImage _ _ _) fun _ => unrejected_ok _
    unfold placeImage
    rw [haccepted.chosen]
    simp only []
    split
    · exact unrejected_bind (unrejected_check _ _) fun _ => unrejected_ok _
    · exact unrejected_ok _

/-- Span and place of an accepted file are determined. -/
theorem Accepted.unique {span span' : Span} {place place' : Place}
    (h : Accepted file alloc preferredBase span place)
    (h' : Accepted file alloc preferredBase span' place') : span' = span ∧ place' = place := by
  obtain rfl : span' = span := Except.ok.inj (h'.spanned.symm.trans h.spanned)
  exact ⟨rfl, Option.some.inj (h'.chosen.symm.trans h.chosen)⟩

/-- A load that returns a result has accepted the file, and its result is the one of the
accepted place. -/
theorem accepted_of_ok {l : Loaded} (h : loadImpl file alloc preferredBase = .ok l) :
    Accepted file alloc preferredBase l.span l.place ∧
      l.result = loadResult (parseEhdr file) (fileHeaders file) l.span l.place := by
  have hunrejected : ∀ e, loadImpl file alloc preferredBase ≠ .error (.rejected e) := by
    rw [h]
    exact unrejected_ok l
  obtain ⟨span, place, haccepted⟩ := accepted_iff.mp hunrejected
  unfold loadImpl at h
  rw [haccepted.header, ok_bind, readPhdrs_of_checkHeader haccepted.header, ok_bind] at h
  replace h : computeSpan file (parseEhdr file) (fileHeaders file) >>= _ = Except.ok l := h
  rw [haccepted.spanned, ok_bind] at h
  obtain ⟨hsafe, hplaced⟩ := placeImage_spec haccepted.chosen
  cases hplace : placeImage alloc preferredBase span with
  | error stop =>
    rw [hplace] at h
    cases h
  | ok place' =>
    rw [hplace] at h
    have hclear := hsafe.mp (by rw [hplace]; exact safe_ok _)
    rw [hplaced hclear] at hplace
    cases hplace
    cases hfill : fillImage file (parseEhdr file) (fileHeaders file) span place with
    | error stop =>
      rw [ok_bind, show parsePhdrs file (parseEhdr file) = fileHeaders file from rfl,
        hfill] at h
      cases h
    | ok mem =>
      rw [ok_bind, show parsePhdrs file (parseEhdr file) = fileHeaders file from rfl,
        hfill] at h
      cases h
      exact ⟨haccepted, rfl⟩

end Accepted

/-! ### The window -/

section Window

variable {file : List UInt8} {alloc : Allocators} {base size lo v : Nat}

/-- Where a link-time address runs: as far behind the base as it lies behind the lowest
address. -/
theorem add64_bias (hlo : lo < U64) :
    add64 v (sub64 base lo) = (base + sub64 v lo) % U64 := by
  unfold add64 sub64
  split
  · split
    · congr 1
      omega
    · rw [show base + (U64 - (lo - v)) = v + (base - lo) + U64 by omega, Nat.add_mod_right]
  · split
    · rw [show v + (U64 - (lo - base)) = base + (v - lo) + U64 by omega, Nat.add_mod_right]
    · congr 1
      omega

/-- A range at an offset of the image lies in it exactly when the offset says so: a sum that
wraps ends up below the base. -/
theorem range_inside_iff {o length : Nat} (hbase : base + size < U64) (ho : o < U64) :
    (base ≤ (base + o) % U64 ∧ (base + o) % U64 + length ≤ base + size) ↔ o + length ≤ size := by
  rcases Nat.lt_or_ge (base + o) U64 with hlt | hge
  · rw [Nat.mod_eq_of_lt hlt]
    omega
  · rw [Nat.mod_eq_sub_mod hge, Nat.mod_eq_of_lt (by omega)]
    omega

theorem USER_IMAGE_BASE_eq : USER_IMAGE_BASE = 2 ^ 46 := by decide

/-- The base of the image stays at `USER_IMAGE_BASE`, or it leaves the window. -/
theorem base_inside_iff {A : Nat} (hA : 4096 ≤ A) (hlt : A < U64) :
    (USER_IMAGE_BASE ≤ elfAlignUp USER_IMAGE_BASE A ∧
      elfAlignUp USER_IMAGE_BASE A + size ≤ USER_HEAP_BASE) ↔
    ((A - 1).testBit 46 = false ∧ size ≤ USER_HEAP_BASE - USER_IMAGE_BASE) := by
  obtain ⟨hclear, hset⟩ := @alignUp_two_pow 46 (A - 1) (by decide) (by omega)
  rw [Nat.sub_add_cancel (by omega)] at hclear hset
  have hheap : USER_HEAP_BASE = 2 ^ 46 + 2 ^ 40 := by decide
  unfold elfAlignUp
  rw [if_neg (by omega), USER_IMAGE_BASE_eq, hheap]
  cases hbit : (A - 1).testBit 46 with
  | false =>
    rw [hclear hbit]
    simp only [true_and]
    omega
  | true =>
    -- every address of the window has bit 46
    have hbase := hset hbit
    generalize alignUp (2 ^ 46) A = B at hbase ⊢
    rw [Nat.testBit_eq_decide_div_mod_eq] at hbase
    simp only [decide_eq_false_iff_not] at hbase
    simp only [Bool.true_eq_false, false_and, iff_false]
    omega

/-- What a result of the loader says about the window. -/
theorem LoadsInWindow.of_ok {l : Loaded} (h : LoadsInWindow file alloc)
    (hload : loadIntoAddressSpace file alloc USER_IMAGE_BASE = .ok l) :
    InWindow l.result (fileHeaders file) l.bias := by
  obtain ⟨span, place, haccepted, hin⟩ := h
  obtain ⟨haccepted', hresult⟩ := accepted_of_ok hload
  obtain ⟨hspan, hplace⟩ := Accepted.unique haccepted haccepted'
  rw [hresult, Loaded.bias, hspan, hplace]
  exact hin

/-- For every file that the loader accepts at `USER_IMAGE_BASE`: the image lies in the window
with the entry point and all segments inside, exactly when the headers fit. -/
theorem loadsInWindow_iff (file : List UInt8) (alloc : Allocators)
    (haccepts : ∀ e, loadIntoAddressSpace file alloc USER_IMAGE_BASE ≠ .error (.rejected e)) :
    LoadsInWindow file alloc ↔ PlacementFits file := by
  obtain ⟨span, place, h⟩ := accepted_iff.mp haccepts
  have hunique : LoadsInWindow file alloc ↔
      InWindow (loadResult (parseEhdr file) (fileHeaders file) span place) (fileHeaders file)
        (place.loadBias span) := by
    constructor
    · rintro ⟨span', place', h', hin⟩
      obtain ⟨rfl, rfl⟩ := Accepted.unique h h'
      exact hin
    · exact fun hin => ⟨span, place, h, hin⟩
  obtain ⟨hmin, -, halign⟩ := computeSpan_numbers h.spanned
  obtain ⟨hlo, -, hsegments⟩ := computeSpan_spec.2 span h.spanned
  have hsize := imageSize_eq h.spanned
  have hchosen := h.chosen
  unfold choosePlace at hchosen
  simp only [] at hchosen
  rw [hsize, halign] at hchosen
  split at hchosen
  · cases hchosen
  · cases hchosen
    rw [hunique]
    obtain ⟨hpage, -, -⟩ := largestAlign_cases (fileHeaders file)
    have hbase := @base_inside_iff (imageBytes (fileHeaders file)) _ hpage (largestAlign_lt file)
    have hheap : USER_HEAP_BASE < U64 := by
      rw [U64_eq]
      decide
    have hentryLt : (parseEhdr file).entry < U64 := by
      rw [U64_eq]
      exact leValue_lt _ _ 8
    have hvaddrLt := parsePhdrs_vaddr_lt file (parseEhdr file)
    rw [hmin] at hlo hsegments
    generalize hB : elfAlignUp USER_IMAGE_BASE (largestAlign (fileHeaders file)) = B at hbase
    -- the address of a segment and of the entry point, by offset
    have hrun : ∀ w, add64 w (sub64 B span.vaddrMin) =
        (B + sub64 w (lowestVaddr (fileHeaders file))) % U64 := by
      intro w
      rw [hmin]
      exact add64_bias hlo
    have hoffset : ∀ ph ∈ loadHeaders (fileHeaders file),
        sub64 ph.vaddr (lowestVaddr (fileHeaders file)) =
          ph.vaddr - lowestVaddr (fileHeaders file) := by
      intro ph hph
      obtain ⟨hmem, htype⟩ := mem_loadHeaders.mp hph
      exact sub64_eq (hsegments ph hmem htype).2.1
    constructor
    · rintro ⟨hlow, hhigh, hentry, hsegs⟩
      obtain ⟨hbit, hfit⟩ := hbase.mp ⟨hlow, hhigh⟩
      have hend : B + imageBytes (fileHeaders file) < U64 := Nat.lt_of_le_of_lt hhigh hheap
      refine ⟨hbit, hfit, ?_, fun ph hph => ?_⟩
      · replace hentry : B ≤ add64 (parseEhdr file).entry (sub64 B span.vaddrMin) ∧
            add64 (parseEhdr file).entry (sub64 B span.vaddrMin) <
              B + imageBytes (fileHeaders file) := hentry
        rw [hrun] at hentry
        exact (@range_inside_iff _ _ _ 1 hend (sub64_lt _ hentryLt)).mp hentry
      · have hlt := hvaddrLt ph (mem_loadHeaders.mp hph).1
        have hseg : B ≤ add64 ph.vaddr (sub64 B span.vaddrMin) ∧
            add64 ph.vaddr (sub64 B span.vaddrMin) + ph.memsz ≤
              B + imageBytes (fileHeaders file) := hsegs ph hph
        rw [hrun] at hseg
        rw [← hoffset ph hph]
        exact (range_inside_iff hend (sub64_lt _ hlt)).mp hseg
    · rintro ⟨hbit, hfit, hentry, hsegs⟩
      obtain ⟨hlow, hhigh⟩ := hbase.mpr ⟨hbit, hfit⟩
      have hend : B + imageBytes (fileHeaders file) < U64 := Nat.lt_of_le_of_lt hhigh hheap
      refine ⟨hlow, hhigh, ?_, fun ph hph => ?_⟩
      · show B ≤ add64 (parseEhdr file).entry (sub64 B span.vaddrMin) ∧
          add64 (parseEhdr file).entry (sub64 B span.vaddrMin) < B + imageBytes (fileHeaders file)
        rw [hrun]
        exact (@range_inside_iff _ _ _ 1 hend (sub64_lt _ hentryLt)).mpr hentry
      · have hlt := hvaddrLt ph (mem_loadHeaders.mp hph).1
        show B ≤ add64 ph.vaddr (sub64 B span.vaddrMin) ∧
          add64 ph.vaddr (sub64 B span.vaddrMin) + ph.memsz ≤ B + imageBytes (fileHeaders file)
        rw [hrun]
        refine (range_inside_iff hend (sub64_lt _ hlt)).mpr ?_
        rw [hoffset ph hph]
        exact hsegs ph hph

end Window

/-- An `ET_EXEC` file with one page of memory, at the lowest address, and the alignment of its
header. -/
def pageAt (vaddr align : Nat) : List UInt8 :=
  encodeElf ET_EXEC [⟨PT_LOAD, 0, vaddr, 64, 0x1000, align⟩]

/-- The load is not rejected when it runs through. -/
theorem unrejected_of_stopOf {α : Type} {x : Except Stop α} (h : stopOf x = none) :
    Unrejected x := by
  intro e heq
  rw [heq] at h
  cases h

/-- Three files of one page, run. -/
theorem pageAt_runs :
    stopOf (loadIntoAddressSpace (pageAt 0 4096) fixedAllocators USER_IMAGE_BASE) = none ∧
    ((largestAlign (fileHeaders (pageAt 0 4096)) - 1).testBit 46 = false ∧
      imageBytes (fileHeaders (pageAt 0 4096)) ≤ USER_HEAP_BASE - USER_IMAGE_BASE ∧
      sub64 (parseEhdr (pageAt 0 4096)).entry (lowestVaddr (fileHeaders (pageAt 0 4096))) <
        imageBytes (fileHeaders (pageAt 0 4096)) ∧
      ∀ ph ∈ loadHeaders (fileHeaders (pageAt 0 4096)),
        ph.vaddr - lowestVaddr (fileHeaders (pageAt 0 4096)) + ph.memsz ≤
          imageBytes (fileHeaders (pageAt 0 4096))) ∧
    (loadIntoAddressSpace (pageAt 0 (2 ^ 46 + 1)) fixedAllocators USER_IMAGE_BASE).toOption.any
      (fun l => decide (l.result.imageBase = USER_MAP_LIMIT)) = true ∧
    (loadIntoAddressSpace (pageAt 0x1000 4096) fixedAllocators USER_IMAGE_BASE).toOption.any
      (fun l => decide (l.result.entry < l.result.imageBase)) = true := by
  with_unfolding_all decide

/-- The entry point of a file of headers is 0. With the segment at 0 it is in the image. -/
theorem loadsInWindow_iff_page :
    (∀ e, loadIntoAddressSpace (pageAt 0 4096) fixedAllocators USER_IMAGE_BASE ≠
      .error (.rejected e)) ∧ LoadsInWindow (pageAt 0 4096) fixedAllocators := by
  obtain ⟨hstop, ⟨hbase, hsize, hentry, hsegments⟩, -, -⟩ := pageAt_runs
  have haccepts := unrejected_of_stopOf hstop
  exact ⟨haccepts, (loadsInWindow_iff _ _ haccepts).mpr ⟨hbase, hsize, hentry, hsegments⟩⟩

/-- Two files of one page that are loaded all the same: the alignment `2 ^ 46 + 1` of the first
takes the only bit of `USER_IMAGE_BASE` away and puts the image at `USER_MAP_LIMIT`, and the
entry point of the second lies a page in front of its image. -/
theorem image_leaves_window :
    (∃ l, loadIntoAddressSpace (pageAt 0 (2 ^ 46 + 1)) fixedAllocators USER_IMAGE_BASE = .ok l ∧
      l.result.imageBase = USER_MAP_LIMIT) ∧
    (∃ l, loadIntoAddressSpace (pageAt 0x1000 4096) fixedAllocators USER_IMAGE_BASE = .ok l ∧
      l.result.entry < l.result.imageBase) ∧
    ¬ LoadsInWindow (pageAt 0 (2 ^ 46 + 1)) fixedAllocators ∧
    ¬ LoadsInWindow (pageAt 0x1000 4096) fixedAllocators := by
  obtain ⟨-, -, hfar, hentry⟩ := pageAt_runs
  obtain ⟨far, hloadFar, hbase⟩ := exists_ok_of_any hfar
  obtain ⟨near, hloadNear, hbelow⟩ := exists_ok_of_any hentry
  replace hbase := of_decide_eq_true hbase
  replace hbelow := of_decide_eq_true hbelow
  refine ⟨⟨far, hloadFar, hbase⟩, ⟨near, hloadNear, hbelow⟩, fun hin => ?_, fun hin => ?_⟩
  · have hhigh := (LoadsInWindow.of_ok hin hloadFar).high
    rw [hbase] at hhigh
    exact absurd (Nat.le_trans (Nat.le_add_right _ _) hhigh) (by decide)
  · have hge := (LoadsInWindow.of_ok hin hloadNear).entry.1
    omega

/-! ### The allocators keep their alignment -/

section Aligned

variable {k : Nat}

/-- Rounding up to a power of two gives a multiple of it, even where it wraps. -/
theorem two_pow_dvd_alignUp (val : Nat) (hk : k < 64) :
    2 ^ k ∣ alignUp val (2 ^ k) ∧ alignUp val (2 ^ k) < U64 := by
  have hlt := Nat.mod_lt (val + (2 ^ k - 1)) U64_pos
  have hsucc := alignUp_succ val (2 ^ k - 1)
  rw [Nat.sub_add_cancel (Nat.two_pow_pos k)] at hsucc
  rw [hsucc]
  refine ⟨?_, Nat.lt_of_le_of_lt Nat.and_le_left hlt⟩
  rw [and_not64_two_pow hlt hk]
  exact Nat.dvd_mul_left _ _

/-- The data of a candidate is aligned. -/
theorem alignedFit_dvd {m : Store Header} {size block : Nat} {fit : AlignedHeapCandidate}
    (hk : k < 64) (h : alignedFit m size (2 ^ k) block = some fit) : 2 ^ k ∣ fit.alignedData := by
  unfold alignedFit at h
  simp only [] at h
  obtain ⟨hdvd, hlt⟩ := two_pow_dvd_alignUp (add64 block HEADER_SIZE) hk
  split at h
  · cases h
  · split at h
    · cases h
    · split at h
      · cases h
      · cases h
        exact (alignedPlace_dvd hk U64 hdvd hlt).1

/-- A block of the aligned search is aligned. -/
theorem findAlignedHeapBlock_dvd {m : Store Header} {size : Nat} {fit : AlignedHeapCandidate}
    (hk : k < 64) : ∀ fuel block, findAlignedHeapBlock m size (2 ^ k) fuel block = some fit →
      2 ^ k ∣ fit.alignedData := by
  intro fuel
  induction fuel with
  | zero =>
    intro block h
    cases h
  | succ fuel ih =>
    intro block h
    rw [findAlignedHeapBlock] at h
    split at h
    · cases h
    · split at h
      · rename_i found hfit
        cases h
        exact alignedFit_dvd hk hfit
      · exact ih _ h

/-- An aligned allocation is aligned. -/
theorem tryAllocateAligned_dvd {heap heap' : KernelHeap} {size ptr : Nat} (hk : k < 64)
    (h : heap.tryAllocateAligned size (2 ^ k) = some (heap', ptr)) : 2 ^ k ∣ ptr := by
  obtain ⟨fit, hfind, heq⟩ := Option.map_eq_some_iff.mp h
  cases heq
  exact findAlignedHeapBlock_dvd hk _ _ hfind

/-- By induction on the expansions of the heap. -/
theorem allocateAlignedLoop_dvd {heap' : KernelHeap} {size ptr : Nat} (hk : k < 64) :
    ∀ (answers : List Nat) (heap : KernelHeap),
      heap.allocateAlignedLoop size (2 ^ k) answers = some (heap', ptr) → 2 ^ k ∣ ptr := by
  intro answers
  induction answers with
  | nil => exact fun heap h => tryAllocateAligned_dvd hk h
  | cons phys answers ih =>
    intro heap h
    unfold KernelHeap.allocateAlignedLoop at h
    split at h
    · rename_i found hfound
      cases h
      exact tryAllocateAligned_dvd hk hfound
    · split at h
      · cases h
      · simp only [] at h
        split at h
        · exact ih _ h
        · cases h
          exact Nat.dvd_zero _

/-- What the heap of the kernel hands out for an alignment above 16 is aligned. -/
theorem allocateZeroAligned_dvd {heap heap' : KernelHeap} {size ptr : Nat} {answers : List Nat}
    (hk : k < 64) (hsmall : ¬ 2 ^ k ≤ HEAP_MIN_ALIGNMENT)
    (h : heap.allocateZeroAligned size (2 ^ k) answers = some (heap', ptr)) : 2 ^ k ∣ ptr := by
  unfold KernelHeap.allocateZeroAligned at h
  split at h
  · cases h
    exact Nat.dvd_zero _
  · split at h
    · cases h
      exact Nat.dvd_zero _
    · exact allocateAlignedLoop_dvd hk _ _ h

/-- So are pages. -/
theorem allocateIn_dvd {nodes addr : Nat} {q : PageRequest} (hk : k < 64)
    (hq : q.alignment = 2 ^ k) : ∀ (list list' : List MemoryRegion),
      allocateIn nodes q list = some (addr, list') → 2 ^ k ∣ addr := by
  intro list
  induction list with
  | nil =>
    intro list' h
    cases h
  | cons r rs ih =>
    intro list' h
    rw [allocateIn] at h
    split at h
    · cases h
      unfold PageRequest.alignedStart
      rw [hq]
      exact (two_pow_dvd_alignUp r.start hk).1
    · obtain ⟨⟨addr', rest⟩, hrest, heq⟩ := Option.map_eq_some_iff.mp h
      cases heq
      exact ih rest hrest

/-- And so is what its page allocator hands out. -/
theorem allocatePages_dvd (s : PhysAllocator) {q : PageRequest} (hk : k < 64)
    (hq : q.alignment = 2 ^ k) : 2 ^ k ∣ (s.allocatePages q).1 := by
  unfold PhysAllocator.allocatePages
  split
  · exact Nat.dvd_zero _
  · split
    · exact Nat.dvd_zero _
    · rename_i addr list hfound
      exact allocateIn_dvd hk hq _ _ hfound

end Aligned

/-! ### The bias -/

section Bias

variable {phdrs : List Phdr} {base lo v k : Nat}

/-- The bias is a multiple when base and lowest address agree. The difference may wrap, but
`2 ^ 64` is a multiple too. -/
theorem two_pow_dvd_bias_iff (hk : k < 64) (hlo : lo < U64) :
    2 ^ k ∣ sub64 base lo ↔ base % 2 ^ k = lo % 2 ^ k := by
  have hU := two_pow_dvd_U64 hk
  unfold sub64
  split
  · rename_i hle
    rw [← Nat.modEq_iff_dvd' hle, Nat.ModEq, eq_comm]
  · rename_i hlt
    rw [Nat.dvd_sub_iff_right (by omega) hU, ← Nat.modEq_iff_dvd' (by omega), Nat.ModEq]

/-- A segment keeps its alignment when the bias is a multiple of it. -/
theorem add64_mod_iff (hk : k < 64) : add64 v base % 2 ^ k = v % 2 ^ k ↔ 2 ^ k ∣ base := by
  unfold add64
  rw [Nat.mod_mod_of_dvd _ (two_pow_dvd_U64 hk), eq_comm]
  exact Nat.left_modEq_add_iff

/-- The bias keeps the alignment exactly if the base does. -/
theorem keepsAlignment_iff_base (haligned : AlignedHeaders phdrs) (hlo : lo < U64) :
    KeepsAlignment phdrs (sub64 base lo) ↔
      ∀ ph ∈ loadHeaders phdrs, base % ph.align = lo % ph.align := by
  constructor
  · intro h ph hph
    obtain ⟨⟨k, hk, halign⟩, -⟩ := haligned ph hph
    have hbias := h.bias ph hph
    rw [halign] at hbias ⊢
    exact (two_pow_dvd_bias_iff hk hlo).mp hbias
  · intro h
    refine ⟨fun ph hph => ?_, fun ph hph => ?_⟩
    · obtain ⟨⟨k, hk, halign⟩, -⟩ := haligned ph hph
      have heq := h ph hph
      rw [halign] at heq ⊢
      exact (add64_mod_iff hk).mpr ((two_pow_dvd_bias_iff hk hlo).mpr heq)
    · obtain ⟨⟨k, hk, halign⟩, -⟩ := haligned ph hph
      have heq := h ph hph
      rw [halign] at heq ⊢
      exact (two_pow_dvd_bias_iff hk hlo).mpr heq

/-- The largest alignment is a power of two, and a multiple of every other. -/
theorem largestAlign_two_pow (haligned : AlignedHeaders phdrs) :
    ∃ k < 64, 12 ≤ k ∧ largestAlign phdrs = 2 ^ k ∧
      ∀ ph ∈ loadHeaders phdrs, ph.align ∣ largestAlign phdrs := by
  obtain ⟨hpage, hle, hcases⟩ := largestAlign_cases phdrs
  obtain ⟨k, hk, heq⟩ : ∃ k < 64, largestAlign phdrs = 2 ^ k := by
    rcases hcases with heq | ⟨ph, hph, heq⟩
    · exact ⟨12, by decide, heq⟩
    · obtain ⟨⟨k, hk, halign⟩, -⟩ := haligned ph hph
      exact ⟨k, hk, heq.trans halign⟩
  refine ⟨k, hk, ?_, heq, fun ph hph => ?_⟩
  · rw [heq, show 4096 = 2 ^ 12 by decide] at hpage
    exact (Nat.pow_le_pow_iff_right (by decide)).mp hpage
  · obtain ⟨⟨j, -, halign⟩, -⟩ := haligned ph hph
    have hsmall := hle ph hph
    rw [halign, heq] at hsmall ⊢
    exact Nat.pow_dvd_pow 2 ((Nat.pow_le_pow_iff_right (by decide)).mp hsmall)

variable {userPages : Nat → Nat → Nat} {heap : KernelHeap} {answers : List Nat}
  {physAlloc : PhysAllocator}

/-- The heap's answer to the loader. A call that never returns counts as no memory. -/
theorem heapZeroAligned_dvd {size : Nat} (hk : k < 64) (hsmall : ¬ 2 ^ k ≤ HEAP_MIN_ALIGNMENT) :
    2 ^ k ∣ (kernelAllocators userPages heap answers physAlloc).heapZeroAligned size (2 ^ k) := by
  unfold kernelAllocators
  simp only []
  split
  · rename_i found heq
    exact allocateZeroAligned_dvd hk hsmall heq
  · exact Nat.dvd_zero _

/-- Where the image of the kernel's allocators lies: at a multiple of the largest alignment, but
for the pages whose alignment was cut. -/
theorem runtimeBase_spec {preferredBase : Option Nat} {span : Span} {place : Place}
    (haligned : AlignedHeaders phdrs) (hsize : span.imageSize = imageBytes phdrs)
    (halign : span.maxAlign = largestAlign phdrs)
    (h : choosePlace (kernelAllocators userPages heap answers physAlloc) preferredBase span =
      some place) :
    match cutAlignmentPages (kernelAllocators userPages heap answers physAlloc) preferredBase
        phdrs with
    | none => largestAlign phdrs ∣ place.runtimeBase
    | some phys => place.runtimeBase = phys := by
  obtain ⟨k, hk, h12, hlargest, -⟩ := largestAlign_two_pow haligned
  have h16 : ¬ 2 ^ k ≤ HEAP_MIN_ALIGNMENT := by
    have := Nat.pow_le_pow_right (show 0 < 2 by decide) h12
    unfold HEAP_MIN_ALIGNMENT
    omega
  unfold choosePlace at h
  unfold cutAlignmentPages
  cases preferredBase with
  | some base =>
    simp only [halign, hlargest] at h
    simp only [reduceCtorEq, false_and, if_false]
    split at h
    · cases h
    · cases h
      unfold elfAlignUp
      rw [if_neg (by omega), hlargest]
      exact (two_pow_dvd_alignUp base hk).1
  | none =>
    simp only [hsize, halign] at h
    simp only [true_and]
    by_cases hheap : (kernelAllocators userPages heap answers physAlloc).heapZeroAligned
        (imageBytes phdrs) (largestAlign phdrs) = 0
    · rw [if_neg (by simpa using hheap)] at h
      split at h
      · cases h
      · cases h
        by_cases hcut : 2 ^ 32 ≤ largestAlign phdrs
        · rw [if_pos ⟨hheap, hcut⟩]
        · rw [if_neg fun h => hcut h.2]
          -- the alignment arrives in full
          have hfull : max PAGE_SIZE_4K (largestAlign phdrs % 2 ^ 32) = 2 ^ k := by
            rw [Nat.mod_eq_of_lt (by omega), hlargest]
            refine Nat.max_eq_right ?_
            rw [show PAGE_SIZE_4K = 2 ^ 12 by decide]
            exact Nat.pow_le_pow_right (by decide) h12
          rw [hlargest]
          exact allocatePages_dvd physAlloc hk (hlargest ▸ hfull)
    · rw [if_pos hheap] at h
      cases h
      rw [if_neg fun h => hheap h.1, hlargest]
      show 2 ^ k ∣ (kernelAllocators userPages heap answers physAlloc).heapZeroAligned
        (imageBytes phdrs) (2 ^ k)
      exact heapZeroAligned_dvd hk h16

/-- A load of a file with aligned headers, in any state of the allocators, into an address space
or into the heap: the segments keep their alignments exactly when the lowest address is a
multiple of all of them. -/
theorem keepsAlignment_iff {file : List UInt8} {preferredBase : Option Nat} {l : Loaded}
    (haligned : AlignedHeaders (fileHeaders file))
    (hload : loadImpl file (kernelAllocators userPages heap answers physAlloc) preferredBase =
      .ok l) :
    KeepsAlignment (fileHeaders file) l.bias ↔
      AlignmentFits (kernelAllocators userPages heap answers physAlloc) preferredBase
        (fileHeaders file) := by
  obtain ⟨haccepted, -⟩ := accepted_of_ok hload
  obtain ⟨hmin, -, halign⟩ := computeSpan_numbers haccepted.spanned
  obtain ⟨hlo, -⟩ := computeSpan_spec.2 _ haccepted.spanned
  obtain ⟨-, -, -, -, hdvd⟩ := largestAlign_two_pow haligned
  have hbase := runtimeBase_spec haligned (imageSize_eq haccepted.spanned) halign
    haccepted.chosen
  have hkeeps := @keepsAlignment_iff_base _ l.place.runtimeBase _ haligned hlo
  rw [show l.bias = sub64 l.place.runtimeBase l.span.vaddrMin from rfl, hkeeps, hmin]
  unfold AlignmentFits
  split
  · rename_i hcut
    rw [hcut] at hbase
    -- the base is a multiple, and so the lowest address has to be one
    refine forall₂_congr fun ph hph => ?_
    rw [Nat.mod_eq_zero_of_dvd (Nat.dvd_trans (hdvd ph hph) hbase), eq_comm,
      Nat.dvd_iff_mod_eq_zero]
  · rename_i phys hcut
    rw [hcut] at hbase
    rw [hbase]

end Bias

/-! ### A segment that starts behind the headers -/

/-- The kernel's allocators, with a heap of a megabyte at `0x200000`. -/
def smallAllocators : Allocators :=
  kernelAllocators (fun _ _ => 0x100000)
    ((KernelHeap.empty fun _ => ⟨⟨0, false⟩, 0, 0⟩).init 0x200000 0x100000).1 [] ⟨[], 0, 0, 0⟩

/-- One segment with a page of memory, aligned to a page, that starts at the same offset in the
file and in its page. -/
def segmentAt (start : Nat) : List UInt8 :=
  encodeElf ET_EXEC [⟨PT_LOAD, start, start, 56, 0x1000, 4096⟩]

/-- The two files, run. -/
theorem segmentAt_runs :
    (loadHeaders (fileHeaders (segmentAt 0)) = [⟨PT_LOAD, 0, 0, 56, 0x1000, 4096⟩] ∧
      (loadImpl (segmentAt 0) smallAllocators none).toOption.any (fun _ => true) = true ∧
      cutAlignmentPages smallAllocators none (fileHeaders (segmentAt 0)) = none ∧
      lowestVaddr (fileHeaders (segmentAt 0)) = 0) ∧
    ((parseEhdr (segmentAt 64)).type = ET_EXEC ∧
      fileHeaders (segmentAt 64) = [⟨PT_LOAD, 64, 64, 56, 0x1000, 4096⟩]) ∧
    (loadImpl (segmentAt 64) smallAllocators (some USER_IMAGE_BASE)).toOption.any
      (fun l => decide (add64 64 l.bias % 4096 ≠ 64)) = true ∧
    (loadImpl (segmentAt 64) smallAllocators none).toOption.any
      (fun l => decide (add64 64 l.bias % 4096 ≠ 64)) = true := by
  with_unfolding_all decide

/-- The segment at the start of the page keeps its alignment, in the heap. -/
theorem keepsAlignment_iff_start :
    ∃ l, loadImpl (segmentAt 0) smallAllocators none = .ok l ∧
      AlignedHeaders (fileHeaders (segmentAt 0)) ∧
      KeepsAlignment (fileHeaders (segmentAt 0)) l.bias := by
  obtain ⟨⟨hheaders, hload, hfits⟩, -, -, -⟩ := segmentAt_runs
  obtain ⟨l, hl, -⟩ := exists_ok_of_any hload
  have haligned : AlignedHeaders (fileHeaders (segmentAt 0)) := by
    unfold AlignedHeaders
    rw [hheaders]
    intro ph hph
    obtain rfl := List.mem_singleton.mp hph
    exact ⟨⟨12, by decide, rfl⟩, rfl⟩
  refine ⟨l, hl, haligned, (keepsAlignment_iff haligned hl).mpr ?_⟩
  show AlignmentFits smallAllocators none (fileHeaders (segmentAt 0))
  unfold AlignmentFits
  rw [hfits.1, hfits.2]
  exact fun _ _ => Nat.dvd_zero _

/-- A file without relocations is well formed when its segments are. -/
theorem segmentAt_wellFormed :
    WellFormed (segmentAt 64) (parseEhdr (segmentAt 64)) (fileHeaders (segmentAt 64)) := by
  have hfile := segmentAt_runs.2.1
  have hstatic : ∀ ph n, ¬ HasDynamic (segmentAt 64) (parseEhdr (segmentAt 64))
      (fileHeaders (segmentAt 64)) ph n := by
    intro ph n hdynamic
    exact absurd (hfile.1.symm.trans hdynamic.dyn) (by decide)
  refine ⟨fun ph hph _ => ?_, ?_, fun hdyn => ?_, fun ph n h => absurd h (hstatic ph n),
    fun ph n i t a h => absurd h.table (hstatic ph n),
    fun ph n i t a h => absurd h.table (hstatic ph n)⟩
  · rw [hfile.2] at hph
    obtain rfl := List.mem_singleton.mp hph
    rw [U64_eq]
    decide
  · rw [hfile.2]
    exact List.pairwise_singleton _ _
  · exact absurd (hfile.1.symm.trans hdyn) (by decide)

/-- The segment that starts 64 bytes into its page runs at the start of one: into an address
space and into the heap, it loses its alignment. -/
theorem segment_loses_alignment :
    WellFormed (segmentAt 64) (parseEhdr (segmentAt 64)) (fileHeaders (segmentAt 64)) ∧
    AlignedHeaders (fileHeaders (segmentAt 64)) ∧
    (∃ l, loadImpl (segmentAt 64) smallAllocators (some USER_IMAGE_BASE) = .ok l ∧
      ¬ KeepsAlignment (fileHeaders (segmentAt 64)) l.bias) ∧
    ∃ l, loadImpl (segmentAt 64) smallAllocators none = .ok l ∧
      ¬ KeepsAlignment (fileHeaders (segmentAt 64)) l.bias := by
  obtain ⟨-, hfile, hloads⟩ := segmentAt_runs
  have hheaders : loadHeaders (fileHeaders (segmentAt 64)) =
      [⟨PT_LOAD, 64, 64, 56, 0x1000, 4096⟩] := by
    rw [hfile.2]
    rfl
  have hloses : ∀ l : Loaded, add64 64 l.bias % 4096 ≠ 64 →
      ¬ KeepsAlignment (fileHeaders (segmentAt 64)) l.bias := by
    intro l hne hkeeps
    refine hne (hkeeps.segments ⟨PT_LOAD, 64, 64, 56, 0x1000, 4096⟩ ?_)
    rw [hheaders]
    exact List.mem_singleton_self _
  obtain ⟨l, hl, hne⟩ := exists_ok_of_any hloads.1
  obtain ⟨l', hl', hne'⟩ := exists_ok_of_any hloads.2
  refine ⟨segmentAt_wellFormed, ?_, ⟨l, hl, hloses l (of_decide_eq_true hne)⟩, l', hl',
    hloses l' (of_decide_eq_true hne')⟩
  unfold AlignedHeaders
  rw [hheaders]
  intro ph hph
  obtain rfl := List.mem_singleton.mp hph
  exact ⟨⟨12, by decide, rfl⟩, rfl⟩

end VKernel.Proofs.Loader

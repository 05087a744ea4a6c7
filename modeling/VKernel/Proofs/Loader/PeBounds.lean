import VKernel.Loader.PeImage
import VKernel.Proofs.Loader.ElfBounds

/-!
# `VKernel.Proofs.Loader.PeBounds`: what the PE loader accesses

Every part of the load ends in one of three ways: with a value, with an error that it returns,
or at an access outside of the file or the image. Each `_cases` lemma here says which of them
it is, in terms of `VKernel.Loader.PeImage`. `load_inside_iff_fits` puts them together: the
load stays inside exactly when the file fits.
-/

set_option autoImplicit false
set_option maxRecDepth 20000

namespace VKernel.Proofs.Loader.Pe

open VKernel VKernel.Lib VKernel.Loader.Pe
open VKernel.Loader (Mem Access fileByte rangeOk)

/-! ### Steps -/

section Steps

variable {β : Type}

theorem require_bind (condition : Bool) (e : PeError) (f : Unit → Except Stop β) :
    (require condition e >>= f) = if condition then f () else .error (.rejected e) := by
  cases condition <;> rfl

theorem checkFile_bind {file : List UInt8} {offset length : Nat} (f : Unit → Except Stop β)
    (h : offset + length ≤ file.length) : (checkFile file offset length >>= f) = f () := by
  unfold checkFile
  rw [if_pos h]
  rfl

theorem checkImage_bind {size offset length : Nat} (f : Unit → Except Stop β)
    (h : offset + length ≤ size) : (checkImage size offset length >>= f) = f () := by
  unfold checkImage
  rw [if_pos h]
  rfl

theorem checkImage_bind_outside {size offset length : Nat} (f : Unit → Except Stop β)
    (h : ¬ offset + length ≤ size) :
    (checkImage size offset length >>= f) = .error (.outside (.image offset length)) := by
  unfold checkImage
  rw [if_neg h]
  rfl

end Steps

/-! ### Headers -/

/-- What the header checks have made sure of. -/
structure HeadersFit (file : List UInt8) (nt : NtHeaders) : Prop where
  sizeOfImage_lt : nt.sizeOfImage < 2 ^ 32
  headers_file : nt.sizeOfHeaders ≤ file.length
  headers_image : nt.sizeOfHeaders ≤ nt.sizeOfImage
  table : sectionsOffset file nt + nt.numberOfSections * SECTION_HEADER_SIZE ≤ file.length

/-- The headers are rejected, or they fit. No check reads outside of the file. -/
theorem checkHeaders_cases (file : List UInt8) :
    (∃ e, checkHeaders file = .error (.rejected e)) ∨
      ∃ nt, checkHeaders file = .ok nt ∧ HeadersFit file nt := by
  unfold checkHeaders
  rw [require_bind]
  split
  case isFalse => exact .inl ⟨_, rfl⟩
  rename_i hdos
  rw [checkFile_bind _ (by simpa using hdos), require_bind]
  split
  case isFalse => exact .inl ⟨_, rfl⟩
  rw [require_bind]
  split
  case isFalse => exact .inl ⟨_, rfl⟩
  rename_i hlfanew
  rw [Bool.and_eq_true, rangeOk_iff] at hlfanew
  rw [checkFile_bind _ hlfanew.2]
  simp only [require_bind]
  split
  case isFalse => exact .inl ⟨_, rfl⟩
  split
  case isFalse => exact .inl ⟨_, rfl⟩
  split
  case isFalse => exact .inl ⟨_, rfl⟩
  split
  case isFalse => exact .inl ⟨_, rfl⟩
  rename_i hheaders
  split
  case isFalse => exact .inl ⟨_, rfl⟩
  rename_i htable
  rw [Bool.and_eq_true, rangeOk_iff, decide_eq_true_iff] at hheaders
  rw [rangeOk_iff] at htable
  refine .inr ⟨_, rfl, ?_, by omega, hheaders.2, htable⟩
  show leValue _ _ 4 < 2 ^ 32
  exact leValue_lt _ _ 4

/-! ### Sections -/

/-- The section's end does not wrap in `u32`. -/
def NoWrap (sec : SectionHeader) : Prop := sec.virtualAddress + sec.sizeOfRawData < 2 ^ 32

/-- Section `i` of the table. -/
def sectionAt (file : List UInt8) (nt : NtHeaders) (i : Nat) : SectionHeader :=
  parseSection file (sectionsOffset file nt + i * SECTION_HEADER_SIZE)

theorem virtualAddress_lt (file : List UInt8) (base : Nat) :
    (parseSection file base).virtualAddress < 2 ^ 32 := leValue_lt _ _ 4

variable {file : List UInt8} {nt : NtHeaders}

theorem readSection_eq (h : HeadersFit file nt) {i : Nat} (hi : i < nt.numberOfSections) :
    readSection file (sectionsOffset file nt) i = .ok (sectionAt file nt i) := by
  have htable := h.table
  have hmul : (i + 1) * SECTION_HEADER_SIZE ≤ nt.numberOfSections * SECTION_HEADER_SIZE :=
    Nat.mul_le_mul_right _ hi
  rw [Nat.add_mul, Nat.one_mul] at hmul
  unfold readSection
  rw [checkFile_bind _ (by omega)]
  rfl

/-- A copy into the image. -/
theorem copyFromFile_eq {size dest source length : Nat} {image : Mem}
    (hfile : source + length ≤ file.length) (himage : dest + length ≤ size) :
    copyFromFile file size dest source length image =
      .ok fun o => if dest ≤ o ∧ o < dest + length then fileByte file (source + (o - dest))
        else image o := by
  unfold copyFromFile
  rw [checkFile_bind _ hfile, checkImage_bind _ himage]
  rfl

theorem copySection_eq (h : HeadersFit file nt) {i : Nat} (hi : i < nt.numberOfSections)
    (image : Mem) {sec : SectionHeader} (hsec : sectionAt file nt i = sec) :
    copySection file nt image i =
      if sec.sizeOfRawData = 0 then .ok image
      else if sec.sectionEnd ≤ nt.sizeOfImage then
        if rangeOk file.length sec.pointerToRawData sec.sizeOfRawData then
          copyFromFile file nt.sizeOfImage sec.virtualAddress sec.pointerToRawData
            sec.sizeOfRawData image
        else .error (.rejected .tooSmall)
      else .error (.rejected .badReloc) := by
  subst hsec
  unfold copySection
  rw [readSection_eq h hi]
  show (if _ then _ else _) = _
  simp only [require_bind, decide_eq_true_eq]
  rfl

/-- One section is copied, rejected, or copied to outside of the image. The last happens to an
accepted section whose end wraps. -/
theorem copySection_cases (h : HeadersFit file nt) {i : Nat} (hi : i < nt.numberOfSections)
    (image : Mem) {sec : SectionHeader} (hsec : sectionAt file nt i = sec) :
    (copySection file nt image i = .ok (addSection file image sec) ∧
        sec.Accepted file nt ∧ NoWrap sec) ∨
      (∃ e, copySection file nt image i = .error (.rejected e) ∧ ¬ sec.Accepted file nt) ∨
      (∃ a, copySection file nt image i = .error (.outside a) ∧
        sec.Accepted file nt ∧ ¬ NoWrap sec) := by
  have hva : sec.virtualAddress < 2 ^ 32 := hsec ▸ virtualAddress_lt _ _
  have hsize := h.sizeOfImage_lt
  rw [copySection_eq h hi image hsec]
  by_cases hraw : sec.sizeOfRawData = 0
  · -- Nothing is copied, and the section covers no byte of the image.
    rw [if_pos hraw]
    have hsame : addSection file image sec = image := by
      funext o
      unfold addSection
      rw [if_neg (by omega)]
    exact .inl ⟨by rw [hsame], .inl hraw, by unfold NoWrap; omega⟩
  rw [if_neg hraw]
  by_cases hend : sec.sectionEnd ≤ nt.sizeOfImage
  swap
  · rw [if_neg hend]
    exact .inr (.inl ⟨_, rfl, fun ha => ha.elim hraw fun ha => hend ha.1⟩)
  rw [if_pos hend]
  by_cases hrange : rangeOk file.length sec.pointerToRawData sec.sizeOfRawData = true
  swap
  · rw [if_neg hrange]
    exact .inr (.inl ⟨_, rfl, fun ha => ha.elim hraw fun ha => hrange ha.2⟩)
  rw [if_pos hrange]
  have haccepted : sec.Accepted file nt := .inr ⟨hend, hrange⟩
  have hfile := rangeOk_iff.mp hrange
  by_cases hwrap : NoWrap sec
  · have himage : sec.virtualAddress + sec.sizeOfRawData ≤ nt.sizeOfImage := by
      unfold SectionHeader.sectionEnd at hend
      rwa [Nat.mod_eq_of_lt hwrap] at hend
    exact .inl ⟨copyFromFile_eq hfile himage, haccepted, hwrap⟩
  · refine .inr (.inr ⟨.image sec.virtualAddress sec.sizeOfRawData, ?_, haccepted, hwrap⟩)
    unfold copyFromFile
    rw [checkFile_bind _ hfile]
    -- The sum is at least `2 ^ 32`, and no image is that long.
    exact checkImage_bind_outside _ (by unfold NoWrap at hwrap; omega)

/-- The loop over the sections. -/
theorem copySections_fold (h : HeadersFit file nt) : ∀ (l : List Nat) (image : Mem),
    (∀ i ∈ l, i < nt.numberOfSections) →
    let secs := l.map (sectionAt file nt)
    let copied := secs.takeWhile fun sec => decide (sec.Accepted file nt)
    (l.foldlM (copySection file nt) image = .ok (secs.foldl (addSection file) image) ∧
        (∀ sec ∈ secs, sec.Accepted file nt) ∧ ∀ sec ∈ copied, NoWrap sec) ∨
      (∃ e, l.foldlM (copySection file nt) image = .error (.rejected e) ∧
        (∃ sec ∈ secs, ¬ sec.Accepted file nt) ∧ ∀ sec ∈ copied, NoWrap sec) ∨
      (∃ a, l.foldlM (copySection file nt) image = .error (.outside a) ∧
        ∃ sec ∈ copied, ¬ NoWrap sec) := by
  intro l
  induction l with
  | nil =>
    intro image _
    exact .inl ⟨rfl, by simp, by simp⟩
  | cons i l ih =>
    intro image hl
    simp only [List.map_cons, List.foldlM_cons, List.foldl_cons, List.mem_cons]
    rcases copySection_cases h (hl i (.head _)) image rfl with
      ⟨heq, hacc, hwrap⟩ | ⟨e, heq, hacc⟩ | ⟨a, heq, hacc, hwrap⟩
    · rw [heq, List.takeWhile_cons_of_pos (by simpa using hacc)]
      rcases ih (addSection file image (sectionAt file nt i))
        (fun j hj => hl j (.tail _ hj)) with ⟨hrest, hall, hcopied⟩ | ⟨e, hrest, hsome, hcopied⟩ |
          ⟨a, hrest, sec, hsec, hsome⟩
      · refine .inl ⟨hrest, ?_, ?_⟩
        · rintro sec (rfl | hsec)
          · exact hacc
          · exact hall sec hsec
        · intro sec hsec
          rcases List.mem_cons.mp hsec with rfl | hsec
          · exact hwrap
          · exact hcopied sec hsec
      · refine .inr (.inl ⟨e, hrest, ?_, ?_⟩)
        · obtain ⟨sec, hsec, hnot⟩ := hsome
          exact ⟨sec, .inr hsec, hnot⟩
        · intro sec hsec
          rcases List.mem_cons.mp hsec with rfl | hsec
          · exact hwrap
          · exact hcopied sec hsec
      · exact .inr (.inr ⟨a, hrest, sec, .tail _ hsec, hsome⟩)
    · rw [heq, List.takeWhile_cons_of_neg (by simpa using hacc)]
      exact .inr (.inl ⟨e, rfl, ⟨_, .inl rfl, hacc⟩, by simp⟩)
    · rw [heq, List.takeWhile_cons_of_pos (by simpa using hacc)]
      exact .inr (.inr ⟨a, rfl, _, .head _, hwrap⟩)

/-- Steps 4 and 5. -/
theorem copySections_cases (h : HeadersFit file nt) :
    (copySections file nt = .ok (sectionImage file nt) ∧
        (∀ sec ∈ sections file nt, sec.Accepted file nt) ∧ SectionsFit file nt) ∨
      (∃ e, copySections file nt = .error (.rejected e) ∧
        (∃ sec ∈ sections file nt, ¬ sec.Accepted file nt) ∧ SectionsFit file nt) ∨
      (∃ a, copySections file nt = .error (.outside a) ∧ ¬ SectionsFit file nt) := by
  have hheaders : copyFromFile file nt.sizeOfImage 0 0 nt.sizeOfHeaders (fun _ => 0) =
      .ok (headerImage file nt) := by
    rw [copyFromFile_eq (by have := h.headers_file; omega) (by have := h.headers_image; omega)]
    unfold headerImage
    simp
  unfold copySections
  rw [hheaders]
  rcases copySections_fold h (List.range nt.numberOfSections) (headerImage file nt)
    (fun i hi => List.mem_range.mp hi) with hcase | hcase | ⟨a, heq, sec, hsec, hwrap⟩
  · exact .inl hcase
  · exact .inr (.inl hcase)
  · exact .inr (.inr ⟨a, heq, fun hfit => hwrap (hfit sec hsec)⟩)

/-! ### Relocations -/

section Blocks

variable {size delta blk blkEnd : Nat} {image : Mem}

/-- Entry `j` lies in the image exactly when it is one of those that `entriesInside` counts. -/
theorem entry_inside_iff (hblk : blk + BASE_RELOCATION_SIZE ≤ size) (j : Nat) :
    entryOffset blk j + 2 ≤ size ↔ j < entriesInside size blk := by
  unfold entryOffset entriesInside
  omega

/-- One relocation entry whose own bytes lie in the image. A relocation is checked before it is
stored. -/
theorem relocateEntry_eq (hblk : blk + BASE_RELOCATION_SIZE ≤ size) (image : Mem) {j : Nat}
    (hj : j < entriesInside size blk) :
    relocateEntry size delta blk image j =
      if EntryRejected size blk image j then .error (.rejected .badReloc)
      else .ok (applyEntry delta blk image j) := by
  have hinside := (entry_inside_iff hblk j).mpr hj
  have hheader : blk + 4 ≤ size := by
    unfold BASE_RELOCATION_SIZE at hblk
    omega
  unfold relocateEntry
  rw [checkImage_bind _ hinside]
  by_cases hdir : entryType image blk j = IMAGE_REL_BASED_DIR64
  swap
  · -- Padding, or a type that is ignored.
    have haccepted : ¬ EntryRejected size blk image j := fun hrej => hdir hrej.1
    show (if entryType image blk j = _ then _ else if entryType image blk j = _ then _ else _) = _
    rw [if_neg hdir, ite_self, if_neg haccepted]
    unfold applyEntry
    rw [if_neg hdir]
    rfl
  have habs : entryType image blk j ≠ IMAGE_REL_BASED_ABSOLUTE := by
    rw [hdir]
    decide
  show (if entryType image blk j = _ then _ else if entryType image blk j = _ then _ else _) = _
  rw [if_neg habs, if_pos hdir, checkImage_bind _ hheader, require_bind]
  show (if decide (entryTarget image blk j + 8 ≤ size) then _ else _) = _
  by_cases htarget : entryTarget image blk j + 8 ≤ size
  · have haccepted : ¬ EntryRejected size blk image j := fun hrej => absurd hrej.2 (by omega)
    rw [if_pos (by simpa using htarget), if_neg haccepted]
    show (checkImage size (entryTarget image blk j) 8 >>= fun _ => _) = _
    rw [checkImage_bind _ htarget]
    unfold applyEntry
    rw [if_pos hdir]
    rfl
  · rw [if_neg (by simpa using htarget), if_pos ⟨hdir, by omega⟩]

theorem relocateEntry_outside (hblk : blk + BASE_RELOCATION_SIZE ≤ size) (image : Mem) {j : Nat}
    (hj : ¬ j < entriesInside size blk) :
    relocateEntry size delta blk image j =
      .error (.outside (.image (entryOffset blk j) 2)) := by
  unfold relocateEntry
  exact checkImage_bind_outside _ (by rwa [entry_inside_iff hblk])

theorem applyEntries_succ (n : Nat) :
    applyEntries delta blk image (n + 1) =
      applyEntry delta blk (applyEntries delta blk image n) n := by
  unfold applyEntries
  rw [List.range_succ, List.foldl_append]
  rfl

/-- The loop over the first `n` entries of a block. It ends at the first entry that is rejected
or that lies outside of the image. -/
theorem relocateEntries_cases (hblk : blk + BASE_RELOCATION_SIZE ≤ size) (n : Nat) :
    ((List.range n).foldlM (relocateEntry size delta blk) image =
        .ok (applyEntries delta blk image n) ∧
        n ≤ entriesInside size blk ∧ ¬ BlockRejected size delta blk image n) ∨
      ((List.range n).foldlM (relocateEntry size delta blk) image =
        .error (.rejected .badReloc) ∧
        BlockRejected size delta blk image n ∧
        BlockRejected size delta blk image (entriesInside size blk)) ∨
      (∃ a, (List.range n).foldlM (relocateEntry size delta blk) image = .error (.outside a) ∧
        entriesInside size blk < n ∧
        ¬ BlockRejected size delta blk image (entriesInside size blk)) := by
  induction n with
  | zero => exact .inl ⟨rfl, Nat.zero_le _, fun ⟨j, hj, _⟩ => absurd hj (Nat.not_lt_zero j)⟩
  | succ n ih =>
    rw [List.range_succ, List.foldlM_append]
    rcases ih with ⟨heq, hle, hrej⟩ | ⟨heq, ⟨j, hj, hrej⟩, hrej'⟩ | ⟨a, heq, hlt, hrej⟩
    · rw [heq]
      show (relocateEntry size delta blk (applyEntries delta blk image n) n >>= pure) = _ ∧ _ ∨
        (relocateEntry size delta blk (applyEntries delta blk image n) n >>= pure) = _ ∧ _ ∨ _
      rw [bind_pure]
      by_cases hn : n < entriesInside size blk
      · rw [relocateEntry_eq hblk _ hn]
        by_cases hrej' : EntryRejected size blk (applyEntries delta blk image n) n
        · rw [if_pos hrej']
          exact .inr (.inl ⟨rfl, ⟨n, Nat.lt_succ_self n, hrej'⟩, n, hn, hrej'⟩)
        · rw [if_neg hrej', applyEntries_succ]
          refine .inl ⟨rfl, hn, ?_⟩
          rintro ⟨j, hj, hjrej⟩
          rcases Nat.lt_succ_iff_lt_or_eq.mp hj with hj | rfl
          · exact hrej ⟨j, hj, hjrej⟩
          · exact hrej' hjrej
      · -- The loop has passed all entries inside of the image, and none was rejected.
        have hall : n = entriesInside size blk := by omega
        refine .inr (.inr ⟨.image (entryOffset blk n) 2, ?_, by omega, hall ▸ hrej⟩)
        show (relocateEntry size delta blk (applyEntries delta blk image n) n >>= pure) = _
        rw [bind_pure, relocateEntry_outside hblk _ hn]
    · rw [heq]
      exact .inr (.inl ⟨rfl, ⟨j, by omega, hrej⟩, hrej'⟩)
    · rw [heq]
      exact .inr (.inr ⟨a, rfl, by omega, hrej⟩)

/-- The loop over blocks goes on to blocks that the first block comes to. -/
theorem comesTo_trans {blk₁ blk₂ : Nat} {image₁ image₂ : Mem}
    (h : ComesTo size delta blkEnd blk image blk₁ image₁)
    (h' : ComesTo size delta blkEnd blk₁ image₁ blk₂ image₂) :
    ComesTo size delta blkEnd blk image blk₂ image₂ := by
  induction h' with
  | first => exact h
  | next _ hblock hok ih => exact .next ih hblock hok

/-- Where the loop comes to: the block it is at, or what comes after that. -/
theorem comesTo_cases {blk' : Nat} {image' : Mem}
    (h : ComesTo size delta blkEnd blk image blk' image') :
    (blk' = blk ∧ image' = image) ∨
      (IsBlock blkEnd blk image ∧
        ¬ BlockRejected size delta blk image (entryCount (sizeOfBlock image blk)) ∧
        ComesTo size delta blkEnd (blk + sizeOfBlock (afterBlock delta blk image) blk)
          (afterBlock delta blk image) blk' image') := by
  induction h with
  | first => exact .inl ⟨rfl, rfl⟩
  | next hcomes hblock hok ih =>
    refine .inr ?_
    rcases ih with ⟨rfl, rfl⟩ | ⟨hfirst, hfirstOk, hrest⟩
    · exact ⟨hblock, hok, .first⟩
    · exact ⟨hfirst, hfirstOk, .next hrest hblock hok⟩

/-- One round of the loop over the blocks. -/
theorem relocateBlocks_step (hend : blkEnd ≤ size) (fuel : Nat)
    (hblock : IsBlock blkEnd blk image) :
    relocateBlocks size delta blkEnd (fuel + 1) blk image =
      ((List.range (entryCount (sizeOfBlock image blk))).foldlM (relocateEntry size delta blk)
        image >>= fun image' => relocateBlocks size delta blkEnd fuel
          (blk + sizeOfBlock image' blk) image') := by
  obtain ⟨hheader, hsize⟩ := hblock
  have hword : blk + 4 + 4 ≤ size := by
    unfold BASE_RELOCATION_SIZE at hheader
    omega
  rw [relocateBlocks, if_pos hheader, checkImage_bind _ hword, if_neg (by omega)]
  congr 1
  funext image'
  rw [checkImage_bind _ hword]

/-- The loop ends at what is not a block. -/
theorem relocateBlocks_end (hend : blkEnd ≤ size) (fuel : Nat)
    (hblock : ¬ IsBlock blkEnd blk image) :
    relocateBlocks size delta blkEnd fuel blk image = .ok image := by
  cases fuel with
  | zero => rfl
  | succ fuel =>
    rw [relocateBlocks]
    by_cases hheader : blk + BASE_RELOCATION_SIZE ≤ blkEnd
    · have hword : blk + 4 + 4 ≤ size := by
        unfold BASE_RELOCATION_SIZE at hheader
        omega
      have hsize : sizeOfBlock image blk < BASE_RELOCATION_SIZE := by
        by_contra hge
        exact hblock ⟨hheader, by omega⟩
      rw [if_pos hheader, checkImage_bind _ hword, if_pos hsize]
      rfl
    · rw [if_neg hheader]
      rfl

/-- The number of blocks is enough: the loop is at its end when they are used up. -/
def Enough (blkEnd fuel blk : Nat) (image : Mem) : Prop :=
  blkEnd < blk + BASE_RELOCATION_SIZE + fuel ∨ ¬ IsBlock blkEnd blk image

/-- A block is followed by one further on, unless its size has become 0. -/
theorem Enough.next {fuel : Nat} {image' : Mem} (h : Enough blkEnd (fuel + 1) blk image)
    (hblock : IsBlock blkEnd blk image) :
    Enough blkEnd fuel (blk + sizeOfBlock image' blk) image' := by
  have hlt := h.resolve_right fun hnot => hnot hblock
  rcases Nat.eq_zero_or_pos (sizeOfBlock image' blk) with hzero | hpos
  · refine .inr fun hblock' => ?_
    have hsize := hblock'.2
    rw [hzero, Nat.add_zero, hzero] at hsize
    exact absurd hsize (by decide)
  · exact .inl (by omega)

/-- The loop stays inside of the image exactly when every block that it works on fits. -/
theorem relocateBlocks_inside_iff (hend : blkEnd ≤ size) : ∀ (fuel blk : Nat) (image : Mem),
    Enough blkEnd fuel blk image →
    ((∀ a, relocateBlocks size delta blkEnd fuel blk image ≠ .error (.outside a)) ↔
      BlocksFit size delta blkEnd blk image) := by
  intro fuel
  induction fuel with
  | zero =>
    intro blk image henough
    have hblock : ¬ IsBlock blkEnd blk image := by
      rcases henough with hlt | hnot
      · exact fun hblock => absurd hblock.1 (by omega)
      · exact hnot
    refine ⟨fun _ blk' image' hcomes hblock' => ?_, fun _ a h => by cases h⟩
    rcases comesTo_cases hcomes with ⟨rfl, rfl⟩ | ⟨hfirst, -, -⟩
    · exact absurd hblock' hblock
    · exact absurd hfirst hblock
  | succ fuel ih =>
    intro blk image henough
    by_cases hblock : IsBlock blkEnd blk image
    swap
    · rw [relocateBlocks_end hend _ hblock]
      refine ⟨fun _ blk' image' hcomes hblock' => ?_, fun _ a h => by cases h⟩
      rcases comesTo_cases hcomes with ⟨rfl, rfl⟩ | ⟨hfirst, -, -⟩
      · exact absurd hblock' hblock
      · exact absurd hfirst hblock
    rw [relocateBlocks_step hend fuel hblock]
    have hblk : blk + BASE_RELOCATION_SIZE ≤ size := Nat.le_trans hblock.1 hend
    rcases @relocateEntries_cases size delta blk image hblk
      (entryCount (sizeOfBlock image blk)) with ⟨heq, hle, hrej⟩ | ⟨heq, hrej, hrej'⟩ |
        ⟨a, heq, hlt, hrej⟩
    · -- The whole block is applied, and the loop goes on behind it.
      rw [heq]
      show (∀ a, relocateBlocks size delta blkEnd fuel
        (blk + sizeOfBlock (afterBlock delta blk image) blk) (afterBlock delta blk image) ≠ _) ↔ _
      rw [ih _ _ (henough.next hblock)]
      constructor
      · intro hrest blk' image' hcomes hblock'
        rcases comesTo_cases hcomes with ⟨rfl, rfl⟩ | ⟨-, -, hcomes'⟩
        · exact .inl hle
        · exact hrest blk' image' hcomes' hblock'
      · intro hall blk' image' hcomes hblock'
        exact hall blk' image' (comesTo_trans (.next .first hblock hrej) hcomes) hblock'
    · rw [heq]
      refine ⟨fun _ blk' image' hcomes hblock' => ?_, fun _ a h => by cases h⟩
      rcases comesTo_cases hcomes with ⟨rfl, rfl⟩ | ⟨-, hok, -⟩
      · exact .inr hrej'
      · exact absurd hrej hok
    · rw [heq]
      refine ⟨fun h => absurd rfl (h a), fun hall => ?_⟩
      rcases hall blk image .first hblock with hle | hrej'
      · omega
      · exact absurd hrej' hrej

end Blocks

/-! ### The whole load -/

/-- Step 6. -/
theorem relocate_inside_iff (nt : NtHeaders) (base : Nat) (image : Mem) :
    (∀ a, relocate nt base image ≠ .error (.outside a)) ↔
      (IsRelocated nt base → BlocksFit nt.sizeOfImage (sub64 base nt.imageBase)
        (nt.relocVirtualAddress + nt.relocSize) nt.relocVirtualAddress image) := by
  unfold relocate
  by_cases hasked : 0 < nt.relocSize ∧ nt.relocVirtualAddress ≠ 0 ∧ sub64 base nt.imageBase ≠ 0
  swap
  · rw [if_neg hasked]
    refine ⟨fun _ h => absurd ⟨h.size, h.table, h.moved⟩ hasked, fun _ a h => by cases h⟩
  rw [if_pos hasked, require_bind]
  by_cases hrange : rangeOk nt.sizeOfImage nt.relocVirtualAddress nt.relocSize = true
  swap
  · rw [if_neg hrange]
    refine ⟨fun _ h => absurd (rangeOk_iff.mpr h.inside) hrange, fun _ a h => by cases h⟩
  have hinside := rangeOk_iff.mp hrange
  have henough : Enough (nt.relocVirtualAddress + nt.relocSize) nt.relocSize
      nt.relocVirtualAddress image := .inl (by unfold BASE_RELOCATION_SIZE; omega)
  rw [if_pos hrange, relocateBlocks_inside_iff hinside _ _ _ henough]
  exact ⟨fun h _ => h, fun h => h ⟨hasked.1, hasked.2.1, hasked.2.2, hinside⟩⟩

/-- The load of a file reads only inside the file and accesses only bytes of the image, exactly
when the file fits: no section that is copied has an end that wraps in `u32`, and every
relocation block that the loader comes to has its entries inside of the image or, among those
that are, a relocation that is rejected. A file that is rejected before needs neither. -/
theorem load_inside_iff_fits (file : List UInt8) (allocateZero : Nat → Nat) :
    (∀ access, load file allocateZero ≠ .error (.outside access)) ↔
      ∀ nt, checkHeaders file = .ok nt → allocateZero nt.sizeOfImage ≠ 0 →
        FileFits file nt (allocateZero nt.sizeOfImage) := by
  unfold load
  rcases checkHeaders_cases file with ⟨e, heq⟩ | ⟨nt, heq, hheaders⟩
  · rw [heq]
    exact ⟨fun _ nt h => (by cases h), fun _ a h => by cases h⟩
  -- The headers are accepted for one `nt`, and the condition is about that one.
  have honly : (∀ nt', checkHeaders file = .ok nt' → allocateZero nt'.sizeOfImage ≠ 0 →
      FileFits file nt' (allocateZero nt'.sizeOfImage)) ↔
      (allocateZero nt.sizeOfImage ≠ 0 → FileFits file nt (allocateZero nt.sizeOfImage)) := by
    rw [heq]
    refine ⟨fun h => h nt rfl, fun h nt' hnt => ?_⟩
    cases hnt
    exact h
  rw [honly, heq]
  show (∀ a, (require _ _ >>= fun _ => _) ≠ _) ↔ _
  rw [require_bind]
  generalize hbase : allocateZero nt.sizeOfImage = base
  by_cases hzero : base = 0
  · rw [if_neg (by simpa using hzero)]
    exact ⟨fun _ h => absurd hzero h, fun _ a h => by cases h⟩
  rw [if_pos (by simpa using hzero), forall_prop_of_true hzero]
  rcases copySections_cases hheaders with ⟨hcopy, hall, hfit⟩ | ⟨e, hcopy, hsome, hfit⟩ |
    ⟨a, hcopy, hfit⟩
  · -- The image is filled, and the relocations decide.
    rw [hcopy]
    show (∀ a, (relocate nt base (sectionImage file nt) >>= fun _ => _) ≠ _) ↔ _
    have hrelocate := relocate_inside_iff nt base (sectionImage file nt)
    constructor
    · intro h
      refine ⟨hfit, fun _ hreloc => hrelocate.mp ?_ hreloc⟩
      intro a hstop
      exact h a (by rw [hstop]; rfl)
    · intro h a hstop
      refine hrelocate.mpr (h.blocks hall) a ?_
      cases hresult : relocate nt base (sectionImage file nt) with
      | error stop =>
        rw [hresult] at hstop
        cases hstop
        rfl
      | ok image =>
        rw [hresult] at hstop
        cases hstop
  · rw [hcopy]
    refine ⟨fun _ => ⟨hfit, fun hall => ?_⟩, fun _ a h => by cases h⟩
    obtain ⟨sec, hsec, hnot⟩ := hsome
    exact absurd (hall sec hsec) hnot
  · rw [hcopy]
    exact ⟨fun h => absurd rfl (h a), fun h => absurd h.sections hfit⟩

/-! ### Two files that the checks let through -/

/-- The bytes of a file with the headers at offset 64, an image of `0x1000` bytes linked to
`0x140000000`, the given section headers and `rest` behind them. -/
def encodePe (relocVirtualAddress relocSize : Nat) (secs : List SectionHeader)
    (rest : List UInt8) : List UInt8 :=
  leBytes 2 IMAGE_DOS_SIGNATURE ++ List.replicate 58 0 ++ leBytes 4 64 ++
    leBytes 4 IMAGE_NT_SIGNATURE ++ leBytes 2 IMAGE_FILE_MACHINE_AMD64 ++ leBytes 2 secs.length ++
    List.replicate 12 0 ++ leBytes 2 240 ++ List.replicate 2 0 ++
    leBytes 2 IMAGE_OPTIONAL_HDR64_MAGIC ++ List.replicate 22 0 ++ leBytes 8 0x140000000 ++
    List.replicate 24 0 ++ leBytes 4 0x1000 ++ leBytes 4 64 ++ List.replicate 48 0 ++
    List.replicate 40 0 ++ leBytes 4 relocVirtualAddress ++ leBytes 4 relocSize ++
    List.replicate 80 0 ++
    secs.flatMap (fun sec => List.replicate 12 0 ++ leBytes 4 sec.virtualAddress ++
      leBytes 4 sec.sizeOfRawData ++ leBytes 4 sec.pointerToRawData ++ List.replicate 16 0) ++ rest

/-- Its section ends at `0x10` in `u32`. -/
def wrappingSection : List UInt8 := encodePe 0 0 [⟨0xFFFFFFF0, 0x20, 0⟩] []

/-- Its relocation block lies at the end of the image and says that it has `0x18` bytes, but the
image ends 8 bytes behind the start of the block. -/
def longBlock : List UInt8 :=
  encodePe 0xFF8 8 [⟨0xFF8, 8, 368⟩] (leBytes 4 0 ++ leBytes 4 0x18)

/-- Why a load stopped. -/
def stopOf {α : Type} : Except Stop α → Option Stop
  | .error stop => some stop
  | .ok _ => none

theorem eq_error_of_stopOf {α : Type} {x : Except Stop α} {stop : Stop}
    (h : stopOf x = some stop) : x = .error stop := by
  cases x with
  | error e =>
    cases h
    rfl
  | ok v => cases h

/-- The one is copied and the other one is read outside of the image. -/
theorem load_outside_image :
    (∃ access, load wrappingSection (fun _ => 0x200000) = .error (.outside access)) ∧
      ∃ access, load longBlock (fun _ => 0x200000) = .error (.outside access) := by
  have hsection : stopOf (load wrappingSection fun _ => 0x200000) =
      some (.outside (.image 0xFFFFFFF0 0x20)) := by with_unfolding_all decide
  have hblock : stopOf (load longBlock fun _ => 0x200000) =
      some (.outside (.image 0x1000 2)) := by with_unfolding_all decide
  exact ⟨⟨_, eq_error_of_stopOf hsection⟩, ⟨_, eq_error_of_stopOf hblock⟩⟩

end VKernel.Proofs.Loader.Pe

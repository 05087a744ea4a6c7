import Mathlib.Data.List.Find
import Mathlib.Data.List.Pairwise
import VKernel.Loader.PeSpec
import VKernel.Proofs.Loader.PeBounds

/-!
# `VKernel.Proofs.Loader.PeCorrect`: the image of a well-formed PE file

For a well-formed file the image after the section copy is `linkedImage` (`sectionImage_eq`). The
relocation loop reads its blocks from the image that it changes. No relocated word overlaps a
block, so the blocks stay as the file has them, and the loop is one pass over `targets`
(`relocateBlocks_eq`, by induction on the blocks). `load_eq_ok_iff` puts both together, and the
order of sections and blocks only enters through the list of targets.
-/

set_option autoImplicit false
set_option maxRecDepth 20000

namespace VKernel.Proofs.Loader.Pe

open VKernel VKernel.Lib VKernel.Loader.Pe
open VKernel.Loader (Mem fileByte rangeOk Apart)

/-! ### Sections -/

section Sections

variable {file : List UInt8} {nt : NtHeaders}

theorem SectionHeader.Disjoint.not_both {sec sec' : SectionHeader} (h : sec.Disjoint sec')
    {o : Nat} (hcovers : sec.Covers o) : ¬ sec'.Covers o := by
  rintro ⟨hge', hlt'⟩
  obtain ⟨hge, hlt⟩ := hcovers
  rcases h with hzero | hzero | hle | hle <;> omega

instance : Std.Symm SectionHeader.Disjoint where
  symm sec sec' h := by
    rcases h with hzero | hzero | hle | hle
    · exact .inr (.inl hzero)
    · exact .inl hzero
    · exact .inr (.inr (.inr hle))
    · exact .inr (.inr (.inl hle))

/-- All sections over an image: the byte of the section that covers the offset, of which there is
at most one. By induction on the section table. -/
theorem foldl_addSection_eq : ∀ (secs : List SectionHeader) (image : Mem) (o : Nat),
    secs.Pairwise SectionHeader.Disjoint →
    secs.foldl (addSection file) image o =
      match secs.find? fun sec => decide (sec.Covers o) with
      | some sec => fileByte file (sec.pointerToRawData + (o - sec.virtualAddress))
      | none => image o := by
  intro secs
  induction secs with
  | nil => exact fun image o _ => rfl
  | cons sec secs ih =>
    intro image o hdisjoint
    obtain ⟨hhead, htail⟩ := List.pairwise_cons.mp hdisjoint
    have hstep : addSection file image sec o =
        if sec.Covers o then fileByte file (sec.pointerToRawData + (o - sec.virtualAddress))
        else image o := rfl
    rw [List.foldl_cons, ih _ o htail, hstep, List.find?_cons]
    by_cases hcovers : sec.Covers o
    · -- no later section covers the offset too
      have hnone : secs.find? (fun sec => decide (sec.Covers o)) = none := by
        rw [List.find?_eq_none]
        intro sec' hsec' hcovers'
        exact SectionHeader.Disjoint.not_both (hhead sec' hsec') hcovers
          (of_decide_eq_true hcovers')
      simp only [hnone, hcovers, if_true, decide_true]
    · simp only [hcovers, if_false, decide_false]

/-- The image after step 5. The headers lie in front of all sections. -/
theorem sectionImage_eq (hwf : WellFormed file nt) :
    sectionImage file nt = linkedImage file nt := by
  funext o
  have hfold := @foldl_addSection_eq file (sections file nt) (headerImage file nt) o hwf.disjoint
  unfold sectionImage linkedImage sourceOf
  rw [hfold]
  by_cases hheader : o < nt.sizeOfHeaders
  · have hnone : (sections file nt).find? (fun sec => decide (sec.Covers o)) = none := by
      rw [List.find?_eq_none]
      intro sec hsec hcovers
      obtain ⟨hge, hlt⟩ := of_decide_eq_true hcovers
      have hbehind := hwf.behindHeaders sec hsec (by omega)
      omega
    rw [hnone, if_pos hheader]
    exact if_pos hheader
  · rw [if_neg hheader]
    cases hfind : (sections file nt).find? fun sec => decide (sec.Covers o) with
    | none => exact if_neg hheader
    | some sec => rfl

/-- The byte that a section has at an offset that it covers. -/
theorem sourceOf_section (hwf : WellFormed file nt) {sec : SectionHeader}
    (hsec : sec ∈ sections file nt) {o : Nat} (hcovers : sec.Covers o) :
    sourceOf file nt o = some (sec.pointerToRawData + (o - sec.virtualAddress)) := by
  have hbehind := hwf.behindHeaders sec hsec (by have := hcovers.1; have := hcovers.2; omega)
  have hfind : (sections file nt).find? (fun sec => decide (sec.Covers o)) = some sec := by
    cases hfind : (sections file nt).find? fun sec => decide (sec.Covers o) with
    | none =>
      have hnot := List.find?_eq_none.mp hfind sec hsec
      exact absurd hcovers (of_decide_eq_false (by simpa using hnot))
    | some sec' =>
      -- two different sections would both cover the offset
      have hcovers' : sec'.Covers o := by simpa using List.find?_some hfind
      by_contra hne
      have hdisjoint :=
        hwf.disjoint.forall (List.mem_of_find?_eq_some hfind) hsec fun h => hne (by rw [h])
      exact SectionHeader.Disjoint.not_both hdisjoint hcovers' hcovers
  unfold sourceOf
  rw [if_neg (by have := hcovers.1; omega), hfind]
  rfl

/-- Sections that are disjoint have the same bytes in any order. -/
theorem sourceOf_perm {file' : List UInt8} (hwf : WellFormed file nt)
    (hperm : (sections file nt).Perm (sections file' nt)) (o : Nat) :
    sourceOf file' nt o = sourceOf file nt o := by
  have hfind : (sections file nt).find? (fun sec => decide (sec.Covers o)) =
      (sections file' nt).find? fun sec => decide (sec.Covers o) := by
    refine List.find?_eq_find?_of_perm hperm ?_
    rintro sec ⟨hsec, hcovers⟩ sec' ⟨hsec', hcovers'⟩
    by_contra hne
    exact SectionHeader.Disjoint.not_both
      (hwf.disjoint.forall hsec hsec' hne)
      (of_decide_eq_true hcovers) (of_decide_eq_true hcovers')
  unfold sourceOf
  rw [hfind]

/-- The copies of a well-formed file succeed. -/
theorem copySections_wellFormed (h : HeadersFit file nt) (hwf : WellFormed file nt) :
    copySections file nt = .ok (linkedImage file nt) := by
  have hsize := h.sizeOfImage_lt
  rcases copySections_cases h with ⟨hcopy, -, -⟩ | ⟨e, -, ⟨sec, hsec, hnot⟩, -⟩ | ⟨a, -, hnot⟩
  · rw [hcopy, sectionImage_eq hwf]
  · -- every section passes the checks
    refine absurd ?_ hnot
    rcases Nat.eq_zero_or_pos sec.sizeOfRawData with hzero | hpos
    · exact .inl hzero
    · have himage := hwf.inImage sec hsec hpos
      refine .inr ⟨?_, rangeOk_iff.mpr (hwf.inFile sec hsec hpos)⟩
      unfold SectionHeader.sectionEnd
      rw [Nat.mod_eq_of_lt (by omega)]
      exact himage
  · -- no end wraps
    refine absurd (fun sec hsec => ?_) hnot
    have hmem := (List.takeWhile_sublist _).subset hsec
    rcases Nat.eq_zero_or_pos sec.sizeOfRawData with hzero | hpos
    · obtain ⟨i, -, rfl⟩ := List.mem_map.mp hmem
      rw [hzero]
      exact virtualAddress_lt file _
    · have himage := hwf.inImage sec hmem hpos
      omega

end Sections

/-! ### One block -/

/-- The image has the bytes of `image₀` in the range. -/
def SameBytes (image image₀ : Mem) (a length : Nat) : Prop :=
  ∀ o, a ≤ o → o < a + length → image o = image₀ o

/-- The relocation of the word at an address. -/
def relocateWord (delta : Nat) : Mem → Nat → Mem := leModify (fun word => add64 word delta) 8

/-- The targets of the first `n` entries of the block at `blk`. -/
def entryTargets (image : Mem) (blk n : Nat) : List Nat :=
  ((List.range n).filter fun j => decide (entryType image blk j = IMAGE_REL_BASED_DIR64)).map
    (entryTarget image blk)

section Block

variable {size delta blk length : Nat} {image image₀ : Mem}

theorem SameBytes.value {a b n : Nat} (h : SameBytes image image₀ a length) (hle : a ≤ b)
    (hend : b + n ≤ a + length) : leValue image b n = leValue image₀ b n :=
  leValue_congr fun i _ => h (b + i) (by omega) (by omega)

/-- Relocations of words outside of a range keep it. -/
theorem SameBytes.relocated {a : Nat} (h : SameBytes image image₀ a length) {words : List Nat}
    (hapart : ∀ t ∈ words, Apart t 8 a length) :
    SameBytes (words.foldl (relocateWord delta) image) image₀ a length := by
  intro o hge hlt
  rw [← h o hge hlt]
  refine foldl_leModify_outside words image fun t ht => ?_
  rcases hapart t ht with hle | hle
  · exact .inr (by omega)
  · exact .inl (by omega)

theorem contentTargets_blockAt :
    contentTargets (blockAt image blk size).content = entryTargets image blk (entryCount size) := by
  unfold contentTargets entryTargets RelocBlock.content blockAt
  simp only [List.filter_map, List.map_map]
  rfl

theorem entryTargets_succ (n : Nat) :
    entryTargets image blk (n + 1) = entryTargets image blk n ++
      if entryType image blk n = IMAGE_REL_BASED_DIR64 then [entryTarget image blk n] else [] := by
  unfold entryTargets
  rw [List.range_succ, List.filter_append, List.map_append]
  congr 1
  by_cases hdir : entryType image blk n = IMAGE_REL_BASED_DIR64
  · simp [hdir]
  · simp [hdir]

/-- The entries of a block that has not changed. -/
theorem SameBytes.entry (h : SameBytes image image₀ blk length) {j : Nat}
    (hj : j < entryCount length) :
    entryType image blk j = entryType image₀ blk j ∧
      entryTarget image blk j = entryTarget image₀ blk j := by
  unfold entryCount BASE_RELOCATION_SIZE at hj
  have hentry : leValue image (entryOffset blk j) 2 = leValue image₀ (entryOffset blk j) 2 := by
    unfold entryOffset BASE_RELOCATION_SIZE
    exact h.value (by omega) (by omega)
  have hpage : leValue image blk 4 = leValue image₀ blk 4 := h.value (Nat.le_refl blk) (by omega)
  unfold entryType entryTarget
  rw [hentry, hpage]
  exact ⟨rfl, rfl⟩

/-- The loop over the first `n` entries. It keeps its own block, so it sees the entries that the
block had at first. By induction on the entries. -/
theorem applyEntries_eq (h : SameBytes image image₀ blk length) : ∀ n ≤ entryCount length,
    (∀ t ∈ entryTargets image₀ blk n, Apart t 8 blk length) →
    applyEntries delta blk image n =
      (entryTargets image₀ blk n).foldl (relocateWord delta) image := by
  intro n
  induction n with
  | zero => exact fun _ _ => rfl
  | succ n ih =>
    intro hn hapart
    rw [entryTargets_succ] at hapart ⊢
    have hfirst : ∀ t ∈ entryTargets image₀ blk n, Apart t 8 blk length := fun t ht =>
      hapart t (List.mem_append_left _ ht)
    rw [applyEntries_succ, ih (by omega) hfirst, List.foldl_append]
    obtain ⟨htype, htarget⟩ :=
      (@SameBytes.relocated delta _ _ _ _ h _ hfirst).entry (show n < _ by omega)
    unfold applyEntry
    rw [htype, htarget]
    by_cases hdir : entryType image₀ blk n = IMAGE_REL_BASED_DIR64
    · rw [if_pos hdir, if_pos hdir]
      rfl
    · rw [if_neg hdir, if_neg hdir]
      rfl

/-- An entry is rejected when the word that it relocates is not in the image. -/
theorem blockRejected_iff (h : SameBytes image image₀ blk length) {n : Nat}
    (hn : n ≤ entryCount length) (hapart : ∀ t ∈ entryTargets image₀ blk n, Apart t 8 blk length) :
    BlockRejected size delta blk image n ↔ ∃ t ∈ entryTargets image₀ blk n, size < t + 8 := by
  have hentry : ∀ j < n, (EntryRejected size blk (applyEntries delta blk image j) j ↔
      EntryRejected size blk image₀ j) := by
    intro j hj
    have hfirst : ∀ t ∈ entryTargets image₀ blk j, Apart t 8 blk length := by
      intro t ht
      refine hapart t ?_
      obtain ⟨i, hi, rfl⟩ := List.mem_map.mp ht
      obtain ⟨hrange, hdir⟩ := List.mem_filter.mp hi
      have hlt := List.mem_range.mp hrange
      exact List.mem_map_of_mem (List.mem_filter.mpr ⟨List.mem_range.mpr (by omega), hdir⟩)
    rw [applyEntries_eq h j (by omega) hfirst]
    obtain ⟨htype, htarget⟩ :=
      (@SameBytes.relocated delta _ _ _ _ h _ hfirst).entry (show j < _ by omega)
    unfold EntryRejected
    rw [htype, htarget]
  constructor
  · rintro ⟨j, hj, hrej⟩
    obtain ⟨hdir, hout⟩ := (hentry j hj).mp hrej
    exact ⟨_, List.mem_map_of_mem (List.mem_filter.mpr ⟨List.mem_range.mpr hj,
      decide_eq_true hdir⟩), hout⟩
  · rintro ⟨t, ht, hout⟩
    obtain ⟨j, hj, rfl⟩ := List.mem_map.mp ht
    obtain ⟨hrange, hdir⟩ := List.mem_filter.mp hj
    have hlt := List.mem_range.mp hrange
    exact ⟨j, hlt, (hentry j hlt).mpr ⟨of_decide_eq_true hdir, hout⟩⟩

end Block

/-! ### The table -/

section Table

variable {size delta blkEnd : Nat} {image₀ : Mem}

/-- The loop over the blocks of a table that lies in the image and is not relocated itself: it
relocates the targets of the table in order, or rejects one that is not in the image. By induction
on the blocks. -/
theorem relocateBlocks_eq (hend : blkEnd ≤ size) : ∀ (fuel blk : Nat) (image : Mem),
    let blocks := blocksFrom image₀ blkEnd fuel blk
    let words := (blocks.map RelocBlock.content).flatMap contentTargets
    (∀ block ∈ blocks, block.start + block.size ≤ blkEnd) →
    (∀ t ∈ words, ∀ block ∈ blocks, Apart t 8 block.start block.size) →
    (∀ block ∈ blocks, SameBytes image image₀ block.start block.size) →
    relocateBlocks size delta blkEnd fuel blk image =
      if ∀ t ∈ words, t + 8 ≤ size then .ok (words.foldl (relocateWord delta) image)
      else .error (.rejected .badReloc) := by
  intro fuel
  induction fuel with
  | zero =>
    intro blk image blocks words _ _ _
    exact (if_pos fun t ht => absurd ht List.not_mem_nil).symm
  | succ fuel ih =>
    intro blk image
    by_cases hheader : blk + BASE_RELOCATION_SIZE ≤ blkEnd
    swap
    · -- no further header fits into the table
      rw [relocateBlocks_end hend _ fun hblock => hheader hblock.1, blocksFrom, if_neg hheader]
      intro blocks words _ _ _
      exact (if_pos fun t ht => absurd ht List.not_mem_nil).symm
    by_cases hsize : sizeOfBlock image₀ blk < BASE_RELOCATION_SIZE
    · -- the header ends the table, here as in the file
      rw [blocksFrom, if_pos hheader, if_pos hsize]
      intro blocks words _ _ hsame
      have hkept : sizeOfBlock image blk = sizeOfBlock image₀ blk :=
        (hsame _ (List.mem_singleton_self _)).value (Nat.le_add_right blk 4) (Nat.le_refl _)
      rw [relocateBlocks_end hend _ fun hblock => absurd hblock.2 (by omega)]
      exact (if_pos fun t ht => absurd ht List.not_mem_nil).symm
    rw [blocksFrom, if_pos hheader, if_neg hsize]
    intro blocks words hinside hapart hsame
    obtain ⟨hfirstIn, hrestIn⟩ := List.forall_mem_cons.mp hinside
    obtain ⟨hfirstSame, hrestSame⟩ := List.forall_mem_cons.mp hsame
    replace hfirstIn : blk + sizeOfBlock image₀ blk ≤ blkEnd := hfirstIn
    replace hfirstSame : SameBytes image image₀ blk (sizeOfBlock image₀ blk) := hfirstSame
    -- the targets of this block, and those of the later ones
    have hwords : words = entryTargets image₀ blk (entryCount (sizeOfBlock image₀ blk)) ++
        ((blocksFrom image₀ blkEnd fuel (blk + sizeOfBlock image₀ blk)).map
          RelocBlock.content).flatMap contentTargets := by
      show List.flatMap _ (List.map _ (_ :: _)) = _
      rw [List.map_cons, List.flatMap_cons, contentTargets_blockAt]
    have hfirst : ∀ t ∈ entryTargets image₀ blk (entryCount (sizeOfBlock image₀ blk)),
        Apart t 8 blk (sizeOfBlock image₀ blk) := fun t ht =>
      hapart t (hwords ▸ List.mem_append_left _ ht) _ (.head _)
    have hkept : sizeOfBlock image blk = sizeOfBlock image₀ blk :=
      hfirstSame.value (Nat.le_add_right blk 4) (by unfold BASE_RELOCATION_SIZE at hsize; omega)
    have hrejected := @blockRejected_iff size delta _ _ _ _ hfirstSame _ (Nat.le_refl _) hfirst
    rw [relocateBlocks_step hend fuel ⟨hheader, by omega⟩, hkept]
    rcases @relocateEntries_cases size delta blk image (Nat.le_trans hheader hend)
      (entryCount (sizeOfBlock image₀ blk)) with ⟨heq, -, hok⟩ | ⟨heq, hrej, -⟩ | ⟨a, -, hlt, -⟩
    · -- The loop goes on with an image that still has the later blocks.
      rw [heq, applyEntries_eq hfirstSame _ (Nat.le_refl _) hfirst]
      have hsameAfter := @SameBytes.relocated delta _ _ _ _ hfirstSame _ hfirst
      have hkeptAfter := hsameAfter.value (Nat.le_add_right blk 4)
        (show blk + 4 + 4 ≤ _ by unfold BASE_RELOCATION_SIZE at hsize; omega)
      have hrest := ih (blk + sizeOfBlock image₀ blk) ((entryTargets image₀ blk
          (entryCount (sizeOfBlock image₀ blk))).foldl (relocateWord delta) image) hrestIn
        (fun t ht block hblock => hapart t (hwords ▸ List.mem_append_right _ ht) block
          (.tail _ hblock))
        (fun block hblock => (hrestSame block hblock).relocated fun t ht =>
          hapart t (hwords ▸ List.mem_append_left _ ht) block (.tail _ hblock))
      show relocateBlocks size delta blkEnd fuel (blk + leValue _ (blk + 4) 4) _ = _
      rw [hkeptAfter]
      show relocateBlocks size delta blkEnd fuel (blk + sizeOfBlock image₀ blk) _ = _
      have hall : ∀ t ∈ entryTargets image₀ blk (entryCount (sizeOfBlock image₀ blk)),
          t + 8 ≤ size := by
        intro t ht
        by_contra hout
        exact hok (hrejected.mpr ⟨t, ht, by omega⟩)
      rw [hrest, hwords, List.foldl_append]
      simp only [List.forall_mem_append, and_iff_right hall]
    · -- one of the targets of this block is not in the image
      obtain ⟨t, ht, hout⟩ := hrejected.mp hrej
      rw [heq, if_neg fun hall => absurd (hall t (hwords ▸ List.mem_append_left _ ht)) (by omega)]
      rfl
    · -- the block lies in its table, so its entries lie in the image
      unfold entriesInside entryCount at hlt
      omega

end Table

/-! ### The load -/

section Load

variable {file : List UInt8} {nt : NtHeaders} {base : Nat}

/-- The end of a sequence that runs through. -/
theorem bind_eq_ok {α β : Type} {x : Except Stop α} {f : α → Except Stop β} {b : β}
    (h : (x >>= f) = .ok b) : ∃ a, x = .ok a ∧ f a = .ok b := by
  cases x with
  | error e => cases h
  | ok a => exact ⟨a, rfl, h⟩

theorem checkHeaders_eq (h : checkHeaders file = .ok nt) :
    nt = parseNtHeaders file (lfanew file) := by
  unfold checkHeaders at h
  -- the checks return nothing but that they have passed
  obtain ⟨-, -, h⟩ := bind_eq_ok h
  obtain ⟨-, -, h⟩ := bind_eq_ok h
  obtain ⟨-, -, h⟩ := bind_eq_ok h
  obtain ⟨-, -, h⟩ := bind_eq_ok h
  obtain ⟨-, -, h⟩ := bind_eq_ok h
  obtain ⟨-, -, h⟩ := bind_eq_ok h
  obtain ⟨-, -, h⟩ := bind_eq_ok h
  obtain ⟨-, -, h⟩ := bind_eq_ok h
  obtain ⟨-, -, h⟩ := bind_eq_ok h
  obtain ⟨-, -, h⟩ := bind_eq_ok h
  cases h
  rfl

theorem imageBase_lt (h : checkHeaders file = .ok nt) : nt.imageBase < 2 ^ 64 := by
  rw [checkHeaders_eq h]
  show leValue _ _ 8 < _
  exact leValue_lt _ _ 8

theorem headersFit_of_ok (h : checkHeaders file = .ok nt) : HeadersFit file nt := by
  rcases checkHeaders_cases file with ⟨e, heq⟩ | ⟨nt', heq, hfit⟩
  · rw [heq] at h
    cases h
  · rw [heq] at h
    cases h
    exact hfit

/-- When the image at `base` is relocated, the table and the words lie in it. -/
def WordsFit (nt : NtHeaders) (base : Nat) (words : List Nat) : Prop :=
  0 < nt.relocSize ∧ nt.relocVirtualAddress ≠ 0 ∧ sub64 base nt.imageBase ≠ 0 →
    nt.relocVirtualAddress + nt.relocSize ≤ nt.sizeOfImage ∧ ∀ t ∈ words, t + 8 ≤ nt.sizeOfImage

/-- The image of a well-formed file at `base`. -/
def relocatedImage (file : List UInt8) (nt : NtHeaders) (base : Nat) : Mem :=
  (targets file nt).foldl (relocateWord (sub64 base nt.imageBase)) (linkedImage file nt)

/-- An image that is not relocated is the one with its words changed by nothing. -/
theorem relocatedImage_of_not
    (h : ¬ (0 < nt.relocSize ∧ nt.relocVirtualAddress ≠ 0 ∧ sub64 base nt.imageBase ≠ 0)) :
    relocatedImage file nt base = linkedImage file nt := by
  unfold relocatedImage
  by_cases hdelta : sub64 base nt.imageBase = 0
  · rw [hdelta]
    have hkeep : ∀ image t, relocateWord 0 image t = image := by
      intro image t
      have hlt : leValue image t 8 < U64 := by
        rw [U64_eq]
        exact Nat.lt_of_lt_of_eq (leValue_lt image t 8) (by norm_num)
      have hword : add64 (leValue image t 8) 0 = leValue image t 8 := by
        rw [add64_eq (by rwa [Nat.add_zero]), Nat.add_zero]
      exact @leModify_id (fun word => add64 word 0) 8 image t hword
    induction targets file nt with
    | nil => rfl
    | cons t words ih => rw [List.foldl_cons, hkeep, ih]
  · have hnone : targets file nt = [] := by
      unfold targets relocBlocks
      rw [if_neg fun hasked => h ⟨hasked.1, hasked.2, hdelta⟩]
      rfl
    rw [hnone]
    rfl

theorem relocate_eq_ok_iff (hwf : WellFormed file nt) (image : Mem) :
    relocate nt base (linkedImage file nt) = .ok image ↔
      WordsFit nt base (targets file nt) ∧ image = relocatedImage file nt base := by
  unfold relocate
  by_cases hasked : 0 < nt.relocSize ∧ nt.relocVirtualAddress ≠ 0 ∧ sub64 base nt.imageBase ≠ 0
  swap
  · rw [if_neg hasked, relocatedImage_of_not hasked]
    constructor
    · intro h
      cases h
      exact ⟨fun h => absurd h hasked, rfl⟩
    · rintro ⟨-, rfl⟩
      rfl
  rw [if_pos hasked, require_bind]
  have hblocks : relocBlocks file nt = blocksFrom (linkedImage file nt)
      (nt.relocVirtualAddress + nt.relocSize) nt.relocSize nt.relocVirtualAddress :=
    if_pos ⟨hasked.1, hasked.2.1⟩
  by_cases hrange : rangeOk nt.sizeOfImage nt.relocVirtualAddress nt.relocSize = true
  swap
  · rw [if_neg hrange]
    constructor
    · intro h
      cases h
    · rintro ⟨hfit, -⟩
      exact absurd (rangeOk_iff.mpr (hfit hasked).1) hrange
  have hinside := rangeOk_iff.mp hrange
  have hloop := @relocateBlocks_eq nt.sizeOfImage (sub64 base nt.imageBase) _
    (linkedImage file nt) hinside nt.relocSize nt.relocVirtualAddress (linkedImage file nt)
  rw [← hblocks] at hloop
  have hrun : relocateBlocks nt.sizeOfImage (sub64 base nt.imageBase)
      (nt.relocVirtualAddress + nt.relocSize) nt.relocSize nt.relocVirtualAddress
      (linkedImage file nt) =
        if ∀ t ∈ targets file nt, t + 8 ≤ nt.sizeOfImage then .ok (relocatedImage file nt base)
        else .error (.rejected .badReloc) := hloop hwf.blocks hwf.fixed fun _ _ _ _ _ => rfl
  rw [if_pos hrange, hrun]
  by_cases hall : ∀ t ∈ targets file nt, t + 8 ≤ nt.sizeOfImage
  · rw [if_pos hall, Except.ok.injEq, eq_comm]
    exact (and_iff_right fun _ => ⟨hinside, hall⟩).symm
  · rw [if_neg hall]
    constructor
    · intro h
      cases h
    · rintro ⟨hfit, -⟩
      exact absurd (hfit hasked).2 hall

/-- The load of a well-formed file. -/
theorem load_eq_ok_iff (allocateZero : Nat → Nat) (hheaders : checkHeaders file = .ok nt)
    (hwf : WellFormed file nt) (loaded : Loaded) :
    load file allocateZero = .ok loaded ↔
      allocateZero nt.sizeOfImage ≠ 0 ∧
        WordsFit nt (allocateZero nt.sizeOfImage) (targets file nt) ∧
        loaded = ⟨add64 (allocateZero nt.sizeOfImage) nt.addressOfEntryPoint,
          allocateZero nt.sizeOfImage, nt.sizeOfImage,
          relocatedImage file nt (allocateZero nt.sizeOfImage)⟩ := by
  unfold load
  rw [hheaders]
  generalize hbase : allocateZero nt.sizeOfImage = base
  show (require (decide (allocateZero nt.sizeOfImage ≠ 0)) _ >>= fun _ => _) = _ ↔ _
  rw [hbase, require_bind]
  by_cases hzero : base = 0
  · rw [if_neg (by simpa using hzero)]
    constructor
    · intro h
      cases h
    · exact fun h => absurd hzero h.1
  rw [if_pos (by simpa using hzero), copySections_wellFormed (headersFit_of_ok hheaders) hwf]
  show (relocate nt base (linkedImage file nt) >>= fun image => _) = _ ↔ _
  constructor
  · intro h
    obtain ⟨image, hrelocate, h⟩ := bind_eq_ok h
    obtain ⟨hfit, rfl⟩ := (relocate_eq_ok_iff hwf image).mp hrelocate
    cases h
    exact ⟨hzero, hfit, rfl⟩
  · rintro ⟨-, hfit, rfl⟩
    rw [(relocate_eq_ok_iff hwf _).mpr ⟨hfit, rfl⟩]
    rfl

/-- A byte in no relocated word is the one of the linked image. -/
theorem relocatedImage_unrelocated {o : Nat} (h : Unrelocated file nt o) :
    relocatedImage file nt base o = linkedImage file nt o :=
  foldl_leModify_outside _ _ h

/-- A relocated word, in `u64`. -/
theorem relocatedImage_word (hwf : WellFormed file nt) {t : Nat} (ht : t ∈ targets file nt) :
    leValue (relocatedImage file nt base) t 8 =
      add64 (leValue (linkedImage file nt) t 8) (sub64 base nt.imageBase) := by
  refine @leValue_foldl_leModify (fun word => add64 word (sub64 base nt.imageBase)) 8 t
    (fun word => ?_) _ _ hwf.apart ht
  have hlt := add64_lt word (sub64 base nt.imageBase)
  rw [U64_eq] at hlt
  exact Nat.lt_of_lt_of_eq hlt (by norm_num)

/-- A word moved by the difference of two addresses, as integers. -/
theorem add64_sub64 {word linked : Nat} (base : Nat) (hlinked : linked < 2 ^ 64) :
    ((add64 word (sub64 base linked) : Nat) : Int) =
      ((word : Int) + ((base : Int) - linked)) % 2 ^ 64 := by
  unfold add64 sub64
  rw [U64_eq]
  split <;> omega

theorem loadsAs_of_ok {allocateZero : Nat → Nat} (hheaders : checkHeaders file = .ok nt)
    (hwf : WellFormed file nt) {loaded : Loaded} (hload : load file allocateZero = .ok loaded) :
    LoadsAs file nt (allocateZero nt.sizeOfImage) loaded := by
  obtain ⟨-, -, rfl⟩ := (load_eq_ok_iff allocateZero hheaders hwf loaded).mp hload
  refine ⟨rfl, rfl, ?_, fun o ho hun => ?_, fun sec hsec k hk hun => ?_, fun o ho hnone hun => ?_,
    fun t ht => ?_⟩
  · show add64 _ _ = _
    unfold add64
    rw [U64_eq]
  · show relocatedImage file nt _ o = _
    rw [relocatedImage_unrelocated hun]
    unfold linkedImage sourceOf
    rw [if_pos ho]
  · show relocatedImage file nt _ (sec.virtualAddress + k) = _
    rw [relocatedImage_unrelocated hun]
    unfold linkedImage
    rw [sourceOf_section hwf hsec ⟨by omega, by omega⟩, Nat.add_sub_cancel_left]
  · show relocatedImage file nt _ o = _
    have hfind : (sections file nt).find? (fun sec => decide (sec.Covers o)) = none := by
      rw [List.find?_eq_none]
      exact fun sec hsec => by simpa using hnone sec hsec
    rw [relocatedImage_unrelocated hun]
    unfold linkedImage sourceOf
    rw [if_neg (by omega), hfind]
    rfl
  · show ((leValue (relocatedImage file nt _) t 8 : Nat) : Int) = _
    rw [relocatedImage_word hwf ht]
    exact add64_sub64 _ (imageBase_lt hheaders)

/-- The same targets, in the order of the other file. -/
theorem targets_perm {file' : List UInt8} (h : Reordered file file' nt) :
    (targets file nt).Perm (targets file' nt) :=
  h.blocks.flatMap_right contentTargets

theorem WordsFit.perm {words words' : List Nat} (h : WordsFit nt base words)
    (hperm : words.Perm words') : WordsFit nt base words' := by
  intro hasked
  obtain ⟨hinside, hall⟩ := h hasked
  exact ⟨hinside, fun t ht => hall t (hperm.mem_iff.mpr ht)⟩

/-- Bytes with the same source are the same in both linked images. -/
theorem linkedImage_same {file' : List UInt8} (hwf : WellFormed file nt)
    (hperm : (sections file nt).Perm (sections file' nt)) {o : Nat}
    (h : SameSource file file' nt o) : linkedImage file' nt o = linkedImage file nt o := by
  unfold linkedImage
  rw [sourceOf_perm hwf hperm]
  cases hsource : sourceOf file nt o with
  | none => rfl
  | some i => exact (h i hsource).symm

theorem loadsSame_of_reordered {file' : List UInt8} {allocateZero : Nat → Nat}
    (hheaders : checkHeaders file = .ok nt) (hwf : WellFormed file nt)
    (hheaders' : checkHeaders file' = .ok nt) (hwf' : WellFormed file' nt)
    (h : Reordered file file' nt) {loaded : Loaded} (hload : load file allocateZero = .ok loaded) :
    ∃ loaded', load file' allocateZero = .ok loaded' ∧
      LoadsSame file file' nt loaded loaded' := by
  obtain ⟨hbase, hfit, rfl⟩ := (load_eq_ok_iff allocateZero hheaders hwf loaded).mp hload
  have hperm := targets_perm h
  refine ⟨_, (load_eq_ok_iff allocateZero hheaders' hwf' _).mpr ⟨hbase, hfit.perm hperm, rfl⟩, ?_⟩
  generalize allocateZero nt.sizeOfImage = base
  refine ⟨rfl, rfl, rfl, fun o hun hsame => ?_, fun t ht hsame => ?_⟩
  · have hun' : Unrelocated file' nt o := fun t ht => hun t (hperm.mem_iff.mpr ht)
    show relocatedImage file' nt _ o = relocatedImage file nt _ o
    rw [relocatedImage_unrelocated hun, relocatedImage_unrelocated hun']
    exact linkedImage_same hwf h.sections hsame
  · have hlinked : leValue (linkedImage file' nt) t 8 = leValue (linkedImage file nt) t 8 :=
      leValue_congr fun k hk => linkedImage_same hwf h.sections (hsame k hk)
    show leValue (relocatedImage file' nt _) t 8 = leValue (relocatedImage file nt _) t 8
    rw [relocatedImage_word hwf ht, relocatedImage_word hwf' (hperm.mem_iff.mp ht), hlinked]

end Load

/-- A well-formed file that is loaded has the bytes of its headers and sections at their
addresses, zeros elsewhere, every target moved by the difference between the actual and the linked
address, and the entry point at its address from the base. A well-formed file that lists the same
sections and relocation blocks in another order is loaded too, to the same image wherever the
bytes in the files are the same. -/
theorem load_correct (file : List UInt8) (allocateZero : Nat → Nat) (nt : NtHeaders)
    (hheaders : checkHeaders file = .ok nt) (hwf : WellFormed file nt) (loaded : Loaded)
    (hload : load file allocateZero = .ok loaded) :
    LoadsAs file nt (allocateZero nt.sizeOfImage) loaded ∧
      ∀ file', checkHeaders file' = .ok nt → WellFormed file' nt → Reordered file file' nt →
        ∃ loaded', load file' allocateZero = .ok loaded' ∧
          LoadsSame file file' nt loaded loaded' :=
  ⟨loadsAs_of_ok hheaders hwf hload, fun _ hheaders' hwf' h =>
    loadsSame_of_reordered hheaders hwf hheaders' hwf' h hload⟩

/-- Two words in two sections, linked to the offsets `0x500` and `0x600`, with a relocation block
for each: the section headers and the pages of the blocks in an order. -/
def twoWords (secs : List SectionHeader) (pages : List Nat) : List UInt8 :=
  encodePe 0x108 24 secs (leBytes 8 0x140000500 ++
    pages.flatMap (fun page => leBytes 4 page ++ leBytes 4 12 ++ leBytes 2 0xA000 ++ leBytes 2 0) ++
    leBytes 8 0x140000600)

def inOrder : List UInt8 := twoWords [⟨0x100, 32, 408⟩, ⟨0x200, 8, 440⟩] [0x100, 0x200]

def swapped : List UInt8 := twoWords [⟨0x200, 8, 440⟩, ⟨0x100, 32, 408⟩] [0x200, 0x100]

/-- Their headers. -/
def twoWordsHeaders : NtHeaders :=
  ⟨IMAGE_NT_SIGNATURE, IMAGE_FILE_MACHINE_AMD64, 2, 240, IMAGE_OPTIONAL_HDR64_MAGIC, 0, 0x140000000,
    0x1000, 64, 0x108, 24⟩

/-- Both are loaded to `0x200000`, below where they are linked to. -/
theorem load_correct_swapped :
    ∃ first second, load inOrder (fun _ => 0x200000) = .ok first ∧
      LoadsAs inOrder twoWordsHeaders 0x200000 first ∧ leValue first.image 0x100 8 = 0x200500 ∧
      leValue first.image 0x200 8 = 0x200600 ∧
      load swapped (fun _ => 0x200000) = .ok second ∧
      LoadsSame inOrder swapped twoWordsHeaders first second := by
  obtain ⟨⟨hheaders, hsections, hblocks, hlength⟩, ⟨hheaders', hsections', hblocks', hlength'⟩,
      hlinked, hload⟩ :
      (checkHeaders inOrder = .ok twoWordsHeaders ∧
        sections inOrder twoWordsHeaders = [⟨0x100, 32, 408⟩, ⟨0x200, 8, 440⟩] ∧
        relocBlocks inOrder twoWordsHeaders =
          [⟨0x108, 12, 0x100, [0xA000, 0]⟩, ⟨0x114, 12, 0x200, [0xA000, 0]⟩] ∧
        inOrder.length = 448) ∧
      (checkHeaders swapped = .ok twoWordsHeaders ∧
        sections swapped twoWordsHeaders = [⟨0x200, 8, 440⟩, ⟨0x100, 32, 408⟩] ∧
        relocBlocks swapped twoWordsHeaders =
          [⟨0x108, 12, 0x200, [0xA000, 0]⟩, ⟨0x114, 12, 0x100, [0xA000, 0]⟩] ∧
        swapped.length = 448) ∧
      (leValue (linkedImage inOrder twoWordsHeaders) 0x100 8 = 0x140000500 ∧
        leValue (linkedImage inOrder twoWordsHeaders) 0x200 8 = 0x140000600) ∧
      stopOf (load inOrder fun _ => 0x200000) = none := by with_unfolding_all decide
  have hwf : WellFormed inOrder twoWordsHeaders := by
    rw [wellFormed_iff, targets, hsections, hblocks, hlength]
    decide
  have hwf' : WellFormed swapped twoWordsHeaders := by
    rw [wellFormed_iff, targets, hsections', hblocks', hlength']
    decide
  have hreordered : Reordered inOrder swapped twoWordsHeaders := by
    refine ⟨?_, ?_⟩
    · rw [hsections, hsections']
      decide
    · rw [hblocks, hblocks']
      decide
  cases hok : load inOrder fun _ => 0x200000 with
  | error stop =>
    rw [hok] at hload
    cases hload
  | ok first =>
    obtain ⟨hcorrect, hother⟩ :=
      load_correct inOrder (fun _ => 0x200000) _ hheaders hwf first hok
    obtain ⟨second, hok', hsame⟩ := hother swapped hheaders' hwf' hreordered
    have htargets : targets inOrder twoWordsHeaders = [0x100, 0x200] := by
      rw [targets, hblocks]
      decide
    have hword := hcorrect.words 0x100 (by rw [htargets]; exact .head _)
    have hword' := hcorrect.words 0x200 (by rw [htargets]; exact .tail _ (.head _))
    have hbase : twoWordsHeaders.imageBase = 0x140000000 := rfl
    rw [hlinked.1, hbase] at hword
    rw [hlinked.2, hbase] at hword'
    exact ⟨first, second, rfl, hcorrect, by omega, by omega, hok', hsame⟩

end VKernel.Proofs.Loader.Pe

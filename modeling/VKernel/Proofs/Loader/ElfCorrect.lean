import VKernel.Loader.ElfSpec
import VKernel.Proofs.Loader.ElfBounds

/-!
# `VKernel.Proofs.Loader.ElfCorrect`: the image of a well-formed file

For a well-formed file the image after the segment copy has the byte of the file at every link
address (`segmentImage_eq`), and all addresses that the file loads lie in the image. The
relocation loop then reads its entries as the file has them: `Relocated` is its invariant,
and `relocated_step` the step lemma.
-/

set_option autoImplicit false
set_option maxRecDepth 20000

namespace VKernel.Proofs.Loader

open VKernel VKernel.Lib VKernel.Loader

/-! ### Segments -/

section Bytes

variable {file : List UInt8} {phdrs : List Phdr} {lo : Nat}

theorem offsetOf_zero (v : Nat) : offsetOf 0 v = v := by
  unfold offsetOf
  rw [sub64_eq (Nat.zero_le v), Nat.sub_zero]

theorem offsetOf_eq {v : Nat} (h : lo ≤ v) : offsetOf lo v = v - lo := sub64_eq h

/-- One segment over an image, at a link address. -/
theorem addSegment_eq {image : Image} {ph : Phdr} {o : Nat}
    (hsizes : ph.type = PT_LOAD → ph.filesz ≤ ph.memsz)
    (hlo : ph.type = PT_LOAD → lo ≤ ph.vaddr) :
    image.addSegment file lo ph o = if ph.Covers (lo + o) then ph.byteAt file (lo + o)
      else image o := by
  unfold Image.addSegment
  by_cases htype : ph.type ≠ PT_LOAD
  · rw [if_pos htype, if_neg fun h => htype h.1]
  · have hload : ph.type = PT_LOAD := by
      by_contra h
      exact htype h
    have hle := hlo hload
    have hsz := hsizes hload
    rw [if_neg htype]
    simp only [offsetOf_eq hle, Phdr.byteAt]
    by_cases hcovers : ph.Covers (lo + o)
    · rw [if_pos hcovers]
      obtain ⟨-, hge, hlt⟩ := hcovers
      by_cases hbyte : lo + o - ph.vaddr < ph.filesz
      · rw [if_pos hbyte, if_pos ⟨by omega, by omega⟩]
        congr 2
        omega
      · rw [if_neg hbyte, if_neg (by omega), if_pos ⟨by omega, by omega⟩]
    · have hout : ¬ (ph.vaddr ≤ lo + o ∧ lo + o < ph.vaddr + ph.memsz) := fun h =>
        hcovers ⟨hload, h⟩
      rw [if_neg hcovers, if_neg (by omega), if_neg (by omega)]

/-- All segments over an image: the bytes of the segment that covers the address, of which
there is at most one. By induction on the program headers. -/
theorem foldl_addSegment_eq : ∀ (phdrs : List Phdr) (image : Image) (o : Nat),
    (∀ ph ∈ phdrs, ph.type = PT_LOAD → ph.filesz ≤ ph.memsz ∧ lo ≤ ph.vaddr) →
    (phdrs.Pairwise fun a b => ∀ v, ¬ (a.Covers v ∧ b.Covers v)) →
    phdrs.foldl (Image.addSegment file lo) image o =
      match phdrs.find? fun ph => decide (ph.Covers (lo + o)) with
      | some ph => ph.byteAt file (lo + o)
      | none => image o := by
  intro phdrs
  induction phdrs with
  | nil =>
    intro image o _ _
    rfl
  | cons ph phdrs ih =>
    intro image o hsizes hdisjoint
    simp only [List.forall_mem_cons] at hsizes
    obtain ⟨hhead, htail⟩ := List.pairwise_cons.mp hdisjoint
    have hstep : image.addSegment file lo ph o =
        if ph.Covers (lo + o) then ph.byteAt file (lo + o) else image o :=
      addSegment_eq (fun h => (hsizes.1 h).1) fun h => (hsizes.1 h).2
    rw [List.foldl_cons, ih _ o hsizes.2 htail, hstep, List.find?_cons]
    by_cases hcovers : ph.Covers (lo + o)
    · -- no later segment covers the address too
      have hnone : phdrs.find? (fun ph => decide (ph.Covers (lo + o))) = none := by
        rw [List.find?_eq_none]
        intro ph' hph' hcovers'
        exact hhead ph' hph' (lo + o) ⟨hcovers, of_decide_eq_true hcovers'⟩
      simp only [hnone, hcovers, if_true, decide_true]
    · simp only [hcovers, if_false, decide_false]

/-- The image after step 8 has the bytes of the file. -/
theorem segmentImage_eq (o : Nat)
    (hsizes : ∀ ph ∈ phdrs, ph.type = PT_LOAD → ph.filesz ≤ ph.memsz ∧ lo ≤ ph.vaddr)
    (hdisjoint : phdrs.Pairwise fun a b => ∀ v, ¬ (a.Covers v ∧ b.Covers v)) :
    segmentImage file lo phdrs o = linkByte file phdrs (lo + o) :=
  foldl_addSegment_eq phdrs _ o hsizes hdisjoint

end Bytes

/-! ### Loaded addresses -/

section Image

variable {file : List UInt8} {ehdr : Ehdr} {phdrs : List Phdr} {lo limit : Nat}

/-- What the span of a file says to its image: loaded addresses are between the lowest address
and the end of the image. -/
def SpanCovers (phdrs : List Phdr) (lo limit : Nat) : Prop :=
  ∀ v, LoadedAddress phdrs v → lo ≤ v ∧ v < lo + limit ∧ v + 1 < U64

/-- A loaded range is in the image. -/
theorem inside_of_loaded (hspan : SpanCovers phdrs lo limit) {v length : Nat}
    (hlength : 0 < length) (h : LoadedRange phdrs v length) :
    Inside lo limit v length ∧ lo ≤ v ∧ v + length < U64 := by
  obtain ⟨hfirst, -, -⟩ := hspan _ (h 0 hlength)
  obtain ⟨-, hlast, hU⟩ := hspan _ (h (length - 1) (by omega))
  unfold Inside
  rw [offsetOf_eq (by omega)]
  refine ⟨by omega, by omega, by omega⟩

/-- A range inside a loaded range. -/
theorem LoadedRange.part {v length : Nat} (h : LoadedRange phdrs v length) {k length' : Nat}
    (hle : k + length' ≤ length) : LoadedRange phdrs (v + k) length' := by
  intro i hi
  rw [Nat.add_assoc]
  exact h (k + i) (by omega)

/-- A word of an image that has the file's bytes there. -/
theorem word_of_agrees {image : Image} {v : Nat} (hlo : lo ≤ v)
    (h : ∀ i < 8, image (v - lo + i) = linkByte file phdrs (v + i)) :
    image.word lo v = Image.word (linkByte file phdrs) 0 v := by
  unfold Image.word
  rw [offsetOf_eq hlo, offsetOf_zero]
  exact leValue_congr h

/-- The bytes of an image that has the file's bytes in the range. -/
def Agrees (file : List UInt8) (phdrs : List Phdr) (lo : Nat) (image : Image) (v length : Nat) :
    Prop := ∀ i < length, image (v - lo + i) = linkByte file phdrs (v + i)

/-- A word of a loaded range: it is in the image, its address does not wrap, and it is the
word of the file. -/
theorem word_in_range {image : Image} {v length : Nat} (hspan : SpanCovers phdrs lo limit)
    (hload : LoadedRange phdrs v length) (hagrees : Agrees file phdrs lo image v length)
    (k : Nat) (hk : k + 8 ≤ length) :
    Inside lo limit (v + k) 8 ∧ add64 v k = v + k ∧
      image.word lo (v + k) = Image.word (linkByte file phdrs) 0 (v + k) := by
  obtain ⟨-, hlo, hU⟩ := inside_of_loaded hspan (by omega) hload
  refine ⟨(inside_of_loaded hspan (by omega) (LoadedRange.part hload hk)).1, add64_eq (by omega),
    ?_⟩
  apply word_of_agrees (by omega)
  intro i hi
  have := hagrees (k + i) (by omega)
  rw [show v + k - lo + i = v - lo + (k + i) by omega, this, Nat.add_assoc]

/-- An alignment that wraps leaves nothing. -/
theorem alignUp_wrap {val : Nat} (hval : val < U64) (hwrap : U64 < val + 2 ^ 12) :
    alignUp val (2 ^ 12) = 0 := by
  have hU := U64_eq
  have hsum : add64 val (2 ^ 12) = val + 2 ^ 12 - U64 := by
    unfold add64
    rw [Nat.mod_eq_sub_mod (by omega), Nat.mod_eq_of_lt (by omega)]
  unfold alignUp
  rw [hsum, sub64_eq (by omega), sub64_eq Nat.one_le_two_pow,
    and_not64_two_pow (by omega) (by decide)]
  rw [Nat.div_eq_of_lt (by omega), Nat.zero_mul]

/-- The loaded addresses of a well-formed file lie in an image that is not empty. -/
theorem spanCovers_of_wellFormed {span : Span}
    (hspan : computeSpan file ehdr phdrs = .ok span) (hwf : WellFormed file ehdr phdrs)
    (hpos : 0 < span.imageSize) (hlimit : span.imageSize ≤ limit) :
    SpanCovers phdrs span.vaddrMin limit := by
  obtain ⟨hmin, hmax, hsegments⟩ := computeSpan_spec.2 span hspan
  rintro v ⟨ph, hph, hload, hge, hlt⟩
  obtain ⟨-, hlo, hend⟩ := hsegments ph hph hload
  obtain ⟨-, hnowrap⟩ := hwf.sizes ph hph hload
  rw [add64_eq hnowrap] at hend
  have hsize : span.imageSize = alignUp (span.vaddrMax - span.vaddrMin) (2 ^ 12) := by
    unfold Span.imageSize elfAlignUp
    rw [if_neg (by decide), sub64_eq (by omega)]
    rfl
  have hle : span.vaddrMax - span.vaddrMin ≤ span.imageSize := by
    rw [hsize]
    apply le_alignUp (by decide)
    by_contra hwrap
    rw [hsize, alignUp_wrap (by omega) (by omega)] at hpos
    exact absurd hpos (by decide)
  exact ⟨by omega, by omega, by omega⟩

/-! ### The dynamic table -/

section Dynamic

variable {image : Image} {v : Nat}

/-- An entry ends before the table does. -/
theorem dynEntry_le {k n : Nat} (h : k < n) : k * DYN_SIZE + 16 ≤ n * DYN_SIZE := by
  unfold DYN_SIZE
  omega

/-- The relocation table that the scan finds in an image with the file's bytes is the one of
the file. By induction on the entries. -/
theorem relaTable_eq (hspan : SpanCovers phdrs lo limit) {n length : Nat}
    (hload : LoadedRange phdrs v length) (hagrees : Agrees file phdrs lo image v length)
    (hn : n * DYN_SIZE ≤ length) :
    relaTable image lo v n = relaTable (linkByte file phdrs) 0 v n := by
  induction n with
  | zero => rfl
  | succ n ih =>
    have hle := dynEntry_le (show n < n + 1 by omega)
    obtain ⟨-, hentry, htag⟩ := word_in_range hspan hload hagrees (n * DYN_SIZE) (by omega)
    obtain ⟨-, hvalue, hval⟩ :=
      word_in_range hspan hload hagrees (n * DYN_SIZE + 8) (by omega)
    have hvalue' : add64 (v + n * DYN_SIZE) 8 = v + (n * DYN_SIZE + 8) := by
      rw [← hvalue]
      unfold add64
      rw [Nat.add_assoc]
    unfold relaTable relaEntry
    rw [ih (by omega), show entryAt v DYN_SIZE n = v + n * DYN_SIZE from hentry, htag, hvalue',
      hval]

/-- The dynamic table of the file ends in the image. -/
theorem dynamicEnds_of_hasDynamic (hspan : SpanCovers phdrs lo limit) {n : Nat} {ph : Phdr}
    (h : HasDynamic file ehdr phdrs ph n)
    (hload : LoadedRange phdrs ph.vaddr ((n + 1) * DYN_SIZE))
    (hagrees : Agrees file phdrs lo image ph.vaddr ((n + 1) * DYN_SIZE)) :
    DynamicEnds lo limit image ph.vaddr n := by
  have hlast := dynEntry_le (show n < n + 1 by omega)
  refine ⟨fun k hk => ?_, ?_, ?_⟩
  · have hle := dynEntry_le (show k < n + 1 by omega)
    obtain ⟨hin, hentry, htag⟩ := word_in_range hspan hload hagrees (k * DYN_SIZE) (by omega)
    obtain ⟨hin', hvalue, -⟩ := word_in_range hspan hload hagrees (k * DYN_SIZE + 8) (by omega)
    have hvalue' : add64 (ph.vaddr + k * DYN_SIZE) 8 = ph.vaddr + (k * DYN_SIZE + 8) := by
      rw [← hvalue]
      unfold add64
      rw [Nat.add_assoc]
    rw [show entryAt ph.vaddr DYN_SIZE k = ph.vaddr + k * DYN_SIZE from hentry]
    refine ⟨hin, ?_, fun _ => by rw [hvalue']; exact hin'⟩
    rw [htag]
    exact h.notNull k hk
  · obtain ⟨hin, hentry, -⟩ := word_in_range hspan hload hagrees (n * DYN_SIZE) (by omega)
    rw [show entryAt ph.vaddr DYN_SIZE n = ph.vaddr + n * DYN_SIZE from hentry]
    exact hin
  · obtain ⟨-, hentry, htag⟩ := word_in_range hspan hload hagrees (n * DYN_SIZE) (by omega)
    rw [show entryAt ph.vaddr DYN_SIZE n = ph.vaddr + n * DYN_SIZE from hentry, htag]
    exact h.null

end Dynamic

/-! ### Relocations -/

/-- The image after the first `i` relocations: bytes that none of them has touched are the
file's, and their targets hold their values. -/
structure Relocated (file : List UInt8) (ehdr : Ehdr) (phdrs : List Phdr) (ph : Phdr)
    (n lo loadBias i : Nat) (image : Image) : Prop where
  bytes : ∀ v, lo ≤ v →
    (∀ j < i, ∀ t a, Relocation file ehdr phdrs ph n j t a → ¬ (t ≤ v ∧ v < t + 8)) →
    image (v - lo) = linkByte file phdrs v
  words : ∀ j < i, ∀ t a, Relocation file ehdr phdrs ph n j t a →
    leValue image (t - lo) 8 = add64 loadBias a

section Relocate

variable {ph : Phdr} {n loadBias : Nat}

/-- The relocation table is read as the file has it, since no target lies in it. -/
theorem Relocated.agrees {i : Nat} {image : Image}
    (h : Relocated file ehdr phdrs ph n lo loadBias i image) (hwf : WellFormed file ehdr phdrs)
    (hlo : lo ≤ relaBase file phdrs ph n) :
    Agrees file phdrs lo image (relaBase file phdrs ph n)
      (relaEntries file phdrs ph n * RELA_SIZE) := by
  intro k hk
  have hbyte := h.bytes (relaBase file phdrs ph n + k) (by omega) fun j _ t a hrel hin => by
    have hapart := (hwf.apart _ _ _ _ _ hrel).2
    unfold Apart at hapart
    omega
  rw [← hbyte]
  congr 1
  omega

/-- One relocation: it stays in the image, and the invariant goes on. -/
theorem relocated_step (hwf : WellFormed file ehdr phdrs) (htargets : TargetsApart file ehdr phdrs)
    (hspan : SpanCovers phdrs lo limit) (htable : HasDynamic file ehdr phdrs ph n)
    {i : Nat} (hi : i < relaEntries file phdrs ph n) {image : Image}
    (h : Relocated file ehdr phdrs ph n lo loadBias i image) :
    EntryFits lo limit image (relaBase file phdrs ph n + i * RELA_SIZE) ∧
      Relocated file ehdr phdrs ph n lo loadBias (i + 1)
        (image.relocated lo loadBias (relaBase file phdrs ph n + i * RELA_SIZE)) := by
  have hload := hwf.table ph n htable
  have hle : i * RELA_SIZE + 24 ≤ relaEntries file phdrs ph n * RELA_SIZE := by
    unfold RELA_SIZE
    omega
  obtain ⟨-, hlo, hU⟩ := inside_of_loaded hspan (by omega) hload
  have hagrees := h.agrees hwf hlo
  obtain ⟨hinE, -, hoffset⟩ := word_in_range hspan hload hagrees (i * RELA_SIZE) (by omega)
  obtain ⟨hinI, -, hinfo⟩ := word_in_range hspan hload hagrees (i * RELA_SIZE + 8) (by omega)
  obtain ⟨hinA, -, haddend⟩ := word_in_range hspan hload hagrees (i * RELA_SIZE + 16) (by omega)
  rw [← Nat.add_assoc] at hinI hinfo hinA haddend
  generalize he : relaBase file phdrs ph n + i * RELA_SIZE = e at *
  have hadd8 : add64 e 8 = e + 8 := add64_eq (by omega)
  have hadd16 : add64 e 16 = e + 16 := add64_eq (by omega)
  have hrel : IsRelative image lo e ↔ IsRelative (linkByte file phdrs) 0 e := by
    unfold IsRelative
    rw [hadd8, hinfo]
  by_cases hR : IsRelative (linkByte file phdrs) 0 e
  · -- the entry is applied
    have hthis : Relocation file ehdr phdrs ph n i (Image.word (linkByte file phdrs) 0 e)
        (Image.word (linkByte file phdrs) 0 (e + 16)) :=
      ⟨htable, hi, by rw [he]; exact hR, by rw [he], by rw [he]⟩
    have htload := hwf.target _ _ _ _ _ hthis
    obtain ⟨htin, htlo, -⟩ := inside_of_loaded hspan (by omega) htload
    have huniq : ∀ t a, Relocation file ehdr phdrs ph n i t a →
        t = Image.word (linkByte file phdrs) 0 e ∧
          a = Image.word (linkByte file phdrs) 0 (e + 16) := by
      intro t a ht
      have h₁ := ht.target_eq
      have h₂ := ht.addend_eq
      rw [he] at h₁ h₂
      exact ⟨h₁.symm, h₂.symm⟩
    have himage : image.relocated lo loadBias e =
        leStore image (Image.word (linkByte file phdrs) 0 e - lo) 8
          (add64 loadBias (Image.word (linkByte file phdrs) 0 (e + 16))) := by
      unfold Image.relocated
      rw [if_pos (hrel.mpr hR), hoffset, hadd16, haddend, offsetOf_eq htlo]
    refine ⟨⟨by rw [hadd8]; exact hinI, fun _ => hinE, fun _ => by rw [hadd16]; exact hinA,
      fun _ => by rw [hoffset]; exact htin⟩, ?_⟩
    rw [himage]
    generalize Image.word (linkByte file phdrs) 0 e = t₀ at *
    generalize Image.word (linkByte file phdrs) 0 (e + 16) = a₀ at *
    refine ⟨fun v hv hout => ?_, fun j hj t a ht => ?_⟩
    · have hv₀ := hout i (by omega) t₀ a₀ hthis
      rw [leStore_outside (by omega)]
      exact h.bytes v hv fun j hj => hout j (by omega)
    · rcases Nat.lt_succ_iff_lt_or_eq.mp hj with hj | rfl
      · -- an earlier target is elsewhere
        have hapart := htargets _ _ _ _ _ _ _ _ ht hthis (by omega)
        have htlo' := (inside_of_loaded hspan (by omega) (hwf.target _ _ _ _ _ ht)).2.1
        rw [← h.words j hj t a ht]
        apply leValue_congr
        intro k hk
        unfold Apart at hapart
        exact leStore_outside (by omega)
      · obtain ⟨rfl, rfl⟩ := huniq t a ht
        rw [leValue_leStore]
        have hlt := add64_lt loadBias a
        rw [U64_eq] at hlt
        exact Nat.mod_eq_of_lt hlt
  · have himage : image.relocated lo loadBias e = image := if_neg (hrel.not.mpr hR)
    have hnot : ¬ IsRelative image lo e := hrel.not.mpr hR
    refine ⟨⟨by rw [hadd8]; exact hinI, fun h => absurd h hnot, fun h => absurd h hnot,
      fun h => absurd h hnot⟩, ?_⟩
    rw [himage]
    refine ⟨fun v hv hout => h.bytes v hv fun j hj => hout j (by omega), fun j hj t a ht => ?_⟩
    rcases Nat.lt_succ_iff_lt_or_eq.mp hj with hj | rfl
    · exact h.words j hj t a ht
    · have hbad := ht.relative
      rw [he] at hbad
      exact absurd hbad hR

/-- The whole loop, by induction on the entries that are left. -/
theorem relocated_run (hwf : WellFormed file ehdr phdrs) (htargets : TargetsApart file ehdr phdrs)
    (hspan : SpanCovers phdrs lo limit) (htable : HasDynamic file ehdr phdrs ph n) :
    ∀ count i image, i + count = relaEntries file phdrs ph n →
      Relocated file ehdr phdrs ph n lo loadBias i image →
      RelocationsFit lo limit loadBias count (relaBase file phdrs ph n + i * RELA_SIZE) image ∧
        Relocated file ehdr phdrs ph n lo loadBias (relaEntries file phdrs ph n)
          (relocatedImage lo loadBias count (relaBase file phdrs ph n + i * RELA_SIZE) image) := by
  intro count
  induction count with
  | zero =>
    intro i image hi h
    rw [Nat.add_zero] at hi
    subst hi
    exact ⟨trivial, h⟩
  | succ count ih =>
    intro i image hi h
    obtain ⟨hfits, hnext⟩ := relocated_step hwf htargets hspan htable (by omega) h
    have hrest := ih (i + 1) _ (by omega) hnext
    have hadd : add64 (relaBase file phdrs ph n + i * RELA_SIZE) RELA_SIZE =
        relaBase file phdrs ph n + (i + 1) * RELA_SIZE := by
      have hload := hwf.table ph n htable
      have hle : (i + 1) * RELA_SIZE ≤ relaEntries file phdrs ph n * RELA_SIZE :=
        Nat.mul_le_mul_right _ (by omega)
      rw [Nat.add_mul, Nat.one_mul] at hle ⊢
      have hpos : 0 < relaEntries file phdrs ph n * RELA_SIZE := by
        unfold RELA_SIZE at *
        omega
      obtain ⟨-, -, hU⟩ := inside_of_loaded hspan hpos hload
      rw [add64_eq (by omega), Nat.add_assoc]
    unfold RelocationsFit relocatedImage
    rw [hadd]
    exact ⟨⟨hfits, hrest.1⟩, hrest.2⟩

end Relocate

end Image

/-! ### The filled image -/

/-- A file has one dynamic table. -/
theorem hasDynamic_unique {file : List UInt8} {ehdr : Ehdr} {phdrs : List Phdr} {ph ph' : Phdr}
    {n n' : Nat} (h : HasDynamic file ehdr phdrs ph n) (h' : HasDynamic file ehdr phdrs ph' n') :
    ph = ph' ∧ n = n' := by
  have hph : ph = ph' := Option.some.inj (h.first.symm.trans h'.first)
  subst hph
  refine ⟨rfl, ?_⟩
  rcases Nat.lt_trichotomy n n' with hlt | heq | hgt
  · exact absurd h.null (h'.notNull n hlt)
  · exact heq
  · exact absurd h'.null (h.notNull n' hgt)

/-- The memory has the image of the file, relocated by `loadBias`. -/
structure Filled (file : List UInt8) (ehdr : Ehdr) (phdrs : List Phdr) (place : Place)
    (lo loadBias : Nat) (mem : Mem) : Prop where
  bytes : ∀ o < place.limit,
    (∀ ph n i t a, Relocation file ehdr phdrs ph n i t a → ¬ (t ≤ lo + o ∧ lo + o < t + 8)) →
    mem (place.writeBase + o) = linkByte file phdrs (lo + o)
  words : ∀ ph n i t a, Relocation file ehdr phdrs ph n i t a →
    leValue mem (place.writeBase + (t - lo)) 8 = add64 loadBias a

/-- Steps 8 and 9 fill the image of a well-formed file. -/
theorem fillImage_spec {file : List UInt8} {ehdr : Ehdr} {span : Span} {place : Place}
    (hspan : computeSpan file ehdr (parsePhdrs file ehdr) = .ok span)
    (hwf : WellFormed file ehdr (parsePhdrs file ehdr))
    (htargets : TargetsApart file ehdr (parsePhdrs file ehdr)) (hp : Sound place)
    (hcovers : SpanCovers (parsePhdrs file ehdr) span.vaddrMin place.limit) :
    ∃ mem, fillImage file ehdr (parsePhdrs file ehdr) span place = .ok mem ∧
      Filled file ehdr (parsePhdrs file ehdr) place span.vaddrMin (place.loadBias span) mem := by
  obtain ⟨hlo, -, hsegments⟩ := computeSpan_spec.2 span hspan
  have hv := parsePhdrs_vaddr_lt file ehdr
  generalize parsePhdrs file ehdr = phdrs at *
  have hsizes : ∀ ph ∈ phdrs, ph.type = PT_LOAD →
      ph.filesz ≤ ph.memsz ∧ span.vaddrMin ≤ ph.vaddr := fun ph hph hload =>
    ⟨(hwf.sizes ph hph hload).1, (hsegments ph hph hload).2.1⟩
  have hsegment : ∀ o, segmentImage file span.vaddrMin phdrs o =
      linkByte file phdrs (span.vaddrMin + o) := fun o => segmentImage_eq o hsizes hwf.disjoint
  have hfits : ∀ ph ∈ phdrs, ph.type = PT_LOAD → 0 < max ph.filesz ph.memsz →
      Inside span.vaddrMin place.limit ph.vaddr (max ph.filesz ph.memsz) := by
    intro ph hph hload hpos
    have hle := (hsizes ph hph hload).1
    refine (inside_of_loaded hcovers hpos fun i hi => ⟨ph, hph, hload, ?_⟩).1
    omega
  obtain ⟨mem, hmem, hshows⟩ := (copySegments_spec hp hlo phdrs (fun _ => 0) (fun _ => 0) hv
    (fun ph hph htype => (hsegments ph hph htype).1) fun _ _ => rfl).2 hfits
  change Shows place mem (segmentImage file span.vaddrMin phdrs) at hshows
  unfold fillImage
  rw [show place.writeBias span = sub64 place.writeBase span.vaddrMin from rfl, hmem, ok_bind]
  -- without a relocation, the segments are the image
  have hplain : (∀ ph n i t a, ¬ Relocation file ehdr phdrs ph n i t a) →
      Filled file ehdr phdrs place span.vaddrMin (place.loadBias span) mem := fun hnone =>
    ⟨fun o ho _ => (hshows o ho).trans (hsegment o),
      fun ph n i t a h => absurd h (hnone ph n i t a)⟩
  by_cases hdyn : ehdr.type = ET_DYN
  · rw [if_pos hdyn]
    cases hfind : phdrs.find? (fun ph => decide (ph.type = PT_DYNAMIC)) with
    | none =>
      refine ⟨mem, ?_, hplain fun ph n i t a h => ?_⟩
      · simp only [relocate, hfind]
        rfl
      · rw [h.table.first] at hfind
        cases hfind
    | some ph =>
      obtain ⟨n, htable, hload⟩ := hwf.dynamic hdyn ph hfind
      have hagrees : Agrees file phdrs span.vaddrMin
          (segmentImage file span.vaddrMin phdrs) ph.vaddr ((n + 1) * DYN_SIZE) := by
        intro i hi
        obtain ⟨hge, -, -⟩ := hcovers _ (hload 0 (by omega))
        rw [hsegment]
        congr 1
        omega
      have hends := dynamicEnds_of_hasDynamic hcovers htable hload hagrees
      have htab := relaTable_eq hcovers hload hagrees
        (show n * DYN_SIZE ≤ (n + 1) * DYN_SIZE from Nat.mul_le_mul_right _ (by omega))
      have hinit : Relocated file ehdr phdrs ph n span.vaddrMin (place.loadBias span) 0
          (segmentImage file span.vaddrMin phdrs) := by
        refine ⟨fun v hge _ => ?_, fun j hj => absurd hj (by omega)⟩
        rw [hsegment]
        congr 1
        omega
      obtain ⟨hrun, hfinal⟩ := relocated_run hwf htargets hcovers htable _ 0 _
        (Nat.zero_add _) hinit
      rw [Nat.zero_mul, Nat.add_zero] at hrun hfinal
      obtain ⟨mem', hmem', hshows'⟩ := relocate_result hp hlo hv hshows hfind hends
        (by rw [htab]; exact hrun)
      rw [htab] at hshows'
      refine ⟨mem', hmem', ⟨fun o ho hout => ?_, fun ph' n' i t a h => ?_⟩⟩
      · rw [hshows' o ho]
        have hbyte := hfinal.bytes (span.vaddrMin + o) (by omega) fun j _ t a h =>
          hout ph n j t a h
        rwa [Nat.add_sub_cancel_left] at hbyte
      · obtain ⟨rfl, rfl⟩ := hasDynamic_unique htable h.table
        obtain ⟨hin, hge, -⟩ := inside_of_loaded hcovers (by decide) (hwf.target _ _ _ _ _ h)
        unfold Inside at hin
        rw [offsetOf_eq hge] at hin
        rw [← hfinal.words i h.entry t a h]
        apply leValue_congr
        intro k hk
        rw [Nat.add_assoc]
        exact hshows' _ (by omega)
  · rw [if_neg hdyn]
    exact ⟨mem, rfl, hplain fun ph n i t a h => hdyn h.table.dyn⟩

/-! ### The address of the program headers -/

/-- The segment has the program header table, as the loop of the span asks. -/
def CoversTable (ehdr : Ehdr) (ph : Phdr) : Prop :=
  ph.offset ≤ ehdr.phoff ∧
    add64 ehdr.phoff (ehdr.phnum * PHDR_SIZE) ≤ add64 ph.offset ph.filesz

/-- One program header: the span keeps it when it has the table. -/
theorem spanAdd_phdrSegment {fileSize : Nat} {ehdr : Ehdr} {span t : Span} {ph : Phdr}
    (h : span.add fileSize ehdr ph = .ok t) :
    (ph.type = PT_LOAD ∧ CoversTable ehdr ph ∧ t.phdrSegment = some ph) ∨
      ((ph.type = PT_LOAD → ¬ CoversTable ehdr ph) ∧ t.phdrSegment = span.phdrSegment) := by
  unfold Span.add at h
  replace h := (require_bind_eq_ok h).2
  simp only [] at h
  split at h
  · rename_i htype
    cases h
    right
    refine ⟨fun h => absurd h htype, ?_⟩
    split <;> rfl
  · rename_i htype
    have hload : ph.type = PT_LOAD := by
      by_contra h
      exact htype h
    replace h := (require_bind_eq_ok h).2
    cases h
    by_cases hcovers : CoversTable ehdr ph
    · exact .inl ⟨hload, hcovers, if_pos hcovers⟩
    · refine .inr ⟨fun _ => hcovers, (if_neg hcovers).trans ?_⟩
      split <;> rfl

/-- The segment that the span keeps has the table, and when it keeps none, no segment has it.
By induction on the program headers. -/
theorem phdrSegment_spec {fileSize : Nat} {ehdr : Ehdr} : ∀ (phdrs : List Phdr) (span t : Span),
    phdrs.foldlM (Span.add fileSize ehdr) span = .ok t →
    (∀ ph, t.phdrSegment = some ph → span.phdrSegment = some ph ∨
      ph ∈ phdrs ∧ ph.type = PT_LOAD ∧ CoversTable ehdr ph) ∧
    (t.phdrSegment = none → span.phdrSegment = none ∧
      ∀ ph ∈ phdrs, ph.type = PT_LOAD → ¬ CoversTable ehdr ph) := by
  intro phdrs
  induction phdrs with
  | nil =>
    intro span t h
    cases h
    exact ⟨fun ph h => .inl h, fun h => ⟨h, fun ph hph => by simp at hph⟩⟩
  | cons ph phdrs ih =>
    intro span t h
    rw [List.foldlM_cons] at h
    cases hadd : span.add fileSize ehdr ph with
    | error e =>
      rw [hadd] at h
      cases h
    | ok mid =>
      rw [hadd, ok_bind] at h
      obtain ⟨hsome, hnone⟩ := ih mid t h
      obtain ⟨hload, hcovers, hmid⟩ | ⟨hnot, hmid⟩ := spanAdd_phdrSegment hadd
      · refine ⟨fun ph' h' => ?_, fun h' => ?_⟩
        · obtain hold | ⟨hmem, hrest⟩ := hsome ph' h'
          · rw [hmid] at hold
            cases hold
            exact .inr ⟨List.mem_cons_self .., hload, hcovers⟩
          · exact .inr ⟨List.mem_cons_of_mem _ hmem, hrest⟩
        · rw [hmid] at hnone
          exact absurd (hnone h').1 (by simp)
      · rw [hmid] at hsome hnone
        refine ⟨fun ph' h' => ?_, fun h' => ?_⟩
        · obtain hold | ⟨hmem, hrest⟩ := hsome ph' h'
          · exact .inl hold
          · exact .inr ⟨List.mem_cons_of_mem _ hmem, hrest⟩
        · obtain ⟨hold, hrest⟩ := hnone h'
          exact ⟨hold, List.forall_mem_cons.mpr ⟨hnot, hrest⟩⟩

/-- The segment that the span of an accepted file keeps, by its offsets in the file. -/
theorem computeSpan_phdrSegment {file : List UInt8} {ehdr : Ehdr} {phdrs : List Phdr} {span : Span}
    (hspan : computeSpan file ehdr phdrs = .ok span) (hfile : file.length < U64)
    (htable : ehdr.phoff + ehdr.phnum * PHDR_SIZE ≤ file.length) :
    (∀ ph, span.phdrSegment = some ph → ph ∈ phdrs ∧ ph.type = PT_LOAD ∧
      ph.offset ≤ ehdr.phoff ∧
      ehdr.phoff + ehdr.phnum * PHDR_SIZE ≤ ph.offset + ph.filesz) ∧
    (span.phdrSegment = none → ∀ ph ∈ phdrs, ph.type = PT_LOAD →
      ¬ (ph.offset ≤ ehdr.phoff ∧
        ehdr.phoff + ehdr.phnum * PHDR_SIZE ≤ ph.offset + ph.filesz)) := by
  obtain ⟨-, -, hsegments⟩ := computeSpan_spec.2 span hspan
  have hcovers : ∀ ph ∈ phdrs, ph.type = PT_LOAD → (CoversTable ehdr ph ↔
      ph.offset ≤ ehdr.phoff ∧
        ehdr.phoff + ehdr.phnum * PHDR_SIZE ≤ ph.offset + ph.filesz) := by
    intro ph hph hload
    have hrange := (hsegments ph hph hload).1
    unfold CoversTable
    rw [add64_eq (by omega), add64_eq (by omega)]
  have hfold : phdrs.foldlM (Span.add file.length ehdr) {} = .ok span := by
    unfold computeSpan at hspan
    cases hfold : phdrs.foldlM (Span.add file.length ehdr) {} with
    | error e =>
      rw [hfold] at hspan
      cases hspan
    | ok t =>
      rw [hfold, ok_bind] at hspan
      have hret := (require_bind_eq_ok hspan).2
      cases hret
      rfl
  obtain ⟨hsome, hnone⟩ := phdrSegment_spec phdrs {} span hfold
  refine ⟨fun ph h => ?_, fun h ph hph hload hrange => ?_⟩
  · obtain hold | ⟨hmem, hload, htab⟩ := hsome ph h
    · cases hold
    · exact ⟨hmem, hload, (hcovers ph hmem hload).mp htab⟩
  · exact (hnone h).2 ph hph hload ((hcovers ph hph hload).mpr hrange)

/-- `phdr_addr` is a link-time address of the table plus the bias. -/
theorem phdrAddr_spec {file : List UInt8} {ehdr : Ehdr} {phdrs : List Phdr} {span : Span}
    (hspan : computeSpan file ehdr phdrs = .ok span) (hfile : file.length < U64)
    (htable : ehdr.phoff + ehdr.phnum * PHDR_SIZE ≤ file.length)
    (hsizes : ∀ ph ∈ phdrs, ph.type = PT_LOAD →
      ph.filesz ≤ ph.memsz ∧ ph.vaddr + ph.memsz < U64) (bias : Nat) :
    ((∃ link, PhdrLink ehdr phdrs link) →
      ∃ link, PhdrLink ehdr phdrs link ∧ phdrAddr ehdr phdrs span bias = add64 link bias) ∧
    (∀ ph, phdrs.find? (fun ph => ph.type = PT_PHDR) = some ph → add64 ph.vaddr bias ≠ 0 →
      phdrAddr ehdr phdrs span bias = add64 ph.vaddr bias) := by
  obtain ⟨hsome, hnone⟩ := computeSpan_phdrSegment hspan hfile htable
  -- the address through the segment that has the table
  have hseg : ∀ ph, span.phdrSegment = some ph →
      PhdrLink ehdr phdrs (ph.vaddr + (ehdr.phoff - ph.offset)) ∧
      add64 (add64 ph.vaddr (sub64 ehdr.phoff ph.offset)) bias =
        add64 (ph.vaddr + (ehdr.phoff - ph.offset)) bias := by
    intro ph h
    obtain ⟨hmem, hload, hoff, hend⟩ := hsome ph h
    obtain ⟨hsz, hwrap⟩ := hsizes ph hmem hload
    refine ⟨.inr ⟨ph, hmem, hload, hoff, hend, rfl⟩, ?_⟩
    rw [sub64_eq hoff, add64_eq (a := ph.vaddr) (by omega)]
  unfold phdrAddr
  cases hfind : phdrs.find? (fun ph => decide (ph.type = PT_PHDR)) with
  | some ph =>
    have hlink : PhdrLink ehdr phdrs ph.vaddr := .inl ⟨ph, hfind, rfl⟩
    cases hs : span.phdrSegment with
    | none => exact ⟨fun _ => ⟨_, hlink, rfl⟩, fun ph' h _ => by cases h; rfl⟩
    | some seg =>
      obtain ⟨hsegLink, hsegEq⟩ := hseg seg hs
      simp only []
      by_cases hzero : add64 ph.vaddr bias = 0
      · rw [if_pos hzero]
        refine ⟨fun _ => ⟨_, hsegLink, hsegEq⟩, fun ph' h hne => ?_⟩
        cases h
        exact absurd hzero hne
      · rw [if_neg hzero]
        exact ⟨fun _ => ⟨_, hlink, rfl⟩, fun ph' h _ => by cases h; rfl⟩
  | none =>
    refine ⟨fun hex => ?_, fun ph' h => by cases h⟩
    cases hs : span.phdrSegment with
    | none =>
      -- then the table has no link-time address
      obtain ⟨link, ⟨ph, h, -⟩ | ⟨ph, hmem, hload, hoff, hend, -⟩⟩ := hex
      · rw [hfind] at h
        cases h
      · exact absurd ⟨hoff, hend⟩ (hnone hs ph hmem hload)
    | some seg =>
      obtain ⟨hsegLink, hsegEq⟩ := hseg seg hs
      exact ⟨_, hsegLink, hsegEq⟩

/-! ### The whole load -/

/-- The image was allocated in full: it is not empty, all of its bytes are its own, and its
addresses do not wrap. -/
structure FullPlace (place : Place) : Prop where
  sound : Sound place
  nonempty : 0 < place.imageSize
  full : place.imageSize ≤ place.limit
  runtime : place.runtimeBase + place.imageSize ≤ U64

/-- The load of `file` gets as far as the allocation, which gives `place`. -/
structure Placed (file : List UInt8) (alloc : Allocators) (preferredBase : Option Nat)
    (ehdr : Ehdr) (span : Span) (place : Place) : Prop where
  accepted : checkHeader file = .ok ehdr
  spanned : computeSpan file ehdr (parsePhdrs file ehdr) = .ok span
  chosen : choosePlace alloc preferredBase span = some place
  full : FullPlace place

/-- The chosen place has the size of the span. -/
theorem choosePlace_imageSize {alloc : Allocators} {preferredBase : Option Nat} {span : Span}
    {place : Place} (h : choosePlace alloc preferredBase span = some place) :
    place.imageSize = span.imageSize ∧ place.limit ≤ span.imageSize := by
  unfold choosePlace at h
  cases preferredBase with
  | some base =>
    simp only [] at h
    split at h
    · cases h
    · cases h
      exact ⟨rfl, Nat.min_le_left _ _⟩
  | none =>
    simp only [] at h
    split at h
    · cases h
      exact ⟨rfl, Nat.le_refl _⟩
    · split at h
      · cases h
      · cases h
        exact ⟨rfl, Nat.min_le_left _ _⟩

/-- An address of the image as the program sees it. -/
theorem runtime_address {base size lo v : Nat} (hbase : base + size ≤ U64) (hge : lo ≤ v)
    (hlt : v - lo < size) (hv : v < U64) :
    add64 v (sub64 base lo) = base + (v - lo) := by
  unfold sub64
  split
  · rw [add64_eq (by omega)]
    omega
  · unfold add64
    rw [show v + (U64 - (lo - base)) = base + (v - lo) + U64 by omega, Nat.add_mod_right,
      Nat.mod_eq_of_lt (by omega)]

/-- A well-formed file is loaded, and the image is right: every loaded byte, every relocated
word, the entry point and the address of the program headers. -/
theorem load_correct_at {file : List UInt8} {alloc : Allocators} {preferredBase : Option Nat}
    {ehdr : Ehdr} {span : Span} {place : Place} (hfile : file.length < U64)
    (h : Placed file alloc preferredBase ehdr span place)
    (hwf : WellFormed file ehdr (parsePhdrs file ehdr))
    (htargets : TargetsApart file ehdr (parsePhdrs file ehdr)) :
    ∃ l, loadImpl file alloc preferredBase = .ok l ∧ l.place = place ∧ l.span = span ∧
      l.result.imageSize = span.imageSize ∧
      Filled file ehdr (parsePhdrs file ehdr) place span.vaddrMin (place.loadBias span) l.mem ∧
      LoadCorrect file ehdr (parsePhdrs file ehdr) l := by
  obtain ⟨himage, hlimit⟩ := choosePlace_imageSize h.chosen
  have hpos := h.full.nonempty
  have hfull := h.full.full
  have hrun := h.full.runtime
  rw [himage] at hpos hfull hrun
  have hcovers : SpanCovers (parsePhdrs file ehdr) span.vaddrMin place.limit :=
    spanCovers_of_wellFormed h.spanned hwf hpos hfull
  obtain ⟨mem, hfill, hfilled⟩ := fillImage_spec h.spanned hwf htargets h.full.sound hcovers
  have hplaced := (placeImage_spec h.chosen).2 fun _ => h.full.full
  have hload : loadImpl file alloc preferredBase =
      .ok ⟨loadResult ehdr (parsePhdrs file ehdr) span place, place, span, mem⟩ := by
    unfold loadImpl
    rw [h.accepted, ok_bind, readPhdrs_of_checkHeader h.accepted, ok_bind, h.spanned, ok_bind,
      hplaced,
      ok_bind, hfill, ok_bind]
    rfl
  refine ⟨_, hload, rfl, rfl, himage, hfilled, ?_⟩
  -- where the program sees an address of the image
  have hsees : ∀ v, LoadedAddress (parsePhdrs file ehdr) v →
      add64 v (place.loadBias span) = place.runtimeBase + (v - span.vaddrMin) ∧
        span.vaddrMin ≤ v ∧ v - span.vaddrMin < place.limit := by
    intro v hv
    obtain ⟨hge, hlt, hU⟩ := hcovers v hv
    exact ⟨runtime_address hrun hge (by omega) (by omega), hge, by omega⟩
  obtain ⟨-, htable⟩ := checkHeader_ok h.accepted
  obtain ⟨hphdr, hptPhdr⟩ := phdrAddr_spec h.spanned hfile htable hwf.sizes (place.loadBias span)
  refine ⟨fun v hv hout => ?_, fun ph n i t a hrel => ?_, rfl, hphdr, hptPhdr⟩
  · obtain ⟨haddr, hge, hlt⟩ := hsees v hv
    show mem (place.writeBase + sub64 (add64 v (place.loadBias span)) place.runtimeBase) = _
    rw [haddr, sub64_eq (Nat.le_add_right _ _), Nat.add_sub_cancel_left]
    have hbyte := hfilled.bytes (v - span.vaddrMin) hlt
    rw [Nat.add_sub_cancel' hge] at hbyte
    exact hbyte hout
  · obtain ⟨haddr, hge, -⟩ := hsees t (hwf.target _ _ _ _ _ hrel 0 (by decide))
    show leValue (fun a => mem (place.writeBase + sub64 a place.runtimeBase))
      (add64 t (place.loadBias span)) 8 = add64 (place.loadBias span) a
    rw [haddr, ← hfilled.words ph n i t a hrel]
    apply leValue_congr
    intro k _
    rw [sub64_eq (by omega)]
    congr 1
    omega

/-- Removing the bias from a sum with it. -/
theorem sub64_add64 {bias a : Nat} (hbias : bias < U64) (ha : a < U64) :
    sub64 (add64 a bias) bias = a := by
  unfold sub64 add64
  rcases Nat.lt_or_ge (a + bias) U64 with hlt | hge
  · rw [Nat.mod_eq_of_lt hlt, if_pos (by omega)]
    omega
  · rw [Nat.mod_eq_sub_mod hge, Nat.mod_eq_of_lt (by omega), if_neg (by omega)]
    omega

theorem add64_comm (a b : Nat) : add64 a b = add64 b a := by
  unfold add64
  rw [Nat.add_comm]

/-- A bias is a `u64`. -/
theorem bias_lt {place : Place} (h : FullPlace place) (span : Span) :
    place.loadBias span < U64 := by
  have hrun := h.runtime
  have hpos := h.nonempty
  exact sub64_lt _ (by omega)

/-- Two loads of a well-formed file whose relocation targets do not overlap, into an address
space or into the heap: both succeed with the right image, entry point and address of the
program headers, and the images are the same but for the bias. -/
theorem loads_correct {file : List UInt8} (hfile : file.length < U64)
    {alloc alloc' : Allocators} {preferredBase preferredBase' : Option Nat} {ehdr : Ehdr}
    {span : Span} {place place' : Place}
    (h : Placed file alloc preferredBase ehdr span place)
    (h' : Placed file alloc' preferredBase' ehdr span place')
    (hwf : WellFormed file ehdr (parsePhdrs file ehdr))
    (htargets : TargetsApart file ehdr (parsePhdrs file ehdr)) :
    ∃ l l', loadImpl file alloc preferredBase = .ok l ∧
      loadImpl file alloc' preferredBase' = .ok l' ∧
      LoadCorrect file ehdr (parsePhdrs file ehdr) l ∧
      LoadCorrect file ehdr (parsePhdrs file ehdr) l' ∧
      SameButBias file ehdr (parsePhdrs file ehdr) l l' := by
  obtain ⟨l, hl, hlp, hls, hsize, hfilled, hcorrect⟩ := load_correct_at hfile h hwf htargets
  obtain ⟨l', hl', hlp', hls', hsize', hfilled', hcorrect'⟩ :=
    load_correct_at hfile h' hwf htargets
  have hbias : l.bias < U64 := by
    rw [Loaded.bias, hlp]
    exact bias_lt h.full _
  have hbias' : l'.bias < U64 := by
    rw [Loaded.bias, hlp']
    exact bias_lt h'.full _
  refine ⟨l, l', hl, hl', hcorrect, hcorrect', ⟨by rw [hsize, hsize'], ?_, ?_, ?_⟩⟩
  · -- Outside the relocated words both images hold the bytes of the file.
    intro o ho hout
    have hfull := h.full.full
    have hfull' := h'.full.full
    rw [(choosePlace_imageSize h.chosen).1] at hfull
    rw [(choosePlace_imageSize h'.chosen).1] at hfull'
    rw [hsize] at ho
    rw [hls] at hout
    rw [hlp, hlp', hfilled.bytes o (by omega) hout, hfilled'.bytes o (by omega) hout]
  · -- A relocated word is the addend plus the bias, for either bias.
    intro ph n i t a hrel
    have ha : a < U64 := by
      rw [← hrel.addend_eq]
      exact word_lt _ _ _
    rw [hcorrect.words ph n i t a hrel, hcorrect'.words ph n i t a hrel, add64_comm,
      sub64_add64 hbias ha, add64_comm, sub64_add64 hbias' ha]
  · -- The entry point, with the bias taken off.
    have hentry : ehdr.entry < U64 := by
      rw [(checkHeader_ok h.accepted).1, U64_eq]
      exact leValue_lt _ _ 8
    rw [hcorrect.entry, hcorrect'.entry, sub64_add64 hbias hentry, sub64_add64 hbias' hentry]

/-! ### A small position-independent file -/

/-- The program headers of the file: one segment for all of it, and its dynamic table. -/
def piePhdrs : List Phdr :=
  [⟨PT_LOAD, 0, 0, 288, 288, 4096⟩, ⟨PT_DYNAMIC, 176, 176, 48, 48, 8⟩]

/-- A file of 288 bytes: headers, a dynamic table at 176, a table of two relocations at 224 and
two words of data at 272. The relocations are of the words at `t₀` and `t₁`, with the addends
1 and 2. -/
def pieElf (t₀ t₁ : Nat) : List UInt8 :=
  encodeElf ET_DYN piePhdrs ++
    leBytes 8 DT_RELA ++ leBytes 8 224 ++ leBytes 8 DT_RELASZ ++ leBytes 8 48 ++
    leBytes 8 DT_NULL ++ leBytes 8 0 ++
    leBytes 8 t₀ ++ leBytes 8 R_X86_64_RELATIVE ++ leBytes 8 1 ++
    leBytes 8 t₁ ++ leBytes 8 R_X86_64_RELATIVE ++ leBytes 8 2 ++
    leBytes 8 0 ++ leBytes 8 0

/-- What the tables of such a file say. -/
structure PieTables (file : List UInt8) (t₀ t₁ : Nat) : Prop where
  phdrs : parsePhdrs file (parseEhdr file) = piePhdrs
  type : (parseEhdr file).type = ET_DYN
  tag₀ : Image.word (linkByte file piePhdrs) 0 176 ≠ DT_NULL
  tag₁ : Image.word (linkByte file piePhdrs) 0 192 ≠ DT_NULL
  tag₂ : Image.word (linkByte file piePhdrs) 0 208 = DT_NULL
  rela : relaTable (linkByte file piePhdrs) 0 176 2 = (224, 48)
  target₀ : Image.word (linkByte file piePhdrs) 0 224 = t₀
  target₁ : Image.word (linkByte file piePhdrs) 0 248 = t₁
  addend₀ : Image.word (linkByte file piePhdrs) 0 240 = 1
  addend₁ : Image.word (linkByte file piePhdrs) 0 264 = 2
  relative₀ : IsRelative (linkByte file piePhdrs) 0 224
  relative₁ : IsRelative (linkByte file piePhdrs) 0 248

section Pie

variable {file : List UInt8} {t₀ t₁ : Nat}

/-- The segment loads every address of the file. -/
theorem pie_loaded {v : Nat} (hv : v < 288) : LoadedAddress piePhdrs v :=
  ⟨_, List.mem_cons_self .., rfl, Nat.zero_le _, by simpa using hv⟩

theorem pie_loadedRange {v length : Nat} (h : v + length ≤ 288) : LoadedRange piePhdrs v length :=
  fun i hi => pie_loaded (by omega)

/-- The dynamic table of the file ends with its third entry. -/
theorem pie_hasDynamic (h : PieTables file t₀ t₁) :
    HasDynamic file (parseEhdr file) piePhdrs ⟨PT_DYNAMIC, 176, 176, 48, 48, 8⟩ 2 := by
  refine ⟨h.type, rfl, fun k hk => ?_, h.tag₂⟩
  rcases (show k = 0 ∨ k = 1 by omega) with rfl | rfl
  · exact h.tag₀
  · exact h.tag₁

/-- The two relocations of the file. -/
theorem pie_relocation (h : PieTables file t₀ t₁) {ph : Phdr} {n i t a : Nat}
    (hrel : Relocation file (parseEhdr file) piePhdrs ph n i t a) :
    ph.vaddr = 176 ∧ n = 2 ∧ (i = 0 ∧ t = t₀ ∧ a = 1 ∨ i = 1 ∧ t = t₁ ∧ a = 2) := by
  obtain ⟨rfl, rfl⟩ := hasDynamic_unique (pie_hasDynamic h) hrel.table
  have hi := hrel.entry
  have ht := hrel.target_eq
  have ha := hrel.addend_eq
  simp only [relaEntries, relaBase, h.rela, relaCount, RELA_SIZE] at hi ht ha
  refine ⟨rfl, rfl, ?_⟩
  rcases (show i = 0 ∨ i = 1 by simp at hi; omega) with rfl | rfl
  · exact .inl ⟨rfl, ht.symm.trans h.target₀, ha.symm.trans h.addend₀⟩
  · exact .inr ⟨rfl, ht.symm.trans h.target₁, ha.symm.trans h.addend₁⟩

/-- The file is well formed when its targets are the two words of data. -/
theorem pie_wellFormed (h : PieTables file t₀ t₁) (h₀ : 272 ≤ t₀ ∧ t₀ ≤ 280)
    (h₁ : 272 ≤ t₁ ∧ t₁ ≤ 280) : WellFormed file (parseEhdr file) piePhdrs := by
  have hU := U64_eq
  have hbase : ∀ ph n, HasDynamic file (parseEhdr file) piePhdrs ph n →
      relaBase file piePhdrs ph n = 224 ∧ relaEntries file piePhdrs ph n = 2 := by
    intro ph n hdyn
    obtain ⟨rfl, rfl⟩ := hasDynamic_unique (pie_hasDynamic h) hdyn
    simp [relaBase, relaEntries, h.rela, relaCount, RELA_SIZE]
  refine ⟨?_, ?_, ?_, ?_, ?_, ?_⟩
  · intro ph hph hload
    simp only [piePhdrs, List.mem_cons, List.not_mem_nil, or_false] at hph
    rcases hph with rfl | rfl
    · exact ⟨Nat.le_refl _, by rw [hU]; decide⟩
    · exact absurd hload (by decide)
  · refine List.pairwise_pair.mpr fun v hv => ?_
    exact absurd hv.2.1 (by decide)
  · intro _ ph hph
    cases hph
    exact ⟨2, pie_hasDynamic h, pie_loadedRange (by decide)⟩
  · intro ph n hdyn
    rw [(hbase ph n hdyn).1, (hbase ph n hdyn).2]
    exact pie_loadedRange (by decide)
  · intro ph n i t a hrel
    obtain ⟨-, -, ⟨-, rfl, -⟩ | ⟨-, rfl, -⟩⟩ := pie_relocation h hrel
    · exact pie_loadedRange (by omega)
    · exact pie_loadedRange (by omega)
  · intro ph n i t a hrel
    rw [(hbase ph n hrel.table).1, (hbase ph n hrel.table).2]
    obtain ⟨hv, rfl, ht⟩ := pie_relocation h hrel
    rw [hv]
    unfold Apart DYN_SIZE RELA_SIZE
    omega

/-- The span and the place of the file in the heap and in an address space. -/
def pieSpan : Span := ⟨0, 288, 4096, 1, some ⟨PT_LOAD, 0, 0, 288, 288, 4096⟩, none⟩

def heapPlace : Place := ⟨0x200000, 0x200000, 0x1000, 0x1000, false, false⟩

def userPlace : Place := ⟨0x400000000000, 0x100000, 0x1000, 0x1000, true, false⟩

theorem heapPlace_full : FullPlace heapPlace :=
  ⟨show 0x200000 + 0x1000 ≤ 2 ^ 63 by decide, by decide, by decide,
    show 0x200000 + 0x1000 ≤ U64 by rw [U64_eq]; decide⟩

theorem userPlace_full : FullPlace userPlace :=
  ⟨show 0x100000 + 0x1000 ≤ 2 ^ 63 by decide, by decide, by decide,
    show 0x400000000000 + 0x1000 ≤ U64 by rw [U64_eq]; decide⟩

/-- A load that succeeds with a property. -/
theorem exists_ok_of_any {α : Type} {x : Except Stop α} {p : α → Bool}
    (h : x.toOption.any p = true) : ∃ v, x = .ok v ∧ p v = true := by
  cases x with
  | error e => cases h
  | ok v => exact ⟨v, rfl, h⟩

/-- The file with two targets, loaded into an address space and into the heap. -/
theorem loads_correct_pie :
    ∃ l l', loadImpl (pieElf 272 280) fixedAllocators (some 0x400000000000) = .ok l ∧
      loadImpl (pieElf 272 280) fixedAllocators none = .ok l' ∧
      LoadCorrect (pieElf 272 280) (parseEhdr (pieElf 272 280))
        (parsePhdrs (pieElf 272 280) (parseEhdr (pieElf 272 280))) l ∧
      LoadCorrect (pieElf 272 280) (parseEhdr (pieElf 272 280))
        (parsePhdrs (pieElf 272 280) (parseEhdr (pieElf 272 280))) l' ∧
      SameButBias (pieElf 272 280) (parseEhdr (pieElf 272 280))
        (parsePhdrs (pieElf 272 280) (parseEhdr (pieElf 272 280))) l l' := by
  have htables : PieTables (pieElf 272 280) 272 280 := by
    constructor <;> with_unfolding_all decide
  have hU := U64_eq
  have huser : Placed (pieElf 272 280) fixedAllocators (some 0x400000000000)
      (parseEhdr (pieElf 272 280)) pieSpan userPlace :=
    ⟨by with_unfolding_all decide, by with_unfolding_all decide, by with_unfolding_all decide,
      userPlace_full⟩
  have hheap : Placed (pieElf 272 280) fixedAllocators none
      (parseEhdr (pieElf 272 280)) pieSpan heapPlace :=
    ⟨by with_unfolding_all decide, by with_unfolding_all decide, by with_unfolding_all decide,
      heapPlace_full⟩
  apply loads_correct (by rw [hU]; with_unfolding_all decide) huser hheap
  · rw [htables.phdrs]
    exact pie_wellFormed htables (by decide) (by decide)
  · rw [htables.phdrs]
    intro ph n i j t a t' a' hrel hrel' hne
    obtain ⟨-, -, hi⟩ := pie_relocation htables hrel
    obtain ⟨-, -, hj⟩ := pie_relocation htables hrel'
    unfold Apart
    omega

/-- The file whose two relocations are of one word. It is well formed, and after its load the
word does not hold the value of the first relocation. -/
theorem load_overlapping_targets :
    ∃ l, Placed (pieElf 272 272) fixedAllocators none (parseEhdr (pieElf 272 272)) pieSpan
        heapPlace ∧
      WellFormed (pieElf 272 272) (parseEhdr (pieElf 272 272)) piePhdrs ∧
      loadImpl (pieElf 272 272) fixedAllocators none = .ok l ∧
      Relocation (pieElf 272 272) (parseEhdr (pieElf 272 272)) piePhdrs
        ⟨PT_DYNAMIC, 176, 176, 48, 48, 8⟩ 2 0 272 1 ∧
      l.wordAt (add64 272 l.bias) ≠ add64 l.bias 1 := by
  have htables : PieTables (pieElf 272 272) 272 272 := by
    constructor <;> with_unfolding_all decide
  have hplaced : Placed (pieElf 272 272) fixedAllocators none (parseEhdr (pieElf 272 272))
      pieSpan heapPlace :=
    ⟨by with_unfolding_all decide, by with_unfolding_all decide, by with_unfolding_all decide,
      heapPlace_full⟩
  have hload : (loadImpl (pieElf 272 272) fixedAllocators none).toOption.any (fun l =>
      decide (l.wordAt (add64 272 l.bias) ≠ add64 l.bias 1)) = true := by with_unfolding_all decide
  obtain ⟨l, hl, hword⟩ := exists_ok_of_any hload
  have hrela : relaBase (pieElf 272 272) piePhdrs ⟨PT_DYNAMIC, 176, 176, 48, 48, 8⟩ 2 = 224 ∧
      relaEntries (pieElf 272 272) piePhdrs ⟨PT_DYNAMIC, 176, 176, 48, 48, 8⟩ 2 = 2 := by
    simp [relaBase, relaEntries, htables.rela, relaCount, RELA_SIZE]
  have hrel : Relocation (pieElf 272 272) (parseEhdr (pieElf 272 272)) piePhdrs
      ⟨PT_DYNAMIC, 176, 176, 48, 48, 8⟩ 2 0 272 1 := by
    refine ⟨pie_hasDynamic htables, ?_, ?_, ?_, ?_⟩
    · rw [hrela.2]
      decide
    · rw [hrela.1]
      exact htables.relative₀
    · rw [hrela.1]
      exact htables.target₀
    · rw [hrela.1]
      exact htables.addend₀
  exact ⟨l, hplaced, pie_wellFormed htables (by decide) (by decide), hl, hrel,
    of_decide_eq_true hword⟩

end Pie

end VKernel.Proofs.Loader

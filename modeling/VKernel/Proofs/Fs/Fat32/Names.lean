import VKernel.Proofs.Fs.Fat32.Slots
import Mathlib.Data.List.TakeDrop

/-!
# `VKernel.Proofs.Fs.Fat32.Names`: what the two encodings of a name keep

`ShortRepresentable` and `LongRepresentable` are the conditions on a name under which its encoding
can be read back. An 8.3 name has one case flag for its base and one for its extension, so neither
part may have letters of both cases, and a dot in front of an empty extension is lost. A long name
keeps its bytes as characters, but `decode_lfn_name` ends at a zero, replaces what is not ASCII and
has room for 255 of them.

`decodeShortName_encode_iff` and `collectLfnCharacters_encode_iff` say that the condition is
exact for either encoding.
-/

set_option autoImplicit false
set_option maxRecDepth 20000

namespace VKernel.Proofs.Fs

open VKernel.Lib VKernel.Fs VKernel.Fs.Fat32

/-- Whether a part of a name has a letter of upper case. -/
def componentHasUppercase (value : List UInt8) : Bool :=
  value.any fun ch => decide ('A'.toUInt8 ≤ ch ∧ ch ≤ 'Z'.toUInt8)

/-- A part of a name that one case flag can describe. -/
def UniformCase (value : List UInt8) : Prop :=
  ¬ (componentHasLowercase value ∧ componentHasUppercase value)

instance (value : List UInt8) : Decidable (UniformCase value) :=
  inferInstanceAs (Decidable (¬ (_ ∧ _)))

/-- An 8.3 name that its entry can carry. -/
def ShortRepresentable (name : List UInt8) : Prop :=
  UniformCase (splitNameForAlias name).1 ∧ UniformCase (splitNameForAlias name).2 ∧
    ((splitNameForAlias name).2 = [] → '.'.toUInt8 ∉ name)

instance (name : List UInt8) : Decidable (ShortRepresentable name) :=
  inferInstanceAs (Decidable (_ ∧ _ ∧ _))

/-- A name that its long-name slots can carry. -/
def LongRepresentable (name : List UInt8) : Prop :=
  name.length ≤ 255 ∧ ∀ ch ∈ name, 0 < ch ∧ ch < 0x80

instance (name : List UInt8) : Decidable (LongRepresentable name) :=
  inferInstanceAs (Decidable (_ ∧ _))

/-! ### Characters -/

/-- A property of a byte is a property of 256 numbers. -/
theorem forall_byte {P : UInt8 → Prop} (h : ∀ n < 256, P (UInt8.ofNat n)) (ch : UInt8) : P ch := by
  have hch := h ch.toNat ch.toNat_lt
  rwa [UInt8.ofNat_toNat] at hch

theorem asciiUpper_of_not_lower {ch : UInt8} (h : ¬ ('a'.toUInt8 ≤ ch ∧ ch ≤ 'z'.toUInt8)) :
    asciiUpper ch = ch := if_neg h

theorem asciiLower_asciiUpper (ch : UInt8) : asciiLower (asciiUpper ch) = asciiLower ch := by
  revert ch
  apply forall_byte
  with_unfolding_all decide

/-- Lower case leaves a character alone exactly when it is no upper-case letter. -/
theorem asciiLower_eq_self_iff (ch : UInt8) :
    asciiLower ch = ch ↔ ¬ ('A'.toUInt8 ≤ ch ∧ ch ≤ 'Z'.toUInt8) := by
  revert ch
  apply forall_byte
  with_unfolding_all decide

/-- The characters of a short name are no spaces and no dots, in either case. -/
theorem isValidSfnChar_ne {ch : UInt8} (h : isValidSfnChar ch = true) :
    asciiUpper ch ≠ ' '.toUInt8 ∧ ch ≠ '.'.toUInt8 := by
  revert h
  revert ch
  apply forall_byte
  with_unfolding_all decide

/-! ### The parts of a name -/

/-- The parts of a name with a dot, around the last one. -/
theorem splitNameForAlias_of_mem {name : List UInt8} (h : '.'.toUInt8 ∈ name) :
    name = (splitNameForAlias name).1 ++ '.'.toUInt8 :: (splitNameForAlias name).2 ∧
      '.'.toUInt8 ∉ (splitNameForAlias name).2 := by
  induction name with
  | nil => cases h
  | cons ch rest ih =>
    unfold splitNameForAlias
    by_cases hrest : '.'.toUInt8 ∈ rest
    · obtain ⟨heq, hnot⟩ := ih hrest
      rw [if_pos hrest]
      exact ⟨congrArg (ch :: ·) heq, hnot⟩
    · rcases List.mem_cons.mp h with hch | hmem
      · rw [if_neg hrest, if_pos hch.symm]
        exact ⟨congrArg (· :: rest) hch.symm, hrest⟩
      · exact absurd hmem hrest

/-- A name without a dot is all base. -/
theorem splitNameForAlias_of_notMem {name : List UInt8} (h : '.'.toUInt8 ∉ name) :
    splitNameForAlias name = (name, []) := by
  cases name with
  | nil => rfl
  | cons ch rest =>
    rw [List.mem_cons, not_or] at h
    obtain ⟨hch, hrest⟩ := h
    unfold splitNameForAlias
    rw [if_neg hrest, if_neg (Ne.symm hch)]

/-- What `is_valid_sfn_name` checked of the parts. -/
theorem isValidSfnName_parts {name : List UInt8} (h : isValidSfnName name = true) :
    (splitNameForAlias name).1 ≠ [] ∧ (splitNameForAlias name).1.length ≤ 8 ∧
      (splitNameForAlias name).2.length ≤ 3 ∧
      (∀ ch ∈ (splitNameForAlias name).1, isValidSfnChar ch = true) ∧
      ∀ ch ∈ (splitNameForAlias name).2, isValidSfnChar ch = true := by
  unfold isValidSfnName at h
  split at h
  · cases h
  split at h
  · cases h
  split at h
  · cases h
  generalize splitNameForAlias name = parts at h ⊢
  obtain ⟨base, extension⟩ := parts
  simp only at h ⊢
  split at h
  · cases h
  · rename_i hsizes
    rw [Bool.and_eq_true, List.all_eq_true, List.all_eq_true] at h
    rw [not_or, not_or] at hsizes
    exact ⟨hsizes.1, by omega, by omega, h.1, h.2⟩

/-! ### Short names -/

/-- A field of a short name is its characters and spaces up to its size. -/
theorem sfnField_toList {n : Nat} {chars : List UInt8} (h : chars.length ≤ n) :
    (sfnField n chars).toList = chars ++ List.replicate (n - chars.length) ' '.toUInt8 := by
  apply List.ext_getElem
  · rw [Vector.length_toList, List.length_append, List.length_replicate]
    omega
  · intro i hi hi'
    rw [Vector.length_toList] at hi
    rw [Vector.getElem_toList]
    unfold sfnField
    rw [Vector.getElem_ofFn]
    by_cases hlt : i < chars.length
    · rw [List.getElem_append_left hlt]
      exact List.getD_eq_getElem _ _ hlt
    · rw [List.getElem_append_right (Nat.le_of_not_lt hlt), List.getElem_replicate]
      exact List.getD_eq_default _ _ (Nat.le_of_not_lt hlt)

/-- Reading a field ends where its characters end. -/
theorem takeWhile_sfnField {n : Nat} {chars : List UInt8} (h : chars.length ≤ n)
    (hspace : ∀ ch ∈ chars, ch ≠ ' '.toUInt8) :
    (sfnField n chars).toList.takeWhile (· != ' '.toUInt8) = chars := by
  have hall : ∀ ch ∈ chars, (ch != ' '.toUInt8) = true := fun ch hch =>
    bne_iff_ne.mpr (hspace ch hch)
  rw [sfnField_toList h, List.takeWhile_append_of_pos hall]
  cases n - chars.length with
  | zero => rw [List.replicate_zero, List.takeWhile_nil, List.append_nil]
  | succ k =>
    rw [List.replicate_succ, List.takeWhile_cons_of_neg (by simp), List.append_nil]

/-- How the decoder reads the characters of a part with its flag. -/
def decodePart (lower : Bool) (part : List UInt8) : List UInt8 :=
  (part.map asciiUpper).map fun ch => if lower then asciiLower ch else ch

/-- A part is read back exactly when its letters are of one case. -/
theorem decodePart_eq_iff (part : List UInt8) :
    decodePart (componentHasLowercase part) part = part ↔ UniformCase part := by
  unfold decodePart UniformCase
  cases hlow : componentHasLowercase part with
  | false =>
    have hupper : ∀ ch ∈ part, asciiUpper ch = ch := by
      intro ch hch
      apply asciiUpper_of_not_lower
      intro h
      have htrue : componentHasLowercase part = true :=
        List.any_eq_true.mpr ⟨ch, hch, decide_eq_true h⟩
      rw [hlow] at htrue
      cases htrue
    rw [List.map_congr_left hupper]
    simp
  | true =>
    have hmap : (part.map asciiUpper).map (fun ch => if true = true then asciiLower ch else ch) =
        part.map asciiLower := by
      rw [List.map_map]
      exact List.map_congr_left fun ch _ => asciiLower_asciiUpper ch
    rw [hmap]
    have hself : part.map asciiLower = part ↔ ∀ ch ∈ part, asciiLower ch = ch := by
      conv_lhs => rhs; rw [← List.map_id part]
      exact List.map_inj_left
    rw [hself]
    simp only [asciiLower_eq_self_iff, true_and, componentHasUppercase, List.any_eq_true,
      decide_eq_true_eq, not_exists, not_and]

theorem decodePart_length (lower : Bool) (part : List UInt8) :
    (decodePart lower part).length = part.length := by
  unfold decodePart
  rw [List.length_map, List.length_map]

/-- The flags of a name tell which part has lower-case letters. -/
theorem encodeCaseInfo_flags (name : List UInt8) :
    (encodeCaseInfo name &&& CASE_INFO_BASE_LOWER != 0) =
        componentHasLowercase (splitNameForAlias name).1 ∧
      (encodeCaseInfo name &&& CASE_INFO_EXT_LOWER != 0) =
        componentHasLowercase (splitNameForAlias name).2 := by
  have hnil : ∀ part : List UInt8, (part ≠ [] ∧ componentHasLowercase part = true) ↔
      componentHasLowercase part = true := by
    intro part
    refine ⟨And.right, fun h => ⟨?_, h⟩⟩
    rintro rfl
    cases h
  unfold encodeCaseInfo
  generalize splitNameForAlias name = parts
  obtain ⟨base, extension⟩ := parts
  simp only [hnil]
  cases componentHasLowercase base <;> cases componentHasLowercase extension <;> decide

/-- What `decode_short_name` reads from the entry of an 8.3 name. -/
theorem decodeShortName_encode {name : List UInt8} {e : FatEntry}
    (hvalid : isValidSfnName name = true)
    (hname : e.filename = sfnField 8 ((splitNameForAlias name).1.map asciiUpper))
    (hext : e.extension = sfnField 3 ((splitNameForAlias name).2.map asciiUpper))
    (hcase : e.caseInfo = encodeCaseInfo name) :
    decodeShortName e =
      decodePart (componentHasLowercase (splitNameForAlias name).1) (splitNameForAlias name).1 ++
        if (splitNameForAlias name).2 = [] then [] else
          '.'.toUInt8 :: decodePart (componentHasLowercase (splitNameForAlias name).2)
            (splitNameForAlias name).2 := by
  obtain ⟨-, hbase8, hext3, hbaseValid, hextValid⟩ := isValidSfnName_parts hvalid
  obtain ⟨hflagB, hflagE⟩ := encodeCaseInfo_flags name
  have hspace : ∀ part : List UInt8, (∀ ch ∈ part, isValidSfnChar ch = true) →
      ∀ ch ∈ part.map asciiUpper, ch ≠ ' '.toUInt8 := by
    intro part hpart ch hch
    obtain ⟨c, hc, rfl⟩ := List.mem_map.mp hch
    exact (isValidSfnChar_ne (hpart c hc)).1
  unfold decodeShortName
  rw [hname, hext, hcase, hflagB, hflagE,
    takeWhile_sfnField (by rw [List.length_map]; exact hbase8) (hspace _ hbaseValid),
    takeWhile_sfnField (by rw [List.length_map]; exact hext3) (hspace _ hextValid)]
  generalize hsplit : (splitNameForAlias name).2 = extension at *
  cases extension with
  | nil =>
    have hfirst : (sfnField 3 (List.map asciiUpper [])).get 0 = ' '.toUInt8 := rfl
    rw [if_neg (not_not.mpr hfirst), if_pos rfl, List.append_nil]
    rfl
  | cons c rest =>
    have hfirst : (sfnField 3 (List.map asciiUpper (c :: rest))).get 0 ≠ ' '.toUInt8 :=
      (isValidSfnChar_ne (hextValid c List.mem_cons_self)).1
    rw [if_pos hfirst, if_neg (List.cons_ne_nil c rest)]
    rfl

/-- An 8.3 name is read back from its entry exactly when it is representable. -/
theorem decodeShortName_encode_iff {name : List UInt8} {e : FatEntry}
    (hvalid : isValidSfnName name = true)
    (hname : e.filename = sfnField 8 ((splitNameForAlias name).1.map asciiUpper))
    (hext : e.extension = sfnField 3 ((splitNameForAlias name).2.map asciiUpper))
    (hcase : e.caseInfo = encodeCaseInfo name) :
    decodeShortName e = name ↔ ShortRepresentable name := by
  rw [decodeShortName_encode hvalid hname hext hcase]
  unfold ShortRepresentable
  rw [← decodePart_eq_iff, ← decodePart_eq_iff]
  have hbase := decodePart_length (componentHasLowercase (splitNameForAlias name).1)
    (splitNameForAlias name).1
  by_cases hdot : '.'.toUInt8 ∈ name
  · obtain ⟨heq, -⟩ := splitNameForAlias_of_mem hdot
    generalize splitNameForAlias name = parts at *
    obtain ⟨base, extension⟩ := parts
    simp only at *
    by_cases hnil : extension = []
    · subst hnil
      rw [if_pos rfl, List.append_nil]
      -- the decoded name is as long as the base, and the name is longer by its dot
      refine iff_of_false ?_ fun h => h.2.2 rfl hdot
      intro h
      have hlen := congrArg List.length h
      rw [hbase, heq, List.length_append, List.length_singleton] at hlen
      omega
    · rw [if_neg hnil]
      constructor
      · intro h
        rw [heq] at h
        obtain ⟨h1, h2⟩ := List.append_inj h hbase
        exact ⟨h1, (List.cons_inj_right _).mp h2, fun h => absurd h hnil⟩
      · rintro ⟨h1, h2, -⟩
        rw [h1, h2]
        exact heq.symm
  · rw [splitNameForAlias_of_notMem hdot]
    simp only [if_pos trivial, List.append_nil]
    constructor
    · intro h
      exact ⟨h, rfl, fun _ => hdot⟩
    · intro h
      exact h.1

/-! ### Long names -/

/-- The decoder only ever adds to what it has. -/
theorem collectLfnCharacters_extends (cap : Nat) (out : List UInt8) (values : List UInt16) :
    out <+: collectLfnCharacters cap out values := by
  induction values generalizing out with
  | nil => exact List.prefix_refl out
  | cons value rest ih =>
    unfold collectLfnCharacters appendLfnCharacter
    by_cases h0 : value = 0x0000
    · simp only [if_pos h0]
      exact List.prefix_refl out
    rw [if_neg h0]
    by_cases hpad : value = 0xFFFF
    · rw [if_pos hpad]
      exact ih out
    rw [if_neg hpad]
    by_cases hcap : out.length + 1 ≥ cap
    · simp only [if_pos hcap]
      exact List.prefix_refl out
    · rw [if_neg hcap]
      exact (List.prefix_append out _).trans (ih _)

/-- What follows the characters of a name in its slots: nothing, or a terminator. -/
def IsLfnTail (tail : List UInt16) : Prop := tail = [] ∨ ∃ rest, tail = 0x0000 :: rest

theorem collectLfnCharacters_tail {cap : Nat} {out : List UInt8} {tail : List UInt16}
    (h : IsLfnTail tail) : collectLfnCharacters cap out tail = out := by
  rcases h with rfl | ⟨rest, rfl⟩
  · rfl
  · rfl

/-- A byte is no terminator unless it is zero, is never padding, and is kept exactly when it
is ASCII. -/
theorem byte_as_character (ch : UInt8) :
    (ch.toUInt16 = 0x0000 ↔ ch = 0) ∧ ch.toUInt16 ≠ 0xFFFF ∧
      ((if ch.toUInt16 < 0x80 then ch.toUInt16.toUInt8 else '?'.toUInt8) = ch ↔ ch < 0x80) ∧
      (0 < ch ↔ ch ≠ 0) := by
  revert ch
  apply forall_byte
  with_unfolding_all decide

/-- A name that is stored as characters is read back exactly when it is representable and what
follows it adds nothing. -/
theorem collectLfnCharacters_map_iff (cap : Nat) (name : List UInt8) (out : List UInt8)
    (tail : List UInt16) (hout : out.length < cap) :
    collectLfnCharacters cap out (name.map UInt8.toUInt16 ++ tail) = out ++ name ↔
      (out.length + name.length < cap ∧ ∀ ch ∈ name, 0 < ch ∧ ch < 0x80) ∧
        collectLfnCharacters cap (out ++ name) tail = out ++ name := by
  induction name generalizing out with
  | nil =>
    rw [List.map_nil, List.nil_append, List.append_nil]
    simpa using fun _ => hout
  | cons ch rest ih =>
    obtain ⟨hzero, hpad, hkept, hpos⟩ := byte_as_character ch
    have hlonger : out ≠ out ++ ch :: rest := by simp
    rw [List.map_cons, List.cons_append, collectLfnCharacters]
    unfold appendLfnCharacter
    by_cases h0 : ch = 0
    · -- the decoder takes the character for the terminator
      rw [if_pos (hzero.mpr h0)]
      refine iff_of_false ?_ ?_
      · intro h
        exact hlonger h
      · intro h
        exact absurd h0 (hpos.mp (h.1.2 ch List.mem_cons_self).1)
    rw [if_neg fun h => h0 (hzero.mp h), if_neg hpad]
    by_cases hcap : out.length + 1 ≥ cap
    · -- the decoder has no room left
      rw [if_pos hcap]
      refine iff_of_false ?_ ?_
      · intro h
        exact hlonger h
      · intro h
        have := h.1.1
        rw [List.length_cons] at this
        omega
    rw [if_neg hcap]
    by_cases hascii : ch < 0x80
    · rw [hkept.mpr hascii]
      have hlen : (out ++ [ch]).length = out.length + 1 := by simp
      have hih := ih (out ++ [ch]) (by omega)
      rw [List.append_assoc, List.singleton_append] at hih
      show collectLfnCharacters cap (out ++ [ch]) _ = _ ↔ _
      rw [hih, hlen, List.length_cons, List.forall_mem_cons]
      have hsum : out.length + 1 + rest.length = out.length + (rest.length + 1) := by omega
      rw [hsum]
      constructor
      · rintro ⟨⟨h1, h2⟩, hrest⟩
        exact ⟨⟨h1, ⟨hpos.mpr h0, hascii⟩, h2⟩, hrest⟩
      · rintro ⟨⟨h1, -, h2⟩, hrest⟩
        exact ⟨⟨h1, h2⟩, hrest⟩
    · refine iff_of_false ?_ ?_
      · intro h
        have hext := collectLfnCharacters_extends cap
          (out ++ [if ch.toUInt16 < 0x80 then ch.toUInt16.toUInt8 else '?'.toUInt8])
          (rest.map UInt8.toUInt16 ++ tail)
        have h' : collectLfnCharacters cap
            (out ++ [if ch.toUInt16 < 0x80 then ch.toUInt16.toUInt8 else '?'.toUInt8])
            (rest.map UInt8.toUInt16 ++ tail) = out ++ ch :: rest := h
        rw [h', List.prefix_append_right_inj, List.cons_prefix_cons] at hext
        exact hascii (hkept.mp hext.1)
      · intro h
        exact hascii (h.1.2 ch List.mem_cons_self).2

/-- What follows a complete name adds nothing to it when, behind the padding, it ends or has a
terminator. -/
def AddsNothing (values : List UInt16) : Prop :=
  ∀ value ∈ (values.dropWhile (· == 0xFFFF)).head?, value = 0x0000

instance (values : List UInt16) : Decidable (AddsNothing values) :=
  inferInstanceAs (Decidable (∀ value ∈ (values.dropWhile (· == 0xFFFF)).head?, value = 0x0000))

/-- The decoder is done, or has room for one more character. -/
theorem collectLfnCharacters_stays_iff {cap : Nat} {out : List UInt8} (h : out.length + 1 < cap)
    (tail : List UInt16) : collectLfnCharacters cap out tail = out ↔ AddsNothing tail := by
  induction tail with
  | nil => exact iff_of_true rfl fun value hvalue => by cases hvalue
  | cons value rest ih =>
    unfold collectLfnCharacters appendLfnCharacter AddsNothing
    by_cases h0 : value = 0x0000
    · rw [if_pos h0, h0]
      exact iff_of_true rfl fun v hv => (Option.mem_some_iff.mp hv).symm
    rw [if_neg h0]
    by_cases hpad : value = 0xFFFF
    · rw [if_pos hpad, List.dropWhile_cons, if_pos (beq_iff_eq.mpr hpad)]
      exact ih
    · rw [if_neg hpad, if_neg (Nat.not_le.mpr h), List.dropWhile_cons,
        if_neg fun heq => hpad (beq_iff_eq.mp heq), List.head?_cons]
      refine iff_of_false ?_ fun hzero => h0 (hzero value rfl)
      intro heq
      have hext := (collectLfnCharacters_extends cap
        (out ++ [if value < 0x80 then value.toUInt8 else '?'.toUInt8]) rest).length_le
      have hout : collectLfnCharacters cap
          (out ++ [if value < 0x80 then value.toUInt8 else '?'.toUInt8]) rest = out := heq
      rw [hout, List.length_append, List.length_singleton] at hext
      omega

/-- The characters of one slot. -/
theorem lfnCharacters_toList (fragment : List UInt8) (h : fragment.length ≤ 13) :
    ∃ tail, IsLfnTail tail ∧ (fragment.length = 13 → tail = []) ∧
      (lfnCharacters fragment).toList = fragment.map UInt8.toUInt16 ++ tail := by
  refine ⟨(lfnCharacters fragment).toList.drop fragment.length, ?_, ?_, ?_⟩
  · rcases Nat.lt_or_ge fragment.length 13 with hlt | hge
    · refine .inr ⟨(lfnCharacters fragment).toList.drop (fragment.length + 1), ?_⟩
      rw [List.drop_eq_getElem_cons (by rw [Vector.length_toList]; exact hlt),
        Vector.getElem_toList]
      unfold lfnCharacters
      rw [Vector.getElem_ofFn, if_neg (Nat.lt_irrefl _), if_pos rfl]
    · exact .inl (List.drop_eq_nil_of_le (by rw [Vector.length_toList]; exact hge))
  · intro h13
    exact List.drop_eq_nil_of_le (by rw [Vector.length_toList, h13])
  · have htake : (lfnCharacters fragment).toList.take fragment.length =
        fragment.map UInt8.toUInt16 := by
      apply List.ext_getElem
      · rw [List.length_take, Vector.length_toList, List.length_map]
        omega
      · intro i hi hi'
        rw [List.length_map] at hi'
        rw [List.getElem_take, Vector.getElem_toList, List.getElem_map]
        unfold lfnCharacters
        rw [Vector.getElem_ofFn, if_pos hi', List.getD_eq_getElem _ _ hi']
    rw [← htake, List.take_append_drop]

/-- The characters of all slots of a name, in the order of the name. -/
theorem lfnCharacters_flatMap (n : Nat) (name : List UInt8) (hn : n = (name.length + 12) / 13) :
    ∃ tail, IsLfnTail tail ∧
      ((List.range n).flatMap fun i => (lfnCharacters ((name.drop (i * 13)).take 13)).toList) =
        name.map UInt8.toUInt16 ++ tail := by
  induction n generalizing name with
  | zero =>
    have hnil : name = [] := List.length_eq_zero_iff.mp (by omega)
    subst hnil
    exact ⟨[], .inl rfl, rfl⟩
  | succ n ih =>
    have hpos : 0 < name.length := by omega
    obtain ⟨tail, htail, hfull, hchars⟩ :=
      lfnCharacters_toList (name.take 13) (by rw [List.length_take]; omega)
    have hshift : ((List.range (n + 1)).flatMap fun i =>
          (lfnCharacters ((name.drop (i * 13)).take 13)).toList) =
        (lfnCharacters (name.take 13)).toList ++ (List.range n).flatMap fun i =>
          (lfnCharacters (((name.drop 13).drop (i * 13)).take 13)).toList := by
      rw [List.range_succ_eq_map, List.flatMap_cons, List.flatMap_map]
      simp only [Nat.zero_mul, List.drop_zero, List.drop_drop]
      congr 2
      funext i
      rw [show i.succ * 13 = 13 + i * 13 by omega]
    rcases Nat.lt_or_ge name.length 13 with hlt | hge
    · -- one slot, with a terminator
      have hn0 : n = 0 := by omega
      subst hn0
      refine ⟨tail, htail, ?_⟩
      rw [hshift, hchars, List.take_of_length_le (by omega)]
      simp
    · obtain ⟨rest, hrest, hih⟩ := ih (name.drop 13) (by rw [List.length_drop]; omega)
      have hnil : tail = [] := hfull (by rw [List.length_take]; omega)
      refine ⟨rest, hrest, ?_⟩
      rw [hshift, hchars, hih, hnil, List.append_nil, ← List.append_assoc, ← List.map_append,
        List.take_append_drop]

/-- What `create_lfn_entries` makes of a name. -/
theorem createLfnEntries_eq {name : List UInt8} {checksum : UInt8} {lfns : List LfnEntry}
    (h : createLfnEntries name checksum = some lfns) :
    lfns = (List.range ((name.length + 12) / 13)).map
        (lfnEntry name checksum ((name.length + 12) / 13)) ∧
      0 < (name.length + 12) / 13 ∧ (name.length + 12) / 13 ≤ 20 := by
  unfold createLfnEntries at h
  simp only at h
  split at h
  · cases h
  · rename_i hcount
    unfold MAX_LFN_ENTRIES at hcount
    exact ⟨(Option.some.inj h).symm, by omega, by omega⟩

/-- All the characters of some slots. -/
theorem characters_length (lfns : List LfnEntry) :
    (lfns.flatMap fun lfn => lfn.characters.toList).length = 13 * lfns.length := by
  induction lfns with
  | nil => rfl
  | cons lfn lfns ih =>
    rw [List.flatMap_cons, List.length_append, ih, Vector.length_toList, List.length_cons]
    omega

/-- A name is read back from its long-name slots, with the characters `behind` of other slots
behind them, exactly when it is representable and these add nothing. A name that does not fill
its last slot has a terminator there. -/
theorem collectLfnCharacters_encode_iff {name : List UInt8} {checksum : UInt8}
    {lfns : List LfnEntry} (h : createLfnEntries name checksum = some lfns)
    (behind : List UInt16) :
    collectLfnCharacters 256 []
        ((lfns.flatMap fun lfn => lfn.characters.toList) ++ behind) = name ↔
      LongRepresentable name ∧ (name.length % 13 = 0 → AddsNothing behind) := by
  obtain ⟨hlfns, -, -⟩ := createLfnEntries_eq h
  obtain ⟨tail, htail, hflat⟩ := lfnCharacters_flatMap _ name rfl
  have hchars : (lfns.flatMap fun lfn => lfn.characters.toList) =
      name.map UInt8.toUInt16 ++ tail := by
    rw [hlfns, List.flatMap_map]
    exact hflat
  have hlength : 13 * ((name.length + 12) / 13) = name.length + tail.length := by
    have hcount := characters_length lfns
    rw [hchars, List.length_append, List.length_map] at hcount
    rw [hcount, hlfns, List.length_map, List.length_range]
  have hiff := collectLfnCharacters_map_iff 256 name [] (tail ++ behind) (by decide)
  rw [List.nil_append, List.length_nil, Nat.zero_add, Nat.lt_succ_iff] at hiff
  rw [hchars, List.append_assoc, hiff]
  unfold LongRepresentable
  refine and_congr_right fun hlong => ?_
  by_cases hfull : name.length % 13 = 0
  · -- the last slot is full: the decoder goes on behind it
    have hnil : tail = [] := List.length_eq_zero_iff.mp (by omega)
    rw [hnil, List.nil_append, collectLfnCharacters_stays_iff (by omega)]
    exact ⟨fun hadds _ => hadds, fun hadds => hadds hfull⟩
  · have hterminated : IsLfnTail (tail ++ behind) := by
      rcases htail with rfl | ⟨rest, rfl⟩
      · rw [List.length_nil] at hlength
        omega
      · exact .inr ⟨rest ++ behind, rfl⟩
    exact iff_of_true (collectLfnCharacters_tail hterminated) fun h => absurd h hfull

end VKernel.Proofs.Fs

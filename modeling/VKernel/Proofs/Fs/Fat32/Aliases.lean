import VKernel.Fs.Fat32.Directory
import VKernel.Proofs.Fs.Fat32.Names

/-!
# `VKernel.Proofs.Fs.Fat32.Aliases`: the entries that `build_file_entry` makes

`build_file_entry` makes one of two kinds of entries, and `buildFileEntry_cases` says which:
the entry of an 8.3 name, or an alias with long-name entries. In either case the name of the
entry is a valid short name in upper case, so the slot counts as used
(`BuiltEntry.firstByte`). An alias decodes to a valid short name, and hence never to the
name that it stands for (`decodeShortName_alias_ne`).
-/

set_option autoImplicit false
set_option maxRecDepth 20000

namespace VKernel.Proofs.Fs

open VKernel.Lib VKernel.Fs VKernel.Fs.Fat32

/-- A character that may stand in a short-name field: valid, and not changed by upper-casing. -/
def IsSfnByte (ch : UInt8) : Prop := isValidSfnChar ch = true ∧ asciiUpper ch = ch

instance (ch : UInt8) : Decidable (IsSfnByte ch) := inferInstanceAs (Decidable (_ ∧ _))

theorem isSfnByte_asciiUpper {ch : UInt8} (h : isValidSfnChar ch = true) :
    IsSfnByte (asciiUpper ch) := by
  revert h
  revert ch
  apply forall_byte
  with_unfolding_all decide

theorem isSfnByte_sanitizeChar {ch out : UInt8} (h : sanitizeChar ch = some out) :
    IsSfnByte out := by
  have hall : ∀ ch : UInt8, (sanitizeChar ch).all (fun out => decide (IsSfnByte out)) = true := by
    apply forall_byte
    with_unfolding_all decide
  have hch := hall ch
  rw [h] at hch
  exact of_decide_eq_true hch

/-- Such a character is no marker of a slot, no dot, no space and no separator. -/
theorem IsSfnByte.ne {ch : UInt8} (h : IsSfnByte ch) :
    ch ≠ DIR_ENTRY_END ∧ ch ≠ DIR_ENTRY_UNUSED ∧ ch ≠ '.'.toUInt8 ∧ ch ≠ ' '.toUInt8 ∧
      isSeparator ch = false := by
  revert h
  revert ch
  apply forall_byte
  with_unfolding_all decide

/-! ### The alias -/

/-- Digits are characters of short names. -/
theorem decimalDigits_sfnByte (count : Nat) {value : Nat} :
    ∀ ch ∈ decimalDigits count value, IsSfnByte ch := by
  have hdigit : ∀ d < 10, IsSfnByte ('0'.toUInt8 + UInt8.ofNat d) := by decide
  induction count generalizing value with
  | zero =>
    intro ch hch
    cases hch
  | succ count ih =>
    intro ch hch
    unfold decimalDigits at hch
    split at hch
    · rcases List.mem_cons.mp hch with rfl | hch
      · exact hdigit _ (Nat.mod_lt _ (by decide))
      · exact ih ch hch
    · cases hch

/-- A number below `10 ^ k` has at most `k` digits. -/
theorem decimalDigits_length (count : Nat) {k value : Nat} (h : value < 10 ^ k) :
    (decimalDigits count value).length ≤ k := by
  induction count generalizing k value with
  | zero => exact Nat.zero_le k
  | succ count ih =>
    unfold decimalDigits
    split
    next hpos =>
      cases k with
      | zero =>
        rw [Nat.pow_zero] at h
        omega
      | succ k =>
        have hdiv : value / 10 < 10 ^ k := by
          rw [Nat.pow_succ] at h
          omega
        rw [List.length_cons]
        exact Nat.succ_le_succ (ih hdiv)
    · exact Nat.zero_le k

/-- The numbers of an alias have at most three digits. -/
theorem renderDecimal_unique {unique : Nat} (h : unique < 1000) :
    (renderDecimal unique 4).length ≤ 3 ∧ ∀ ch ∈ renderDecimal unique 4, IsSfnByte ch := by
  have hlen := decimalDigits_length 16 (show unique < 10 ^ 3 from h)
  unfold renderDecimal
  constructor
  · rw [List.length_take, List.length_reverse]
    omega
  · intro ch hch
    exact decimalDigits_sfnByte 16 ch (List.mem_reverse.mp (List.mem_of_mem_take hch))

theorem sanitizeComponent_sfnByte {input : List UInt8} {cap : Nat} {ch : UInt8}
    (h : ch ∈ sanitizeComponent input cap) : IsSfnByte ch := by
  obtain ⟨c, -, hc⟩ := List.mem_filterMap.mp (List.mem_of_mem_take h)
  exact isSfnByte_sanitizeChar hc

/-- The parts of an alias. -/
theorem aliasParts_sfnByte (name : List UInt8) :
    (aliasParts name).1 ≠ [] ∧ (∀ ch ∈ (aliasParts name).1, IsSfnByte ch) ∧
      ∀ ch ∈ (aliasParts name).2, IsSfnByte ch := by
  unfold aliasParts
  generalize splitNameForAlias name = parts
  obtain ⟨base, extension⟩ := parts
  refine ⟨?_, ?_, fun ch hch => sanitizeComponent_sfnByte hch⟩
  · show (if sanitizeComponent base 64 = [] then _ else _) ≠ _
    split
    · decide
    · assumption
  · show ∀ ch ∈ (if sanitizeComponent base 64 = [] then _ else _), IsSfnByte ch
    split
    · have hfile : (['F', 'I', 'L', 'E'].map Char.toUInt8).all
          (fun ch => decide (IsSfnByte ch)) = true := by decide
      exact fun ch hch => of_decide_eq_true (List.all_eq_true.mp hfile ch hch)
    · intro ch hch
      exact sanitizeComponent_sfnByte hch

/-- The base of an alias, without its padding. -/
def aliasBase (base : List UInt8) (unique : Nat) : List UInt8 :=
  let prefixLen := min (8 - 1 - (renderDecimal unique 4).length) base.length
  base.take (if prefixLen = 0 then 1 else prefixLen) ++ '~'.toUInt8 :: renderDecimal unique 4

theorem aliasBase_length {base : List UInt8} {unique : Nat} (h : unique < 1000) :
    (aliasBase base unique).length ≤ 8 := by
  have hdigits := (renderDecimal_unique h).1
  unfold aliasBase
  rw [List.length_append, List.length_cons, List.length_take]
  split <;> omega

theorem aliasBase_sfnByte {base : List UInt8} {unique : Nat} (h : unique < 1000)
    (hbase : ∀ ch ∈ base, IsSfnByte ch) : ∀ ch ∈ aliasBase base unique, IsSfnByte ch := by
  intro ch hch
  rcases List.mem_append.mp hch with hch | hch
  · exact hbase ch (List.mem_of_mem_take hch)
  · rcases List.mem_cons.mp hch with rfl | hch
    · decide
    · exact (renderDecimal_unique h).2 ch hch

/-- The name fields of an entry with an alias. -/
theorem setShortName_sfnAlias (e : FatEntry) (base extension : List UInt8) (unique : Nat) :
    e.setShortName (sfnAlias base extension unique) =
      { e with filename := sfnField 8 (aliasBase base unique)
               extension := sfnField 3 (extension.take 3) } := by
  have hlen : (sfnField 8 (aliasBase base unique)).toList.length = 8 := Vector.length_toList
  have hlen3 : (sfnField 3 (extension.take 3)).toList.length = 3 := Vector.length_toList
  have halias : sfnAlias base extension unique =
      (sfnField 8 (aliasBase base unique)).toList ++ (sfnField 3 (extension.take 3)).toList := rfl
  have hfield : ∀ {n : Nat} (v : Vector UInt8 n) (rest : List UInt8),
      sfnField n (v.toList ++ rest) = v := by
    intro n v rest
    apply Vector.ext
    intro i hi
    have hi' : i < v.toList.length := by rw [Vector.length_toList]; exact hi
    have hi'' : i < (v.toList ++ rest).length := by rw [List.length_append]; omega
    unfold sfnField
    rw [Vector.getElem_ofFn, List.getD_eq_getElem _ _ hi'', List.getElem_append_left hi',
      Vector.getElem_toList]
  unfold FatEntry.setShortName
  have hext : sfnField 3 (sfnField 3 (extension.take 3)).toList =
      sfnField 3 (extension.take 3) := by
    have := hfield (sfnField 3 (extension.take 3)) []
    rwa [List.append_nil] at this
  rw [halias, hfield, List.drop_left' hlen, hext]

/-! ### Valid short names -/

/-- A name that is put together from valid parts is a valid short name. -/
theorem isValidSfnName_of_parts {base extension : List UInt8} (hnil : base ≠ [])
    (hbase : base.length ≤ 8) (hext : extension.length ≤ 3)
    (hbaseChars : ∀ ch ∈ base, IsSfnByte ch) (hextChars : ∀ ch ∈ extension, IsSfnByte ch) :
    isValidSfnName (base ++ if extension = [] then [] else '.'.toUInt8 :: extension) = true := by
  have hdotB : '.'.toUInt8 ∉ base := fun h => (hbaseChars _ h).ne.2.2.1 rfl
  have hdotE : '.'.toUInt8 ∉ extension := fun h => (hextChars _ h).ne.2.2.1 rfl
  have hclean : ∀ part : List UInt8, (∀ ch ∈ part, IsSfnByte ch) →
      part.any (fun ch => isSeparator ch || ch == ' '.toUInt8) = false := by
    intro part hpart
    rw [List.any_eq_false]
    intro ch hch
    obtain ⟨-, -, -, hspace, hsep⟩ := (hpart ch hch).ne
    simp [hsep, hspace]
  have hallB : base.all isValidSfnChar = true :=
    List.all_eq_true.mpr fun ch hch => (hbaseChars ch hch).1
  have hallE : extension.all isValidSfnChar = true :=
    List.all_eq_true.mpr fun ch hch => (hextChars ch hch).1
  have hcount : base.count '.'.toUInt8 = 0 := List.count_eq_zero.mpr hdotB
  have hcountE : extension.count '.'.toUInt8 = 0 := List.count_eq_zero.mpr hdotE
  -- the split finds the parts again
  have hsplit : splitNameForAlias
    (base ++ if extension = [] then [] else '.'.toUInt8 :: extension) =
      (base, extension) := by
    by_cases hE : extension = []
    · rw [if_pos hE, List.append_nil, hE]
      exact splitNameForAlias_of_notMem hdotB
    · rw [if_neg hE]
      obtain ⟨heq, hnot⟩ := splitNameForAlias_of_mem
        (List.mem_append_right base (List.mem_cons_self : '.'.toUInt8 ∈ '.'.toUInt8 :: extension))
      generalize splitNameForAlias (base ++ '.'.toUInt8 :: extension) = parts at heq hnot ⊢
      obtain ⟨b, x⟩ := parts
      simp only at heq hnot
      rcases List.append_eq_append_iff.mp heq with ⟨mid, h1, h2⟩ | ⟨mid, h1, h2⟩
      · cases mid with
        | nil =>
          rw [List.append_nil] at h1
          rw [List.nil_append] at h2
          rw [h1, (List.cons_inj_right _).mp h2]
        | cons c mid =>
          rw [List.cons_append] at h2
          have htail := (List.cons_eq_cons.mp h2).2
          exact absurd (htail ▸ List.mem_append_right mid List.mem_cons_self) hdotE
      · cases mid with
        | nil =>
          rw [List.append_nil] at h1
          rw [List.nil_append] at h2
          rw [h1, (List.cons_inj_right _).mp h2]
        | cons c mid =>
          rw [List.cons_append] at h2
          have hhead := (List.cons_eq_cons.mp h2).1
          exact absurd (h1 ▸ List.mem_append_right b (hhead ▸ List.mem_cons_self)) hdotB
  unfold isValidSfnName
  rw [if_neg (by simp [hnil]), hsplit]
  by_cases hE : extension = []
  · subst hE
    rw [if_pos rfl, List.append_nil, hclean base hbaseChars, hcount]
    simp [hnil, hbase, hallB]
  · rw [if_neg hE, List.any_append, List.any_cons, hclean base hbaseChars,
      hclean extension hextChars, List.count_append, List.count_cons, hcount, hcountE]
    simp [hnil, hbase, hext, hallB, hallE, isSeparator]
    decide

/-- An alias decodes to a valid short name. -/
theorem isValidSfnName_decode_alias {e : FatEntry} {base extension : List UInt8} (hnil : base ≠ [])
    (hbase : base.length ≤ 8) (hext : extension.length ≤ 3)
    (hbaseChars : ∀ ch ∈ base, IsSfnByte ch) (hextChars : ∀ ch ∈ extension, IsSfnByte ch)
    (hname : e.filename = sfnField 8 base) (hextension : e.extension = sfnField 3 extension)
    (hcase : e.caseInfo = 0) : isValidSfnName (decodeShortName e) = true := by
  have hdecode : decodeShortName e =
      base ++ if extension = [] then [] else '.'.toUInt8 :: extension := by
    unfold decodeShortName
    rw [hname, hextension, hcase,
      takeWhile_sfnField hbase fun ch hch => (hbaseChars ch hch).ne.2.2.2.1,
      takeWhile_sfnField hext fun ch hch => (hextChars ch hch).ne.2.2.2.1]
    cases extension with
    | nil =>
      have hfirst : (sfnField 3 []).get 0 = ' '.toUInt8 := rfl
      rw [if_neg (not_not.mpr hfirst), if_pos rfl, List.append_nil]
      simp
    | cons c rest =>
      have hfirst : (sfnField 3 (c :: rest)).get 0 ≠ ' '.toUInt8 :=
        (hextChars c List.mem_cons_self).ne.2.2.2.1
      rw [if_pos hfirst, if_neg (List.cons_ne_nil c rest)]
      simp
  rw [hdecode]
  exact isValidSfnName_of_parts hnil hbase hext hbaseChars hextChars

/-! ### New entries -/

/-- What an entry of `build_file_entry` is: the entry of an 8.3 name, or an alias with its
long-name entries. -/
inductive BuiltEntry (name : List UInt8) : FatEntry → List LfnEntry → Prop
  | short {e : FatEntry} (hvalid : isValidSfnName name = true)
      (hname : e.filename = sfnField 8 ((splitNameForAlias name).1.map asciiUpper))
      (hext : e.extension = sfnField 3 ((splitNameForAlias name).2.map asciiUpper))
      (hcase : e.caseInfo = encodeCaseInfo name) : BuiltEntry name e []
  | long {e : FatEntry} {lfns : List LfnEntry} {unique : Nat}
      (hvalid : isValidSfnName name = false) (hunique : unique < 1000)
      (hname : e.filename = sfnField 8 (aliasBase (aliasParts name).1 unique))
      (hext : e.extension = sfnField 3 ((aliasParts name).2.take 3))
      (hcase : e.caseInfo = 0) (hlfns : createLfnEntries name (lfnChecksum e) = some lfns) :
      BuiltEntry name e lfns

theorem BuiltEntry.firstByte {name : List UInt8} {e : FatEntry} {lfns : List LfnEntry}
    (h : BuiltEntry name e lfns) : IsSfnByte e.firstByte := by
  have hfirst : ∀ {n : Nat} (chars : List UInt8), chars ≠ [] →
      (∀ ch ∈ chars, IsSfnByte ch) → IsSfnByte ((sfnField (n + 1) chars).get 0) := by
    intro n chars hne hall
    cases chars with
    | nil => exact absurd rfl hne
    | cons c rest =>
      unfold sfnField
      rw [get_ofFn]
      exact hall c List.mem_cons_self
  unfold FatEntry.firstByte
  cases h with
  | short hvalid hname hext hcase =>
    obtain ⟨hne, -, -, hchars, -⟩ := isValidSfnName_parts hvalid
    rw [hname]
    apply hfirst
    · simpa using hne
    · intro ch hch
      obtain ⟨c, hc, rfl⟩ := List.mem_map.mp hch
      exact isSfnByte_asciiUpper (hchars c hc)
  | long hvalid hunique hname hext hcase hlfns =>
    obtain ⟨-, hbase, -⟩ := aliasParts_sfnByte name
    rw [hname]
    apply hfirst
    · unfold aliasBase
      simp
    · exact aliasBase_sfnByte hunique hbase

/-- An alias never decodes to the name that it stands for. -/
theorem decodeShortName_alias_ne {name : List UInt8} {e : FatEntry} {unique : Nat}
    (hvalid : isValidSfnName name = false) (hunique : unique < 1000)
    (hname : e.filename = sfnField 8 (aliasBase (aliasParts name).1 unique))
    (hext : e.extension = sfnField 3 ((aliasParts name).2.take 3))
    (hcase : e.caseInfo = 0) : decodeShortName e ≠ name := by
  obtain ⟨-, hbase, hextension⟩ := aliasParts_sfnByte name
  intro h
  have hvalid' : isValidSfnName (decodeShortName e) = true := by
    refine isValidSfnName_decode_alias ?_ (aliasBase_length hunique) ?_
      (aliasBase_sfnByte hunique hbase) ?_ hname hext hcase
    · unfold aliasBase
      simp
    · rw [List.length_take]
      omega
    · intro ch hch
      exact hextension ch (List.mem_of_mem_take hch)
  rw [h, hvalid] at hvalid'
  cases hvalid'

/-- The alias that the search finds is one of those that it tries. -/
theorem searchAlias_run {g : MountState} {rounds d : Nat} {base extension : List UInt8}
    {h : Program.Handler Response World} {tries unique : Nat} {w w' : World}
    {shortName : List UInt8}
    (hrun : (searchAlias g rounds d base extension tries unique).run h w =
      some (some shortName, w')) :
    ∃ u, unique ≤ u ∧ u < unique + tries ∧ shortName = sfnAlias base extension u := by
  induction tries generalizing unique w with
  | zero =>
    unfold searchAlias at hrun
    cases hrun
  | succ tries ih =>
    unfold searchAlias at hrun
    obtain ⟨taken, w₁, -, hrun⟩ := Program.run_bind_eq_some hrun
    split at hrun
    · obtain ⟨u, hle, hlt, heq⟩ := ih hrun
      exact ⟨u, by omega, by omega, heq⟩
    · cases hrun
      exact ⟨unique, Nat.le_refl _, by omega, rfl⟩

/-- What `build_file_entry` makes. -/
theorem buildFileEntry_cases {g : MountState} {rounds d : Nat} {name : List UInt8}
    {h : Program.Handler Response World} {w w' : World} {e : FatEntry} {lfns : List LfnEntry}
    (hrun : (buildFileEntry g rounds d name).run h w = some (some (e, lfns), w')) :
    BuiltEntry name e lfns ∧ e.attributes = ATTR_ARCHIVE ∧ e.firstCluster = 0 := by
  have hzero : FatEntry.zero.firstClusterHigh.toNat * 2 ^ 16 +
      FatEntry.zero.firstClusterLow.toNat = 0 := by decide
  unfold buildFileEntry at hrun
  by_cases hvalid : isValidSfnName name = true
  · rw [if_pos hvalid] at hrun
    cases hrun
    exact ⟨.short hvalid rfl rfl rfl, rfl, hzero⟩
  · rw [if_neg hvalid] at hrun
    obtain ⟨found, w₁, hsearch, hrun⟩ := Program.run_bind_eq_some hrun
    cases found with
    | none => cases hrun
    | some shortName =>
      obtain ⟨u, hle, hlt, rfl⟩ := searchAlias_run hsearch
      simp only [setShortName_sfnAlias] at hrun
      generalize hcreate : createLfnEntries name _ = created at hrun
      cases created with
      | none => cases hrun
      | some lfns' =>
        cases hrun
        exact ⟨.long (Bool.eq_false_iff.mpr hvalid) (by omega) rfl rfl rfl hcreate, rfl, hzero⟩

end VKernel.Proofs.Fs

import VKernel.Kobj.JsonText

/-!
# `VKernel.Proofs.Kobj.JsonRequests`: reading members of JSON objects

The search of `json_extract_string_buffer` can only stop at a quote, so it goes over the text of an
object from quote to quote. A quote in front of the inside of a string is the one that opens it or
one that is escaped in it (`searchMember_quoted`), and a quote that closes a string has a gap behind
it (`searchMember_gap`). What the search finds is then a list of candidates in the order of the
text: those of `mistakenTexts`, and the member that has the key (`searchMember_membersText`).
-/

set_option autoImplicit false

namespace VKernel.Proofs.Kobj

open VKernel.Kobj

section Escapes

variable {ch : UInt8} {s rest : List UInt8}

/-- A character is written as it is, or as a backslash with a character that stands for it. -/
theorem jsonEscape_cases (ch : UInt8) :
    (jsonEscape ch = [ch] ∧ ch ≠ quote ∧ ch ≠ backslash ∧
        (isJsonSpace ch = true → ch = ' '.toUInt8)) ∨
      ∃ esc, jsonEscape ch = [backslash, esc] ∧ jsonUnescape esc = ch ∧ (esc = quote ↔ ch = quote) ∧
        ch ≠ ' '.toUInt8 ∧ ch ≠ colon := by
  unfold jsonEscape
  split
  · rename_i h
    exact Or.inr ⟨quote, rfl, by rw [h]; decide, by simp [h], by rw [h]; decide, by rw [h]; decide⟩
  · rename_i hquote
    split
    · rename_i h
      exact Or.inr ⟨backslash, rfl, by rw [h]; decide, by rw [h], by rw [h]; decide,
          by rw [h]; decide⟩
    · rename_i hback
      split
      · rename_i h
        exact Or.inr ⟨'n'.toUInt8, rfl, by rw [h]; decide, by rw [h]; decide, by rw [h]; decide,
          by rw [h]; decide⟩
      · rename_i hn
        split
        · rename_i h
          exact Or.inr ⟨'r'.toUInt8, rfl, by rw [h]; decide, by rw [h]; decide, by rw [h]; decide,
            by rw [h]; decide⟩
        · rename_i hr
          split
          · rename_i h
            exact Or.inr ⟨'t'.toUInt8, rfl, by rw [h]; decide, by rw [h]; decide, by rw [h]; decide,
              by rw [h]; decide⟩
          · rename_i ht
            refine Or.inl ⟨rfl, hquote, hback, fun hspace => ?_⟩
            simp only [isJsonSpace, Bool.or_eq_true, beq_iff_eq] at hspace
            rcases hspace with ((h | h) | h) | h
            · exact h
            · exact absurd h ht
            · exact absurd h hn
            · exact absurd h hr

@[simp] theorem escaped_cons : escaped (ch :: s) = jsonEscape ch ++ escaped s := rfl

@[simp] theorem escaped_nil : escaped [] = [] := rfl

/-- A character that stands for itself. -/
theorem readString_char {room : Nat} (hquote : ch ≠ quote) (hback : ch ≠ backslash) :
    readString (room + 1) (ch :: rest) = ch :: readString room rest := by
  simp only [readString, if_neg hquote, if_neg hback]

/-- A character behind a backslash. -/
theorem readString_escape (room : Nat) (esc : UInt8) (rest : List UInt8) :
    readString (room + 1) (backslash :: esc :: rest) =
      jsonUnescape esc :: readString room rest := by
  simp only [readString, if_neg (show ¬ backslash = quote by decide), if_true]

/-- The inside of a string is read up to the quote that closes it. -/
theorem readString_escaped (room : Nat) (s rest : List UInt8) :
    readString room (escaped s ++ quote :: rest) = s.take room := by
  induction s generalizing room with
  | nil =>
    cases room with
    | zero => rfl
    | succ room => exact if_pos rfl
  | cons ch s ih =>
    cases room with
    | zero => rfl
    | succ room =>
      rw [escaped_cons, List.append_assoc, List.take_succ_cons]
      rcases jsonEscape_cases ch with ⟨hplain, hquote, hback, -⟩ | ⟨esc, hesc, hun, -, -, -⟩
      · rw [hplain, List.singleton_append, readString_char hquote hback, ih]
      · rw [hesc, List.cons_append, List.singleton_append, readString_escape, hun, ih]

/-- A text without quotes and backslashes is read as it is, up to a quote or to its end. -/
theorem readString_plain (room : Nat) {gap rest : List UInt8}
    (hgap : ∀ ch ∈ gap, ch ≠ quote ∧ ch ≠ backslash) (hrest : rest = [] ∨ ∃ t, rest = quote :: t) :
    readString room (gap ++ rest) = gap.take room := by
  induction gap generalizing room with
  | nil =>
    cases room with
    | zero => rfl
    | succ room =>
      rcases hrest with rfl | ⟨t, rfl⟩
      · rfl
      · exact if_pos rfl
  | cons ch gap ih =>
    cases room with
    | zero => rfl
    | succ room =>
      obtain ⟨hquote, hback⟩ := hgap ch List.mem_cons_self
      rw [List.cons_append, readString_char hquote hback, List.take_succ_cons,
        ih room fun c hc => hgap c (List.mem_cons_of_mem _ hc)]

end Escapes

/-! ### Behind a match -/

section Behind

variable {cap : Nat} {s blanks rest : List UInt8}

/-- Blanks are skipped. -/
theorem skipJsonSpaces_append (h : ∀ ch ∈ blanks, isJsonSpace ch = true) :
    skipJsonSpaces (blanks ++ rest) = skipJsonSpaces rest := by
  unfold skipJsonSpaces
  exact List.dropWhile_append_of_pos h

/-- Nothing else is. -/
theorem skipJsonSpaces_cons {ch : UInt8} (h : isJsonSpace ch = false) :
    skipJsonSpaces (ch :: rest) = ch :: rest := by
  unfold skipJsonSpaces
  rw [List.dropWhile_cons_of_neg (by simp [h])]

/-- Behind a key stands its value. -/
theorem memberValue_member (m : JsonMember) :
    memberValue cap (m.keyGap ++ (quoted m.value.chars ++ rest)) =
      some (m.value.chars.take (cap - 1)) := by
  have htext : m.keyGap ++ (quoted m.value.chars ++ rest) =
      m.afterKey.chars ++ colon :: (m.beforeValue.chars ++
        quote :: (escaped m.value.chars ++ quote :: rest)) := by
    simp [JsonMember.keyGap, quoted]
  rw [htext, memberValue, skipJsonSpaces_append m.afterKey.blank, skipJsonSpaces_cons (by decide)]
  simp only [ne_eq, not_true_eq_false, if_false]
  rw [skipJsonSpaces_append m.beforeValue.blank, skipJsonSpaces_cons (by decide)]
  simp only [not_true_eq_false, if_false]
  rw [readString_escaped]

/-- Behind a value stands no other value. -/
theorem memberValue_none {ch : UInt8} (h : ∀ c ∈ blanks, isJsonSpace c = true)
    (hspace : isJsonSpace ch = false) (hch : ch ≠ colon) :
    memberValue cap (blanks ++ ch :: rest) = none := by
  rw [memberValue, skipJsonSpaces_append h, skipJsonSpaces_cons hspace]
  exact if_pos hch

/-- What the second half of `memberValue` makes of a string. -/
theorem skipJsonSpaces_escaped (s rest : List UInt8) :
    (∃ body, skipJsonSpaces (escaped s ++ quote :: rest) = quote :: body) ↔
      s.all (· == ' '.toUInt8) = true := by
  induction s with
  | nil =>
    rw [escaped_nil, List.nil_append, skipJsonSpaces_cons (by decide)]
    exact ⟨fun _ => rfl, fun _ => ⟨rest, rfl⟩⟩
  | cons ch s ih =>
    rw [escaped_cons, List.all_cons, Bool.and_eq_true, beq_iff_eq, List.append_assoc]
    rcases jsonEscape_cases ch with ⟨hplain, hquote, -, hspace⟩ | ⟨esc, hesc, -, -, hne, -⟩
    · rw [hplain]
      by_cases hch : ch = ' '.toUInt8
      · subst hch
        rw [skipJsonSpaces_append (List.forall_mem_singleton.mpr (by decide)), ih]
        exact ⟨fun h => ⟨rfl, h⟩, fun h => h.2⟩
      · have hno : isJsonSpace ch = false := by
          by_contra hyes
          exact hch (hspace (by simpa using hyes))
        rw [List.singleton_append, skipJsonSpaces_cons hno]
        constructor
        · rintro ⟨body, hbody⟩
          exact absurd (List.cons.inj hbody).1 hquote
        · exact fun h => absurd h.1 hch
    · rw [hesc, List.cons_append, skipJsonSpaces_cons (by decide)]
      constructor
      · rintro ⟨body, hbody⟩
        exact absurd (List.cons.inj hbody).1 (by decide)
      · exact fun h => absurd h.1 hne

/-- A string is taken for what stands behind a key if it is a colon with spaces around it. -/
theorem memberValue_escaped (s rest : List UInt8) :
    memberValue cap (escaped s ++ quote :: rest) =
      if isColonText s then some (readString (cap - 1) rest) else none := by
  induction s with
  | nil =>
    have hblank : ∀ ch ∈ ([] : List UInt8), isJsonSpace ch = true := by simp
    exact memberValue_none hblank (by decide) (by decide)
  | cons ch s ih =>
    rw [escaped_cons, List.append_assoc]
    rcases jsonEscape_cases ch with ⟨hplain, hquote, -, hspace⟩ | ⟨esc, hesc, -, -, hne, hcolon⟩
    · rw [hplain]
      by_cases hch : ch = ' '.toUInt8
      · -- A space in front changes nothing.
        subst hch
        have hsame : isColonText (' '.toUInt8 :: s) = isColonText s := rfl
        rw [hsame, ← ih, memberValue, memberValue,
          skipJsonSpaces_append (List.forall_mem_singleton.mpr (by decide))]
      · have hno : isJsonSpace ch = false := by
          by_contra hyes
          exact hch (hspace (by simpa using hyes))
        have htext : isColonText (ch :: s) = (ch == colon && s.all (· == ' '.toUInt8)) := by
          rw [isColonText, List.dropWhile_cons_of_neg (by simp [hch])]
        rw [htext, List.singleton_append, memberValue, skipJsonSpaces_cons hno]
        by_cases hcol : ch = colon
        · subst hcol
          simp only [ne_eq, not_true_eq_false, if_false, beq_self_eq_true, Bool.true_and]
          by_cases hall : s.all (· == ' '.toUInt8) = true
          · have hs : ∀ c ∈ escaped s, isJsonSpace c = true := by
              intro c hc
              obtain ⟨d, hd, hdc⟩ := List.mem_flatMap.mp hc
              have hspaceD : d = ' '.toUInt8 := by simpa using List.all_eq_true.mp hall d hd
              rw [hspaceD] at hdc
              rw [List.mem_singleton.mp hdc]
              decide
            rw [if_pos hall, skipJsonSpaces_append hs, skipJsonSpaces_cons (by decide)]
            simp only [not_true_eq_false, if_false]
          · rw [if_neg hall]
            have hnone := mt (skipJsonSpaces_escaped s rest).mp hall
            split
            · rfl
            · rename_i c body hbody
              refine if_pos fun hc => hnone ⟨body, ?_⟩
              rw [hbody, hc]
        · simp [hcol]
    · have htext : isColonText (ch :: s) = false := by
        rw [isColonText, List.dropWhile_cons_of_neg (by simp [hne])]
        show (ch == colon && _) = false
        rw [beq_eq_false_iff_ne.mpr hcolon, Bool.false_and]
      have hblank : ∀ c ∈ ([] : List UInt8), isJsonSpace c = true := by simp
      rw [htext, hesc]
      exact memberValue_none hblank (by decide) (by decide)

end Behind

/-! ### The search -/

section Search

variable {cap : Nat} {key s gap rest : List UInt8}

/-- The pattern of a key. -/
def keyPattern (key : List UInt8) : List UInt8 := quote :: key ++ [quote]

/-- The search goes on from quote to quote. -/
theorem searchMember_skip (h : quote ∉ gap) :
    searchMember (keyPattern key) cap (gap ++ rest) = searchMember (keyPattern key) cap rest := by
  induction gap with
  | nil => rfl
  | cons ch gap ih =>
    have hne : quote ≠ ch := fun heq => h (heq ▸ List.mem_cons_self)
    have hno : ¬ keyPattern key <+: ch :: (gap ++ rest) := by
      intro hpre
      exact hne (List.cons_prefix_cons.mp hpre).1
    rw [List.cons_append, searchMember, memberAt, if_neg hno, Option.none_or,
      ih fun hmem => h (List.mem_cons_of_mem _ hmem)]

/-- A match at a quote, in front of text without quotes up to the next one. -/
theorem memberAt_gap (hgap : quote ∉ gap) (hkey : quote ∉ key) :
    memberAt (keyPattern key) cap (quote :: (gap ++ quote :: rest)) =
      if gap = key then memberValue cap rest else none := by
  have hiff : keyPattern key <+: quote :: (gap ++ quote :: rest) ↔ gap = key := by
    rw [keyPattern, List.cons_append, List.cons_prefix_cons]
    constructor
    · -- Both texts end at their first quote.
      rintro ⟨-, t, ht⟩
      rw [List.append_assoc] at ht
      have htake : ∀ (l r : List UInt8), quote ∉ l →
          (l ++ quote :: r).takeWhile (· != quote) = l := by
        intro l r hl
        rw [List.takeWhile_append_of_pos]
        · simp
        · intro c hc
          have hne : c ≠ quote := fun heq => hl (heq ▸ hc)
          simpa using hne
      have hl := htake key t hkey
      have hr := htake gap rest hgap
      rw [List.singleton_append] at ht
      rw [ht] at hl
      rw [← hl, hr]
    · rintro rfl
      exact ⟨rfl, rest, by simp⟩
  rw [memberAt]
  by_cases heq : gap = key
  · have hdrop : (quote :: (gap ++ quote :: rest)).drop (keyPattern key).length = rest := by
      rw [heq, keyPattern]
      simp
    rw [if_pos (hiff.mpr heq), if_pos heq, hdrop]
  · rw [if_neg (mt hiff.mp heq), if_neg heq]

/-- The key is written as it is, and so is a string that a match ends with. -/
theorem prefix_escaped (hkey : ∀ ch ∈ key, jsonEscape ch = [ch]) :
    key ++ [quote] <+: escaped s ++ quote :: rest ↔ s = key := by
  induction key generalizing s with
  | nil =>
    cases s with
    | nil => exact ⟨fun _ => rfl, fun _ => ⟨rest, rfl⟩⟩
    | cons ch s =>
      refine ⟨fun hpre => ?_, fun h => absurd h (List.cons_ne_nil _ _)⟩
      rcases jsonEscape_cases ch with ⟨hplain, hquote, -, -⟩ | ⟨esc, hesc, -, -, -, -⟩
      · rw [escaped_cons, hplain] at hpre
        exact absurd (List.cons_prefix_cons.mp hpre).1.symm hquote
      · rw [escaped_cons, hesc] at hpre
        exact absurd (List.cons_prefix_cons.mp hpre).1 (by decide)
  | cons k key ih =>
    have hk : jsonEscape k = [k] := hkey k List.mem_cons_self
    have hkq : k ≠ quote := by
      rintro rfl
      exact absurd hk (by decide)
    cases s with
    | nil =>
      refine ⟨fun hpre => ?_, fun h => absurd h.symm (List.cons_ne_nil _ _)⟩
      exact absurd (List.cons_prefix_cons.mp hpre).1 hkq
    | cons ch s =>
      rw [escaped_cons, List.append_assoc, List.cons_append, List.cons.injEq]
      rcases jsonEscape_cases ch with ⟨hplain, -, -, -⟩ | ⟨esc, hesc, -, -, -, -⟩
      · rw [hplain, List.singleton_append, List.cons_prefix_cons,
          ih fun c hc => hkey c (List.mem_cons_of_mem _ hc)]
        exact ⟨fun h => ⟨h.1.symm, h.2⟩, fun h => ⟨h.1.symm, h.2⟩⟩
      · rw [hesc, List.cons_append, List.cons_prefix_cons]
        constructor
        · rintro ⟨rfl, -⟩
          exact absurd hk (by decide)
        · rintro ⟨rfl, -⟩
          rw [hk] at hesc
          exact absurd (congrArg List.length hesc) (by simp)

/-- A plain key is written as it is. -/
theorem escaped_plain (hkey : ∀ ch ∈ key, jsonEscape ch = [ch]) : escaped key = key := by
  induction key with
  | nil => rfl
  | cons ch key ih =>
    rw [escaped_cons, hkey ch List.mem_cons_self, ih fun c hc => hkey c (List.mem_cons_of_mem _ hc)]
    rfl

/-- A match at a quote in front of the inside of a string. -/
theorem memberAt_escaped (hkey : ∀ ch ∈ key, jsonEscape ch = [ch]) :
    memberAt (keyPattern key) cap (quote :: (escaped s ++ quote :: rest)) =
      if s = key then memberValue cap rest else none := by
  have hiff : keyPattern key <+: quote :: (escaped s ++ quote :: rest) ↔ s = key := by
    rw [keyPattern, List.cons_append, List.cons_prefix_cons, prefix_escaped hkey]
    exact ⟨fun h => h.2, fun h => ⟨rfl, h⟩⟩
  rw [memberAt]
  by_cases heq : s = key
  · have hdrop : (quote :: (escaped s ++ quote :: rest)).drop (keyPattern key).length = rest := by
      rw [heq, escaped_plain hkey, keyPattern]
      simp
    rw [if_pos (hiff.mpr heq), if_pos heq, hdrop]
  · rw [if_neg (mt hiff.mp heq), if_neg heq]

/-- The two ways to the same value are one. -/
theorem or_ite_same {α : Type} (p q : Prop) [Decidable p] [Decidable q] (v : Option α) :
    (if p then v else none).or (if q then v else none) = if p ∨ q then v else none := by
  by_cases hp : p
  · rw [if_pos hp, if_pos (Or.inl hp)]
    split
    · cases v with
      | none => rfl
      | some a => rfl
    · exact Option.or_none
  · rw [if_neg hp, Option.none_or]
    exact if_congr ⟨Or.inr, fun h => h.resolve_left hp⟩ rfl rfl

/-- The search through the inside of a string stops at a quote of it with the key behind. -/
theorem searchMember_escaped (hkey : ∀ ch ∈ key, jsonEscape ch = [ch]) :
    searchMember (keyPattern key) cap (escaped s ++ quote :: rest) =
      (if quote :: key <:+ s then memberValue cap rest else none).or
        (searchMember (keyPattern key) cap (quote :: rest)) := by
  induction s with
  | nil =>
    have hno : ¬ quote :: key <:+ ([] : List UInt8) := by simp
    rw [if_neg hno, Option.none_or]
    rfl
  | cons ch s ih =>
    rw [escaped_cons, List.append_assoc]
    rcases jsonEscape_cases ch with ⟨hplain, hquote, -, -⟩ | ⟨esc, hesc, -, hiff, -, -⟩
    · have hsuf : quote :: key <:+ ch :: s ↔ quote :: key <:+ s := by
        rw [List.suffix_cons_iff, List.cons.injEq]
        exact ⟨fun h => h.resolve_left fun h => hquote h.1.symm, Or.inr⟩
      have hno : quote ∉ [ch] := fun hmem => hquote (List.mem_singleton.mp hmem).symm
      rw [hplain, searchMember_skip hno, ih]
      simp only [hsuf]
    · by_cases hq : ch = quote
      · -- An escaped quote: behind its backslash the rest is like a string of its own.
        have hsuf : quote :: key <:+ ch :: s ↔ s = key ∨ quote :: key <:+ s := by
          rw [List.suffix_cons_iff, List.cons.injEq, hq]
          exact or_congr_left ⟨fun h => h.2.symm, fun h => ⟨rfl, h.symm⟩⟩
        have hno : quote ∉ [backslash] := by decide
        rw [hesc, hiff.mpr hq]
        show searchMember _ _ ([backslash] ++ quote :: (escaped s ++ quote :: rest)) = _
        rw [searchMember_skip hno, searchMember, memberAt_escaped hkey, ih, ← Option.or_assoc,
          or_ite_same]
        simp only [hsuf]
      · have hsuf : quote :: key <:+ ch :: s ↔ quote :: key <:+ s := by
          rw [List.suffix_cons_iff, List.cons.injEq]
          exact ⟨fun h => h.resolve_left fun h => hq h.1.symm, Or.inr⟩
        have hno : quote ∉ [backslash, esc] := by
          intro hmem
          rcases List.mem_cons.mp hmem with h | h
          · exact absurd h (by decide)
          · exact hq (hiff.mp (List.mem_singleton.mp h).symm)
        rw [hesc, searchMember_skip hno, ih]
        simp only [hsuf]

/-- The search through a string in quotes. -/
theorem searchMember_quoted (hkey : ∀ ch ∈ key, jsonEscape ch = [ch]) :
    searchMember (keyPattern key) cap (quoted s ++ rest) =
      (if s = key ∨ quote :: key <:+ s then memberValue cap rest else none).or
        (searchMember (keyPattern key) cap (quote :: rest)) := by
  have htext : quoted s ++ rest = quote :: (escaped s ++ quote :: rest) := by simp [quoted]
  rw [htext, searchMember, memberAt_escaped hkey, searchMember_escaped hkey, ← Option.or_assoc,
    or_ite_same]

/-- The search from a quote that closes a string up to the next string. -/
theorem searchMember_gap (hgap : quote ∉ gap) (hkey : quote ∉ key) :
    searchMember (keyPattern key) cap (quote :: (gap ++ (quoted s ++ rest))) =
      (if gap = key ∧ isColonText s then some (readString (cap - 1) rest) else none).or
        (searchMember (keyPattern key) cap (quoted s ++ rest)) := by
  have htext : quoted s ++ rest = quote :: (escaped s ++ quote :: rest) := by simp [quoted]
  rw [searchMember, searchMember_skip hgap, htext, memberAt_gap hgap hkey, memberValue_escaped]
  congr 1
  by_cases hg : gap = key
  · rw [if_pos hg]
    exact if_congr ⟨fun h => ⟨hg, h⟩, fun h => h.2⟩ rfl rfl
  · rw [if_neg hg, if_neg fun h => hg h.1]

/-- Nothing is found where only the last quote is left. -/
theorem searchMember_last (hgap : quote ∉ gap) :
    searchMember (keyPattern key) cap (quote :: gap) = none := by
  have hno : ¬ keyPattern key <+: quote :: gap := by
    intro hpre
    have hmem := (List.cons_prefix_cons.mp hpre).2.subset
      (List.mem_append_right key (List.mem_singleton.mpr rfl))
    exact hgap hmem
  have hskip : searchMember (keyPattern key) cap (gap ++ []) = none := searchMember_skip hgap
  rw [List.append_nil] at hskip
  rw [searchMember, memberAt, if_neg hno, Option.none_or, hskip]

end Search

/-! ### Members -/

section Members

variable {cap : Nat} {key close : List UInt8} {m next : JsonMember} {rest : List JsonMember}

/-- A blank is neither a quote nor a backslash. -/
theorem not_special_of_space {ch : UInt8} (h : isJsonSpace ch = true) :
    ch ≠ quote ∧ ch ≠ backslash := by
  constructor
  · rintro rfl
    exact absurd h (by decide)
  · rintro rfl
    exact absurd h (by decide)

/-- Blanks with a colon, comma or brace behind, and more blanks. -/
theorem not_special_of_gap (b c : Blanks) {sep : UInt8} (hsep : sep ≠ quote ∧ sep ≠ backslash) :
    ∀ ch ∈ b.chars ++ sep :: c.chars, ch ≠ quote ∧ ch ≠ backslash := by
  intro ch hch
  rcases List.mem_append.mp hch with hch | hch
  · exact not_special_of_space (b.blank ch hch)
  · rcases List.mem_cons.mp hch with rfl | hch
    · exact hsep
    · exact not_special_of_space (c.blank ch hch)

/-- A text without special characters has no quote. -/
theorem quote_not_mem {s : List UInt8} (h : ∀ ch ∈ s, ch ≠ quote ∧ ch ≠ backslash) : quote ∉ s :=
  fun hmem => (h quote hmem).1 rfl

/-- There is none between a key and its value. -/
theorem keyGap_plain (m : JsonMember) : ∀ ch ∈ m.keyGap, ch ≠ quote ∧ ch ≠ backslash :=
  not_special_of_gap m.afterKey m.beforeValue (by decide)

/-- There is none between a value and the next key. -/
theorem valueGap_plain (m : JsonMember) (rest : List JsonMember) (after : Blanks) :
    ∀ ch ∈ m.valueGap ('}'.toUInt8 :: after.chars) rest, ch ≠ quote ∧ ch ≠ backslash := by
  cases rest with
  | nil => exact not_special_of_gap m.afterValue after (by decide)
  | cons next rest => exact not_special_of_gap m.afterValue next.beforeKey (by decide)

/-- What stands behind the value of a member. -/
def behindValue (close : List UInt8) (m : JsonMember) : List JsonMember → List UInt8
  | [] => m.afterValue.chars ++ close
  | next :: rest => m.afterValue.chars ++ comma :: membersText close (next :: rest)

/-- The text of the first member. -/
theorem membersText_cons (close : List UInt8) (m : JsonMember) (rest : List JsonMember) :
    membersText close (m :: rest) = m.beforeKey.chars ++ (quoted m.key.chars ++
      (m.keyGap ++ (quoted m.value.chars ++ behindValue close m rest))) := by
  cases rest with
  | nil => simp [membersText, JsonMember.text, behindValue]
  | cons next rest => simp [membersText, JsonMember.text, behindValue]

/-- Between two members stands a gap without quotes. -/
theorem behindValue_cons (close : List UInt8) (m next : JsonMember) (rest : List JsonMember) :
    behindValue close m (next :: rest) = m.valueGap close (next :: rest) ++
      (quoted next.key.chars ++ (next.keyGap ++
        (quoted next.value.chars ++ behindValue close next rest))) := by
  rw [behindValue, membersText_cons, JsonMember.valueGap]
  simp

/-- The first of some texts, cut to the buffer. -/
def firstText (cap : Nat) (texts : List (List UInt8)) : Option (List UInt8) :=
  texts.head?.map (List.take (cap - 1))

/-- The first text of two lists. -/
theorem firstText_append (a b : List (List UInt8)) :
    firstText cap (a ++ b) = (firstText cap a).or (firstText cap b) := by
  rw [firstText, List.head?_append, Option.map_or]
  rfl

/-- The first text of a list of one at most. -/
theorem firstText_ite (p : Prop) [Decidable p] (text : List UInt8) :
    firstText cap (if p then [text] else []) = if p then some (text.take (cap - 1)) else none := by
  by_cases hp : p
  · rw [if_pos hp, if_pos hp]
    rfl
  · rw [if_neg hp, if_neg hp]
    rfl

/-- The search from the quote that closes a value to the next member. -/
theorem searchMember_next (hquote : quote ∉ key) (m next : JsonMember) (rest : List JsonMember)
    (after : Blanks) :
    searchMember (keyPattern key) cap
        (quote :: behindValue ('}'.toUInt8 :: after.chars) m (next :: rest)) =
      (firstText cap (mistakenNext key m (next :: rest))).or
        (searchMember (keyPattern key) cap
          (membersText ('}'.toUInt8 :: after.chars) (next :: rest))) := by
  have hplain := valueGap_plain m (next :: rest) after
  have hread : ∀ tail, readString (cap - 1) (next.keyGap ++ (quoted next.value.chars ++ tail)) =
      next.keyGap.take (cap - 1) := by
    intro tail
    exact readString_plain (cap - 1) (keyGap_plain next) (Or.inr ⟨_, rfl⟩)
  have hblank : quote ∉ next.beforeKey.chars := fun hmem =>
    (not_special_of_space (next.beforeKey.blank _ hmem)).1 rfl
  rw [behindValue_cons, searchMember_gap (quote_not_mem hplain) hquote, hread, membersText_cons,
    searchMember_skip hblank, mistakenNext, firstText_ite]
  rfl

/-- What the search makes of the members: the first of the candidates. -/
theorem searchMember_membersText (hkey : ∀ ch ∈ key, jsonEscape ch = [ch]) (hquote : quote ∉ key)
    (after : Blanks) (members : List JsonMember) :
    searchMember (keyPattern key) cap (membersText ('}'.toUInt8 :: after.chars) members) =
      (firstText cap (mistakenTexts key ('}'.toUInt8 :: after.chars) members)).or
        ((members.find? fun m => m.key.chars == key).map fun m => m.value.chars.take
          (cap - 1)) := by
  induction members with
  | nil =>
    have hno : quote ∉ '}'.toUInt8 :: after.chars := by
      intro hmem
      rcases List.mem_cons.mp hmem with h | h
      · exact absurd h (by decide)
      · exact (not_special_of_space (after.blank _ h)).1 rfl
    have hskip : searchMember (keyPattern key) cap ('}'.toUInt8 :: after.chars ++ []) = none :=
      searchMember_skip hno
    rw [List.append_nil] at hskip
    exact hskip
  | cons m rest ih =>
    have hblank : quote ∉ m.beforeKey.chars := fun hmem =>
      (not_special_of_space (m.beforeKey.blank _ hmem)).1 rfl
    rw [membersText_cons, searchMember_skip hblank, searchMember_quoted hkey, memberValue_member,
      mistakenTexts]
    by_cases hm : m.key.chars = key
    · -- The member itself.
      rw [if_pos (Or.inl hm), if_pos hm, List.find?_cons_of_pos (by simpa using hm)]
      rfl
    · -- Nothing is found at the value: no colon stands behind it.
      have hvalue : memberValue cap (behindValue ('}'.toUInt8 :: after.chars) m rest) = none := by
        cases rest with
        | nil => exact memberValue_none m.afterValue.blank (by decide) (by decide)
        | cons next rest => exact memberValue_none m.afterValue.blank (by decide) (by decide)
      have hread : readString (cap - 1) (behindValue ('}'.toUInt8 :: after.chars) m rest) =
          (m.valueGap ('}'.toUInt8 :: after.chars) rest).take (cap - 1) := by
        have hplain := valueGap_plain m rest after
        cases rest with
        | nil =>
          have h := readString_plain (cap - 1) hplain (Or.inl rfl)
          rw [List.append_nil] at h
          exact h
        | cons next rest =>
          rw [behindValue_cons]
          exact readString_plain (cap - 1) hplain (Or.inr ⟨_, rfl⟩)
      -- Behind the value come the gap and the other members.
      have hrest : searchMember (keyPattern key) cap
          (quote :: behindValue ('}'.toUInt8 :: after.chars) m rest) =
          (firstText cap (mistakenNext key m rest)).or
            ((firstText cap (mistakenTexts key ('}'.toUInt8 :: after.chars) rest)).or
              ((rest.find? fun m => m.key.chars == key).map
                fun m => m.value.chars.take (cap - 1))) := by
        cases rest with
        | nil => exact searchMember_last (quote_not_mem (valueGap_plain m [] after))
        | cons next rest => rw [searchMember_next hquote, ih]
      rw [if_neg hm, List.find?_cons_of_neg (by simpa using hm),
        searchMember_gap (quote_not_mem (keyGap_plain m)) hquote, searchMember_quoted hkey, hvalue,
        hread, hrest, ite_self, Option.none_or]
      simp only [firstText_append, mistakenKey, mistakenValue, firstText_ite, Option.or_assoc, hm,
        false_or]

end Members

/-! ### Requests -/

/-- A plain key has no quote. -/
theorem not_quote_of_plain {key : List UInt8} (hkey : ∀ ch ∈ key, jsonEscape ch = [ch]) :
    quote ∉ key := by
  intro hmem
  exact absurd (hkey quote hmem) (by decide)

/-- What is extracted from an object: the first of the candidates. -/
theorem jsonExtractStringBuffer_object (o : JsonObject) (key : PlainKey) {cap : Nat}
    (hcap : 0 < cap) :
    jsonExtractStringBuffer o.request key.cString cap =
      (firstText cap (mistakenTexts key.chars o.close o.members)).or
        ((o.lookup key.chars).map (List.take (cap - 1))) := by
  have hkey : ∀ ch ∈ key.chars, jsonEscape ch = [ch] := fun ch hch => (key.plain ch hch).2
  have hshort : ¬ key.cString.chars.length + 3 ≥ JSON_PATTERN_SIZE := by
    have h := key.short
    unfold JSON_PATTERN_SIZE
    show ¬ key.chars.length + 3 ≥ 32
    omega
  have hbefore : quote ∉ o.before.chars ++ '{'.toUInt8 :: o.inner.chars :=
    quote_not_mem (not_special_of_gap o.before o.inner (by decide))
  have htext : o.text = (o.before.chars ++ '{'.toUInt8 :: o.inner.chars) ++
      membersText o.close o.members := by
    simp [JsonObject.text]
  rw [jsonExtractStringBuffer, if_neg (Nat.pos_iff_ne_zero.mp hcap), if_neg hshort]
  show searchMember (keyPattern key.chars) cap o.text = _
  rw [htext, searchMember_skip hbefore, JsonObject.lookup, Option.map_map]
  exact searchMember_membersText hkey (not_quote_of_plain hkey) o.after o.members

/-- `json_extract_string_buffer` extracts the value of the first member with the key if and only
if no other text is mistaken for it. -/
theorem json_extract_exact (o : JsonObject) (key : PlainKey) (outCap : Nat) :
    ExtractsMember o key outCap ↔ NotMistaken o key outCap := by
  rcases Nat.eq_zero_or_pos outCap with rfl | hcap
  · -- Without a buffer nothing is extracted.
    have hnone : jsonExtractStringBuffer o.request key.cString 0 = none := if_pos rfl
    rw [ExtractsMember, hnone]
    constructor
    · intro h
      exact ⟨fun _ => Option.map_eq_none_iff.mp h.symm, fun hpos => absurd hpos (Nat.lt_irrefl 0)⟩
    · intro h
      rw [h.buffer rfl]
      rfl
  · rw [ExtractsMember, jsonExtractStringBuffer_object o key hcap]
    -- With a buffer the condition is about the first text that the scan can mistake.
    have hcond : NotMistaken o key outCap ↔
        ∀ text ∈ (mistakenTexts key.chars o.close o.members).head?,
          (o.lookup key.chars).map (List.take (outCap - 1)) = some (text.take (outCap - 1)) :=
      ⟨fun h => h.same hcap, fun h => ⟨fun h0 => by omega, fun _ => h⟩⟩
    rw [hcond, firstText]
    cases (mistakenTexts key.chars o.close o.members).head? with
    | none => exact ⟨fun _ _ h => absurd h (by simp), fun _ => Option.none_or⟩
    | some text =>
      rw [Option.map_some, Option.some_or]
      constructor
      · intro h other hother
        rw [Option.mem_some_iff.mp hother] at h
        exact h.symm
      · intro h
        exact (h text rfl).symm

/-- The object `{"a\"op":"get"}`, with the quote as a part of the only key. -/
def quotedKeyObject : JsonObject :=
  ⟨⟨[], by simp⟩, ⟨[], by simp⟩,
    [⟨⟨[], by simp⟩, ⟨ascii "a\"op", by decide⟩, ⟨[], by simp⟩, ⟨[], by simp⟩,
      ⟨ascii "get", by decide⟩, ⟨[], by simp⟩⟩],
    ⟨[], by simp⟩⟩

/-- It has no member `op`, but a value is extracted for it. -/
theorem quoted_key_mistaken :
    ¬ ExtractsMember quotedKeyObject ⟨ascii "op", by decide, by simp [ascii]; decide⟩ 64 := by
  decide

end VKernel.Proofs.Kobj

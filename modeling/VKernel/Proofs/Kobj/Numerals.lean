import Mathlib.Data.Nat.Digits.Lemmas
import VKernel.Kobj.ObjectTree

/-!
# `VKernel.Proofs.Kobj.Numerals`: numbers as segments of a path

`numericChild` shows a number by the digits of `render_u64`, and the resolvers read it back with
`parse_u64_segment`. Both are brought to one number of the digits:

* `parseU64Segment_eq_some`: the parser accepts the nonempty texts of digits, and its result is
  `decimalValue` up to wrapping;
* `renderU64_eq`: the text is the list `Nat.digits` in reverse;
* `parseU64Segment_numericChild` and `numericChild_of_parse`: a shown number is read back, and
  a plain numeral that is read is the text that shows its number.
-/

set_option autoImplicit false

namespace VKernel.Proofs.Kobj

open VKernel VKernel.Kobj

/-- The number of a digit. -/
def digitValue (c : UInt8) : Nat := (c - '0'.toUInt8).toNat

/-- The character of a digit. -/
def digitChar (n : Nat) : UInt8 := '0'.toUInt8 + n.toUInt8

theorem isDigit_iff (c : UInt8) : IsDigit c ↔ 48 ≤ c.toNat ∧ c.toNat ≤ 57 := by
  rw [IsDigit, UInt8.le_iff_toNat_le, UInt8.le_iff_toNat_le]
  exact Iff.rfl

theorem digitValue_eq {c : UInt8} (hc : IsDigit c) : digitValue c = c.toNat - 48 := by
  have h := (isDigit_iff c).mp hc
  have hle : '0'.toUInt8 ≤ c := hc.1
  rw [digitValue, UInt8.toNat_sub_of_le _ _ hle]
  rfl

theorem digitValue_lt {c : UInt8} (hc : IsDigit c) : digitValue c < 10 := by
  have h := (isDigit_iff c).mp hc
  rw [digitValue_eq hc]
  omega

theorem digitChar_toNat {n : Nat} (hn : n < 10) : (digitChar n).toNat = 48 + n := by
  rw [digitChar, UInt8.toNat_add]
  show (48 + n % 256) % 256 = 48 + n
  omega

theorem isDigit_digitChar {n : Nat} (hn : n < 10) : IsDigit (digitChar n) := by
  rw [isDigit_iff, digitChar_toNat hn]
  omega

theorem digitValue_digitChar {n : Nat} (hn : n < 10) : digitValue (digitChar n) = n := by
  rw [digitValue_eq (isDigit_digitChar hn), digitChar_toNat hn]
  omega

theorem digitChar_digitValue {c : UInt8} (hc : IsDigit c) : digitChar (digitValue c) = c := by
  have h := (isDigit_iff c).mp hc
  apply UInt8.toNat_inj.mp
  rw [digitChar_toNat (digitValue_lt hc), digitValue_eq hc]
  omega

/-! ### Parsing -/

/-- A digit string is read from the left, so the value of a longer one starts from that of the
front. -/
theorem parseDigits_eq {s : List UInt8} (hs : ∀ c ∈ s, IsDigit c) (value : Nat) :
    parseDigits (value % U64) s =
      some (s.foldl (fun value c => value * 10 + digitValue c) value % U64) := by
  induction s generalizing value with
  | nil => rfl
  | cons c rest ih =>
    have hc : ¬ (c < '0'.toUInt8 ∨ c > '9'.toUInt8) := by
      have h := hs c (List.mem_cons_self ..)
      rintro (hlow | hhigh)
      · exact absurd h.1 (UInt8.not_le.mpr hlow)
      · exact absurd h.2 (UInt8.not_le.mpr hhigh)
    rw [parseDigits, if_neg hc]
    have hstep : add64 (value % U64 * 10 % U64) (c - '0'.toUInt8).toNat =
        (value * 10 + digitValue c) % U64 := by
      rw [add64, Nat.mod_mul_mod, Nat.mod_add_mod]
      rfl
    rw [hstep, ih fun c hc => hs c (List.mem_cons_of_mem _ hc)]
    rfl

/-- Only digits are parsed. -/
theorem isDigit_of_parseDigits {s : List UInt8} {value v : Nat}
    (h : parseDigits value s = some v) : ∀ c ∈ s, IsDigit c := by
  induction s generalizing value with
  | nil => simp
  | cons c rest ih =>
    rw [parseDigits] at h
    split at h
    · cases h
    · rename_i hc
      rw [not_or, UInt8.not_lt, UInt8.not_lt] at hc
      exact List.forall_mem_cons.mpr ⟨⟨hc.1, hc.2⟩, ih h⟩

/-- What `parse_u64_segment` accepts, and its value modulo `2 ^ 64`. -/
theorem parseU64Segment_eq_some {s : List UInt8} {v : Nat} :
    parseU64Segment s = some v ↔
      s ≠ [] ∧ (∀ c ∈ s, IsDigit c) ∧ v = decimalValue s % U64 := by
  rw [parseU64Segment]
  by_cases hs : s = []
  · simp [hs]
  · rw [if_neg hs]
    have hzero : parseDigits 0 s = parseDigits (0 % U64) s := by rw [Nat.zero_mod]
    constructor
    · intro h
      have hdigits := isDigit_of_parseDigits h
      rw [hzero, parseDigits_eq hdigits] at h
      exact ⟨hs, hdigits, (Option.some.inj h).symm⟩
    · rintro ⟨-, hdigits, rfl⟩
      rw [hzero, parseDigits_eq hdigits]
      rfl

/-! ### Rendering -/

/-- The digits that are rendered are those of the base ten. -/
theorem renderDigits_eq {room v : Nat} (hv : v < 10 ^ room) :
    renderDigits room v = (Nat.digits 10 v).map digitChar := by
  induction room generalizing v with
  | zero =>
    have hzero : v = 0 := by
      rw [pow_zero] at hv
      omega
    rw [hzero, Nat.digits_zero]
    rfl
  | succ room ih =>
    rw [renderDigits]
    by_cases hzero : v = 0
    · rw [if_pos hzero, hzero, Nat.digits_zero]
      rfl
    · have hrest : v / 10 < 10 ^ room := by
        rw [pow_succ] at hv
        omega
      rw [if_neg hzero, Nat.digits_def' (by omega : 1 < 10) (Nat.pos_of_ne_zero hzero), ih hrest,
        List.map_cons]
      rfl

/-- Appending stops only at the end of the buffer. -/
theorem foldl_appendCh {cap : Nat} {text out : List UInt8} (h : out.length + text.length < cap) :
    text.foldl (appendCh cap) out = out ++ text := by
  induction text generalizing out with
  | nil => simp
  | cons c rest ih =>
    rw [List.length_cons] at h
    have hstep : appendCh cap out c = out ++ [c] := if_pos (by omega)
    rw [List.foldl_cons, hstep, ih (by rw [List.length_append, List.length_singleton]; omega)]
    simp

/-- The text of a number: its digits with the highest in front. -/
theorem renderU64_eq {cap v : Nat} (hcap : 20 < cap) (hv : v < U64) :
    renderU64 cap [] v =
      if v = 0 then ['0'.toUInt8] else ((Nat.digits 10 v).map digitChar).reverse := by
  rw [renderU64]
  by_cases hzero : v = 0
  · have hroom : ([] : List UInt8).length + 1 < cap := by
      rw [List.length_nil]
      omega
    rw [if_pos hzero, if_pos hzero]
    exact if_pos hroom
  · have hdigits : v < 10 ^ 20 := by
      rw [U64_eq] at hv
      omega
    have hroom : v < 10 ^ 21 := by omega
    have hlength : (Nat.digits 10 v).length ≤ 20 :=
      (Nat.digits_length_le_iff (by omega) v).mpr hdigits
    rw [if_neg hzero, if_neg hzero, renderDigits_eq hroom, foldl_appendCh, List.nil_append]
    rw [List.length_nil, List.length_reverse, List.length_map]
    omega

/-- The accumulator of the parser, as a number in base ten. -/
theorem foldl_digits (s : List UInt8) :
    s.foldl (fun value c => value * 10 + digitValue c) 0 =
      Nat.ofDigits 10 (s.map digitValue).reverse := by
  induction s using List.reverseRecOn with
  | nil => rfl
  | append_singleton front c ih =>
    rw [List.foldl_append, List.foldl_cons, List.foldl_nil, ih, List.map_append, List.map_singleton,
      List.reverse_append, List.reverse_singleton, List.singleton_append, Nat.ofDigits_cons]
    omega

/-- The value of a numeral, as a number in base ten. -/
theorem decimalValue_eq (s : List UInt8) :
    decimalValue s = Nat.ofDigits 10 (s.map digitValue).reverse := foldl_digits s

/-! ### Both ways -/

/-- The name of a numbered child is not empty. -/
theorem numericChild_ne_nil {v : Nat} (hv : v < U64) : (numericChild v).name.chars ≠ [] := by
  show renderU64 KSTR_MAX [] v ≠ []
  rw [renderU64_eq (by decide) hv]
  split
  · exact List.cons_ne_nil _ _
  · rename_i hzero
    rw [Ne, List.reverse_eq_nil_iff, List.map_eq_nil_iff, Nat.digits_eq_nil_iff_eq_zero]
    exact hzero

/-- It consists of digits. -/
theorem isDigit_of_mem_numericChild {v : Nat} (hv : v < U64) :
    ∀ c ∈ (numericChild v).name.chars, IsDigit c := by
  intro c hc
  change c ∈ renderU64 KSTR_MAX [] v at hc
  rw [renderU64_eq (by decide) hv] at hc
  split at hc
  · rw [List.mem_singleton.mp hc]
    exact isDigit_digitChar (n := 0) (by omega)
  · obtain ⟨n, hn, rfl⟩ := List.mem_map.mp (List.mem_reverse.mp hc)
    exact isDigit_digitChar (Nat.digits_lt_base (by omega) hn)

/-- It is the numeral of the number. -/
theorem decimalValue_numericChild {v : Nat} (hv : v < U64) :
    decimalValue (numericChild v).name.chars = v := by
  show decimalValue (renderU64 KSTR_MAX [] v) = v
  rw [renderU64_eq (by decide) hv, decimalValue_eq]
  split
  · rename_i hzero
    rw [hzero]
    rfl
  · have hvalues : (Nat.digits 10 v).map (digitValue ∘ digitChar) = Nat.digits 10 v := by
      conv_rhs => rw [← List.map_id (Nat.digits 10 v)]
      exact List.map_congr_left fun n hn =>
        digitValue_digitChar (Nat.digits_lt_base (by omega) hn)
    rw [List.map_reverse, List.reverse_reverse, List.map_map, hvalues]
    exact Nat.ofDigits_digits 10 v

/-- A number is read back from the text that shows it. -/
theorem parseU64Segment_numericChild {v : Nat} (hv : v < U64) :
    parseU64Segment (numericChild v).name.chars = some v := by
  rw [parseU64Segment_eq_some]
  refine ⟨numericChild_ne_nil hv, isDigit_of_mem_numericChild hv, ?_⟩
  rw [decimalValue_numericChild hv, Nat.mod_eq_of_lt hv]

/-- Without leading zeros, a text of digits is the text that shows its number. -/
theorem numericChild_decimalValue {s : List UInt8} (hs : s ≠ []) (hdigits : ∀ c ∈ s, IsDigit c)
    (hzeros : s.head? = some '0'.toUInt8 → s = ['0'.toUInt8]) (hvalue : decimalValue s < U64) :
    (numericChild (decimalValue s)).name.chars = s := by
  show renderU64 KSTR_MAX [] (decimalValue s) = s
  rw [renderU64_eq (by decide) hvalue]
  cases s with
  | nil => exact absurd rfl hs
  | cons c rest =>
    by_cases hc : c = '0'.toUInt8
    · rw [hzeros (by rw [hc]; rfl)]
      rfl
    · have hdigit := hdigits c (List.mem_cons_self ..)
      -- The highest digit is not zero, so the digits of the value are those of the text.
      have hlast : ∀ h : ((c :: rest).map digitValue).reverse ≠ [],
          ((c :: rest).map digitValue).reverse.getLast h ≠ 0 := by
        intro h hzero
        rw [List.getLast_reverse, List.head_map, List.head_cons] at hzero
        have hcode := (isDigit_iff c).mp hdigit
        rw [digitValue_eq hdigit] at hzero
        exact hc (UInt8.toNat_inj.mp (by show c.toNat = 48; omega))
      have hdigitsOf : Nat.digits 10 (decimalValue (c :: rest)) =
          ((c :: rest).map digitValue).reverse := by
        rw [decimalValue_eq]
        refine Nat.digits_ofDigits 10 (by omega) _ (fun n hn => ?_) hlast
        obtain ⟨b, hb, rfl⟩ := List.mem_map.mp (List.mem_reverse.mp hn)
        exact digitValue_lt (hdigits b hb)
      have hne : decimalValue (c :: rest) ≠ 0 := by
        intro hzero
        rw [hzero, Nat.digits_zero] at hdigitsOf
        simp at hdigitsOf
      have hchars : (c :: rest).map (digitChar ∘ digitValue) = c :: rest := by
        conv_rhs => rw [← List.map_id (c :: rest)]
        exact List.map_congr_left fun b hb => digitChar_digitValue (hdigits b hb)
      rw [if_neg hne, hdigitsOf, List.map_reverse, List.reverse_reverse, List.map_map, hchars]

/-- A plain numeral that the parser accepts is the text that shows its number. -/
theorem numericChild_of_parse {s : List UInt8} {v : Nat} (hplain : PlainNumeral s)
    (h : parseU64Segment s = some v) : (numericChild v).name.chars = s := by
  obtain ⟨hs, hdigits, hv⟩ := parseU64Segment_eq_some.mp h
  obtain ⟨hzeros, hvalue⟩ := hplain hdigits
  rw [hv, Nat.mod_eq_of_lt hvalue]
  exact numericChild_decimalValue hs hdigits hzeros hvalue

end VKernel.Proofs.Kobj

import Mathlib.Data.List.TakeWhile
import VKernel.Debug.LineMap

/-!
# `VKernel.Proofs.Debug.LineMap`: when the readers of line maps agree

The readers take the same records from a line (`kernel_parseLineRecord_eq`); what differs is the
line that they get. A carriage return at the end of a line is the last byte of the path for the
reader of the kernel, and `lineRecord_append_cr` says what becomes of the record without it.

So the records of the one reader are never longer than those of the other. `pathBytes` counts the
bytes of the paths, and two sequences that are equal have equally many of them: not one line may
have made a difference (`forall_of_filterMap_eq`).
-/

set_option autoImplicit false

namespace VKernel.Debug

/-! ### One line -/

/-- The value of a digit of the range that starts at `first`, with the value `base`. -/
theorem digit_le (base : UInt8) {first last ch : UInt8} (hfirst : first ≤ ch) (hlast : ch ≤ last)
    (hfits : base.toNat + (last.toNat - first.toNat) ≤ 0x0F) : ¬base + (ch - first) > 0x0F := by
  have hfirst' := UInt8.le_iff_toNat_le.mp hfirst
  have hlast' := UInt8.le_iff_toNat_le.mp hlast
  have hsub := UInt8.toNat_sub_of_le _ _ hfirst
  have hadd : (base + (ch - first)).toNat = base.toNat + (ch.toNat - first.toNat) := by
    rw [UInt8.toNat_add, hsub]
    exact Nat.mod_eq_of_lt (by omega)
  show ¬(0x0F : UInt8) < _
  rw [UInt8.lt_iff_toNat_lt, hadd]
  show ¬15 < _
  omega

/-- The readers know the same digits. -/
theorem hexDigit_eq (ch : UInt8) :
    (if KernelDebug.isHexDigit ch then some (KernelDebug.hexValue ch) else none)
      = if ProcessDebug.hexValue ch > 0x0F then none else some (ProcessDebug.hexValue ch) := by
  unfold KernelDebug.isHexDigit KernelDebug.hexValue ProcessDebug.hexValue
  simp only [Bool.or_eq_true, Bool.and_eq_true, decide_eq_true_eq]
  -- The three ranges of digits, and the bytes outside of them.
  by_cases hdec : '0'.toUInt8 ≤ ch ∧ ch ≤ '9'.toUInt8
  · have hle := digit_le 0 hdec.1 hdec.2 (by decide)
    rw [UInt8.zero_add] at hle
    simp only [hdec, and_self, true_or, if_true, hle, if_false]
  · by_cases hlower : 'a'.toUInt8 ≤ ch ∧ ch ≤ 'f'.toUInt8
    · have hle := digit_le 10 hlower.1 hlower.2 (by decide)
      simp only [hdec, hlower, and_self, true_or, or_true, if_true, hle, if_false]
    · by_cases hupper : 'A'.toUInt8 ≤ ch ∧ ch ≤ 'F'.toUInt8
      · have hle := digit_le 10 hupper.1 hupper.2 (by decide)
        simp only [hdec, hlower, hupper, and_self, or_true, if_true, hle, if_false]
      · have hnone : (0xFF : UInt8) > 0x0F := by decide
        simp only [hdec, hlower, hupper, or_self, if_false, hnone, if_true]

theorem kernel_parseHexU64_eq (s : List UInt8) :
    KernelDebug.parseHexU64 s = ProcessDebug.parseHexU64 s := by
  unfold KernelDebug.parseHexU64 ProcessDebug.parseHexU64
  rw [funext hexDigit_eq]

/-- What is in front of the first `ch` and what is behind it. -/
theorem findChar_eq_some {ch : UInt8} {s front rest : List UInt8} :
    findChar ch s = some (front, rest) ↔ s = front ++ ch :: rest ∧ ch ∉ front := by
  have hsplit := List.takeWhile_append_dropWhile (p := (· != ch)) (l := s)
  have hfront : ch ∉ s.takeWhile (· != ch) := by
    intro hmem
    simpa using List.mem_takeWhile_imp hmem
  constructor
  · intro h
    unfold findChar at h
    cases hrest : s.dropWhile (· != ch) with
    | nil =>
      rw [hrest] at h
      cases h
    | cons c more =>
      have hne : s.dropWhile (· != ch) ≠ [] := by
        rw [hrest]
        exact List.cons_ne_nil _ _
      have hc : c = ch := by
        have hnot := List.head_dropWhile_not (· != ch) hne
        simpa [hrest] using hnot
      subst hc
      rw [hrest] at h hsplit
      cases h
      exact ⟨hsplit.symm, hfront⟩
  · rintro ⟨rfl, hnot⟩
    -- No byte in front of it ends the search.
    have hpass : ∀ x ∈ front, (x != ch) = true := by
      intro x hx
      have hne : x ≠ ch := fun h => hnot (h ▸ hx)
      simpa using hne
    have htake : (front ++ ch :: rest).takeWhile (· != ch) = front := by
      rw [List.takeWhile_append_of_pos hpass]
      simp
    have hdrop : (front ++ ch :: rest).dropWhile (· != ch) = ch :: rest := by
      rw [List.dropWhile_append_of_pos hpass]
      simp
    rw [findChar, hdrop, htake]

/-- The form of a record: two fields that end at tabs, and a path that is not empty. -/
theorem lineRecord_eq_some {hex : List UInt8 → Option UInt64} {line : List UInt8}
    {r : LineRecord} :
    lineRecord hex line = some r ↔ ∃ address number, TAB ∉ address ∧ TAB ∉ number ∧
      line = address ++ TAB :: (number ++ TAB :: r.path) ∧ r.path ≠ [] ∧
        hex address = some r.address ∧ parseDecU32 number = some r.line := by
  unfold lineRecord
  simp only [Option.bind_eq_bind, Option.bind_eq_some_iff]
  constructor
  · rintro ⟨⟨address, rest⟩, htab1, ⟨number, path⟩, htab2, h⟩
    obtain ⟨hline, haddress⟩ := findChar_eq_some.mp htab1
    obtain ⟨hrest, hnumber⟩ := findChar_eq_some.mp htab2
    split at h
    · cases h
    · rename_i hpath
      simp only [Option.bind_eq_some_iff, Option.pure_def, Option.some.injEq] at h
      obtain ⟨a, ha, n, hn, rfl⟩ := h
      exact ⟨address, number, haddress, hnumber, by rw [hline, ← hrest], hpath, ha, hn⟩
  · rintro ⟨address, number, haddress, hnumber, rfl, hpath, ha, hn⟩
    refine ⟨_, findChar_eq_some.mpr ⟨rfl, haddress⟩, _, findChar_eq_some.mpr ⟨rfl, hnumber⟩, ?_⟩
    rw [if_neg hpath, ha, hn]
    rfl

/-- More bytes at the end of a record are more bytes of its path. -/
theorem lineRecord_append {hex : List UInt8 → Option UInt64} {line : List UInt8} {r : LineRecord}
    (h : lineRecord hex line = some r) (more : List UInt8) :
    lineRecord hex (line ++ more) = some { r with path := r.path ++ more } := by
  obtain ⟨address, number, haddress, hnumber, rfl, hpath, ha, hn⟩ := lineRecord_eq_some.mp h
  refine lineRecord_eq_some.mpr ⟨address, number, haddress, hnumber, by simp, ?_, ha, hn⟩
  exact List.append_ne_nil_of_left_ne_nil hpath more

/-- A carriage return at the end of a record is the last byte of its path. Without it the path is
shorter, or there is no record. -/
theorem lineRecord_append_cr {hex : List UInt8 → Option UInt64} {line : List UInt8}
    {r : LineRecord} (h : lineRecord hex (line ++ [CR]) = some r) :
    lineRecord hex line = none ∨
      ∃ r', lineRecord hex line = some r' ∧ r'.path.length < r.path.length := by
  cases hline : lineRecord hex line with
  | none => exact .inl rfl
  | some r' =>
    have happend := lineRecord_append hline [CR]
    rw [h] at happend
    cases happend
    exact .inr ⟨r', rfl, by simp⟩

/-- The readers take the same record from a line. -/
theorem kernel_parseLineRecord_eq (line : List UInt8) :
    KernelDebug.parseLineRecord line = ProcessDebug.parseLineRecord line := by
  unfold KernelDebug.parseLineRecord ProcessDebug.parseLineRecord
  rw [funext kernel_parseHexU64_eq]
  split
  · subst line
    rfl
  · rfl

/-- The tests of `attach_lines_from_map` around `parse_line_record` change nothing. -/
theorem acceptLine_eq (line : List UInt8) :
    ProcessDebug.acceptLine line = ProcessDebug.parseLineRecord line := by
  unfold ProcessDebug.acceptLine
  split
  · subst line
    rfl
  · cases hrecord : ProcessDebug.parseLineRecord line with
    | none => rfl
    | some r =>
      obtain ⟨-, -, -, -, -, hpath, -⟩ := lineRecord_eq_some.mp hrecord
      exact if_neg hpath

/-- What the trimmed line gives: the same, or a shorter path, or nothing. -/
theorem trimmed_cases (line : List UInt8) :
    ProcessDebug.parseLineRecord (ProcessDebug.trimCr line) = ProcessDebug.parseLineRecord line ∧
        (line.getLast? = some CR → ProcessDebug.parseLineRecord line = none) ∨
      line.getLast? = some CR ∧ ∃ r, ProcessDebug.parseLineRecord line = some r ∧
        ∀ r', ProcessDebug.parseLineRecord (ProcessDebug.trimCr line) = some r' →
          r'.path.length < r.path.length := by
  unfold ProcessDebug.trimCr
  by_cases hcr : line.getLast? = some CR
  · have hline : line.dropLast ++ [CR] = line := List.dropLast_append_getLast? CR hcr
    rw [if_pos hcr]
    cases hrecord : ProcessDebug.parseLineRecord line with
    | none =>
      -- A record of the trimmed line would be one of the whole line.
      refine .inl ⟨?_, fun _ => rfl⟩
      cases htrimmed : ProcessDebug.parseLineRecord line.dropLast with
      | none => rfl
      | some r' =>
        have happend := lineRecord_append htrimmed [CR]
        rw [hline] at happend
        cases hrecord.symm.trans happend
    | some r =>
      refine .inr ⟨hcr, r, rfl, fun r' hr' => ?_⟩
      rw [← hline] at hrecord
      rcases lineRecord_append_cr hrecord with hnone | ⟨r₁, hr₁, hlt⟩
      · cases hr'.symm.trans hnone
      · cases hr'.symm.trans hr₁
        exact hlt
  · rw [if_neg hcr]
    exact .inl ⟨rfl, fun h => absurd h hcr⟩

/-! ### All lines -/

/-- The bytes that the paths take, each with its end. -/
def pathBytes : List LineRecord → Nat
  | [] => 0
  | r :: rs => r.path.length + 1 + pathBytes rs

/-- Two readers, of which the second one takes the same from a line or less: they take the same from
all of them if that holds of the sequences. -/
theorem forall_of_filterMap_eq {f g : List UInt8 → Option LineRecord} {ls : List (List UInt8)}
    (hless : ∀ line ∈ ls, g line = f line ∨ ∃ r, f line = some r ∧
      ∀ r', g line = some r' → r'.path.length < r.path.length)
    (h : ls.filterMap f = ls.filterMap g) : ∀ line ∈ ls, g line = f line := by
  -- Not more bytes for the second reader, and less as soon as a line makes a difference.
  have hbytes : ∀ ls : List (List UInt8), (∀ line ∈ ls, g line = f line ∨ ∃ r, f line = some r ∧
      ∀ r', g line = some r' → r'.path.length < r.path.length) →
      pathBytes (ls.filterMap g) ≤ pathBytes (ls.filterMap f) ∧
        ((∃ line ∈ ls, g line ≠ f line) →
          pathBytes (ls.filterMap g) < pathBytes (ls.filterMap f)) := by
    intro ls hless
    induction ls with
    | nil => exact ⟨Nat.le_refl _, fun h => by obtain ⟨line, hline, -⟩ := h; cases hline⟩
    | cons line ls ih =>
      have hrest := ih fun l hl => hless l (List.mem_cons_of_mem _ hl)
      rcases hless line List.mem_cons_self with hsame | ⟨r, hf, hg⟩
      · rw [List.filterMap_cons, List.filterMap_cons, hsame]
        have hother : (∃ l ∈ line :: ls, g l ≠ f l) → ∃ l ∈ ls, g l ≠ f l := by
          rintro ⟨l, hl, hne⟩
          rcases List.mem_cons.mp hl with rfl | hl
          · exact absurd hsame hne
          · exact ⟨l, hl, hne⟩
        cases f line with
        | none => exact ⟨hrest.1, fun h => hrest.2 (hother h)⟩
        | some r =>
          exact ⟨Nat.add_le_add_left hrest.1 _,
            fun h => Nat.add_lt_add_left (hrest.2 (hother h)) _⟩
      · rw [List.filterMap_cons_some hf]
        have hlt : pathBytes ((line :: ls).filterMap g)
            < pathBytes (r :: ls.filterMap f) := by
          cases hgl : g line with
          | none =>
            rw [List.filterMap_cons_none hgl, pathBytes]
            have := hrest.1
            omega
          | some r' =>
            rw [List.filterMap_cons_some hgl, pathBytes, pathBytes]
            have := hrest.1
            have := hg r' hgl
            omega
        exact ⟨Nat.le_of_lt hlt, fun _ => hlt⟩
  intro line hline
  by_contra hne
  have hlt := (hbytes ls hless).2 ⟨line, hline, hne⟩
  rw [h] at hlt
  exact Nat.lt_irrefl _ hlt

/-! ### The readers -/

/-- Behind a header that both readers know: they agree when each line gives them the same. -/
theorem filterMap_agree_iff (ls : List (List UInt8)) :
    ls.filterMap KernelDebug.parseLineRecord
        = (ls.map ProcessDebug.trimCr).filterMap ProcessDebug.acceptLine ↔
      ∀ line ∈ ls, line.getLast? = some CR → KernelDebug.parseLineRecord line = none := by
  rw [List.filterMap_map, funext kernel_parseLineRecord_eq, funext acceptLine_eq]
  constructor
  · intro h line hline hcr
    have hless : ∀ l ∈ ls, (ProcessDebug.parseLineRecord ∘ ProcessDebug.trimCr) l
          = ProcessDebug.parseLineRecord l ∨
        ∃ r, ProcessDebug.parseLineRecord l = some r ∧
          ∀ r', (ProcessDebug.parseLineRecord ∘ ProcessDebug.trimCr) l = some r' →
            r'.path.length < r.path.length := by
      intro l _
      rcases trimmed_cases l with ⟨hsame, -⟩ | ⟨-, hshorter⟩
      · exact .inl hsame
      · exact .inr hshorter
    have hsame := forall_of_filterMap_eq hless h line hline
    rcases trimmed_cases line with ⟨-, hnone⟩ | ⟨-, r, hr, hshorter⟩
    · exact hnone hcr
    · -- The path of the trimmed line would be shorter than itself.
      exact absurd (hshorter r (hsame.trans hr)) (Nat.lt_irrefl _)
  · intro h
    apply List.filterMap_congr
    intro line hline
    rcases trimmed_cases line with ⟨hsame, -⟩ | ⟨hcr, r, hr, -⟩
    · exact hsame.symm
    · cases hr.symm.trans (h line hline hcr)

/-- A header with a carriage return is one that only the reader of programs knows. -/
theorem trimCr_eq_vklines1 {header : List UInt8} :
    ProcessDebug.trimCr header = VKLINES1 ↔ header = VKLINES1 ∨ header = VKLINES1 ++ [CR] := by
  unfold ProcessDebug.trimCr
  constructor
  · intro h
    split at h
    · rename_i hcr
      exact .inr (by rw [← h]; exact (List.dropLast_append_getLast? CR hcr).symm)
    · exact .inl h
  · rintro (rfl | rfl)
    · decide
    · decide

/-- A reader that found no record, as an equation. -/
theorem accepted_eq {records records' : List LineRecord} :
    (if records = [] then none else some records)
        = (if records' = [] then none else some records') ↔ records = records' := by
  constructor
  · intro h
    split at h
    · split at h
      · simp_all
      · cases h
    · split at h
      · cases h
      · exact Option.some.inj h
  · rintro rfl
    rfl

/-- The readers take the same records from a text exactly if no carriage return in front of a
newline makes a difference: one at the end of the header, or one at the end of a record. -/
theorem line_readers_agree_iff (text : List UInt8) :
    ReadersAgree text ↔ LineEndingsAgree text := by
  unfold ReadersAgree KernelDebug.extractLines ProcessDebug.extractLines
  unfold KernelDebug.mapLines ProcessDebug.mapLines
  by_cases hempty : text = []
  · subst hempty
    exact ⟨fun _ => ⟨fun h => absurd h (by decide), fun h => absurd h (by decide)⟩, fun _ => rfl⟩
  by_cases hheader : findLineEnd text = VKLINES1
  · -- Both readers know the header.
    have htrim : ProcessDebug.trimCr VKLINES1 = VKLINES1 := trimCr_eq_vklines1.mpr (.inl rfl)
    have hother : findLineEnd text ≠ VKLINES1 ++ [CR] := by
      rw [hheader]
      decide
    simp only [hempty, hheader, htrim, ne_eq, not_true_eq_false, if_false, Option.bind_eq_bind,
      Option.bind_some]
    rw [accepted_eq, filterMap_agree_iff]
    exact ⟨fun h => ⟨fun hcr => absurd hcr hother, fun _ => h⟩, fun h => h.records hheader⟩
  · by_cases hcr : findLineEnd text = VKLINES1 ++ [CR]
    · -- Only the reader of programs knows it.
      have htrim := trimCr_eq_vklines1.mpr (.inr hcr)
      simp only [hempty, hheader, htrim, ne_eq, not_false_eq_true, not_true_eq_false, if_false,
        if_true, Option.bind_eq_bind, Option.bind_none, Option.bind_some]
      rw [List.filterMap_map, funext acceptLine_eq]
      constructor
      · intro h
        refine ⟨fun _ line hline => ?_, fun h' => absurd h' hheader⟩
        split at h
        · rename_i hnil
          exact List.filterMap_eq_nil_iff.mp hnil line hline
        · cases h
      · intro h
        have hnil := List.filterMap_eq_nil_iff.mpr (h.header hcr)
        exact (if_pos hnil).symm
    · -- Neither does.
      have htrim : ProcessDebug.trimCr (findLineEnd text) ≠ VKLINES1 :=
        fun h => (trimCr_eq_vklines1.mp h).elim hheader hcr
      simp only [hempty, hheader, htrim, ne_eq, not_false_eq_true, if_false, if_true,
        Option.bind_eq_bind, Option.bind_none]
      exact ⟨fun _ => ⟨fun h => absurd h hcr, fun h => absurd h hheader⟩, fun _ => trivial⟩

/-- `"vklines1\n10\t7\ta.c\r\n"`: the path is `a.c` with a carriage return behind it, or without. -/
def crlfMap : List UInt8 :=
  VKLINES1 ++ [LF, 0x31, 0x30, TAB, 0x37, TAB, 0x61, 0x2E, 0x63, CR, LF]

/-- A record that ends with a carriage return has two paths. -/
theorem crlf_record_disagrees :
    ¬(∀ text, KernelDebug.extractLines text = ProcessDebug.extractLines text) ∧
      KernelDebug.extractLines crlfMap = some [⟨0x10, 7, [0x61, 0x2E, 0x63, CR]⟩] ∧
      ProcessDebug.extractLines crlfMap = some [⟨0x10, 7, [0x61, 0x2E, 0x63]⟩] := by
  have hlines : lines (nextCursor crlfMap)
      = [[0x31, 0x30, TAB, 0x37, TAB, 0x61, 0x2E, 0x63, CR]] := by
    rw [lines, dif_neg (by decide), lines, dif_pos (by decide)]
    rfl
  have hkernel : KernelDebug.extractLines crlfMap
      = some [⟨0x10, 7, [0x61, 0x2E, 0x63, CR]⟩] := by
    have hmap : KernelDebug.mapLines crlfMap = some (lines (nextCursor crlfMap)) := by
      rw [KernelDebug.mapLines, if_neg (by decide), if_neg (by decide)]
    rw [KernelDebug.extractLines, hmap, hlines]
    decide
  have hprocess : ProcessDebug.extractLines crlfMap
      = some [⟨0x10, 7, [0x61, 0x2E, 0x63]⟩] := by
    have hmap : ProcessDebug.mapLines crlfMap
        = some ((lines (nextCursor crlfMap)).map ProcessDebug.trimCr) := by
      rw [ProcessDebug.mapLines, if_neg (by decide), if_neg (by decide)]
    rw [ProcessDebug.extractLines, hmap, hlines]
    decide
  refine ⟨fun h => ?_, hkernel, hprocess⟩
  have hagree := h crlfMap
  rw [hkernel, hprocess] at hagree
  revert hagree
  decide

end VKernel.Debug

import VKernel.Proofs.Kobj.Closure
import VKernel.Proofs.Kobj.EntryPaths
import VKernel.Proofs.Kobj.Numerals

/-!
# `VKernel.Proofs.Kobj.NumericSegments`: numbers in paths

`numeric_segments_exact` is the result about numbers as segments of a path. What `render_u64`
shows is read back; a numeral is parsed to its number, and leads to the entry with this number,
exactly if the number fits into a `u64`; and a segment that is no numeral leads to no entry.

From `2 ^ 64` on the parser wraps, so such a numeral is the name of a smaller number too:
`wrapped_numeral_found` is a path that is bound to task 1.
-/

set_option autoImplicit false

namespace VKernel.Proofs.Kobj

open VKernel VKernel.Kobj VKernel.Sched

variable {w : Registries} {s : List UInt8}

/-- A number is read back from every buffer with room for the longest numeral. -/
theorem parseU64Segment_renderU64 {cap v : Nat} (hcap : 20 < cap) (hv : v < U64) :
    parseU64Segment (renderU64 cap [] v) = some v := by
  have hsame : renderU64 cap [] v = (numericChild v).name.chars := by
    show renderU64 cap [] v = renderU64 KSTR_MAX [] v
    rw [renderU64_eq hcap hv, renderU64_eq (by decide) hv]
  rw [hsame]
  exact parseU64Segment_numericChild hv

theorem parsedExactly_iff (hs : s ≠ []) (hdigits : ∀ c ∈ s, IsDigit c) :
    ParsedExactly s ↔ decimalValue s < U64 := by
  constructor
  · intro h
    -- The parser accepts every numeral, whatever its length.
    exact ((h _).mp (parseU64Segment_eq_some.mpr ⟨hs, hdigits, rfl⟩)).1
  · intro hvalue v
    rw [parseU64Segment_eq_some, Nat.mod_eq_of_lt hvalue]
    exact ⟨fun h => ⟨hvalue, h.2.2⟩, fun h => ⟨hs, hdigits, h.2⟩⟩

/-- What a lookup by number binds to has the number that was parsed. -/
theorem isNumber_of_lookup {d : Directory} (hd : d ∈ numericDirectories) {kind : VirtualKind}
    (h : d.lookup w s = some kind) : ∃ n, parseU64Segment s = some n ∧ kind.IsNumber w n := by
  simp only [numericDirectories, List.mem_cons, List.not_mem_nil, or_false] at hd
  rcases hd with rfl | rfl | rfl
  all_goals
    obtain ⟨n, hn, h⟩ := Option.bind_eq_some_iff.mp h
    obtain ⟨found, hfound, h⟩ := Option.bind_eq_some_iff.mp h
    cases h
    refine ⟨n, hn, ?_⟩
  · exact hfound
  · -- The slot is the number itself.
    rw [pciGetDevice] at hfound
    split at hfound
    · cases hfound
    · exact (Option.some.inj hfound).symm
  · exact hfound

theorem numericDirectories_subset : ∀ d ∈ numericDirectories, d ∈ directories := by
  intro d hd
  simp only [numericDirectories, List.mem_cons, List.not_mem_nil, or_false] at hd
  rcases hd with rfl | rfl | rfl
  all_goals simp [directories]

/-- A path with the segment behind a registry is bound by the lookup of this segment. -/
theorem lookup_of_segmentUnder {d : Directory} (hd : d ∈ directories) {path : List UInt8}
    (hpath : 0 ∉ path) (hunder : SegmentUnder d s path) {r : ResolvedNode}
    (hr : resolveInternal w path = some r) (hkind : r.kind ≠ .none) :
    d.lookup w s = some r.kind := by
  obtain ⟨behind, htext, rfl⟩ := hunder
  have hnames := namesEntry_of_bound hpath hr hkind
  rw [htext, ← directoryText_append] at hnames
  exact lookup_of_namesEntry hd hnames

theorem boundExactly_of_lt (hvalue : decimalValue s < U64) : BoundExactly w s := by
  intro d hd path hunder r hr hkind
  have hfound := lookup_of_segmentUnder (numericDirectories_subset d hd) (cstr_noNul path) hunder
    hr hkind
  obtain ⟨n, hn, hnumber⟩ := isNumber_of_lookup hd hfound
  obtain ⟨hs, hdigits, rfl⟩ := parseU64Segment_eq_some.mp hn
  rw [Nat.mod_eq_of_lt hvalue] at hnumber
  exact ⟨_, ⟨hs, hdigits, rfl⟩, hnumber⟩

theorem parseU64Segment_none (h : ¬ ∀ c ∈ s, IsDigit c) : parseU64Segment s = none := by
  rw [Option.eq_none_iff_forall_ne_some]
  intro v hv
  exact h (parseU64Segment_eq_some.mp hv).2.1

theorem boundExactly_of_none (h : parseU64Segment s = none) : BoundExactly w s := by
  intro d hd path hunder r hr hkind
  have hfound := lookup_of_segmentUnder (numericDirectories_subset d hd) (cstr_noNul path) hunder
    hr hkind
  obtain ⟨n, hn, -⟩ := isNumber_of_lookup hd hfound
  rw [h] at hn
  cases hn

/-- Numbers are shown and read back. A numeral is parsed to its number and leads to the entry
with its number if and only if the number fits into a `u64`, and no other segment leads to an
entry. -/
theorem numeric_segments_exact (w : Registries) :
    (∀ v < U64, ∀ cap > 20, parseU64Segment (renderU64 cap [] v) = some v) ∧
    (∀ s, s ≠ [] → (∀ c ∈ s, IsDigit c) →
      (ParsedExactly s ∧ BoundExactly w s ↔ decimalValue s < U64)) ∧
    ∀ s, (¬ ∀ c ∈ s, IsDigit c) → parseU64Segment s = none ∧ BoundExactly w s := by
  refine ⟨fun v hv cap hcap => parseU64Segment_renderU64 hcap hv, ?_, ?_⟩
  · intro s hs hdigits
    exact ⟨fun h => (parsedExactly_iff hs hdigits).mp h.1,
      fun h => ⟨(parsedExactly_iff hs hdigits).mpr h, boundExactly_of_lt h⟩⟩
  · intro s hs
    have hnone := parseU64Segment_none hs
    exact ⟨hnone, boundExactly_of_none hnone⟩

/-- `2 ^ 64 + 1` as a segment. -/
def wrappedNumeral : List UInt8 := ascii "18446744073709551617"

theorem wrappedNumeral_value : decimalValue wrappedNumeral = 2 ^ 64 + 1 := rfl

/-- The numeral is parsed to 1, and `proc/18446744073709551617` is bound to task 1. -/
theorem wrapped_numeral_found :
    ¬ ParsedExactly wrappedNumeral ∧ ¬ BoundExactly smallRegistries wrappedNumeral := by
  have hdigits : ∀ c ∈ wrappedNumeral, IsDigit c := by
    have hall : wrappedNumeral.all (fun c => decide (IsDigit c)) = true := by decide
    simpa using List.all_eq_true.mp hall
  have hne : wrappedNumeral ≠ [] := by decide
  have hparse : parseU64Segment wrappedNumeral = some 1 := by
    rw [parseU64Segment_eq_some, wrappedNumeral_value, U64_eq]
    exact ⟨hne, hdigits, by norm_num⟩
  constructor
  · rw [parsedExactly_iff hne hdigits, wrappedNumeral_value, U64_eq]
    omega
  · intro h
    -- Task 1 is what the lookup of the numeral finds.
    have htask : (snapshotTask smallRegistries.scheduler 1).isSome := by decide
    obtain ⟨task, htask⟩ := Option.isSome_iff_exists.mp htask
    have hlookup : procDirectory.lookup smallRegistries wrappedNumeral = some (.procTask task) := by
      show procTaskAt smallRegistries wrappedNumeral = _
      rw [procTaskAt, byNumber, hparse, Option.bind_eq_bind, Option.bind_some, htask]
      rfl
    have hpath : cstr (joinPath (procDirectory.path ++ [wrappedNumeral])) =
        joinPath (procDirectory.path ++ [wrappedNumeral]) := by decide
    have hstrip : stripSlashes (joinPath (procDirectory.path ++ [wrappedNumeral])) =
        joinPath (procDirectory.path ++ [wrappedNumeral]) := by decide
    have hnames : NamesEntry smallRegistries
        (stripSlashes (cstr (joinPath (procDirectory.path ++ [wrappedNumeral]))))
        ⟨.procPid, .procTask task, some (KStr.set wrappedNumeral)⟩ := by
      rw [hpath, hstrip]
      exact .entry (d := procDirectory) (by simp [directories]) hne (by decide) hlookup
        (by decide)
    have hunder : SegmentUnder procDirectory wrappedNumeral
        (cstr (joinPath (procDirectory.path ++ [wrappedNumeral]))) :=
      ⟨wrappedNumeral, by rw [hpath, hstrip], by decide⟩
    obtain ⟨n, ⟨-, -, hn⟩, hnumber⟩ := h procDirectory (by simp [numericDirectories]) _ hunder _
      (resolveInternal_entry (cstr_noNul _) hnames) VirtualKind.noConfusion
    rw [wrappedNumeral_value] at hn
    subst hn
    -- The numeral denotes a number that no task has.
    have hlarge : snapshotTask smallRegistries.scheduler (2 ^ 64 + 1) = none := by decide
    change snapshotTask smallRegistries.scheduler (2 ^ 64 + 1) = some task at hnumber
    rw [hlarge] at hnumber
    cases hnumber

end VKernel.Proofs.Kobj

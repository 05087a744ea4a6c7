import VKernel.Proofs.Fs.Sessions

/-!
# `VKernel.Proofs.Fs.FailedWrites`: what a failed write leaves behind

A write behind the end of a stream grows the buffer twice: up to its position, where the hole
is filled with zeros and becomes part of the stream, and up to the end of the data. When only
the second step fails, `file_write` returns 0 and the zeros stay. `failed_write_keeps_iff` says
that this is the only way in which a failed write changes a stream.
-/

set_option autoImplicit false

namespace VKernel.Proofs.Fs

open VKernel VKernel.Fs

variable {σ δ : Type}

/-- A state that a session on an opened stream reaches. -/
theorem holds_of_session {driver : FilesystemDriver σ δ} {backend : σ} {path : List UInt8}
    {modeString : List Char} {s₀ s : KernelStream δ} {calls : List (Call × Heap)}
    {answers : List Answer} (hopen : openStream driver backend path modeString = some s₀)
    (hmode : (parseMode modeString).writable = true) (htyped : ∀ p ∈ calls, p.1.Typed)
    (hsession : s₀.session driver backend calls = some (answers, s)) :
    Holds s s.content ∧ s.writable = true ∧ s.driver = true := by
  obtain ⟨hholds, -, -, -, hwritable, hdriver, -, -⟩ := openStream_spec hopen hmode
  obtain ⟨_, t, c, hrun, hsame, ht, -, -⟩ :=
    session_cases driver backend calls s₀ _ hholds hwritable htyped
  cases hrun.symm.trans hsession
  rw [content_eq ht]
  exact ⟨ht, hsame.writable.trans hwritable, hsame.driver.trans hdriver⟩

/-- A write that fills its hole lengthens the stream. -/
theorem padTo_eq_self_iff {c : List UInt8} {n : Nat} : padTo c n = c ↔ n ≤ c.length := by
  constructor
  · intro h
    have hlen := congrArg List.length h
    rw [length_padTo] at hlen
    omega
  · intro h
    unfold padTo
    rw [Nat.sub_eq_zero_of_le h, List.replicate_zero, List.append_nil]

/-- A write that the heap or the end position refuses, on a stream in any state that a session
reaches, leaves the size, the bytes and what a close will hand over as they were exactly when
there is no hole in front of its position, or the heap refuses already the growth up to
there. -/
theorem failed_write_keeps_iff (driver : FilesystemDriver σ δ) (backend : σ)
    {path : List UInt8} {modeString : List Char} {s₀ s t : KernelStream δ}
    {calls : List (Call × Heap)} {answers : List Answer}
    (hopen : openStream driver backend path modeString = some s₀)
    (hmode : (parseMode modeString).writable = true) (htyped : ∀ p ∈ calls, p.1.Typed)
    (hsession : s₀.session driver backend calls = some (answers, s))
    {data : List UInt8} {heap : Heap} (hdata : data.length < U64)
    (hfailed : s.write data heap = some ((0, false), t)) :
    (t.size = s.size ∧ t.content = s.content ∧ t.handed = s.handed) ↔
      s.writePosition ≤ s.size ∨ s.holeCapacity heap = none := by
  obtain ⟨hholds, hwritable, hdriver⟩ := holds_of_session hopen hmode htyped hsession
  have hend : s.endCapacity data.length heap = none := by
    -- a write whose growth is granted gets through
    by_contra hsome
    obtain ⟨n, hn⟩ := Option.ne_none_iff_exists'.mp hsome
    obtain ⟨u, hwrite, -⟩ := write_spec hholds hwritable hn
    rw [hfailed] at hwrite
    exact absurd (congrArg (Option.map fun result => result.1.2) hwrite) (by simp)
  cases hhole : s.holeCapacity heap with
  | none =>
    obtain ⟨u, hwrite, hsame, hu, hdirty⟩ := write_refused hholds hwritable hhole data
    cases hfailed.symm.trans hwrite
    refine iff_of_true ⟨hu.size.trans hholds.size.symm, content_eq hu, ?_⟩ (.inr rfl)
    rw [handed_eq hu (hsame.driver.trans hdriver), handed_eq hholds hdriver, hdirty]
  | some n =>
    obtain ⟨u, hwrite, hsame, hu, hdirty⟩ :=
      write_holeOnly hholds hwritable hdata hhole hend
    cases hfailed.symm.trans hwrite
    have hsize := hholds.size
    rw [content_eq hu, handed_eq hu (hsame.driver.trans hdriver), handed_eq hholds hdriver,
      hdirty, padTo_eq_self_iff]
    constructor
    · rintro ⟨-, hle, -⟩
      exact .inl (by omega)
    · rintro (hle | hnone)
      · have hpad : padTo s.content s.writePosition = s.content :=
          padTo_eq_self_iff.mpr (by omega)
        rw [hpad] at hu ⊢
        exact ⟨hu.size.trans hsize.symm, by omega, rfl⟩
      · cases hnone

/-- A heap that grants 6 bytes and nothing else. -/
def sixBytes : Heap := fun n => if n = 6 then some fun _ => 0xAA else none

/-- A file opened with `r+` on the bytes 1, 2, 3. A write of 4 bytes at the end, which the heap
refuses, changes nothing. -/
theorem failed_write_keeps_end :
    ∃ s₀ s t : KernelStream Unit,
      openStream memoryDriver (fun _ => some [1, 2, 3]) [97] ['r', '+'] = some s₀ ∧
      s₀.session memoryDriver (fun _ => some [1, 2, 3]) [(.seek 3 0, plentiful)] =
        some ([.value 0], s) ∧
      s.write [4, 5, 6, 7] (fun _ => none) = some ((0, false), t) ∧
      t.size = s.size ∧ t.content = s.content ∧ t.handed = s.handed := by
  have hrun : ∃ s₀ s t : KernelStream Unit,
      openStream memoryDriver (fun _ => some [1, 2, 3]) [97] ['r', '+'] = some s₀ ∧
      s₀.session memoryDriver (fun _ => some [1, 2, 3]) [(.seek 3 0, plentiful)] =
        some ([.value 0], s) ∧
      s.write [4, 5, 6, 7] (fun _ => none) = some ((0, false), t) ∧
      s.writePosition = 3 ∧ s.size = 3 := by
    with_unfolding_all exact ⟨_, _, _, rfl, rfl, rfl, rfl, rfl⟩
  obtain ⟨s₀, s, t, hopen, hsession, hwrite, hposition, hsize⟩ := hrun
  have htyped : ∀ p ∈ [(Call.seek 3 0, plentiful)], p.1.Typed := by simp [Call.Typed]
  have hdata : [(4 : UInt8), 5, 6, 7].length < U64 := by with_unfolding_all decide
  exact ⟨s₀, s, t, hopen, hsession, hwrite,
    (failed_write_keeps_iff memoryDriver _ hopen rfl htyped hsession hdata hwrite).mpr
      (.inl (by omega))⟩

/-- The same file with a byte written: a write of 10 bytes at position 5 fills the hole up to
there, and then the heap refuses the growth to 24 bytes. `file_write` returns 0, the size has
gone from 3 to 5, and the two zeros will be handed over at close. -/
theorem failed_write_fills_hole :
    ∃ s t : KernelStream Unit, (openStream memoryDriver (fun _ => some [1, 2, 3]) [97]
        ['r', '+']).bind (fun s => s.session memoryDriver (fun _ => some [1, 2, 3])
          [(.write [9], plentiful), (.seek 5 0, plentiful)]) = some ([.count 1, .value 0], s) ∧
      s.write [4, 5, 6, 7, 8, 9, 10, 11, 12, 13] sixBytes = some ((0, false), t) ∧
      s.size = 3 ∧ s.content = [9, 2, 3] ∧ t.size = 5 ∧ t.content = [9, 2, 3, 0, 0] ∧
      t.handed = some [9, 2, 3, 0, 0] := by
  with_unfolding_all exact ⟨_, _, rfl, rfl, rfl, rfl, rfl, rfl, rfl⟩

end VKernel.Proofs.Fs

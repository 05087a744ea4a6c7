import VKernel.Proofs.Fs.Streams

/-!
# `VKernel.Proofs.Fs.Sessions`: streams refine files

`Refines s f` relates a buffered stream to the abstract file it stands for. `call_refines` is the
step lemma: one call answers as the file does and keeps the relation, as long as the heap answers
and no position leaves the `i64` range. `session_refines` is the run lemma. The second half asks
when a close that returns 0 has saved the session.
-/

set_option autoImplicit false

namespace VKernel.Proofs.Fs

open VKernel VKernel.Fs

variable {σ δ : Type}

/-! ### Refinement -/

/-- The stream stands for the file. -/
structure Refines (s : KernelStream δ) (f : AbstractFile) : Prop where
  holds : Holds s f.content
  position : s.position = f.position
  readable : s.readable = f.readable
  append : s.append = f.append
  writable : s.writable = true
  driver : s.driver = true
  bounded : f.position < 2 ^ 63

/-- The `i64` values are their own image. -/
theorem toI64_eq {n : Int} (hlo : -2 ^ 63 ≤ n) (hhi : n < 2 ^ 63) : toI64 n = n := by
  unfold toI64
  rw [Int.bmod_def]
  omega

/-- Reading a summand as an `i64` does not change the sum. -/
theorem toI64_add (a b : Int) : toI64 (toI64 a + b) = toI64 (a + b) := by
  unfold toI64
  exact Int.bmod_add_bmod

theorem Refines.writePosition_eq {s : KernelStream δ} {f : AbstractFile} (h : Refines s f) :
    s.writePosition = f.writePosition := by
  simp only [KernelStream.writePosition, AbstractFile.writePosition, h.append, h.position,
    h.holds.size]

section Calls

variable {s : KernelStream δ} {f : AbstractFile}

/-- The base of a seek, modulo `2 ^ 64`. -/
theorem seek_base (h : Refines s f) (whence : Int) :
    (if whence = 0 then some 0
      else if whence = 1 then some (toI64 s.position)
      else if whence = 2 then some (toI64 s.size)
      else none) = (f.seekBase whence).map toI64 := by
  unfold AbstractFile.seekBase
  rw [h.position, h.holds.size]
  split
  · rfl
  · split
    · rfl
    · split <;> rfl

/-- A call keeps the modes, so it is enough to follow content and position. -/
theorem Refines.step {t : KernelStream δ} (h : Refines s f) (hmode : SameMode s t)
    {content : List UInt8} {position : Nat} (hholds : Holds t content)
    (hpos : t.position = position) (hbound : position < 2 ^ 63) :
    Refines t { f with content := content, position := position } :=
  ⟨hholds, hpos, hmode.readable.trans h.readable, hmode.append.trans h.append,
    hmode.writable.trans h.writable, hmode.driver.trans h.driver, hbound⟩

/-- A seek that does not leave the `i64` range does what the file does. -/
theorem seek_refines (h : Refines s f) {offset whence : Int}
    (htyped : (Call.seek offset whence).Typed)
    (hfits : (f.seek offset whence).2.position < 2 ^ 63) :
    ∃ t, s.seek offset whence = ((f.seek offset whence).1, t) ∧
      Refines t (f.seek offset whence).2 ∧ t.dirty = s.dirty := by
  obtain ⟨hlo, hhi⟩ := htyped
  unfold KernelStream.seek
  unfold AbstractFile.seek at hfits ⊢
  simp only [seek_base h]
  cases hb : f.seekBase whence with
  | none =>
    exact ⟨_, rfl, ⟨h.holds.congr rfl rfl rfl rfl, h.position, h.readable, h.append,
      h.writable, h.driver, h.bounded⟩, rfl⟩
  | some base =>
    have hpos : 0 ≤ base := by
      unfold AbstractFile.seekBase at hb
      split at hb
      · cases hb
        omega
      · split at hb
        · cases hb
          omega
        · split at hb
          · cases hb
            omega
          · cases hb
    simp only [hb] at hfits
    simp only [Option.map_some]
    rw [toI64_add]
    by_cases hneg : base + offset < 0
    · have hnext : toI64 (base + offset) = base + offset := toI64_eq (by omega) (by omega)
      rw [hnext, if_pos hneg, if_pos hneg]
      exact ⟨_, rfl, ⟨h.holds.congr rfl rfl rfl rfl, h.position, h.readable, h.append,
        h.writable, h.driver, h.bounded⟩, rfl⟩
    · rw [if_neg hneg] at hfits
      have hlt : base + offset < 2 ^ 63 := by
        have : (base + offset).toNat < 2 ^ 63 := hfits
        omega
      have hnext : toI64 (base + offset) = base + offset := toI64_eq (by omega) hlt
      rw [hnext, if_neg hneg, if_neg hneg]
      exact ⟨_, rfl, ⟨h.holds.congr rfl rfl rfl rfl, rfl, h.readable, h.append,
        h.writable, h.driver, hfits⟩, rfl⟩

/-- A read, by the permission of the stream. -/
theorem read_refines (driver : FilesystemDriver σ δ) (backend : σ) (h : Refines s f)
    {bufSize : Nat} (hfits : (f.read bufSize).2.position < 2 ^ 63) :
    ∃ t, s.read driver backend bufSize =
        (((f.read bufSize).1.length, (f.read bufSize).1), t) ∧
      Refines t (f.read bufSize).2 ∧ t.dirty = s.dirty := by
  have hread := h.readable
  unfold AbstractFile.read at hfits ⊢
  cases hr : f.readable with
  | false =>
    rw [hr] at hread
    exact ⟨s, read_denied driver backend hread bufSize, h, rfl⟩
  | true =>
    rw [hr] at hread
    simp only [hr, if_true] at hfits ⊢
    obtain ⟨t, heq, hmode, hholds, hdirty, hpos⟩ :=
      read_spec driver backend h.holds hread bufSize
    rw [h.position] at heq hpos
    have ht := h.step hmode hholds hpos hfits
    rw [hr] at ht
    exact ⟨t, heq, ht, hdirty⟩

/-- One call answers as the file does. It marks the stream dirty when it sets the
content. -/
theorem call_refines (driver : FilesystemDriver σ δ) (backend : σ) (h : Refines s f)
    {heap : Heap} {call : Call} (htyped : call.Typed) (hgranted : s.Granted heap call)
    (hfits : (f.call call).2.position < 2 ^ 63) :
    ∃ t, s.call driver backend heap call = some ((f.call call).1, t) ∧
      Refines t (f.call call).2 ∧ t.dirty = (s.dirty || call.modifies) := by
  cases call with
  | read bufSize =>
    obtain ⟨t, heq, ht, hdirty⟩ := read_refines driver backend h hfits
    refine ⟨t, ?_, ht, by simp [hdirty, Call.modifies]⟩
    simp only [KernelStream.call, heq, AbstractFile.call]
  | write data =>
    obtain ⟨n, hn⟩ := Option.isSome_iff_exists.mp hgranted
    obtain ⟨t, heq, hmode, hholds, hdirty, hpos⟩ := write_spec h.holds h.writable hn
    rw [h.writePosition_eq] at hholds hpos
    refine ⟨t, ?_, h.step hmode hholds hpos hfits, by simp [hdirty, Call.modifies]⟩
    simp only [KernelStream.call, heq, Option.map_some, AbstractFile.call]
  | seek offset whence =>
    obtain ⟨t, heq, ht, hdirty⟩ := seek_refines h htyped hfits
    refine ⟨t, ?_, ht, by simp [hdirty, Call.modifies]⟩
    simp only [KernelStream.call, heq, AbstractFile.call]
  | tell =>
    refine ⟨s, ?_, h, by simp [Call.modifies]⟩
    have hpos := h.bounded
    simp only [KernelStream.call, KernelStream.tell, AbstractFile.call, h.position]
    rw [toI64_eq (by omega) (by omega)]
  | truncate length =>
    by_cases hneg : length < 0
    · obtain ⟨t, heq, hmode, hholds, hdirty, hpos⟩ :=
        truncate_refused heap h.holds (.inl hneg)
      refine ⟨t, ?_, ?_, by simp [hdirty, Call.modifies]; omega⟩
      · simp only [KernelStream.call, heq, Option.map_some, AbstractFile.call,
          AbstractFile.truncate, if_pos hneg]
      · simp only [AbstractFile.call, AbstractFile.truncate, if_pos hneg]
        exact h.step hmode hholds (hpos.trans h.position) h.bounded
    · have hn : s.size < length.toNat →
          ∃ n, grownCapacity s.capacity length.toNat heap = some n := fun hgt =>
        Option.isSome_iff_exists.mp (hgranted hgt)
      obtain ⟨t, heq, hmode, hholds, hdirty, hpos⟩ :=
        truncate_spec h.holds h.writable (by omega) hn
      refine ⟨t, ?_, ?_, by simp [hdirty, Call.modifies]; omega⟩
      · simp only [KernelStream.call, heq, Option.map_some, AbstractFile.call,
          AbstractFile.truncate, if_neg hneg]
      · have hbound := h.bounded
        simp only [AbstractFile.call, AbstractFile.truncate, if_neg hneg]
        rw [h.position] at hpos
        exact h.step hmode hholds hpos (by omega)

end Calls

/-- Positions that fit start with the present one. -/
theorem position_lt_of_fit {f : AbstractFile} {calls : List Call} (h : f.PositionsFit calls) :
    f.position < 2 ^ 63 := by
  cases calls with
  | nil => exact h
  | cons _ _ => exact h.1

/-- A heap that answers every request grants every call. -/
theorem granted_of_answering {s : KernelStream δ} {f : AbstractFile} (h : Refines s f)
    {heap : Heap} (hheap : ∀ n, (heap n).isSome) {call : Call}
    (hfits : (f.call call).2.position < 2 ^ 63) : s.Granted heap call := by
  have hgrown : ∀ capacity required, (grownCapacity capacity required heap).isSome := by
    intro capacity required
    unfold grownCapacity
    split
    · rfl
    · simpa using hheap _
  cases call with
  | write data =>
    have hlt : s.writePosition + data.length < U64 := by
      have : f.writePosition + data.length < 2 ^ 63 := hfits
      rw [h.writePosition_eq, U64_eq]
      omega
    have hhole : (s.holeCapacity heap).isSome := by
      unfold KernelStream.holeCapacity
      split
      · exact hgrown _ _
      · rfl
    obtain ⟨n, hn⟩ := Option.isSome_iff_exists.mp hhole
    simp only [KernelStream.Granted, KernelStream.endCapacity, hn, Option.bind_some,
      if_pos hlt, hgrown]
  | truncate length => exact fun _ => hgrown _ _
  | read _ => trivial
  | seek _ _ => trivial
  | tell => trivial

/-- A whole session, by induction on its calls. -/
theorem session_refines (driver : FilesystemDriver σ δ) (backend : σ) :
    ∀ (calls : List (Call × Heap)) (s : KernelStream δ) (f : AbstractFile), Refines s f →
      (∀ p ∈ calls, p.1.Typed) →
      ¬ s.Along driver backend (fun s heap call => ¬ s.Granted heap call) calls →
      f.PositionsFit (calls.map Prod.fst) →
      ∃ t, s.session driver backend calls = some ((f.session (calls.map Prod.fst)).1, t) ∧
        Refines t (f.session (calls.map Prod.fst)).2 ∧
        t.dirty = (s.dirty || calls.any fun p => p.1.modifies) := by
  intro calls
  induction calls with
  | nil =>
    intro s f h _ _ _
    exact ⟨s, rfl, h, by simp⟩
  | cons p calls ih =>
    intro s f h htyped hgranted hfits
    obtain ⟨call, heap⟩ := p
    have hnow : s.Granted heap call := by
      by_contra hnot
      exact hgranted (.inl hnot)
    have hnext := position_lt_of_fit hfits.2
    obtain ⟨t, hcall, ht, hdirty⟩ :=
      call_refines driver backend h (htyped _ (List.mem_cons_self ..)) hnow hnext
    have hlater : ¬ t.Along driver backend (fun s heap call => ¬ s.Granted heap call) calls :=
      fun hbad => hgranted (.inr ⟨_, t, hcall, hbad⟩)
    obtain ⟨u, hsession, hu, hdirty'⟩ :=
      ih t _ ht (fun p hp => htyped p (List.mem_cons_of_mem _ hp)) hlater hfits.2
    refine ⟨u, ?_, hu, ?_⟩
    · simp only [KernelStream.session, hcall, hsession, Option.bind_eq_bind, Option.bind_some]
      rfl
    · rw [hdirty', hdirty, List.any_cons, Bool.or_assoc]

/-- Over a session whose heaps answer every request, no growth fails. -/
theorem not_along_of_answering (driver : FilesystemDriver σ δ) (backend : σ) :
    ∀ (calls : List (Call × Heap)) (s : KernelStream δ) (f : AbstractFile), Refines s f →
      (∀ p ∈ calls, p.1.Typed) → (∀ p ∈ calls, ∀ n, (p.2 n).isSome) →
      f.PositionsFit (calls.map Prod.fst) →
      ¬ s.Along driver backend (fun s heap call => ¬ s.Granted heap call) calls := by
  intro calls
  induction calls with
  | nil =>
    intro s f _ _ _ _ hbad
    exact hbad
  | cons p calls ih =>
    intro s f h htyped hheap hfits hbad
    obtain ⟨call, heap⟩ := p
    have hnext := position_lt_of_fit hfits.2
    have hnow := granted_of_answering h (hheap _ (List.mem_cons_self ..)) hnext
    obtain ⟨t, hcall, ht, -⟩ :=
      call_refines driver backend h (htyped _ (List.mem_cons_self ..)) hnow hnext
    obtain hbad | ⟨answer, u, hcall', hbad⟩ := hbad
    · exact hbad hnow
    · rw [hcall] at hcall'
      cases hcall'
      exact ih t _ ht (fun p hp => htyped p (List.mem_cons_of_mem _ hp))
        (fun p hp => hheap p (List.mem_cons_of_mem _ hp)) hfits.2 hbad

/-- The bytes of a stream are what it holds. -/
theorem content_eq {s : KernelStream δ} {c : List UInt8} (h : Holds s c) : s.content = c := by
  have hsize := h.size
  unfold KernelStream.content
  by_cases hpos : s.size > 0
  · obtain ⟨b, hb, hagrees⟩ := data_eq_some h (by omega)
    rw [if_pos hpos, hb, Option.map_some, Option.getD_some,
      bytes_eq_of_agrees hagrees (by omega)]
    simp [hsize]
  · rw [if_neg hpos]
    exact (List.eq_nil_of_length_eq_zero (by omega)).symm

/-- The bytes that `close_stream` hands over are the content. -/
theorem handed_eq {s : KernelStream δ} {c : List UInt8} (h : Holds s c)
    (hdriver : s.driver = true) : s.handed = if s.dirty then some c else none := by
  simp only [KernelStream.handed, hdriver, content_eq h, true_and]

/-! ### Opening -/

/-- What a writable open leaves in the stream. -/
theorem openStream_spec {driver : FilesystemDriver σ δ} {backend : σ} {path : List UInt8}
    {modeString : List Char} {s : KernelStream δ}
    (hopen : openStream driver backend path modeString = some s)
    (hmode : (parseMode modeString).writable = true) :
    Holds s (AbstractFile.opened (parseMode modeString)
        (driver.readFile backend (normalizePath path))).content ∧
      s.position = (AbstractFile.opened (parseMode modeString)
        (driver.readFile backend (normalizePath path))).position ∧
      s.readable = (parseMode modeString).readable ∧
      s.append = (parseMode modeString).append ∧ s.writable = true ∧ s.driver = true ∧
      s.dirty = false ∧ s.path = normalizePath path := by
  unfold openStream at hopen
  generalize parseMode modeString = mode at *
  generalize normalizePath path = p at *
  simp only [hmode, if_true] at hopen
  split at hopen
  · cases hopen
  · unfold openWritable at hopen
    split at hopen
    · cases hopen
    · have hempty : ∀ s : KernelStream δ, s.directBackend = false → s.size = 0 →
          s.capacity = 0 → Holds s [] := fun s hd hs hc =>
        ⟨hd, hs, Nat.zero_le _, fun hpos => absurd hpos (by omega), fun _ _ i hi => by cases hi⟩
      cases hfound : driver.readFile backend p with
      | none =>
        simp only [hfound] at hopen
        split at hopen
        · cases hopen
          refine ⟨?_, ?_, rfl, rfl, hmode, rfl, rfl, rfl⟩
          · simp only [AbstractFile.opened, Option.getD_none, ite_self]
            exact hempty _ rfl rfl rfl
          · simp [AbstractFile.opened]
        · cases hopen
      | some content =>
        simp only [hfound] at hopen
        split at hopen
        · rename_i htruncate
          cases hopen
          refine ⟨?_, ?_, rfl, rfl, hmode, rfl, rfl, rfl⟩
          · simp only [AbstractFile.opened, htruncate, if_true]
            exact hempty _ rfl rfl rfl
          · simp [AbstractFile.opened, htruncate]
        · rename_i htruncate
          cases hopen
          have hcontent : (AbstractFile.opened mode (some content)).content = content := by
            simp [AbstractFile.opened, htruncate]
          refine ⟨?_, ?_, rfl, rfl, hmode, rfl, rfl, rfl⟩
          · rw [hcontent]
            refine ⟨rfl, rfl, Nat.le_refl _, ?_, ?_⟩
            · intro hpos
              exact ⟨_, if_neg (List.ne_nil_of_length_pos hpos)⟩
            · intro b hb i hi
              have hne : content ≠ [] := List.ne_nil_of_length_pos (by omega)
              simp only [if_neg hne, Option.some.injEq] at hb
              exact (congrFun hb i).symm
          · simp [AbstractFile.opened, htruncate]

/-- An opened stream stands for the file it was opened on. -/
theorem openStream_refines {driver : FilesystemDriver σ δ} {backend : σ} {path : List UInt8}
    {modeString : List Char} {s : KernelStream δ}
    (hopen : openStream driver backend path modeString = some s)
    (hmode : (parseMode modeString).writable = true)
    (hbound : (AbstractFile.opened (parseMode modeString)
      (driver.readFile backend (normalizePath path))).position < 2 ^ 63) :
    Refines s (AbstractFile.opened (parseMode modeString)
      (driver.readFile backend (normalizePath path))) := by
  obtain ⟨hholds, hpos, hreadable, happend, hwritable, hdriver, -, -⟩ :=
    openStream_spec hopen hmode
  exact ⟨hholds, hpos, hreadable, happend, hwritable, hdriver, hbound⟩

/-- A stream opened for writing refines the file it was opened on, over every session in
which buffer growth does not fail and no position exceeds `2 ^ 63 - 1`. Every answer is the
file's, and at close the bytes handed to the driver are the file's content; they are handed
over when the session wrote or truncated. -/
theorem writable_stream_refines (driver : FilesystemDriver σ δ) (backend : σ)
    {path : List UInt8} {modeString : List Char} {s : KernelStream δ}
    (hopen : openStream driver backend path modeString = some s)
    (hmode : (parseMode modeString).writable = true) (calls : List (Call × Heap))
    (htyped : ∀ p ∈ calls, p.1.Typed)
    (hgranted : ¬ s.Along driver backend (fun s heap call => ¬ s.Granted heap call) calls)
    (hfits : (AbstractFile.opened (parseMode modeString)
      (driver.readFile backend (normalizePath path))).PositionsFit (calls.map Prod.fst)) :
    ∃ t file, (AbstractFile.opened (parseMode modeString)
          (driver.readFile backend (normalizePath path))).session (calls.map Prod.fst) = file ∧
      s.session driver backend calls = some (file.1, t) ∧
      t.position = file.2.position ∧
      (∀ bytes, t.handed = some bytes → bytes = file.2.content) ∧
      ((calls.any fun p => p.1.modifies) = true → t.handed = some file.2.content) := by
  have hrefines := openStream_refines hopen hmode (position_lt_of_fit hfits)
  obtain ⟨-, -, -, -, -, -, hclean, -⟩ := openStream_spec hopen hmode
  -- The simulation, over the whole session.
  obtain ⟨t, hsession, ht, hdirty⟩ :=
    session_refines driver backend calls s _ hrefines htyped hgranted hfits
  have hhanded := handed_eq ht.holds ht.driver
  rw [hdirty, hclean, Bool.false_or] at hhanded
  refine ⟨t, _, rfl, hsession, ht.position, ?_, ?_⟩
  · intro bytes hbytes
    rw [hhanded] at hbytes
    split at hbytes
    · exact (Option.some.inj hbytes).symm
    · cases hbytes
  · intro hmodifies
    rw [hhanded, if_pos hmodifies]

/-- A driver that keeps its files in a map. -/
def memoryDriver : FilesystemDriver (List UInt8 → Option (List UInt8)) Unit where
  isMounted _ := true
  fileSize files path := ((files path).getD []).length
  openFile files path := (files path).map fun _ => ()
  readFileRange _ _ _ _ := none
  readFile files path := files path
  writeFile files path bytes := (true, Function.update files path (some bytes))
  maxDirectReadBytes := 0

/-- A heap that answers every request with fresh memory. -/
def plentiful : Heap := fun _ => some fun _ => 0xAA

/-- A file opened with `r+` on the bytes 1, 2, 3: a write behind the end, and a read of the
hole. -/
theorem writable_stream_refines_hole :
    ∃ t : KernelStream Unit, (openStream memoryDriver (fun _ => some [1, 2, 3]) [97]
          ['r', '+']).bind (fun s => s.session memoryDriver (fun _ => some [1, 2, 3])
            [(.seek 5 0, plentiful), (.write [9], plentiful), (.seek 2 0, plentiful),
              (.read 8, plentiful)]) =
        some ([.value 0, .count 1, .value 0, .bytes 4 [3, 0, 0, 9]], t) ∧
      t.handed = some [1, 2, 3, 0, 0, 9] := by
  have hopen : openStream memoryDriver (fun _ => some [1, 2, 3]) [97] ['r', '+'] = some _ := rfl
  have htyped : ∀ p ∈ [(Call.seek 5 0, plentiful), (.write [9], plentiful),
      (.seek 2 0, plentiful), (.read 8, plentiful)], p.1.Typed := by
    simp [Call.Typed, U64_eq]
  obtain ⟨t, file, hfile, hsession, -, -, hhanded⟩ :=
    writable_stream_refines memoryDriver (fun _ => some [1, 2, 3]) hopen rfl _ htyped
      (not_along_of_answering _ _ _ _ _ (openStream_refines hopen rfl (by decide)) htyped
        (by simp [plentiful]) (by decide)) (by decide)
  cases hfile
  exact ⟨t, hsession, hhanded rfl⟩

/-- On a stream opened with `w`, a read returns nothing, although the file has a byte at the
position: `file_read` asks for read permission first. So the stream does not refine a file
that answers every read. -/
theorem write_only_stream_reads_nothing :
    ¬ ∀ (path : List UInt8) (modeString : List Char) (s : KernelStream Unit)
        (calls : List (Call × Heap)),
      openStream memoryDriver (fun _ => none) path modeString = some s →
      (parseMode modeString).writable = true → (∀ p ∈ calls, p.1.Typed) →
      ¬ s.Along memoryDriver (fun _ => none) (fun s heap call => ¬ s.Granted heap call) calls →
      (AbstractFile.opened (parseMode modeString) none).PositionsFit (calls.map Prod.fst) →
      ∃ t, s.session memoryDriver (fun _ => none) calls = some (
        (({ AbstractFile.opened (parseMode modeString) none with
          readable := true } : AbstractFile).session (calls.map Prod.fst)).1, t) := by
  intro hclaim
  have hopen : openStream memoryDriver (fun _ => none) [97] ['w'] = some _ := rfl
  have htyped : ∀ p ∈ [(Call.write [65], plentiful), (.seek 0 0, plentiful),
      (.read 1, plentiful)], p.1.Typed := by
    simp [Call.Typed, U64_eq]
  have hrefines := openStream_refines hopen rfl (by decide)
  have hgranted := not_along_of_answering memoryDriver (fun _ => none) _ _ _ hrefines htyped
    (by simp [plentiful]) (by decide)
  obtain ⟨t, hread⟩ := hclaim [97] ['w'] _ _ hopen rfl htyped hgranted (by decide)
  obtain ⟨u, hsession, -⟩ := session_refines _ _ _ _ _ hrefines htyped hgranted (by decide)
  have hanswers := (Prod.mk.inj (Option.some.inj (hread.symm.trans hsession))).1
  exact absurd hanswers (by decide)

/-! ### What a close saves -/

/-- A read keeps the content, whatever the stream allows. -/
theorem read_keeps (driver : FilesystemDriver σ δ) (backend : σ) {s : KernelStream δ}
    {c : List UInt8} (h : Holds s c) (bufSize : Nat) :
    SameMode s (s.read driver backend bufSize).2 ∧
      Holds (s.read driver backend bufSize).2 c ∧
      (s.read driver backend bufSize).2.dirty = s.dirty := by
  cases hr : s.readable with
  | false =>
    rw [read_denied driver backend hr]
    exact ⟨SameMode.refl s, h, rfl⟩
  | true =>
    obtain ⟨t, heq, hmode, hholds, hdirty, -⟩ := read_spec driver backend h hr bufSize
    rw [heq]
    exact ⟨hmode, hholds, hdirty⟩

/-- A seek keeps the content, wherever it goes. -/
theorem seek_keeps {s : KernelStream δ} {c : List UInt8} (h : Holds s c)
    (offset whence : Int) :
    SameMode s (s.seek offset whence).2 ∧ Holds (s.seek offset whence).2 c ∧
      (s.seek offset whence).2.dirty = s.dirty := by
  unfold KernelStream.seek
  simp only []
  split
  · exact ⟨⟨rfl, rfl, rfl, rfl, rfl⟩, h.congr rfl rfl rfl rfl, rfl⟩
  · split
    · exact ⟨⟨rfl, rfl, rfl, rfl, rfl⟩, h.congr rfl rfl rfl rfl, rfl⟩
    · exact ⟨⟨rfl, rfl, rfl, rfl, rfl⟩, h.congr rfl rfl rfl rfl, rfl⟩

/-- One call of a session on a writable stream, with any answers of the heap. It gets its
content through and marks the stream, or leaves content and mark alone, or only fills a
hole. -/
theorem call_cases (driver : FilesystemDriver σ δ) (backend : σ) {s : KernelStream δ}
    {c : List UInt8} (h : Holds s c) (hw : s.writable = true) (heap : Heap) {call : Call}
    (htyped : call.Typed) :
    ∃ answer t c', s.call driver backend heap call = some (answer, t) ∧ SameMode s t ∧
      Holds t c' ∧
      (s.GetsThrough heap call ∧ t.dirty = true ∨
        ¬ s.GetsThrough heap call ∧ t.dirty = s.dirty ∧
          c' = padTo c (s.holeEnd heap call)) := by
  cases call with
  | read bufSize =>
    obtain ⟨hmode, hholds, hdirty⟩ := read_keeps driver backend h bufSize
    exact ⟨_, _, c, rfl, hmode, hholds,
      .inr ⟨by simp [KernelStream.GetsThrough, Call.modifies], hdirty, (padTo_zero c).symm⟩⟩
  | seek offset whence =>
    obtain ⟨hmode, hholds, hdirty⟩ := seek_keeps h offset whence
    exact ⟨_, _, c, rfl, hmode, hholds,
      .inr ⟨by simp [KernelStream.GetsThrough, Call.modifies], hdirty, (padTo_zero c).symm⟩⟩
  | tell =>
    exact ⟨_, s, c, rfl, SameMode.refl s, h,
      .inr ⟨by simp [KernelStream.GetsThrough, Call.modifies], rfl, (padTo_zero c).symm⟩⟩
  | write data =>
    cases hend : s.endCapacity data.length heap with
    | some n =>
      obtain ⟨t, heq, hmode, hholds, hdirty, -⟩ := write_spec h hw hend
      exact ⟨.count data.length, t, _, by simp only [KernelStream.call, heq, Option.map_some],
        hmode, hholds, .inl ⟨⟨rfl, by simp [KernelStream.Granted, hend]⟩, hdirty⟩⟩
    | none =>
      have hnot : ¬ s.GetsThrough heap (.write data) := by
        simp [KernelStream.GetsThrough, KernelStream.Granted, hend]
      cases hhole : s.holeCapacity heap with
      | none =>
        obtain ⟨t, heq, hmode, hholds, hdirty⟩ := write_refused h hw hhole data
        exact ⟨.count 0, t, _, by simp only [KernelStream.call, heq, Option.map_some],
          hmode, hholds,
          .inr ⟨hnot, hdirty, by simp [KernelStream.holeEnd, hhole]⟩⟩
      | some n =>
        obtain ⟨t, heq, hmode, hholds, hdirty⟩ := write_holeOnly h hw htyped hhole hend
        exact ⟨.count 0, t, _, by simp only [KernelStream.call, heq, Option.map_some],
          hmode, hholds, .inr ⟨hnot, hdirty, by simp [KernelStream.holeEnd, hhole, hend]⟩⟩
  | truncate length =>
    by_cases hok : 0 ≤ length ∧ s.Granted heap (.truncate length)
    · obtain ⟨hlen, hgranted⟩ := hok
      have hn : s.size < length.toNat →
          ∃ n, grownCapacity s.capacity length.toNat heap = some n := fun hgt =>
        Option.isSome_iff_exists.mp (hgranted hgt)
      obtain ⟨t, heq, hmode, hholds, hdirty, -⟩ := truncate_spec h hw hlen hn
      exact ⟨.value 0, t, _, by simp only [KernelStream.call, heq, Option.map_some],
        hmode, hholds, .inl ⟨⟨by simpa [Call.modifies] using hlen, hgranted⟩, hdirty⟩⟩
    · have hrefused : length < 0 ∨
          s.size < length.toNat ∧ grownCapacity s.capacity length.toNat heap = none := by
        by_cases hlen : length < 0
        · exact .inl hlen
        · right
          simp only [KernelStream.Granted, not_and, Classical.not_imp, Bool.not_eq_true,
            Option.isSome_eq_false_iff, Option.isNone_iff_eq_none] at hok
          exact hok (by omega)
      obtain ⟨t, heq, hmode, hholds, hdirty, -⟩ := truncate_refused heap h hrefused
      exact ⟨.value (-1), t, _, by simp only [KernelStream.call, heq, Option.map_some],
        hmode, hholds, .inr ⟨by simpa [KernelStream.GetsThrough, Call.modifies] using hok, hdirty,
          (padTo_zero c).symm⟩⟩

/-- A session with any answers of the heap: the stream is dirty when a call got through, and
as long as none does, the content is the one from the start, lengthened by the holes that
failed writes have filled. By induction on the calls. -/
theorem session_cases (driver : FilesystemDriver σ δ) (backend : σ) :
    ∀ (calls : List (Call × Heap)) (s : KernelStream δ) (c : List UInt8), Holds s c →
      s.writable = true → (∀ p ∈ calls, p.1.Typed) →
      ∃ answers t c', s.session driver backend calls = some (answers, t) ∧ SameMode s t ∧
        Holds t c' ∧
        (t.dirty = true ↔
          s.dirty = true ∨ s.Along driver backend KernelStream.GetsThrough calls) ∧
        (¬ s.Along driver backend KernelStream.GetsThrough calls →
          c' = padTo c (s.holesEnd driver backend calls)) := by
  intro calls
  induction calls with
  | nil =>
    intro s c h _ _
    refine ⟨[], s, c, rfl, SameMode.refl s, h, ?_, ?_⟩
    · simp [KernelStream.Along]
    · exact fun _ => (padTo_zero c).symm
  | cons p calls ih =>
    intro s c h hw htyped
    obtain ⟨call, heap⟩ := p
    obtain ⟨answer, t, c₁, hcall, hmode, hholds, hcases⟩ :=
      call_cases driver backend h hw heap (htyped _ (List.mem_cons_self ..))
    obtain ⟨answers, u, c₂, hsession, hmode', hholds', hdirty, hcontent⟩ :=
      ih t c₁ hholds (hmode.writable.trans hw) fun p hp =>
        htyped p (List.mem_cons_of_mem _ hp)
    have halong : s.Along driver backend KernelStream.GetsThrough ((call, heap) :: calls) ↔
        s.GetsThrough heap call ∨ t.Along driver backend KernelStream.GetsThrough calls := by
      simp only [KernelStream.Along, hcall, Option.some.injEq, Prod.mk.injEq]
      constructor
      · rintro (hnow | ⟨_, _, ⟨rfl, rfl⟩, hlater⟩)
        · exact .inl hnow
        · exact .inr hlater
      · rintro (hnow | hlater)
        · exact .inl hnow
        · exact .inr ⟨answer, t, ⟨rfl, rfl⟩, hlater⟩
    refine ⟨answer :: answers, u, c₂, ?_, hmode.trans hmode', hholds', ?_, ?_⟩
    · simp only [KernelStream.session, hcall, hsession, Option.bind_eq_bind, Option.bind_some]
      rfl
    · rw [hdirty, halong]
      obtain ⟨hgets, ht⟩ | ⟨hnot, ht, -⟩ := hcases
      · simp [hgets, ht]
      · simp [hnot, ht]
    · rw [halong]
      intro hnone
      obtain ⟨hgets, -⟩ | ⟨-, -, hc⟩ := hcases
      · exact absurd (.inl hgets) hnone
      · rw [hcontent fun hlater => hnone (.inr hlater), hc, padTo_padTo]
        simp only [KernelStream.holesEnd, hcall]

/-- A `write_file` of the path that returns `true` for these bytes has stored them. `files` is
what the driver has stored. -/
def Stores (driver : FilesystemDriver σ δ) (files : σ → List UInt8 → Option (List UInt8))
    (backend : σ) (path bytes : List UInt8) : Prop :=
  ∀ backend', driver.writeFile backend path bytes = (true, backend') →
    files backend' path = some bytes

/-- A close that returns 0 leaves the stream's content in the file, for every session on a
stream opened for writing. When a write or truncation of the session got through, it does so
exactly when the driver stores the content; when none did, exactly when the file has from the
start the opened content with the holes of the failed writes. So for a path whose writes the
driver stores, one of the two has to be the case. -/
theorem close_saves_iff (driver : FilesystemDriver σ δ)
    (files : σ → List UInt8 → Option (List UInt8)) (backend : σ) {path : List UInt8}
    {modeString : List Char} {s : KernelStream δ}
    (hopen : openStream driver backend path modeString = some s)
    (hmode : (parseMode modeString).writable = true) (calls : List (Call × Heap))
    (htyped : ∀ p ∈ calls, p.1.Typed) :
    ∃ answers t, s.session driver backend calls = some (answers, t) ∧
      (((t.close driver backend).1 = 0 →
          files (t.close driver backend).2.1 (normalizePath path) = some t.content) ↔
        s.Along driver backend KernelStream.GetsThrough calls ∧
            Stores driver files backend (normalizePath path) t.content ∨
          ¬ s.Along driver backend KernelStream.GetsThrough calls ∧
            files backend (normalizePath path) = some (padTo
              (AbstractFile.opened (parseMode modeString)
                (driver.readFile backend (normalizePath path))).content
              (s.holesEnd driver backend calls))) ∧
      ((∀ bytes, Stores driver files backend (normalizePath path) bytes) →
        (((t.close driver backend).1 = 0 →
            files (t.close driver backend).2.1 (normalizePath path) = some t.content) ↔
          s.Along driver backend KernelStream.GetsThrough calls ∨
            files backend (normalizePath path) = some (padTo
              (AbstractFile.opened (parseMode modeString)
                (driver.readFile backend (normalizePath path))).content
              (s.holesEnd driver backend calls)))) := by
  obtain ⟨hholds, -, -, -, hwritable, hdriver, hclean, hpath⟩ := openStream_spec hopen hmode
  -- The stream ends with the content `c`, and is dirty if a call got through.
  obtain ⟨answers, t, c, hsession, hsame, ht, hdirty, hcontent⟩ :=
    session_cases driver backend calls s _ hholds hwritable htyped
  have hhanded := handed_eq ht (hsame.driver.trans hdriver)
  refine ⟨answers, t, hsession, ?_⟩
  rw [content_eq ht]
  by_cases hgets : s.Along driver backend KernelStream.GetsThrough calls
  · -- a dirty stream is written, and a close that returns 0 has written it
    rw [hdirty.mpr (.inr hgets), if_pos rfl] at hhanded
    have hclose : ((t.close driver backend).1 = 0 →
          files (t.close driver backend).2.1 (normalizePath path) = some c) ↔
        Stores driver files backend (normalizePath path) c := by
      unfold KernelStream.close Stores
      rw [hhanded]
      simp only [hsame.path, hpath]
      cases hstored : driver.writeFile backend (normalizePath path) c with
      | mk ok backend' =>
        cases ok with
        | true =>
          constructor
          · rintro hsaved _ ⟨⟩
            exact hsaved rfl
          · exact fun hstores _ => hstores _ rfl
        | false => exact iff_of_true (fun hzero => absurd hzero (by simp)) fun _ h => by cases h
    rw [hclose]
    simp only [hgets, true_and, not_true_eq_false, false_and, or_false, true_or, iff_true]
    exact fun hstores => hstores c
  · -- a clean stream is dropped, and the file is the one from before
    have hnot : t.dirty = false := by
      rw [← Bool.not_eq_true, hdirty, hclean]
      simpa using hgets
    rw [hnot, if_neg (by simp)] at hhanded
    have hclose : t.close driver backend = (0, backend, {}) := by
      unfold KernelStream.close
      rw [hhanded]
    rw [hclose, hcontent hgets]
    simp only [hgets, false_and, not_false_eq_true, true_and, false_or, true_implies,
      implies_true, and_self]

/-- A missing file opened with `a`: a write of one byte is saved. -/
theorem close_saves_iff_written :
    ∃ answers t, ((openStream memoryDriver (fun _ => none) [97] ['a']).bind
          fun s => s.session memoryDriver (fun _ => none) [(.write [9], plentiful)]) =
        some (answers, t) ∧
      ((t.close memoryDriver fun _ => none).1 = 0 →
        (t.close memoryDriver fun _ => none).2.1 [97] = some t.content) := by
  have hopen : openStream memoryDriver (fun _ => none) [97] ['a'] = some _ := rfl
  have htyped : ∀ p ∈ [(Call.write [9], plentiful)], p.1.Typed := by
    simp [Call.Typed, U64_eq]
  have hgranted : KernelStream.Granted _ plentiful (.write [9]) :=
    granted_of_answering (openStream_refines hopen rfl (by decide)) (by simp [plentiful])
      (by decide)
  obtain ⟨answers, t, hsession, -, hiff⟩ :=
    close_saves_iff memoryDriver (fun files path => files path) (fun _ => none) hopen rfl _ htyped
  refine ⟨answers, t, hsession, (hiff ?_).mpr (.inl (.inl ⟨rfl, hgranted⟩))⟩
  rintro bytes _ ⟨⟩
  exact Function.update_self ..

/-- A file opened with `w` and closed at once: the close returns 0, and the file still has its
three bytes although the stream is empty. With no file at the path, there is none
afterwards. -/
theorem close_drops_truncation :
    (∃ s : KernelStream Unit, openStream memoryDriver (fun _ => some [1, 2, 3]) [97] ['w'] =
        some s ∧ s.session memoryDriver (fun _ => some [1, 2, 3]) [] = some ([], s) ∧
      s.content = [] ∧ (s.close memoryDriver fun _ => some [1, 2, 3]).1 = 0 ∧
      (s.close memoryDriver fun _ => some [1, 2, 3]).2.1 [97] = some [1, 2, 3]) ∧
    ∃ s : KernelStream Unit, openStream memoryDriver (fun _ => none) [97] ['w'] = some s ∧
      s.session memoryDriver (fun _ => none) [] = some ([], s) ∧
      (s.close memoryDriver fun _ => none).1 = 0 ∧
      (s.close memoryDriver fun _ => none).2.1 [97] = none := by
  exact ⟨⟨_, rfl, rfl, rfl, rfl, rfl⟩, ⟨_, rfl, rfl, rfl, rfl⟩⟩

end VKernel.Proofs.Fs

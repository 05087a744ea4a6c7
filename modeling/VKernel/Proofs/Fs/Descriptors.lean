import VKernel.Fs.Descriptors
import VKernel.Proofs.Fs.Sessions

/-!
# `VKernel.Proofs.Fs.Descriptors`: what is left of a file that is opened without `VK_O_TRUNC`

`Effect` says what calls do to a stream: where the writes went, how long the content became, and
that it kept its other bytes. A call on a descriptor has one, and so has a run, by induction.
`uncovered_kept_iff` puts the open in front of the run and the close behind it: a stream that was
not opened with the content of its file takes it away when it is handed over.
-/

set_option autoImplicit false

namespace VKernel.Proofs.Fs

open VKernel VKernel.Fs

variable {σ δ : Type}

/-! ### Effects -/

/-- From a stream with the content `c` to one with the content `c'`, by writes to `extents`. -/
structure Effect (s t : KernelStream δ) (c c' : List UInt8) (extents : List WriteExtent) :
    Prop where
  mode : SameMode s t
  holds : Holds t c'
  dirty : t.dirty = true ↔ s.dirty = true ∨ ∃ e ∈ extents, e.through = true
  length : c'.length = max c.length (furthest extents)
  kept : ∀ i, (∀ e ∈ extents, ¬ e.Covers i) → c'.getD i 0 = c.getD i 0

/-- The furthest byte of two lists of writes. -/
theorem furthest_append (a b : List WriteExtent) :
    furthest (a ++ b) = max (furthest a) (furthest b) := by
  induction a with
  | nil => simp [furthest]
  | cons e a ih =>
    simp only [furthest, List.cons_append, List.map_cons, List.foldr_cons] at ih ⊢
    rw [ih, Nat.max_assoc]

@[simp]
theorem furthest_nil : furthest [] = 0 := rfl

@[simp]
theorem furthest_single (e : WriteExtent) : furthest [e] = e.stop := Nat.max_zero _

section Streams

variable {s t u : KernelStream δ} {c c' c'' : List UInt8}

/-- A call that writes nothing. -/
theorem Effect.unchanged (hmode : SameMode s t) (hholds : Holds t c) (hdirty : t.dirty = s.dirty) :
    Effect s t c c [] :=
  ⟨hmode, hholds, by simp [hdirty], by simp, fun _ _ => rfl⟩

theorem Effect.refl (h : Holds s c) : Effect s s c c [] := .unchanged (SameMode.refl s) h rfl

theorem Effect.trans {first second : List WriteExtent} (h : Effect s t c c' first)
    (h' : Effect t u c' c'' second) : Effect s u c c'' (first ++ second) where
  mode := h.mode.trans h'.mode
  holds := h'.holds
  dirty := by
    rw [h'.dirty, h.dirty, or_assoc]
    simp only [List.mem_append, or_and_right, exists_or]
  length := by rw [h'.length, h.length, furthest_append, Nat.max_assoc]
  kept i hi := by
    rw [h'.kept i fun e he => hi e (List.mem_append_right _ he),
      h.kept i fun e he => hi e (List.mem_append_left _ he)]

/-- A seek writes nothing. -/
theorem seek_effect (h : Holds s c) (offset whence : Int) :
    Effect s (s.seek offset whence).2 c c [] := by
  obtain ⟨hmode, hholds, hdirty⟩ := seek_keeps h offset whence
  exact .unchanged hmode hholds hdirty

/-- A write on a stream that was opened for writing gets through, or is refused at once, or
fills its hole and is refused then. -/
theorem write_effect (h : Holds s c) (hw : s.writable = true) {data : List UInt8}
    (hdata : data.length < U64) (heap : Heap) :
    ∃ count through t c', s.write data heap = some ((count, through), t) ∧
      Effect s t c c' (s.extents heap (.bytes data)) := by
  unfold KernelStream.extents
  dsimp only
  rw [if_neg (by simp [hw])]
  cases hend : s.endCapacity data.length heap with
  | some n =>
    obtain ⟨t, hwrite, hmode, hholds, hdirty, -⟩ := write_spec h hw hend
    refine ⟨_, _, t, _, hwrite, hmode, hholds, by simp [hdirty], by simp, fun i hi => ?_⟩
    rw [getD_overlay, if_neg]
    simpa [WriteExtent.Covers] using hi
  | none =>
    rw [if_neg (by simp)]
    cases hhole : s.holeCapacity heap with
    | none =>
      obtain ⟨t, hwrite, hmode, hholds, hdirty⟩ := write_refused h hw hhole data
      refine ⟨_, _, t, _, hwrite, hmode, hholds, by simp [hdirty], ?_, fun _ _ => rfl⟩
      simp [KernelStream.holeEnd, hhole]
    | some n =>
      obtain ⟨t, hwrite, hmode, hholds, hdirty⟩ := write_holeOnly h hw hdata hhole hend
      refine ⟨_, _, t, _, hwrite, hmode, hholds, by simp [hdirty], ?_, fun i _ => ?_⟩
      · simp [KernelStream.holeEnd, hhole, hend]
      · exact getD_padTo c s.writePosition i

/-- A write on a stream that was opened for reading is refused. -/
theorem write_readOnly (hw : s.writable = false) (data : List UInt8) (heap : Heap) :
    s.write data heap = some ((0, false), s) := by
  unfold KernelStream.write
  rw [if_pos (by simp [hw])]

end Streams

/-! ### Calls on a descriptor -/

/-- What a call makes of the stream that its descriptor names. -/
def fdStream (s : KernelStream δ) (heap : Heap) : FdCall → Option (KernelStream δ)
  | .write buf => if buf = .bytes [] then some s else (s.writeBuffer heap buf).map Prod.snd
  | .pwrite buf offset =>
    if buf.faults then some s else (s.pwrite buf offset heap).map Prod.snd
  | .lseek offset whence => some (s.lseek offset whence).2

section Stream

variable {s t u v : KernelStream δ} {c : List UInt8} {heap : Heap}

/-- A write at an offset, on a stream with a position that cannot be told. -/
theorem pwrite_untold {buf : UserBuffer} {offset : Int} (h : s.tell < 0) :
    s.pwrite buf offset heap = some (-VK_ERR_INVAL, s) := by
  unfold KernelStream.pwrite
  exact if_pos h

/-- To an offset that cannot be sought. -/
theorem pwrite_unsought {buf : UserBuffer} {offset status : Int} (h : ¬ s.tell < 0)
    (hseek : s.seek offset 0 = (status, t)) (hstatus : status ≠ 0) :
    s.pwrite buf offset heap = some (-VK_ERR_INVAL, t) := by
  unfold KernelStream.pwrite
  dsimp only
  rw [if_neg h, hseek, if_pos hstatus]

/-- A write at an offset, and the seeks around it. -/
theorem pwrite_written {buf : UserBuffer} {offset : Int} (h : ¬ s.tell < 0)
    (hseek : s.seek offset 0 = (0, t)) {count : Nat}
    (hwrite : t.writeBuffer heap buf = some (count, u)) {status : Int}
    (hback : u.seek s.tell 0 = (status, v)) :
    s.pwrite buf offset heap = some ((count : Int), v) := by
  unfold KernelStream.pwrite
  dsimp only
  rw [if_neg h, hseek, if_neg (by simp), hwrite, Option.map_some, hback]

/-- `lseek` moves the position. -/
theorem lseek_stream (offset whence : Int) :
    (s.lseek offset whence).2 = (s.seek offset whence).2 := by
  unfold KernelStream.lseek
  obtain ⟨status, u⟩ := s.seek offset whence
  dsimp only
  split
  · rfl
  · rfl

/-- A write of a buffer. -/
theorem writeBuffer_effect (h : Holds s c) (hw : s.writable = true) {buf : UserBuffer}
    (htyped : ∀ data, buf = .bytes data → data.length < U64) :
    ∃ count t c', s.writeBuffer heap buf = some (count, t) ∧
      Effect s t c c' (s.extents heap buf) := by
  cases buf with
  | null count => exact ⟨0, s, c, rfl, .refl h⟩
  | bytes data =>
    obtain ⟨count, through, t, c', hwrite, heffect⟩ := write_effect h hw (htyped data rfl) heap
    exact ⟨count, t, c', by simp only [KernelStream.writeBuffer, hwrite, Option.map_some], heffect⟩

/-- The data of a typed call is not longer than a `usize` can say. -/
theorem typed_write {buf : UserBuffer} (h : (FdCall.write buf).Typed) :
    ∀ data, buf = .bytes data → data.length < U64 := by
  rintro data rfl
  exact h

/-- The buffer of a typed call has less than `2 ^ 64` bytes. -/
theorem typed_pwrite {buf : UserBuffer} {offset : Int} (h : (FdCall.pwrite buf offset).Typed) :
    ∀ data, buf = .bytes data → data.length < U64 := by
  rintro data rfl
  exact h

/-- One call on a stream that was opened for writing. -/
theorem fdStream_effect (heap : Heap) (h : Holds s c) (hw : s.writable = true) {call : FdCall}
    (htyped : call.Typed) :
    ∃ t c', fdStream s heap call = some t ∧ Effect s t c c' (s.fdExtents heap call) := by
  cases call with
  | write buf =>
    unfold fdStream KernelStream.fdExtents
    dsimp only
    by_cases hempty : buf = .bytes []
    · rw [if_pos hempty, if_pos hempty]
      exact ⟨s, c, rfl, .refl h⟩
    · rw [if_neg hempty, if_neg hempty]
      obtain ⟨count, t, c', hwrite, heffect⟩ := writeBuffer_effect h hw (typed_write htyped)
      exact ⟨t, c', by rw [hwrite]; rfl, heffect⟩
  | pwrite buf offset =>
    unfold fdStream KernelStream.fdExtents
    dsimp only
    have hsought := seek_effect h offset 0
    by_cases hfaults : buf.faults = true
    · rw [if_pos hfaults, if_pos (.inl hfaults)]
      exact ⟨s, c, rfl, .refl h⟩
    rw [if_neg hfaults]
    by_cases htell : s.tell < 0
    · rw [if_pos (.inr (.inl htell)), pwrite_untold htell]
      exact ⟨s, c, rfl, .refl h⟩
    cases hseek : s.seek offset 0 with
    | mk status t =>
      rw [hseek] at hsought
      by_cases hstatus : status = 0
      · subst hstatus
        -- the seek to the offset, the write, and the seek back
        obtain ⟨count, u, c', hwrite, heffect⟩ :=
          writeBuffer_effect hsought.holds (hsought.mode.writable.trans hw)
            (typed_pwrite htyped)
        have hsoughtBack := seek_effect heffect.holds s.tell 0
        cases hback : u.seek s.tell 0 with
        | mk status v =>
          rw [hback] at hsoughtBack
          have hall := (hsought.trans heffect).trans hsoughtBack
          rw [List.nil_append, List.append_nil] at hall
          rw [pwrite_written htell hseek hwrite hback, if_neg (by simp [hfaults, htell])]
          exact ⟨v, c', rfl, hall⟩
      · rw [pwrite_unsought htell hseek hstatus, if_pos (.inr (.inr hstatus))]
        exact ⟨t, c, rfl, hsought⟩
  | lseek offset whence =>
    unfold fdStream
    dsimp only
    rw [lseek_stream]
    exact ⟨_, c, rfl, seek_effect h offset whence⟩

/-- A stream that was opened for reading has nothing to hand over. -/
structure ReadOnly (s : KernelStream δ) : Prop where
  writable : s.writable = false
  dirty : s.dirty = false

/-- A seek keeps a stream read-only. -/
theorem ReadOnly.seek (h : ReadOnly s) (offset whence : Int) :
    ReadOnly (s.seek offset whence).2 := by
  unfold KernelStream.seek
  dsimp only
  split
  · exact ⟨h.writable, h.dirty⟩
  · split
    · exact ⟨h.writable, h.dirty⟩
    · exact ⟨h.writable, h.dirty⟩

/-- A write to it does nothing. -/
theorem ReadOnly.writeBuffer (h : ReadOnly s) (heap : Heap) (buf : UserBuffer) :
    s.writeBuffer heap buf = some (0, s) ∧ s.extents heap buf = [] := by
  cases buf with
  | null count => exact ⟨rfl, rfl⟩
  | bytes data =>
    refine ⟨?_, ?_⟩
    · simp only [KernelStream.writeBuffer, write_readOnly h.writable, Option.map_some]
    · simp only [KernelStream.extents, h.writable]
      rfl

/-- One call on a stream that was opened for reading. -/
theorem ReadOnly.fdStream (h : ReadOnly s) (heap : Heap) (call : FdCall) :
    (∃ t, fdStream s heap call = some t ∧ ReadOnly t) ∧ s.fdExtents heap call = [] := by
  cases call with
  | write buf =>
    obtain ⟨hwrite, hextents⟩ := h.writeBuffer heap buf
    unfold Fs.fdStream KernelStream.fdExtents
    dsimp only
    rw [hwrite, hextents]
    exact ⟨⟨s, by split <;> rfl, h⟩, by split <;> rfl⟩
  | pwrite buf offset =>
    have hsought := h.seek offset 0
    obtain ⟨hwrite, hextents⟩ := hsought.writeBuffer heap buf
    unfold Fs.fdStream KernelStream.fdExtents
    dsimp only
    rw [hextents]
    refine ⟨?_, by split <;> rfl⟩
    by_cases hfaults : buf.faults = true
    · rw [if_pos hfaults]
      exact ⟨s, rfl, h⟩
    rw [if_neg hfaults]
    by_cases htell : s.tell < 0
    · rw [pwrite_untold htell]
      exact ⟨s, rfl, h⟩
    cases hseek : s.seek offset 0 with
    | mk status t =>
      rw [hseek] at hsought hwrite
      by_cases hstatus : status = 0
      · subst hstatus
        have hsoughtBack := hsought.seek s.tell 0
        cases hback : KernelStream.seek t s.tell 0 with
        | mk status v =>
          rw [hback] at hsoughtBack
          rw [pwrite_written htell hseek hwrite hback]
          exact ⟨v, rfl, hsoughtBack⟩
      · rw [pwrite_unsought htell hseek hstatus]
        exact ⟨t, rfl, hsought⟩
  | lseek offset whence =>
    unfold Fs.fdStream
    dsimp only
    rw [lseek_stream]
    exact ⟨⟨_, rfl, h.seek offset whence⟩, rfl⟩

end Stream

/-! ### Runs -/

section Runs

variable {t t' : FileTable σ δ} {fd : Int} {heap : Heap}

theorem setStream_self (t : FileTable σ δ) (i : Nat) : t.setStream i (t.streams i) = t := by
  unfold FileTable.setStream
  rw [Function.update_eq_self]

/-- A call of which the second result is known. -/
theorem exists_of_map_snd {α β : Type} {o : Option (α × β)} {b : β}
    (h : o.map Prod.snd = some b) : ∃ a, o = some (a, b) := by
  cases o with
  | none => cases h
  | some p =>
    cases h
    exact ⟨p.1, rfl⟩

/-- A call on a descriptor without a stream changes nothing. -/
theorem call_of_none (h : t.slotOf fd = none) (call : FdCall) :
    (t.call fd heap call).map Prod.snd = some t := by
  cases call with
  | write buf =>
    cases buf with
    | null count => rfl
    | bytes data =>
      simp only [FileTable.call, FileTable.sysWrite, h]
      split
      · rfl
      split
      · rfl
      split
      · rfl
      · rfl
  | pwrite buf offset =>
    simp only [FileTable.call, FileTable.sysPwrite, h]
    split
    · rfl
    split
    · rfl
    · rfl
  | lseek offset whence =>
    simp only [FileTable.call, FileTable.sysLseek, h]
    split
    · rfl
    split
    · rfl
    · rfl

/-- The slot of a descriptor. -/
theorem slotOf_eq_some {i : Nat} (h : t.slotOf fd = some i) : 2 < fd ∧ i = (fd - 3).toNat := by
  unfold FileTable.slotOf at h
  dsimp only at h
  split at h
  next hfd =>
    cases h
    exact ⟨hfd.1, rfl⟩
  · cases h

/-- A call on an open descriptor is one on its stream. -/
theorem call_of_some {i : Nat} (h : t.slotOf fd = some i) (heap : Heap) (call : FdCall) :
    (t.call fd heap call).map Prod.snd =
      (fdStream (t.streams i) heap call).map (t.setStream i) := by
  have hfd := (slotOf_eq_some h).1
  cases call with
  | write buf =>
    cases buf with
    | null count =>
      show some t = some (t.setStream i (t.streams i))
      rw [setStream_self]
    | bytes data =>
      simp only [FileTable.call, FileTable.sysWrite, h, fdStream]
      by_cases hempty : data = []
      · rw [if_pos hempty, if_pos (by rw [hempty]), Option.map_some, Option.map_some,
          setStream_self]
      · rw [if_neg hempty, if_neg (by omega), if_neg (by omega), if_neg (by simp [hempty]),
          Option.map_map, Option.map_map]
        rfl
  | pwrite buf offset =>
    simp only [FileTable.call, FileTable.sysPwrite, h, fdStream]
    by_cases hfaults : buf.faults = true
    · rw [if_pos hfaults, if_pos hfaults, Option.map_some, Option.map_some, setStream_self]
    · rw [if_neg hfaults, if_neg (by omega), if_neg hfaults, Option.map_map, Option.map_map]
      rfl
  | lseek offset whence =>
    simp only [FileTable.call, FileTable.sysLseek, h, fdStream]
    rw [if_neg (by omega), if_neg (by omega)]
    rfl

/-- One call of a run on a stream that was opened for writing. -/
theorem call_effect (heap : Heap) {c : List UInt8} (h : Holds (t.streams (fd - 3).toNat) c)
    (hw : (t.streams (fd - 3).toNat).writable = true) {call : FdCall} (htyped : call.Typed) :
    ∃ result t' c', t.call fd heap call = some (result, t') ∧ t'.backend = t.backend ∧
      Effect (t.streams (fd - 3).toNat) (t'.streams (fd - 3).toNat) c c'
        (((t.slotOf fd).map fun i => (t.streams i).fdExtents heap call).getD []) := by
  cases hslot : t.slotOf fd with
  | none =>
    obtain ⟨result, hcall⟩ := exists_of_map_snd (call_of_none hslot call)
    exact ⟨result, t, c, hcall, rfl, .refl h⟩
  | some i =>
    obtain rfl := (slotOf_eq_some hslot).2
    obtain ⟨s, c', hstream, heffect⟩ := fdStream_effect heap h hw htyped
    have hsome := call_of_some hslot heap call
    rw [hstream, Option.map_some] at hsome
    obtain ⟨result, hcall⟩ := exists_of_map_snd hsome
    refine ⟨result, _, c', hcall, rfl, ?_⟩
    rw [show (t.setStream (fd - 3).toNat s).streams (fd - 3).toNat = s from
      Function.update_self ..]
    exact heffect

/-- A run on a stream that was opened for writing, by induction on its calls. -/
theorem run_effect (calls : List (FdCall × Heap)) {c : List UInt8}
    (h : Holds (t.streams (fd - 3).toNat) c) (hw : (t.streams (fd - 3).toNat).writable = true)
    (htyped : ∀ p ∈ calls, p.1.Typed) :
    ∃ results t' c', t.run fd calls = some (results, t') ∧ t'.backend = t.backend ∧
      Effect (t.streams (fd - 3).toNat) (t'.streams (fd - 3).toNat) c c' (t.extents fd calls) := by
  induction calls generalizing t c with
  | nil => exact ⟨[], t, c, rfl, rfl, .refl h⟩
  | cons p calls ih =>
    obtain ⟨call, heap⟩ := p
    obtain ⟨result, t₁, c₁, hcall, hbackend, heffect⟩ :=
      call_effect heap h hw (htyped _ (.head _))
    obtain ⟨results, t₂, c₂, hrun, hbackend', heffect'⟩ :=
      ih heffect.holds (heffect.mode.writable.trans hw) fun p hp => htyped p (.tail _ hp)
    refine ⟨result :: results, t₂, c₂, ?_, hbackend'.trans hbackend, ?_⟩
    · simp only [FileTable.run, hcall, hrun, Option.bind_eq_bind, Option.bind_some]
      rfl
    · simp only [FileTable.extents, hcall]
      exact heffect.trans heffect'

/-- A run on a stream that was opened for reading. -/
theorem run_readOnly (calls : List (FdCall × Heap)) (h : ReadOnly (t.streams (fd - 3).toNat)) :
    ∃ results t', t.run fd calls = some (results, t') ∧ t'.backend = t.backend ∧
      ReadOnly (t'.streams (fd - 3).toNat) ∧ t.extents fd calls = [] := by
  induction calls generalizing t with
  | nil => exact ⟨[], t, rfl, rfl, h, rfl⟩
  | cons p calls ih =>
    obtain ⟨call, heap⟩ := p
    have hstep : ∃ result t₁, t.call fd heap call = some (result, t₁) ∧
        t₁.backend = t.backend ∧ ReadOnly (t₁.streams (fd - 3).toNat) ∧
        ((t.slotOf fd).map fun i => (t.streams i).fdExtents heap call).getD [] = [] := by
      cases hslot : t.slotOf fd with
      | none =>
        obtain ⟨result, hcall⟩ := exists_of_map_snd (call_of_none hslot call)
        exact ⟨result, t, hcall, rfl, h, rfl⟩
      | some i =>
        obtain rfl := (slotOf_eq_some hslot).2
        obtain ⟨⟨s, hstream, hs⟩, hextents⟩ := h.fdStream heap call
        have hsome := call_of_some hslot heap call
        rw [hstream, Option.map_some] at hsome
        obtain ⟨result, hcall⟩ := exists_of_map_snd hsome
        refine ⟨result, _, hcall, rfl, ?_, hextents⟩
        rw [show (t.setStream (fd - 3).toNat s).streams (fd - 3).toNat = s from
          Function.update_self ..]
        exact hs
    obtain ⟨result, t₁, hcall, hbackend, hro, hhere⟩ := hstep
    obtain ⟨results, t₂, hrun, hbackend', hro', hextents⟩ := ih hro
    refine ⟨result :: results, t₂, ?_, hbackend'.trans hbackend, hro', ?_⟩
    · simp only [FileTable.run, hcall, hrun, Option.bind_eq_bind, Option.bind_some]
      rfl
    · simp only [FileTable.extents, hcall, hhere, hextents, List.append_nil]

end Runs

/-! ### Opening and closing -/

/-- Without `VK_O_TRUNC`, the mode for an existing file truncates when the flags do not keep the
content. -/
theorem truncate_openModeString {flags : BitVec 32} (hflags : flags &&& VK_O_TRUNC = 0) :
    (parseMode (openModeString flags true)).truncate = true ↔ ¬ KeepsContent flags := by
  have hdistinct : VK_O_WRONLY ≠ VK_O_RDWR := by decide
  unfold openModeString KeepsContent
  dsimp only
  rw [hflags]
  by_cases happend : flags &&& VK_O_APPEND ≠ 0
  · rw [if_pos happend]
    refine iff_of_false ?_ fun h => h (.inl happend)
    split
    · decide
    · decide
  rw [if_neg happend, if_neg (by simp)]
  by_cases hwrite : flags &&& VK_O_ACCMODE = VK_O_WRONLY
  · rw [if_neg fun h => hdistinct (hwrite.symm.trans h.2), if_pos hwrite, ite_self]
    exact iff_of_true (by decide) fun h => h.elim happend fun hne => hne hwrite
  · -- for reading and writing the file is there, so it is not created
    refine iff_of_false ?_ fun h => h (.inr hwrite)
    rw [if_neg hwrite]
    split
    · decide
    · split
      · rw [if_neg (by simp)]
        decide
      · decide

section Open

variable {driver : FileDriver σ δ} {t t₁ : FileTable σ δ} {path : List UInt8} {flags : BitVec 32}
  {granted : Bool} {fd : Int}

/-- A descriptor that was opened names a stream that `file_open` has set up. -/
theorem sysOpen_opened (hopen : t.sysOpen driver path flags granted = (fd, t₁)) (hfd : 0 ≤ fd) :
    2 < fd ∧ t₁.backend = t.backend ∧
      openStream (driver.withBuffer granted) t.backend path
        (openModeString flags (driver.exists_ t.backend path)) =
          some (t₁.streams (fd - 3).toNat) := by
  unfold FileTable.sysOpen at hopen
  dsimp only at hopen
  have hfailed : ∀ t' : FileTable σ δ, (-VK_ERR_NOENT, t') ≠ (fd, t₁) := by
    intro t' h
    cases h
    exact absurd hfd (by decide)
  cases hslot : t.freeSlot with
  | none =>
    rw [hslot] at hopen
    exact absurd hopen (hfailed t)
  | some i =>
    rw [hslot] at hopen
    dsimp only at hopen
    split at hopen
    · exact absurd hopen (hfailed t)
    next stream hstream =>
      cases hopen
      refine ⟨by omega, rfl, ?_⟩
      have hi : (((i + 1 : Nat) : Int) + 2 - 3).toNat = i := by omega
      rw [hi, show (t.setStream i stream).streams i = stream from Function.update_self ..]
      exact hstream

/-- A stream that was opened for reading. -/
theorem openStream_readOnly {driver : FilesystemDriver σ δ} {backend : σ} {mode : List Char}
    {s : KernelStream δ} (hopen : openStream driver backend path mode = some s)
    (hmode : (parseMode mode).writable = false) : ReadOnly s := by
  unfold openStream at hopen
  dsimp only at hopen
  split at hopen
  · cases hopen
  · rw [if_neg (by simp [hmode])] at hopen
    obtain ⟨file, -, rfl⟩ := Option.map_eq_some_iff.mp hopen
    exact ⟨hmode, rfl⟩

/-- A file is opened for writing only on a driver that is mounted. -/
theorem openStream_mounted {driver : FilesystemDriver σ δ} {backend : σ} {mode : List Char}
    {s : KernelStream δ} (hopen : openStream driver backend path mode = some s)
    (hmode : (parseMode mode).writable = true) : driver.isMounted backend = true := by
  unfold openStream at hopen
  dsimp only at hopen
  split at hopen
  · cases hopen
  · unfold openWritable at hopen
    split at hopen
    · cases hopen
    next hmounted => simpa using hmounted

/-- A close that returns 0 has found nothing to hand over, or the driver has taken it. -/
theorem close_closed {driver : FilesystemDriver σ δ} {backend backend' : σ}
    {s s' : KernelStream δ} (hclose : s.close driver backend = (0, backend', s')) :
    match s.handed with
    | none => backend' = backend
    | some bytes => driver.writeFile backend s.path bytes = (true, backend') := by
  unfold KernelStream.close at hclose
  cases hhanded : s.handed with
  | none =>
    rw [hhanded] at hclose
    cases hclose
    rfl
  | some bytes =>
    rw [hhanded] at hclose
    dsimp only at hclose ⊢
    split at hclose
    next backend₁ hwrite =>
      cases hclose
      exact hwrite
    · cases hclose

/-- Closing hands a written stream to the driver. -/
theorem sysClose_closed {t' : FileTable σ δ} (hfd : 2 < fd)
    (hclose : t.sysClose driver fd = (0, t')) :
    match (t.streams (fd - 3).toNat).handed with
    | none => t'.backend = t.backend
    | some bytes => driver.writeFile t.backend (t.streams (fd - 3).toNat).path bytes =
        (true, t'.backend) := by
  unfold FileTable.sysClose at hclose
  rw [if_neg (by omega)] at hclose
  cases hslot : t.slotOf fd with
  | none =>
    rw [hslot] at hclose
    exact absurd (congrArg Prod.fst hclose) (by dsimp only; decide)
  | some i =>
    obtain rfl := (slotOf_eq_some hslot).2
    rw [hslot] at hclose
    dsimp only at hclose
    cases hstream : (t.streams (fd - 3).toNat).close driver.toFilesystemDriver t.backend with
    | mk status rest =>
      rw [hstream] at hclose
      dsimp only at hclose
      by_cases hstatus : status = 0
      · subst hstatus
        cases hclose
        exact close_closed hstream
      · rw [if_neg hstatus] at hclose
        exact absurd (congrArg Prod.fst hclose) (by dsimp only; decide)

end Open

/-! ### What is kept -/

/-- A content that grew from nothing keeps the bytes of `before` that no write covers when they
are zeros in front of the end of the furthest write. -/
theorem keepsUncovered_of_empty {before after : List UInt8} {extents : List WriteExtent}
    (hlength : after.length = furthest extents)
    (hkept : ∀ i, (∀ e ∈ extents, ¬ e.Covers i) → after.getD i 0 = 0) :
    KeepsUncovered before after extents ↔
      ∀ i < before.length, (∀ e ∈ extents, ¬ e.Covers i) →
        before[i]? = some 0 ∧ i < furthest extents := by
  have hzero : ∀ i, (∀ e ∈ extents, ¬ e.Covers i) → i < furthest extents →
      after[i]? = some 0 := by
    intro i hi hlt
    have hget := hkept i hi
    rw [List.getD_eq_getElem _ _ (by omega)] at hget
    rw [List.getElem?_eq_getElem (by omega), hget]
  constructor
  · intro h i hi huncovered
    have heq := h i hi huncovered
    have hlt : i < furthest extents := by
      rw [List.getElem?_eq_getElem hi] at heq
      have := (List.getElem?_eq_some_iff.mp heq).1
      omega
    exact ⟨heq.symm.trans (hzero i huncovered hlt), hlt⟩
  · intro h i hi huncovered
    obtain ⟨hbefore, hlt⟩ := h i hi huncovered
    rw [hzero i huncovered hlt, hbefore]

/-- A content that grew from `before` keeps the bytes that no write covers. -/
theorem keepsUncovered_of_same {before after : List UInt8} {extents : List WriteExtent}
    (hlength : before.length ≤ after.length)
    (hkept : ∀ i, (∀ e ∈ extents, ¬ e.Covers i) → after.getD i 0 = before.getD i 0) :
    KeepsUncovered before after extents := by
  intro i hi huncovered
  have hget := hkept i huncovered
  rw [List.getD_eq_getElem _ _ (by omega), List.getD_eq_getElem _ _ hi] at hget
  rw [List.getElem?_eq_getElem (by omega), List.getElem?_eq_getElem hi, hget]

/-- An open without `VK_O_TRUNC` of a file that exists, any writes and seeks on the descriptor,
and a close that returns 0. The bytes of the file that no write covers are as before exactly when
the flags keep the content and the heap had the buffer to read it, or no write got through, or
those bytes were zeros in front of the end of the furthest write. `files` is what the driver has
stored: for the path at hand, `file_exists` finds the file, `read_file` returns it or null, and the
`write_file` of the close has stored what it was given when it returns `true`. -/
theorem uncovered_kept_iff (driver : FileDriver σ δ)
    (files : σ → List UInt8 → Option (List UInt8))
    {t t₁ t₂ t₃ : FileTable σ δ} {path content : List UInt8} {flags : BitVec 32} {granted : Bool}
    {fd : Int} {calls : List (FdCall × Heap)} {results : List Int}
    (hflags : flags &&& VK_O_TRUNC = 0)
    (hfile : files t.backend (normalizePath path) = some content)
    (hexists : driver.fileExists t.backend (normalizePath path) = true)
    (hread : ∀ found, driver.readFile t.backend (normalizePath path) = some found →
      files t.backend (normalizePath path) = some found)
    (hopen : t.sysOpen driver path flags granted = (fd, t₁)) (hfd : 0 ≤ fd)
    (htyped : ∀ p ∈ calls, p.1.Typed) (hrun : t₁.run fd calls = some (results, t₂))
    (hclose : t₂.sysClose driver fd = (0, t₃))
    (hwrite : Stores driver.toFilesystemDriver files t.backend (normalizePath path)
      (t₂.streams (fd - 3).toNat).content) :
    (∃ after, files t₃.backend (normalizePath path) = some after ∧
        KeepsUncovered content after (t₁.extents fd calls)) ↔
      (KeepsContent flags ∧ granted = true ∧
          (driver.readFile t.backend (normalizePath path)).isSome) ∨
        (∀ e ∈ t₁.extents fd calls, e.through = false) ∨
        ∀ i < content.length, (∀ e ∈ t₁.extents fd calls, ¬ e.Covers i) →
          content[i]? = some 0 ∧ i < furthest (t₁.extents fd calls) := by
  obtain ⟨hdescriptor, hbackend₁, hstream⟩ := sysOpen_opened hopen hfd
  have hclosed := sysClose_closed hdescriptor hclose
  -- where nothing is handed over, the file is the one from before
  have hunwritten : t₂.backend = t₁.backend → t₃.backend = t₂.backend →
      ∃ after, files t₃.backend (normalizePath path) = some after ∧
        KeepsUncovered content after (t₁.extents fd calls) := by
    intro hbackend₂ hbackend₃
    exact ⟨content, by rw [hbackend₃, hbackend₂, hbackend₁, hfile], fun _ _ _ => rfl⟩
  cases hmode : (parseMode (openModeString flags (driver.exists_ t.backend path))).writable with
  | false =>
    obtain ⟨_, t', hrun', hbackend₂, hro, hextents⟩ :=
      run_readOnly calls (openStream_readOnly hstream hmode)
    cases hrun.symm.trans hrun'
    have hhanded : (t₂.streams (fd - 3).toNat).handed = none := by
      simp [KernelStream.handed, hro.dirty]
    rw [hhanded] at hclosed
    exact iff_of_true (hunwritten hbackend₂ hclosed) (.inr (.inl (by simp [hextents])))
  | true =>
    have hmounted : (driver.withBuffer granted).isMounted t.backend = true :=
      openStream_mounted hstream hmode
    have hfound : driver.exists_ t.backend path = true := by
      have hmounted : driver.isMounted t.backend = true := hmounted
      unfold FileDriver.exists_
      rw [hmounted, hexists]
      rfl
    rw [hfound] at hstream hmode
    obtain ⟨hholds, -, -, -, hwritable, hdriver, hclean, hpath⟩ := openStream_spec hstream hmode
    obtain ⟨_, t', c', hrun', hbackend₂, heffect⟩ := run_effect calls hholds hwritable htyped
    cases hrun.symm.trans hrun'
    have hhanded := handed_eq heffect.holds (heffect.mode.driver.trans hdriver)
    rw [hhanded] at hclosed
    by_cases hdirty : (t₂.streams (fd - 3).toNat).dirty = true
    · -- the stream has replaced the file
      rw [if_pos hdirty, heffect.mode.path, hpath] at hclosed
      rw [content_eq heffect.holds] at hwrite
      rw [hbackend₂, hbackend₁] at hclosed
      have hafter := hwrite _ hclosed
      have hthrough : ¬ ∀ e ∈ t₁.extents fd calls, e.through = false := by
        obtain ⟨e, he, ht⟩ := (heffect.dirty.mp hdirty).resolve_left (by simp [hclean])
        exact fun h => by simp [h e he] at ht
      have hlength := heffect.length
      have hkept := heffect.kept
      rw [hafter]
      simp only [Option.some.injEq, exists_eq_left', hthrough, false_or]
      by_cases hwhole : KeepsContent flags ∧ granted = true ∧
          (driver.readFile t.backend (normalizePath path)).isSome
      · -- it was opened with the content of the file
        obtain ⟨hkeeps, rfl, hsome⟩ := hwhole
        have htruncate :
            (parseMode (openModeString flags true)).truncate = false := by
          rw [← Bool.not_eq_true, truncate_openModeString hflags]
          exact not_not_intro hkeeps
        obtain ⟨found, hfoundContent⟩ := Option.isSome_iff_exists.mp hsome
        cases hfile.symm.trans (hread _ hfoundContent)
        have hopened : (AbstractFile.opened (parseMode (openModeString flags true))
            ((driver.withBuffer true).readFile t.backend (normalizePath path))).content =
              content := by
          simp [AbstractFile.opened, htruncate, FilesystemDriver.withBuffer, hfoundContent]
        rw [hopened] at hlength hkept
        exact iff_of_true (keepsUncovered_of_same (by omega) hkept) (.inl ⟨hkeeps, rfl, hsome⟩)
      · -- it was opened empty
        have hopened : (AbstractFile.opened (parseMode (openModeString flags true))
            ((driver.withBuffer granted).readFile t.backend (normalizePath path))).content =
              [] := by
          by_cases hkeeps : KeepsContent flags
          · have hnone : (driver.withBuffer granted).readFile t.backend (normalizePath path) =
                none := by
              cases granted with
              | false => rfl
              | true =>
                by_contra hne
                exact hwhole ⟨hkeeps, rfl, Option.ne_none_iff_isSome.mp hne⟩
            simp [AbstractFile.opened, hnone]
          · simp [AbstractFile.opened, (truncate_openModeString hflags).mpr hkeeps]
        rw [hopened] at hlength hkept
        simp only [hwhole, false_or]
        exact keepsUncovered_of_empty (by simpa using hlength) hkept
    · rw [if_neg hdirty] at hclosed
      refine iff_of_true (hunwritten hbackend₂ hclosed) (.inr (.inl fun e he => ?_))
      by_contra hthrough
      exact hdirty (heffect.dirty.mpr (.inr ⟨e, he, by simpa using hthrough⟩))

/-! ### Two opens of a file of three bytes -/

/-- The driver that keeps its files in a function, with its `file_exists`. -/
def memoryFiles : FileDriver (List UInt8 → Option (List UInt8)) Unit :=
  { memoryDriver with fileExists := fun files path => (files path).isSome }

/-- A table without an open stream, over a backend where every file has the bytes 1, 2, 3. -/
def threeBytes : FileTable (List UInt8 → Option (List UInt8)) Unit :=
  { backend := fun _ => some [1, 2, 3], streams := fun _ => {} }

/-- With `VK_O_RDWR`, a write of one byte keeps the other two. -/
theorem readWrite_keeps_uncovered :
    ∃ t₁ t₂ t₃, threeBytes.sysOpen memoryFiles [97] VK_O_RDWR true = (3, t₁) ∧
      t₁.run 3 [(.write (.bytes [9]), plentiful)] = some ([1], t₂) ∧
      t₂.sysClose memoryFiles 3 = (0, t₃) ∧
      ∃ after, t₃.backend [97] = some after ∧
        KeepsUncovered [1, 2, 3] after (t₁.extents 3 [(.write (.bytes [9]), plentiful)]) := by
  have hrun : ∃ t₁ t₂ t₃, threeBytes.sysOpen memoryFiles [97] VK_O_RDWR true = (3, t₁) ∧
      t₁.run 3 [(.write (.bytes [9]), plentiful)] = some ([1], t₂) ∧
      t₂.sysClose memoryFiles 3 = (0, t₃) := by
    with_unfolding_all exact ⟨_, _, _, rfl, rfl, rfl⟩
  obtain ⟨t₁, t₂, t₃, hopen, hrun, hclose⟩ := hrun
  have htyped : ∀ p ∈ [(FdCall.write (.bytes [9]), plentiful)], p.1.Typed := by
    simp [FdCall.Typed, U64_eq]
  refine ⟨t₁, t₂, t₃, hopen, hrun, hclose, ?_⟩
  refine (uncovered_kept_iff memoryFiles (fun files path => files path) (by decide) rfl rfl
    (fun _ h => h) hopen (by decide) htyped hrun hclose ?_).mpr (.inl ⟨by decide, rfl, rfl⟩)
  rintro _ ⟨⟩
  exact Function.update_self ..

/-- With `VK_O_WRONLY`, the file is opened empty: the same write leaves nothing of it but the
byte that was written. With `VK_O_APPEND` and no buffer to read the file, the file is taken for a
new one. -/
theorem writeOnly_drops_uncovered :
    (∃ t₁ t₂ t₃, threeBytes.sysOpen memoryFiles [97] VK_O_WRONLY true = (3, t₁) ∧
      t₁.run 3 [(.write (.bytes [9]), plentiful)] = some ([1], t₂) ∧
      t₂.sysClose memoryFiles 3 = (0, t₃) ∧ t₃.backend [97] = some [9] ∧
      t₁.extents 3 [(.write (.bytes [9]), plentiful)] = [⟨0, 1, true⟩]) ∧
    (∃ t₁ t₂ t₃, threeBytes.sysOpen memoryFiles [97] (VK_O_WRONLY ||| VK_O_APPEND) false =
        (3, t₁) ∧
      t₁.run 3 [(.write (.bytes [9]), plentiful)] = some ([1], t₂) ∧
      t₂.sysClose memoryFiles 3 = (0, t₃) ∧ t₃.backend [97] = some [9]) ∧
    ¬ KeepsUncovered [1, 2, 3] [9] [⟨0, 1, true⟩] := by
  refine ⟨?_, ?_, ?_⟩
  · with_unfolding_all exact ⟨_, _, _, rfl, rfl, rfl, rfl, rfl⟩
  · with_unfolding_all exact ⟨_, _, _, rfl, rfl, rfl, rfl⟩
  · intro hkeeps
    exact absurd (hkeeps 1 (by decide) (by decide)) (by decide)

end VKernel.Proofs.Fs

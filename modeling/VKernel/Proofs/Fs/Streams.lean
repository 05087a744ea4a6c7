import VKernel.Fs.Sessions
import Mathlib.Data.List.Basic
import Mathlib.Tactic.Linarith

/-!
# `VKernel.Proofs.Fs.Streams`: what a buffered stream holds

`Holds s c` says that the stream `s` has the bytes `c`: its size is their number, its buffer
has room for them, and the buffer agrees with them below the size. Behind the size the buffer
may hold anything, also bytes of an earlier, longer content. Each call has one lemma that
says what the stream holds afterwards.
-/

set_option autoImplicit false

namespace VKernel.Proofs.Fs

open VKernel VKernel.Fs

variable {σ δ : Type}

/-- The stream buffers the bytes `c`. -/
structure Holds (s : KernelStream δ) (c : List UInt8) : Prop where
  buffered : s.directBackend = false
  size : s.size = c.length
  room : c.length ≤ s.capacity
  owned : 0 < s.capacity → ∃ b, s.ownedBuffer = some b
  agrees : ∀ b, s.ownedBuffer = some b → ∀ i, i < c.length → b i = c.getD i 0

/-! ### Byte sequences -/

@[simp]
theorem length_bytes (b : Buffer) (offset n : Nat) : (b.bytes offset n).length = n := by
  simp [Buffer.bytes]

theorem getD_bytes (b : Buffer) {offset n i : Nat} (h : i < n) :
    (b.bytes offset n).getD i 0 = b (offset + i) := by
  simp [Buffer.bytes, List.getD_eq_getElem?_getD, h]

/-- A part of a buffer is the same part of a list that it agrees with. -/
theorem bytes_eq_of_agrees {b : Buffer} {c : List UInt8} {offset n : Nat}
    (h : ∀ i, i < c.length → b i = c.getD i 0) (hn : offset + n ≤ c.length) :
    b.bytes offset n = (c.drop offset).take n := by
  apply List.ext_getElem
  · simp
    omega
  · intro i h₁ h₂
    have hi : i < n := by simpa using h₁
    have hb := h (offset + i) (by omega)
    rw [List.getD_eq_getElem _ _ (by omega)] at hb
    simp [Buffer.bytes, hb]

@[simp]
theorem length_padTo (c : List UInt8) (n : Nat) : (padTo c n).length = max c.length n := by
  simp [padTo]
  omega

/-- Zeros at the end do not change the value at an offset, since it is zero there anyway. -/
@[simp]
theorem getD_padTo (c : List UInt8) (n i : Nat) : (padTo c n).getD i 0 = c.getD i 0 := by
  unfold padTo
  rcases Nat.lt_or_ge i c.length with hi | hi
  · rw [List.getD_append _ _ _ _ hi]
  · rw [List.getD_append_right _ _ _ _ hi, List.getD_eq_default _ _ hi,
      List.getD_eq_getElem?_getD, List.getElem?_replicate]
    split <;> rfl

@[simp]
theorem padTo_zero (c : List UInt8) : padTo c 0 = c := by
  simp [padTo]

/-- Padding twice pads to the longer length. -/
theorem padTo_padTo (c : List UInt8) (m n : Nat) : padTo (padTo c m) n = padTo c (max m n) := by
  simp only [padTo, List.append_assoc, List.replicate_append_replicate, List.length_append,
    List.length_replicate]
  congr 2
  omega

@[simp]
theorem length_overlay (c : List UInt8) (position : Nat) (data : List UInt8) :
    (overlay c position data).length = max c.length (position + data.length) := by
  simp [overlay]
  omega

/-- The bytes of an overlay. -/
theorem getD_overlay (c : List UInt8) (position : Nat) (data : List UInt8) (i : Nat) :
    (overlay c position data).getD i 0 =
      if position ≤ i ∧ i < position + data.length then data.getD (i - position) 0
      else c.getD i 0 := by
  have hlen : ((padTo c position).take position).length = position := by
    simp
  unfold overlay
  rcases Nat.lt_or_ge i position with hi | hi
  · -- before the data
    rw [if_neg (by omega), List.append_assoc, List.getD_append _ _ _ _ (by omega),
      List.getD_eq_getElem?_getD, List.getElem?_take_of_lt hi, ← List.getD_eq_getElem?_getD,
      getD_padTo]
  · rcases Nat.lt_or_ge i (position + data.length) with hi' | hi'
    · rw [if_pos ⟨hi, hi'⟩, List.append_assoc, List.getD_append_right _ _ _ _ (by omega), hlen,
        List.getD_append _ _ _ _ (by omega)]
    · -- behind the data
      have hsum : ((padTo c position).take position ++ data).length
          = position + data.length := by
        rw [List.length_append, hlen]
      rw [if_neg (by omega), List.getD_append_right _ _ _ _ (by omega), hsum,
        List.getD_eq_getElem?_getD, List.getElem?_drop, ← List.getD_eq_getElem?_getD,
        getD_padTo, Nat.add_sub_cancel' hi']

/-! ### Buffers -/

/-- What `close_stream` hands over, and what reads see. -/
theorem data_eq_some {s : KernelStream δ} {c : List UInt8} (h : Holds s c)
    (hc : 0 < c.length) :
    ∃ b, s.data = some b ∧ ∀ i, i < c.length → b i = c.getD i 0 := by
  obtain ⟨b, hb⟩ := h.owned (Nat.lt_of_lt_of_le hc h.room)
  refine ⟨b, ?_, h.agrees b hb⟩
  have hsize : s.size ≠ 0 := by
    rw [h.size]
    omega
  simp [KernelStream.data, h.buffered, hsize, hb]

/-- The doubling loop reaches the required size. -/
theorem le_growCapacity (required : Nat) :
    ∀ rounds capacity, required ≤ growCapacity required rounds capacity := by
  intro rounds
  induction rounds with
  | zero =>
    intro capacity
    exact Nat.le_refl _
  | succ rounds ih =>
    intro capacity
    simp only [growCapacity]
    split
    · split
      · exact Nat.le_refl _
      · exact ih _
    · omega

/-- `ensure_capacity` fails when the heap refuses. -/
theorem ensureCapacity_none {s : KernelStream δ} {required : Nat} {heap : Heap}
    (h : grownCapacity s.capacity required heap = none) :
    s.ensureCapacity required heap = none := by
  unfold grownCapacity at h
  unfold KernelStream.ensureCapacity
  split at h
  · cases h
  · rename_i hroom
    rw [if_neg hroom]
    simpa using h

/-- Otherwise it changes the buffer and its capacity only, and keeps what the stream
holds. -/
theorem ensureCapacity_spec {s : KernelStream δ} {c : List UInt8} {required n : Nat}
    {heap : Heap} (h : Holds s c) (hn : grownCapacity s.capacity required heap = some n) :
    required ≤ n ∧ ∃ buffer, s.ensureCapacity required heap =
        some { s with ownedBuffer := buffer, capacity := n } ∧
      Holds { s with ownedBuffer := buffer, capacity := n } c := by
  unfold grownCapacity at hn
  unfold KernelStream.ensureCapacity
  split at hn
  · rename_i hroom
    cases hn
    exact ⟨hroom, s.ownedBuffer, by rw [if_pos hroom], h⟩
  · rename_i hroom
    have hgrow := le_growCapacity required 64 (if s.capacity > 0 then s.capacity else 256)
    simp only [Option.map_eq_some_iff] at hn
    obtain ⟨fresh, hfresh, rfl⟩ := hn
    refine ⟨hgrow, _, by rw [if_neg hroom]; simp only [hfresh, Option.map_some, h.buffered]; rfl,
      ?_⟩
    refine ⟨h.buffered, h.size, ?_, fun _ => ⟨_, rfl⟩, ?_⟩
    · have := h.room
      show c.length ≤ growCapacity _ _ _
      omega
    · -- the copy has the bytes below the size
      intro b hb i hi
      obtain ⟨data, hdata, hagrees⟩ := data_eq_some h (by omega)
      simp only [hdata, Option.some.injEq] at hb
      have hlen : (data.bytes 0 s.size).length = c.length := by
        rw [length_bytes, h.size]
      rw [← hb]
      simp only [Buffer.store, hlen]
      rw [if_pos ⟨by omega, by omega⟩, getD_bytes data (by rw [h.size]; omega)]
      simpa using hagrees i hi

/-- Zeros behind the content lengthen it. -/
theorem Holds.zeroFilled {s : KernelStream δ} {c : List UInt8} {b : Buffer} {n : Nat}
    (h : Holds s c) (hb : s.ownedBuffer = some b) (hn : c.length ≤ n) (hroom : n ≤ s.capacity) :
    Holds { s with ownedBuffer := some (b.zero s.size (n - s.size)), size := n }
      (padTo c n) := by
  have hsize := h.size
  refine ⟨h.buffered, ?_, ?_, fun _ => ⟨_, rfl⟩, ?_⟩
  · simp [hn]
  · simpa [hn] using hroom
  · intro b' hb' i hi
    cases hb'
    rw [getD_padTo]
    simp only [Buffer.zero]
    rcases Nat.lt_or_ge i c.length with hi' | hi'
    · rw [if_neg (by omega)]
      exact h.agrees b hb i hi'
    · rw [length_padTo] at hi
      rw [if_pos ⟨by omega, by omega⟩, List.getD_eq_default _ _ hi']

/-- Data over the content. -/
theorem Holds.stored {s : KernelStream δ} {c data : List UInt8} {b : Buffer} {position : Nat}
    (h : Holds s c) (hb : s.ownedBuffer = some b) (hpos : position ≤ c.length)
    (hroom : position + data.length ≤ s.capacity) :
    Holds { s with
        ownedBuffer := some (b.store position data),
        size := max s.size (position + data.length) }
      (overlay c position data) := by
  refine ⟨h.buffered, ?_, ?_, fun _ => ⟨_, rfl⟩, ?_⟩
  · simp [h.size]
  · have := h.room
    rw [length_overlay]
    show max _ _ ≤ s.capacity
    omega
  · intro b' hb' i hi
    cases hb'
    rw [getD_overlay]
    simp only [Buffer.store]
    split
    · rfl
    · rw [length_overlay] at hi
      exact h.agrees b hb i (by omega)

/-! ### Calls -/

/-- What no call changes. -/
structure SameMode (s t : KernelStream δ) : Prop where
  driver : t.driver = s.driver
  path : t.path = s.path
  readable : t.readable = s.readable
  writable : t.writable = s.writable
  append : t.append = s.append

theorem SameMode.refl (s : KernelStream δ) : SameMode s s := ⟨rfl, rfl, rfl, rfl, rfl⟩

theorem SameMode.trans {s t u : KernelStream δ} (h : SameMode s t) (h' : SameMode t u) :
    SameMode s u :=
  ⟨h'.driver.trans h.driver, h'.path.trans h.path, h'.readable.trans h.readable,
    h'.writable.trans h.writable, h'.append.trans h.append⟩

/-- Only the position, the size and the buffer carry what a stream holds. -/
theorem Holds.congr {s t : KernelStream δ} {c : List UInt8} (h : Holds s c)
    (hd : t.directBackend = s.directBackend) (hs : t.size = s.size)
    (hc : t.capacity = s.capacity) (hb : t.ownedBuffer = s.ownedBuffer) : Holds t c :=
  ⟨hd.trans h.buffered, hs.trans h.size, hc ▸ h.room, hc ▸ hb ▸ h.owned, hb ▸ h.agrees⟩

/-- A buffered read returns the bytes at the position and moves behind them. -/
theorem read_spec (driver : FilesystemDriver σ δ) (backend : σ) {s : KernelStream δ}
    {c : List UInt8} (h : Holds s c) (hr : s.readable = true) (bufSize : Nat) :
    ∃ t, s.read driver backend bufSize =
        ((((c.drop s.position).take bufSize).length, (c.drop s.position).take bufSize), t) ∧
      SameMode s t ∧ Holds t c ∧ t.dirty = s.dirty ∧
      t.position = s.position + ((c.drop s.position).take bufSize).length := by
  have hsize := h.size
  unfold KernelStream.read
  rw [if_neg (by simp [hr])]
  by_cases hend : s.position ≥ s.size
  · -- nothing is left
    rw [if_pos hend, List.drop_eq_nil_of_le (by omega), List.take_nil]
    exact ⟨_, rfl, ⟨rfl, rfl, rfl, rfl, rfl⟩, h.congr rfl rfl rfl rfl, rfl, rfl⟩
  · rw [if_neg hend]
    obtain ⟨b, hb, hagrees⟩ := data_eq_some h (by omega)
    have hcopy : b.bytes s.position (min (s.size - s.position) bufSize)
        = (c.drop s.position).take bufSize := by
      rw [bytes_eq_of_agrees hagrees (by omega), ← List.take_take, List.take_take,
        Nat.min_comm, hsize, ← List.length_drop, ← List.take_eq_take_min]
    have hlen : ((c.drop s.position).take bufSize).length
        = min (s.size - s.position) bufSize := by
      simp
      omega
    simp only [h.buffered, hb, hcopy, hlen, Option.map_some, Option.getD_some,
      Bool.false_eq_true, and_false, if_false]
    exact ⟨_, rfl, ⟨rfl, rfl, rfl, rfl, rfl⟩, h.congr h.buffered.symm rfl rfl rfl, rfl, rfl⟩

/-- A stream that is not readable returns no bytes. -/
theorem read_denied (driver : FilesystemDriver σ δ) (backend : σ) {s : KernelStream δ}
    (hr : s.readable = false) (bufSize : Nat) :
    s.read driver backend bufSize = ((0, []), s) := by
  simp [KernelStream.read, hr]

/-- The position of a write, and everything else as before. -/
theorem positioned_eq (s : KernelStream δ) :
    s.positioned = { s with position := s.writePosition } := by
  unfold KernelStream.positioned KernelStream.writePosition
  split <;> rfl

/-- The first part of a write, when the heap refuses it. -/
theorem fillHole_none {s : KernelStream δ} {heap : Heap}
    (hn : s.holeCapacity heap = none) : s.positioned.fillHole heap = some none := by
  rw [positioned_eq]
  unfold KernelStream.holeCapacity at hn
  unfold KernelStream.fillHole
  split at hn
  · rename_i hpos
    rw [if_pos hpos, ensureCapacity_none (by exact hn)]
  · cases hn

/-- The first part of a write, when the heap grants it: the stream then holds the content
padded up to the position. -/
theorem fillHole_spec {s : KernelStream δ} {c : List UInt8} {heap : Heap} {n : Nat}
    (h : Holds s c) (hn : s.holeCapacity heap = some n) :
    ∃ buffer, s.positioned.fillHole heap = some (some { s with
        ownedBuffer := buffer, capacity := n, size := max s.size s.writePosition,
        position := s.writePosition }) ∧
      Holds { s with
        ownedBuffer := buffer, capacity := n, size := max s.size s.writePosition,
        position := s.writePosition } (padTo c s.writePosition) := by
  have hsize := h.size
  have hp : Holds { s with position := s.writePosition } c := h.congr rfl rfl rfl rfl
  rw [positioned_eq]
  unfold KernelStream.holeCapacity at hn
  unfold KernelStream.fillHole
  generalize s.writePosition = p at *
  split at hn
  · rename_i hpos
    obtain ⟨hroom, buffer, heq, hholds⟩ := ensureCapacity_spec hp hn
    obtain ⟨b, hb⟩ := hholds.owned (show 0 < n by omega)
    have hmax : max s.size p = p := by omega
    have hfilled := hholds.zeroFilled hb (show c.length ≤ p by omega) hroom
    have hb' : buffer = some b := hb
    refine ⟨some (b.zero s.size (p - s.size)), ?_, ?_⟩
    · rw [if_pos hpos, heq, hmax]
      simp only [hb', Option.map_some]
    · rw [hmax]
      exact hfilled
  · rename_i hpos
    cases hn
    have hmax : max s.size p = s.size := by omega
    have hpad : padTo c p = c := by
      simp [padTo, show p - c.length = 0 by omega]
    refine ⟨s.ownedBuffer, ?_, ?_⟩
    · rw [if_neg hpos, hmax]
    · rw [hmax, hpad]
      exact hp

/-- A write that the heap refuses before it has changed anything. -/
theorem write_refused {s : KernelStream δ} {c : List UInt8} {heap : Heap} (h : Holds s c)
    (hw : s.writable = true) (hn : s.holeCapacity heap = none) (data : List UInt8) :
    ∃ t, s.write data heap = some ((0, false), t) ∧ SameMode s t ∧ Holds t c ∧
      t.dirty = s.dirty := by
  have hfill := fillHole_none hn
  unfold KernelStream.write
  rw [if_neg (by simp [hw]), hfill, positioned_eq]
  exact ⟨_, rfl, ⟨rfl, rfl, rfl, rfl, rfl⟩, h.congr rfl rfl rfl rfl, rfl⟩

/-- The end of a write is refused when the sum wraps or the heap does not grant the
growth. -/
theorem putBytes_refused {s : KernelStream δ} {data : List UInt8} {heap : Heap}
    (hdata : data.length < U64)
    (hn : (if s.position + data.length < U64 then
      grownCapacity s.capacity (s.position + data.length) heap else none) = none) :
    s.putBytes data heap = some ((0, false), { s with error := true }) := by
  unfold KernelStream.putBytes
  split at hn
  · rename_i hlt
    rw [add64_eq hlt]
    simp only [ensureCapacity_none hn]
    rw [if_neg (by omega)]
  · -- the wrapped sum is below the position
    rename_i hge
    have hwrap : add64 s.position data.length < s.position := by
      have hlt := add64_lt s.position data.length
      rcases Nat.lt_or_ge s.position U64 with hp | hp
      · unfold add64
        rw [Nat.mod_eq_sub_mod (by omega), Nat.mod_eq_of_lt (by omega)]
        omega
      · omega
    simp only [if_pos hwrap]

/-- Otherwise the data is laid over the content. -/
theorem putBytes_spec {s : KernelStream δ} {c data : List UInt8} {heap : Heap} {n : Nat}
    (h : Holds s c) (hp : s.position ≤ c.length) (hlt : s.position + data.length < U64)
    (hn : grownCapacity s.capacity (s.position + data.length) heap = some n) :
    ∃ t, s.putBytes data heap = some ((data.length, true), t) ∧ SameMode s t ∧
      Holds t (overlay c s.position data) ∧ t.dirty = true ∧
      t.position = s.position + data.length := by
  obtain ⟨hroom, buffer, heq, hholds⟩ := ensureCapacity_spec h hn
  unfold KernelStream.putBytes
  rw [add64_eq hlt]
  simp only [heq]
  rw [if_neg (by omega)]
  by_cases hdata : data = []
  · -- no byte is stored
    rw [if_pos hdata]
    refine ⟨_, rfl, ⟨rfl, rfl, rfl, rfl, rfl⟩, ?_, rfl, rfl⟩
    have hover : overlay c s.position data = c := by
      simp [overlay, padTo, hdata, show s.position - c.length = 0 by omega]
    rw [hover]
    have hsize := h.size
    exact hholds.congr rfl (by simp [hdata]; omega) rfl rfl
  · rw [if_neg hdata]
    have hpos := List.length_pos_of_ne_nil hdata
    obtain ⟨b, hb⟩ := hholds.owned (show 0 < n by omega)
    have hb' : buffer = some b := hb
    have hstored := hholds.stored hb hp hroom
    simp only [hb', Option.map_some]
    exact ⟨_, rfl, ⟨rfl, rfl, rfl, rfl, rfl⟩, hstored.congr rfl rfl rfl rfl, rfl, rfl⟩

/-- Filling the hole first does not matter for what is laid over it. -/
theorem overlay_padTo (c : List UInt8) (position : Nat) (data : List UInt8) :
    overlay (padTo c position) position data = overlay c position data := by
  simp only [overlay, padTo_padTo, Nat.max_self]

/-- A write that fills its hole and is refused afterwards. -/
theorem write_holeOnly {s : KernelStream δ} {c data : List UInt8} {heap : Heap} {n : Nat}
    (h : Holds s c) (hw : s.writable = true) (hdata : data.length < U64)
    (hhole : s.holeCapacity heap = some n) (hend : s.endCapacity data.length heap = none) :
    ∃ t, s.write data heap = some ((0, false), t) ∧ SameMode s t ∧
      Holds t (padTo c s.writePosition) ∧ t.dirty = s.dirty := by
  obtain ⟨buffer, hfill, hholds⟩ := fillHole_spec h hhole
  simp only [KernelStream.endCapacity, hhole, Option.bind_some] at hend
  unfold KernelStream.write
  rw [if_neg (by simp [hw]), hfill]
  simp only []
  rw [putBytes_refused hdata hend]
  exact ⟨_, rfl, ⟨rfl, rfl, rfl, rfl, rfl⟩, hholds.congr rfl rfl rfl rfl, rfl⟩

/-- A write that gets through. -/
theorem write_spec {s : KernelStream δ} {c data : List UInt8} {heap : Heap} {n : Nat}
    (h : Holds s c) (hw : s.writable = true) (hend : s.endCapacity data.length heap = some n) :
    ∃ t, s.write data heap = some ((data.length, true), t) ∧ SameMode s t ∧
      Holds t (overlay c s.writePosition data) ∧ t.dirty = true ∧
      t.position = s.writePosition + data.length := by
  simp only [KernelStream.endCapacity, Option.bind_eq_some_iff] at hend
  obtain ⟨m, hhole, hend⟩ := hend
  obtain ⟨buffer, hfill, hholds⟩ := fillHole_spec h hhole
  split at hend
  · rename_i hlt
    obtain ⟨t, hput, hmode, ht, hdirty, hpos⟩ :=
      putBytes_spec hholds (by simp) hlt hend
    refine ⟨t, ?_, ⟨hmode.driver, hmode.path, hmode.readable, hmode.writable, hmode.append⟩,
      ?_, hdirty, hpos⟩
    · unfold KernelStream.write
      rw [if_neg (by simp [hw]), hfill]
      exact hput
    · rw [← overlay_padTo]
      exact ht
  · cases hend

/-- A truncation that is refused. -/
theorem truncate_refused {s : KernelStream δ} {c : List UInt8} (heap : Heap) {length : Int}
    (h : Holds s c)
    (hn : length < 0 ∨
      s.size < length.toNat ∧ grownCapacity s.capacity length.toNat heap = none) :
    ∃ t, s.truncate length heap = some (-1, t) ∧ SameMode s t ∧ Holds t c ∧
      t.dirty = s.dirty ∧ t.position = s.position := by
  unfold KernelStream.truncate
  by_cases hneg : ¬ s.writable ∨ length < 0
  · rw [if_pos hneg]
    exact ⟨s, rfl, SameMode.refl s, h, rfl, rfl⟩
  · rw [if_neg hneg]
    obtain hlen | ⟨hgt, hgrow⟩ := hn
    · exact absurd (Or.inr hlen) hneg
    · simp only [if_pos hgt, ensureCapacity_none hgrow, Option.map_some]
      exact ⟨_, rfl, ⟨rfl, rfl, rfl, rfl, rfl⟩, h.congr rfl rfl rfl rfl, rfl, rfl⟩

/-- A shorter size cuts the content. -/
theorem Holds.cut {s : KernelStream δ} {c : List UInt8} {n : Nat} (h : Holds s c)
    (hn : n ≤ c.length) : Holds { s with size := n } (c.take n) := by
  have hlen : (c.take n).length = n := List.length_take_of_le hn
  refine ⟨h.buffered, hlen.symm, ?_, h.owned, ?_⟩
  · have := h.room
    rw [hlen]
    exact Nat.le_trans hn this
  · intro b hb i hi
    rw [hlen] at hi
    rw [h.agrees b hb i (by omega), List.getD_eq_getElem?_getD, List.getD_eq_getElem?_getD,
      List.getElem?_take_of_lt hi]

/-- A truncation that gets through. -/
theorem truncate_spec {s : KernelStream δ} {c : List UInt8} {heap : Heap} {length : Int}
    (h : Holds s c) (hw : s.writable = true) (hlen : 0 ≤ length)
    (hn : s.size < length.toNat → ∃ n, grownCapacity s.capacity length.toNat heap = some n) :
    ∃ t, s.truncate length heap = some (0, t) ∧ SameMode s t ∧
      Holds t (padTo (c.take length.toNat) length.toNat) ∧ t.dirty = true ∧
      t.position = min s.position length.toNat := by
  have hsize := h.size
  unfold KernelStream.truncate
  rw [if_neg (by simp [hw]; omega)]
  generalize length.toNat = m at *
  by_cases hgt : m > s.size
  · obtain ⟨n, hgrow⟩ := hn hgt
    obtain ⟨hroom, buffer, heq, hholds⟩ := ensureCapacity_spec h hgrow
    obtain ⟨b, hb⟩ := hholds.owned (show 0 < n by omega)
    have hb' : buffer = some b := hb
    have hfilled := hholds.zeroFilled hb (show c.length ≤ m by omega) hroom
    have htake : c.take m = c := List.take_of_length_le (by omega)
    simp only [if_pos hgt, heq, hb', Option.map_some, htake]
    exact ⟨_, rfl, ⟨rfl, rfl, rfl, rfl, rfl⟩, hfilled.congr rfl rfl rfl rfl, rfl, rfl⟩
  · have hpad : padTo (c.take m) m = c.take m := by
      simp [padTo]
      omega
    have hcut := h.cut (show m ≤ c.length by omega)
    simp only [if_neg hgt, Option.map_some, hpad]
    exact ⟨_, rfl, ⟨rfl, rfl, rfl, rfl, rfl⟩, hcut.congr rfl rfl rfl rfl, rfl, rfl⟩

end VKernel.Proofs.Fs

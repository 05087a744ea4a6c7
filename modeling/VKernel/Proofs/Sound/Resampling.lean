import VKernel.Proofs.Sound.Ownership

/-!
# `VKernel.Proofs.Sound.Resampling`: one segment in one window

A window of `out` frames shows the first `out` frames of a segment (`windowFrames_eq`), as
long as the 32-bit source index does not wrap. What is left of the segment afterwards is the
rest of its frames when the window reaches its end (`advance_end`), or when the source
position at the end of the window is a whole number of source units (`resampled_advance`): the
code keeps whole units only.
-/

set_option autoImplicit false

namespace VKernel.Proofs.Sound

open VKernel.Sound VKernel.Lib

/-! ### Frames and source units -/

/-- Frame `n` belongs to the segment as long as its source unit does. -/
theorem lt_frames_iff {seg : Segment} (hrate : 0 < seg.sampleRate)
    (hpos : seg.srcPos ≤ seg.srcTotal) (n : Nat) :
    n < seg.frames ↔ seg.srcPos + n * seg.sampleRate / MIX_OUTPUT_RATE < seg.srcTotal := by
  have hunits : n * seg.sampleRate / MIX_OUTPUT_RATE < seg.srcTotal - seg.srcPos ↔
      n * seg.sampleRate < (seg.srcTotal - seg.srcPos) * MIX_OUTPUT_RATE :=
    Nat.div_lt_iff_lt_mul (by decide)
  have hframes : n < seg.frames ↔
      n * seg.sampleRate < (seg.srcTotal - seg.srcPos) * MIX_OUTPUT_RATE := by
    unfold Segment.frames
    rw [← Nat.succ_le_iff, Nat.le_div_iff_mul_le hrate, Nat.succ_mul]
    omega
  rw [hframes, ← hunits]
  omega

/-- A segment without samples left fills no frame. -/
theorem frames_done {seg : Segment} (h : seg.srcTotal ≤ seg.srcPos) : seg.frames = 0 := by
  unfold Segment.frames
  rw [Nat.sub_eq_zero_of_le h, Nat.zero_mul, Nat.zero_add]
  cases hr : seg.sampleRate with
  | zero => rfl
  | succ r => exact Nat.div_eq_of_lt (by omega)

theorem resampled_done (copies : List (List UInt8)) {seg : Segment}
    (h : seg.srcTotal ≤ seg.srcPos) : seg.resampled copies = [] := by
  unfold Segment.resampled
  rw [frames_done h]
  rfl

theorem length_resampled (copies : List (List UInt8)) (seg : Segment) :
    (seg.resampled copies).length = seg.frames := by
  unfold Segment.resampled
  rw [List.length_map, List.length_range]

/-! ### The window -/

/-- The prefix of a range on which a test holds. -/
theorem takeWhile_range {p : Nat → Bool} {n k : Nat} (hk : k ≤ n) (hp : ∀ f < k, p f = true)
    (hstop : k < n → p k = false) : (List.range n).takeWhile p = List.range k := by
  obtain ⟨d, rfl⟩ := Nat.exists_eq_add_of_le hk
  rw [List.range_add, List.takeWhile_append_of_pos fun f hf => hp f (List.mem_range.mp hf)]
  cases d with
  | zero => simp
  | succ d =>
    have hfalse := hstop (by omega)
    rw [List.range_succ_eq_map, List.map_cons, Nat.add_zero,
      List.takeWhile_cons_of_neg (by rw [hfalse]; exact Bool.false_ne_true), List.append_nil]

/-- The 32-bit computations on the segment do not wrap in a window of `out` frames: neither its
frame count nor, if the window goes on behind its end, the source index there. -/
structure Segment.Fits (seg : Segment) (out : Nat) : Prop where
  index : seg.frames < out →
    seg.srcPos + seg.frames * seg.sampleRate / MIX_OUTPUT_RATE < U32
  frames : seg.frames < U32

/-- In a window, `u32` products of frames and rates do not wrap. -/
theorem scaled_lt {seg : Segment} (hv : seg.Valid) {f : Nat} (hf : f ≤ MIX_WINDOW_FRAMES) :
    f * seg.sampleRate / MIX_OUTPUT_RATE < U32 := by
  have hrate := hv.rateLt
  have hle : f * seg.sampleRate ≤ MIX_WINDOW_FRAMES * seg.sampleRate := Nat.mul_le_mul_right _ hf
  unfold U32 MIX_OUTPUT_RATE MIX_WINDOW_FRAMES at *
  omega

/-- The source index, where it does not wrap. -/
theorem sourceIndex_eq {seg : Segment} (hv : seg.Valid) {f : Nat} (hw : f ≤ MIX_WINDOW_FRAMES)
    (hlt : seg.srcPos + f * seg.sampleRate / MIX_OUTPUT_RATE < U32) :
    seg.sourceIndex f = seg.srcPos + f * seg.sampleRate / MIX_OUTPUT_RATE := by
  unfold Segment.sourceIndex
  rw [Nat.mod_eq_of_lt (scaled_lt hv hw), Nat.mod_eq_of_lt hlt]

/-- A frame of the segment has its index inside of it. -/
theorem sourceIndex_lt {seg : Segment} (hv : seg.Valid) {f : Nat} (hf : f < seg.frames)
    (hw : f ≤ MIX_WINDOW_FRAMES) :
    seg.sourceIndex f = seg.srcPos + f * seg.sampleRate / MIX_OUTPUT_RATE ∧
      seg.sourceIndex f < seg.srcTotal := by
  have hinside := (lt_frames_iff hv.rate hv.pos f).mp hf
  have heq := sourceIndex_eq hv hw (hinside.trans hv.total)
  exact ⟨heq, heq ▸ hinside⟩

/-- A window shows the first frames of the segment. -/
theorem windowFrames_eq (copies : List (List UInt8)) {seg : Segment} (hv : seg.Valid)
    {out : Nat} (hfits : Segment.Fits seg out) (hout : out ≤ MIX_WINDOW_FRAMES) :
    seg.windowFrames (seg.bytesIn copies) out = (seg.resampled copies).take out := by
  have hinside : ∀ f < min out seg.frames,
      decide (seg.sourceIndex f < seg.srcTotal) = true :=
    fun f hf => decide_eq_true (sourceIndex_lt hv (by omega) (by omega)).2
  have hend : min out seg.frames < out →
      decide (seg.sourceIndex (min out seg.frames) < seg.srcTotal) = false := by
    intro hlt
    have hmin : min out seg.frames = seg.frames := by omega
    rw [hmin, sourceIndex_eq hv (by omega) (hfits.index (hmin ▸ hlt)), decide_eq_false_iff_not]
    exact fun h => absurd ((lt_frames_iff hv.rate hv.pos _).mpr h) (Nat.lt_irrefl _)
  unfold Segment.windowFrames Segment.resampled
  rw [takeWhile_range (Nat.min_le_left _ _) hinside hend, ← List.map_take, List.take_range]
  refine List.map_congr_left fun f hf => ?_
  have hf' := List.mem_range.mp hf
  rw [(sourceIndex_lt hv (by omega) (by omega)).1]

/-! ### Advancing -/

/-- A window that reaches the end of the segment uses it up. -/
theorem advance_end {seg : Segment} (hv : seg.Valid) {out : Nat} (hout : out ≤ MIX_WINDOW_FRAMES)
    (hend : seg.frames ≤ out) : seg.srcTotal ≤ seg.srcPos + seg.advance out := by
  have hpast : ¬ seg.srcPos + out * seg.sampleRate / MIX_OUTPUT_RATE < seg.srcTotal :=
    fun h => absurd ((lt_frames_iff hv.rate hv.pos out).mpr h) (by omega)
  unfold Segment.advance
  rw [Nat.mod_eq_of_lt (scaled_lt hv hout)]
  omega

/-- A window that ends on a whole source unit leaves the rest of the segment's frames. -/
theorem resampled_advance (copies : List (List UInt8)) {seg : Segment} (hv : seg.Valid)
    {out : Nat} (hout : out ≤ MIX_WINDOW_FRAMES) (hmore : out < seg.frames)
    (hdvd : MIX_OUTPUT_RATE ∣ out * seg.sampleRate) :
    ({ seg with srcPos := seg.srcPos + seg.advance out } : Segment).resampled copies =
    (seg.resampled copies).drop out := by
  obtain ⟨k, hk⟩ := hdvd
  have hunits : out * seg.sampleRate / MIX_OUTPUT_RATE = k := by
    rw [hk]
    exact Nat.mul_div_cancel_left k (by decide)
  have hinside := (lt_frames_iff hv.rate hv.pos out).mp hmore
  rw [hunits] at hinside
  have hadvance : seg.advance out = k := by
    unfold Segment.advance
    rw [Nat.mod_eq_of_lt (scaled_lt hv hout), hunits]
    omega
  have hindex : ∀ n, seg.srcPos + k + n * seg.sampleRate / MIX_OUTPUT_RATE =
      seg.srcPos + (out + n) * seg.sampleRate / MIX_OUTPUT_RATE := by
    intro n
    rw [Nat.add_mul, hk, Nat.mul_add_div (by decide), Nat.add_assoc]
  -- Frame `n` of the rest is frame `out + n` of the whole.
  have hframes : ({ seg with srcPos := seg.srcPos + seg.advance out } : Segment).frames =
      seg.frames - out := by
    have hrest : ∀ n, n < ({ seg with srcPos := seg.srcPos + seg.advance out } : Segment).frames ↔
        out + n < seg.frames := by
      intro n
      have hadv := @lt_frames_iff { seg with srcPos := seg.srcPos + seg.advance out } hv.rate
        (show seg.srcPos + seg.advance out ≤ seg.srcTotal by omega) n
      rw [lt_frames_iff hv.rate hv.pos, hadv]
      show seg.srcPos + seg.advance out + n * seg.sampleRate / MIX_OUTPUT_RATE < seg.srcTotal ↔ _
      rw [hadvance, hindex]
    have h₁ := hrest (seg.frames - out)
    have h₂ := hrest (seg.frames - out - 1)
    omega
  have hrange : (List.range seg.frames).drop out =
      (List.range (seg.frames - out)).map fun n => out + n := by
    have hsum : seg.frames = out + (seg.frames - out) := by omega
    rw [hsum, List.range_add, List.drop_append_of_le_length (by simp), Nat.add_sub_cancel_left]
    simp
  unfold Segment.resampled
  rw [hframes, ← List.map_drop, hrange, List.map_map]
  refine List.map_congr_left fun n _ => ?_
  show seg.scaledAt (seg.bytesIn copies)
    (seg.srcPos + seg.advance out + n * seg.sampleRate / MIX_OUTPUT_RATE) = _
  rw [hadvance, hindex]
  rfl

end VKernel.Proofs.Sound

import VKernel.Proofs.Sound.Progress

/-!
# `VKernel.Proofs.Sound.StuckSounds`: sounds that never end

A sound that is not playable and plays alone stays for ever (`unplayable_never_ends`), so the
condition of `mixer_progress` leaves out no call for nothing. A slow one never moves. One of
`2 ^ 32` frames or more does, but its windows are as long as its count of frames modulo
`2 ^ 32`, and these take it down to `2 ^ 32` frames at the lowest.
-/

set_option autoImplicit false

namespace VKernel.Proofs.Sound

open VKernel.Sound VKernel.Lib

variable {σ : Type}

/-- A segment with units left that a window of its own frames does not bring to its end: a whole
window is less than one of its units, or its frames do not fit in 32 bits. -/
structure Stuck (seg : Segment) : Prop where
  left : seg.srcPos < seg.srcTotal
  slow : MIX_WINDOW_FRAMES * seg.sampleRate < MIX_OUTPUT_RATE ∨ U32 ≤ seg.frames

/-- The segment is the only one on the channels. -/
structure Alone (m : Mixer σ) (c : Nat) (seg : Segment) : Prop where
  channel : c < MIX_CHANNELS
  sounds : m.sounds c = [seg]
  others : ∀ d < MIX_CHANNELS, d ≠ c → m.sounds d = []

/-- A segment has at least `n + 1` frames when the units of `n` frames are not all it has. -/
theorem lt_frames_units {seg : Segment} (hrate : 0 < seg.sampleRate) (n : Nat) :
    n < seg.frames ↔ n * seg.sampleRate < (seg.srcTotal - seg.srcPos) * MIX_OUTPUT_RATE := by
  unfold Segment.frames
  rw [← Nat.succ_le_iff, Nat.le_div_iff_mul_le hrate, Nat.succ_mul]
  omega

/-- A stuck segment stays stuck. The frames that a cut count leaves never carry it below
`2 ^ 32`, and a slow one does not move at all. -/
theorem Stuck.moved {seg : Segment} (h : Stuck seg) (hv : seg.Valid) :
    Stuck { seg with
      srcPos := seg.srcPos + seg.advance (min seg.remainingFrames MIX_WINDOW_FRAMES) } := by
  have hrate := hv.rate
  have hleft := h.left
  have hunits : seg.advance (min seg.remainingFrames MIX_WINDOW_FRAMES) ≤
      min seg.remainingFrames MIX_WINDOW_FRAMES * seg.sampleRate / MIX_OUTPUT_RATE := by
    unfold Segment.advance
    exact Nat.le_trans (Nat.min_le_left _ _) (Nat.mod_le _ _)
  rcases h.slow with hslow | hlong
  · have hzero : min seg.remainingFrames MIX_WINDOW_FRAMES * seg.sampleRate / MIX_OUTPUT_RATE = 0 :=
      Nat.div_eq_of_lt (Nat.lt_of_le_of_lt
        (Nat.mul_le_mul_right _ (Nat.min_le_right _ _)) hslow)
    rw [hzero] at hunits
    rw [Nat.le_zero.mp hunits]
    exact ⟨hleft, .inl hslow⟩
  · generalize hout : min seg.remainingFrames MIX_WINDOW_FRAMES = out at hunits ⊢
    have hcut : U32 + out ≤ seg.frames := by
      have hle : out ≤ seg.frames % U32 := by
        rw [← hout]
        exact Nat.min_le_left _ _
      have hdiv := Nat.div_add_mod seg.frames U32
      have hone : 1 ≤ seg.frames / U32 := (Nat.one_le_div_iff (by decide)).mpr hlong
      have hmul : U32 * 1 ≤ U32 * (seg.frames / U32) := Nat.mul_le_mul_left _ hone
      omega
    have hlast := (lt_frames_units hrate (U32 + out - 1)).mp (by
      have : 0 < U32 := by decide
      omega)
    have hadvance : seg.advance out * MIX_OUTPUT_RATE ≤ out * seg.sampleRate :=
      Nat.le_trans (Nat.mul_le_mul_right _ hunits) (Nat.div_mul_le_self _ _)
    -- What was taken is no more than the frames of the window.
    have hmore : (U32 - 1) * seg.sampleRate <
        (seg.srcTotal - (seg.srcPos + seg.advance out)) * MIX_OUTPUT_RATE := by
      have hsum : (U32 + out - 1) * seg.sampleRate =
          (U32 - 1) * seg.sampleRate + out * seg.sampleRate := by
        rw [← Nat.add_mul]
        congr 1
        have : 0 < U32 := by decide
        omega
      have hrest : (seg.srcTotal - (seg.srcPos + seg.advance out)) * MIX_OUTPUT_RATE =
          (seg.srcTotal - seg.srcPos) * MIX_OUTPUT_RATE -
            seg.advance out * MIX_OUTPUT_RATE := by
        rw [← Nat.sub_mul]
        congr 1
        omega
      omega
    have hframes : U32 - 1 <
        ({ seg with srcPos := seg.srcPos + seg.advance out } : Segment).frames :=
      (@lt_frames_units { seg with srcPos := seg.srcPos + seg.advance out } hrate _).mpr hmore
    refine ⟨?_, .inr (by omega)⟩
    show seg.srcPos + seg.advance out < seg.srcTotal
    have hpos : 0 < (seg.srcTotal - (seg.srcPos + seg.advance out)) * MIX_OUTPUT_RATE :=
      Nat.lt_of_le_of_lt (Nat.zero_le _) hmore
    have := Nat.pos_of_mul_pos_right hpos
    omega

/-- The window for a segment that plays alone. -/
theorem window_alone {m : Mixer σ} {c : Nat} {seg : Segment} (h : Ready m) (ha : Alone m c seg) :
    m.window = min seg.remainingFrames MIX_WINDOW_FRAMES := by
  obtain ⟨hactive, hcurrent, -⟩ := h.front ha.channel ha.sounds
  have hself : m.demand c = seg.remainingFrames := by
    unfold Mixer.demand
    rw [if_pos hactive, hcurrent]
  have hothers : ∀ x ∈ (List.range MIX_CHANNELS).map m.demand, x ≤ seg.remainingFrames := by
    intro x hx
    obtain ⟨d, hd, rfl⟩ := List.mem_map.mp hx
    by_cases hdc : d = c
    · rw [hdc, hself]
    · have heq := h.sounds_eq (mem_channels hd)
      rw [ha.others d (mem_channels hd) hdc] at heq
      unfold Mixer.demand
      split
      · rename_i hact
        rw [if_pos hact] at heq
        exact absurd heq (by simp)
      · exact Nat.zero_le _
  have hmax : ((List.range MIX_CHANNELS).map m.demand).foldr max 0 ≤ seg.remainingFrames :=
    List.max_le_of_forall_le _ _ hothers
  have hle := demand_le_window m ha.channel
  rw [hself] at hle
  unfold Mixer.window at hle ⊢
  omega

/-- A submission leaves a stuck segment where it is, or advances it without an end in sight. -/
theorem stuck_step (drv : Driver σ) {m : Mixer σ} {c : Nat} {seg : Segment} (h : Ready m)
    (ha : Alone m c seg) (hs : Stuck seg) :
    ∃ seg', Ready (m.doSubmit drv).2 ∧ Alone (m.doSubmit drv).2 c seg' ∧ Stuck seg' ∧
      seg'.data = seg.data := by
  obtain ⟨hsounds, -⟩ := doSubmit_spec drv h
  obtain ⟨-, -, hvalid⟩ := h.front ha.channel ha.sounds
  have hmoved := hs.moved hvalid
  rw [← window_alone h ha] at hmoved
  have hnext : ∃ seg', (m.doSubmit drv).2.sounds c = [seg'] ∧ Stuck seg' ∧
      seg'.data = seg.data := by
    have hc := hsounds c ha.channel
    rw [ha.sounds] at hc
    split at hc
    · refine ⟨_, hc.trans (if_pos hmoved.left), hmoved, rfl⟩
    · exact ⟨seg, hc, hs, rfl⟩
  have hnone : ∀ d < MIX_CHANNELS, d ≠ c → (m.doSubmit drv).2.sounds d = [] := by
    intro d hd hne
    rw [hsounds d hd, ha.others d hd hne]
    split
    · rfl
    · rfl
  obtain ⟨seg', hseg', hstuck, hdata⟩ := hnext
  refine ⟨seg', ⟨h.ok.doSubmit drv, fun d hd s hmem => ?_⟩, ⟨ha.channel, hseg', hnone⟩, hstuck,
    hdata⟩
  by_cases hdc : d = c
  · rw [hdc, hseg'] at hmem
    rw [List.mem_singleton.mp hmem]
    exact hstuck.left
  · rw [hnone d hd hdc] at hmem
    exact absurd hmem List.not_mem_nil

/-- The mixer with one sound that was just accepted. -/
def startedWith (drv : Driver σ) (d : σ) (a : PlayArgs) : Mixer (σ × Nat) :=
  Mixer.run (counting drv) (d, 0) [.registerDriver, .initActive true, .play a]

/-- The segment of a call, with the first copy that is made. -/
def firstSegment (a : PlayArgs) : Segment :=
  ⟨some 0, a.source, a.srcSamples.toNat, 0, a.sampleRate.toNat, a.fmt, a.volLeft, a.volRight⟩

theorem startedWith_alone (drv : Driver σ) (d : σ) {a : PlayArgs} (hok : a.ok = true) :
    Alone (startedWith drv d a) a.chIdx.toNat (firstSegment a) := by
  have hargs : a.ok ≠ false := by simp [hok]
  have hc := PlayArgs.channel_lt hargs
  have hlen : (Mixer.initial (d, 0)).channels.length = MIX_CHANNELS := rfl
  have hsounds : ∀ e, (startedWith drv d a).sounds e =
      if e = a.chIdx.toNat then [firstSegment a] else (Mixer.initial (d, 0)).sounds e := by
    intro e
    show Mixer.sounds (Mixer.mixPlay ({ Mixer.initial (d, 0) with
      driverSet := true, initialised := true } : Mixer (σ × Nat)) a).2 e = _
    unfold Mixer.mixPlay
    rw [if_neg hargs]
    show Mixer.sounds (Mixer.update _ a.chIdx.toNat _ _) e = _
    rw [sounds_update (by exact hlen) hc]
    rfl
  refine ⟨hc, ?_, fun e he hne => ?_⟩
  · rw [hsounds, if_pos rfl]
  · rw [hsounds, if_neg hne]
    exact sounds_initial _ he

theorem startedWith_ready (drv : Driver σ) (d : σ) {a : PlayArgs} (hok : a.ok = true) :
    Ready (startedWith drv d a) := by
  have hstart := startedWith_alone drv d hok
  refine ⟨MixerOk.run _ _ _, fun e he seg hseg => ?_⟩
  by_cases hne : e = a.chIdx.toNat
  · rw [hne, hstart.sounds] at hseg
    rw [List.mem_singleton.mp hseg]
    exact srcSamples_pos hok
  · rw [hstart.others e he hne] at hseg
    exact absurd hseg List.not_mem_nil

/-- A call that is not playable makes a stuck segment. -/
theorem firstSegment_stuck {a : PlayArgs} (hok : a.ok = true) (h : ¬ a.Playable) :
    Stuck (firstSegment a) := by
  have hunits := srcSamples_pos hok
  simp only [PlayArgs.ok, Bool.and_eq_true, decide_eq_true_eq] at hok
  have hrate : 0 < a.sampleRate.toNat :=
    Nat.pos_of_ne_zero fun h0 => hok.1.1.2 (UInt32.toNat_inj.mp h0)
  refine ⟨hunits, ?_⟩
  by_cases hslow : MIX_WINDOW_FRAMES * a.sampleRate.toNat < MIX_OUTPUT_RATE
  · exact .inl hslow
  · have hlong : (U32 - 1) * a.sampleRate.toNat < a.srcSamples.toNat * MIX_OUTPUT_RATE :=
      Nat.lt_of_not_le fun hle => h ⟨Nat.le_of_not_lt hslow, hle⟩
    have hframes := (@lt_frames_units (firstSegment a) hrate (U32 - 1)).mpr hlong
    exact .inr (by omega)

/-- The condition on the calls is the weakest: a sound that is not playable, played alone,
never ends, whatever the device does and however often it takes a window. -/
theorem unplayable_never_ends (drv : Driver σ) (d : σ) {a : PlayArgs} (hok : a.ok = true)
    (h : ¬ a.Playable) (devices : List σ) :
    (devices.foldl (fun m d => m.stepped drv (.submit d)) (startedWith drv d a)).Holds
      a.chIdx.toNat 0 := by
  have hstart := startedWith_alone drv d hok
  have hready := startedWith_ready drv d hok
  -- The segment is stuck after every number of submissions.
  have hrest : ∀ (devices : List σ) (m : Mixer (σ × Nat)) (seg : Segment), Ready m →
      Alone m a.chIdx.toNat seg → Stuck seg → seg.data = some 0 →
      (devices.foldl (fun m d => m.stepped drv (.submit d)) m).Holds a.chIdx.toNat 0 := by
    intro devices
    induction devices with
    | nil => exact fun m seg _ halone _ hdata => ⟨seg, halone.sounds ▸ List.mem_cons_self, hdata⟩
    | cons device devices ih =>
      intro m seg hm halone hstuck hdata
      have hm' : Ready (m.deviceIn device) := ⟨hm.ok.device _, hm.left⟩
      obtain ⟨seg', hnext, halone', hstuck', hdata'⟩ := stuck_step (counting drv) hm'
        ⟨halone.channel, halone.sounds, halone.others⟩ hstuck
      exact ih _ seg' hnext halone' hstuck' (hdata'.trans hdata)
  exact hrest devices _ _ hready hstart (firstSegment_stuck hok h) rfl

/-- One unit at 2 Hz, on a channel of its own: the first window is taken, and nothing moves. The
sound is still there after any number of windows. -/
theorem slow_sound_never_ends :
    ((startedWith silentDriver () ⟨0, 1, [200], 1, .unsigned8, 2, 255, 255, true⟩).doSubmit
      (counting silentDriver)).1 = true ∧
    ¬ SubmitProgresses (counting silentDriver)
      (startedWith silentDriver () ⟨0, 1, [200], 1, .unsigned8, 2, 255, 255, true⟩) ∧
    ∀ devices : List Unit, (devices.foldl (fun m d => m.stepped silentDriver (.submit d))
      (startedWith silentDriver () ⟨0, 1, [200], 1, .unsigned8, 2, 255, 255, true⟩)).Holds 0 0 := by
  have hok : (⟨0, 1, [200], 1, .unsigned8, 2, 255, 255, true⟩ : PlayArgs).ok = true := by
    decide
  have halone := startedWith_alone silentDriver () hok
  have hready := startedWith_ready silentDriver () hok
  obtain ⟨hsounds, -, -, hfailed⟩ := doSubmit_spec (counting silentDriver) hready
  have hwindow := window_alone hready halone
  rw [show min (firstSegment ⟨0, 1, [200], 1, .unsigned8, 2, 255, 255, true⟩).remainingFrames
    MIX_WINDOW_FRAMES = 16384 by decide] at hwindow
  have htaken : ((startedWith silentDriver ()
      ⟨0, 1, [200], 1, .unsigned8, 2, 255, 255, true⟩).doSubmit (counting silentDriver)).1 =
        true := by
    by_contra hne
    rw [Bool.not_eq_true] at hne
    rcases hfailed hne with ⟨-, hoff⟩ | ⟨-, hzero⟩ | ⟨window, hplay⟩
    · exact absurd hoff (by decide)
    · rw [hwindow] at hzero
      exact absurd hzero (by decide)
    · exact absurd (congrArg Prod.fst hplay) (by simp [counting, silentDriver])
  refine ⟨htaken, fun hprogress => ?_, fun devices =>
    unplayable_never_ends silentDriver () hok (by decide) devices⟩
  obtain ⟨c, hc, seg, rest, hfront, hmoved⟩ := hprogress.advances htaken
  have hafter := hsounds c hc
  rw [htaken, if_pos rfl, hwindow] at hafter
  by_cases hne : c = 0
  · subst hne
    have hone : Mixer.sounds (startedWith silentDriver ()
        ⟨0, 1, [200], 1, .unsigned8, 2, 255, 255, true⟩) 0 =
          [firstSegment ⟨0, 1, [200], 1, .unsigned8, 2, 255, 255, true⟩] := halone.sounds
    rw [hone] at hfront hafter
    obtain ⟨rfl, rfl⟩ := List.cons.inj hfront
    rw [hafter, show moved 16384 [firstSegment ⟨0, 1, [200], 1, .unsigned8, 2, 255, 255, true⟩] =
      [firstSegment ⟨0, 1, [200], 1, .unsigned8, 2, 255, 255, true⟩] by decide] at hmoved
    rcases hmoved with hgone | ⟨n, hn, hsame⟩
    · exact absurd hgone (by simp)
    · have hpos := congrArg Segment.srcPos (List.cons.inj hsame).1
      have hzero : (0 : Nat) = 0 + n := hpos
      omega
  · rw [halone.others c hc hne] at hfront
    exact absurd hfront (by simp)

end VKernel.Proofs.Sound

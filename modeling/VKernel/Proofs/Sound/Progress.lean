import VKernel.Proofs.Sound.Submissions

/-!
# `VKernel.Proofs.Sound.Progress`: every playable sound ends

`Good` is the invariant: all segments on the channels are playable. A submission that succeeds
then moves the front of every active channel by one unit at least (`Good.advance_pos`), and no
other step moves a sound back. `Progressed` says this of any number of steps.
-/

set_option autoImplicit false

namespace VKernel.Proofs.Sound

open VKernel.Sound VKernel.Lib

variable {σ : Type}

/-! ### Playable segments -/

section Playable

variable {seg : Segment} {out : Nat}

/-- A playable segment has a rate. -/
theorem Segment.Playable.rate_pos (h : seg.Playable) : 0 < seg.sampleRate := by
  have hrate := h.rate
  unfold MIX_OUTPUT_RATE MIX_WINDOW_FRAMES at hrate
  omega

/-- It has frames left. -/
theorem Segment.Playable.frames_pos (h : seg.Playable) : 0 < seg.frames := by
  have hleft := h.left
  rw [lt_frames_iff (Segment.Playable.rate_pos h) (Nat.le_of_lt hleft), Nat.zero_mul, Nat.zero_div]
  exact hleft

/-- A window that is whole, or reaches the end of the segment, advances it by one unit at
least. -/
theorem Segment.Playable.advance_pos (h : seg.Playable) (hv : seg.Valid)
    (hout : out ≤ MIX_WINDOW_FRAMES) (hlong : min seg.frames MIX_WINDOW_FRAMES ≤ out) :
    0 < seg.advance out := by
  have hleft := h.left
  by_cases hend : seg.frames ≤ out
  · have := advance_end hv hout hend
    omega
  · have hwhole : out = MIX_WINDOW_FRAMES := by omega
    have hunit : 0 < MIX_WINDOW_FRAMES * seg.sampleRate / MIX_OUTPUT_RATE :=
      Nat.div_pos h.rate (by decide)
    unfold Segment.advance
    rw [hwhole, Nat.mod_eq_of_lt (scaled_lt hv (Nat.le_refl _))]
    omega

/-- A segment that was moved has no more frames left than before. -/
theorem frames_moved_le (n : Nat) :
    ({ seg with srcPos := seg.srcPos + n } : Segment).frames ≤ seg.frames := by
  unfold Segment.frames
  refine Nat.div_le_div_right ?_
  have hle : (seg.srcTotal - (seg.srcPos + n)) * MIX_OUTPUT_RATE ≤
      (seg.srcTotal - seg.srcPos) * MIX_OUTPUT_RATE := Nat.mul_le_mul_right _ (by omega)
  show (seg.srcTotal - (seg.srcPos + n)) * MIX_OUTPUT_RATE + seg.sampleRate - 1 ≤ _
  omega

/-- What is left of playable segments is playable, and has the copies that they had. -/
theorem mem_moved {segs : List Segment} {s : Segment} (h : ∀ t ∈ segs, t.Playable)
    (hs : s ∈ moved out segs) : s.Playable ∧ ∃ t ∈ segs, t.data = s.data := by
  cases segs with
  | nil => exact absurd hs List.not_mem_nil
  | cons t rest =>
    have hrest : s ∈ rest → s.Playable ∧ ∃ t' ∈ t :: rest, t'.data = s.data :=
      fun hmem => ⟨h s (List.mem_cons_of_mem _ hmem), s, List.mem_cons_of_mem _ hmem, rfl⟩
    unfold moved at hs
    simp only [] at hs
    split at hs
    · rename_i hleft
      rcases List.mem_cons.mp hs with rfl | hmem
      · have ht := h t List.mem_cons_self
        exact ⟨⟨hleft, ht.rate, Nat.lt_of_le_of_lt (frames_moved_le _) ht.frames⟩, t,
          List.mem_cons_self, rfl⟩
      · exact hrest hmem
    · exact hrest hs

end Playable

/-! ### The units until the end of a sound -/

section Units

variable {id : Nat}

/-- A sound that is not queued is over. -/
theorem unitsUntil_none {segs : List Segment} (h : ¬ ∃ s ∈ segs, s.data = some id) :
    unitsUntil id segs = 0 := by
  cases segs with
  | nil => rfl
  | cons seg rest => exact if_neg h

/-- The first segment counts in front of the others. -/
theorem unitsUntil_cons {seg : Segment} {rest : List Segment}
    (h : ∃ s ∈ seg :: rest, s.data = some id) :
    unitsUntil id (seg :: rest) = seg.left + unitsUntil id rest := if_pos h

/-- Other sounds behind it do not change how long a sound lasts. -/
theorem unitsUntil_append {segs added : List Segment} (h : ∀ s ∈ added, s.data ≠ some id) :
    unitsUntil id (segs ++ added) = unitsUntil id segs := by
  have hnone : ¬ ∃ s ∈ added, s.data = some id := fun ⟨s, hs, heq⟩ => h s hs heq
  induction segs with
  | nil => exact unitsUntil_none hnone
  | cons seg segs ih =>
    by_cases hhas : ∃ s ∈ seg :: segs, s.data = some id
    · have hhas' : ∃ s ∈ seg :: (segs ++ added), s.data = some id := by
        obtain ⟨s, hs, heq⟩ := hhas
        exact ⟨s, List.mem_append_left added hs, heq⟩
      rw [List.cons_append, unitsUntil_cons hhas', unitsUntil_cons hhas, ih]
    · have hhas' : ¬ ∃ s ∈ seg :: segs ++ added, s.data = some id := by
        rintro ⟨s, hs, heq⟩
        rcases List.mem_append.mp hs with hs | hs
        · exact hhas ⟨s, hs, heq⟩
        · exact h s hs heq
      rw [unitsUntil_none hhas', unitsUntil_none hhas]

/-- A window that moves the first segment takes a unit of every sound of the channel. -/
theorem unitsUntil_moved {segs : List Segment} {out : Nat} (hplayable : ∀ s ∈ segs, s.Playable)
    (hadvance : ∀ seg rest, segs = seg :: rest → 0 < seg.advance out)
    (hhas : ∃ s ∈ moved out segs, s.data = some id) :
    (∃ s ∈ segs, s.data = some id) ∧ unitsUntil id (moved out segs) + 1 ≤ unitsUntil id segs := by
  cases segs with
  | nil =>
    obtain ⟨s, hs, -⟩ := hhas
    exact absurd hs List.not_mem_nil
  | cons seg rest =>
    have hpos := hadvance seg rest rfl
    have hleft := (hplayable seg List.mem_cons_self).left
    have hbefore : ∃ s ∈ seg :: rest, s.data = some id := by
      obtain ⟨s, hs, hid⟩ := hhas
      obtain ⟨-, t, ht, heq⟩ := mem_moved hplayable hs
      exact ⟨t, ht, heq.trans hid⟩
    refine ⟨hbefore, ?_⟩
    rw [unitsUntil_cons hbefore]
    unfold moved at hhas ⊢
    simp only [] at hhas ⊢
    have hseg : seg.left = seg.srcTotal - seg.srcPos := rfl
    split
    · rename_i hmore
      rw [if_pos hmore] at hhas
      rw [unitsUntil_cons hhas]
      show seg.srcTotal - (seg.srcPos + seg.advance out) + _ + 1 ≤ _
      omega
    · omega

end Units

/-! ### The invariant -/

/-- All segments on the channels are playable, with copies that were made. -/
structure Good (m : Mixer σ) : Prop where
  ok : MixerOk [] m
  playable : ∀ c < MIX_CHANNELS, ∀ seg ∈ m.sounds c, seg.Playable
  known : ∀ c < MIX_CHANNELS, ∀ seg ∈ m.sounds c, ∀ id, seg.data = some id → id < m.copies.length

section Good

variable {m : Mixer σ} {c : Nat}

/-- The device does not matter. -/
theorem Good.device (h : Good m) (d : σ) : Good { m with device := d } :=
  ⟨h.ok.device d, h.playable, h.known⟩

/-- A good mixer is ready. -/
theorem Good.ready (h : Good m) : Ready m :=
  ⟨h.ok, fun c hc seg hseg => (h.playable c hc seg hseg).left⟩

/-- An active channel asks for a frame at least, and for all that its segment has left. -/
theorem Good.demand_eq (h : Good m) (hc : c < MIX_CHANNELS) {seg : Segment} {rest : List Segment}
    (hsounds : m.sounds c = seg :: rest) : m.demand c = seg.frames := by
  obtain ⟨hactive, hcurrent, -⟩ := h.ready.front hc hsounds
  unfold Mixer.demand
  rw [if_pos hactive, hcurrent]
  exact Nat.mod_eq_of_lt (h.playable c hc seg (hsounds ▸ List.mem_cons_self)).frames

/-- Every window moves every active channel. -/
theorem Good.advance_pos (h : Good m) (hc : c < MIX_CHANNELS) {seg : Segment}
    {rest : List Segment} (hsounds : m.sounds c = seg :: rest) : 0 < seg.advance m.window := by
  obtain ⟨-, -, hvalid⟩ := h.ready.front hc hsounds
  have hle := demand_le_window m hc
  rw [h.demand_eq hc hsounds] at hle
  exact Segment.Playable.advance_pos (h.playable c hc seg (hsounds ▸ List.mem_cons_self)) hvalid
    (Nat.min_le_right _ _) hle

/-- A window without a frame means that no channel is active. -/
theorem Good.idle_of_window_zero (h : Good m) (hzero : m.window = 0) :
    ∀ c < MIX_CHANNELS, (m.channel c).active = false := by
  intro c hc
  by_contra hactive
  rw [Bool.not_eq_false] at hactive
  have heq := h.ready.sounds_eq hc
  rw [if_pos hactive] at heq
  have hpos := Segment.Playable.frames_pos (h.playable c hc _ (heq ▸ List.mem_cons_self))
  have hle := demand_le_window m hc
  rw [h.demand_eq hc heq, hzero] at hle
  unfold MIX_WINDOW_FRAMES at hle
  omega

end Good

/-- With a window of some length, some channel has a segment. -/
theorem Ready.exists_front {m : Mixer σ} (h : Ready m) (hpos : 0 < m.window) :
    ∃ c < MIX_CHANNELS, ∃ seg rest, m.sounds c = seg :: rest := by
  by_contra hnone
  have hdemand : ∀ x ∈ (List.range MIX_CHANNELS).map m.demand, x ≤ 0 := by
    intro x hx
    obtain ⟨c, hc, rfl⟩ := List.mem_map.mp hx
    have heq := h.sounds_eq (mem_channels hc)
    unfold Mixer.demand
    split
    · rename_i hactive
      rw [if_pos hactive] at heq
      exact absurd ⟨c, mem_channels hc, _, _, heq⟩ hnone
    · exact Nat.le_refl _
  have hmax : ((List.range MIX_CHANNELS).map m.demand).foldr max 0 ≤ 0 :=
    List.max_le_of_forall_le _ 0 hdemand
  unfold Mixer.window at hpos
  omega

/-- A submission gets on, or there is nothing to play. -/
theorem Good.submitProgresses (drv : Driver σ) {m : Mixer σ} (h : Good m) :
    SubmitProgresses drv m := by
  obtain ⟨hsounds, -, hsucceeded, hfailed⟩ := doSubmit_spec drv h.ready
  constructor
  · intro hres
    obtain ⟨c, hc, seg, rest, hfront⟩ := h.ready.exists_front (hsucceeded hres).1
    have hadvance := h.advance_pos hc hfront
    have hafter := hsounds c hc
    rw [hres, if_pos rfl, hfront] at hafter
    unfold moved at hafter
    simp only [] at hafter
    refine ⟨c, hc, seg, rest, hfront, ?_⟩
    split at hafter
    · exact .inr ⟨_, hadvance, hafter⟩
    · exact .inl hafter
  · intro haccepts hdriver hinit hres
    rcases hfailed hres with ⟨-, hoff⟩ | ⟨-, hzero⟩ | ⟨window, hplay⟩
    · rcases hoff with hoff | hoff
      · exact absurd (hdriver.symm.trans hoff) (by simp)
      · exact absurd (hinit.symm.trans hoff) (by simp)
    · exact h.idle_of_window_zero hzero
    · exact absurd ((haccepts _ window).symm.trans (congrArg Prod.fst hplay)) (by simp)

/-! ### Steps -/

/-- From `m` to `m'` no sound came back or was held up: every window that was taken since has
taken a unit of each sound that is still there. -/
structure Progressed (m m' : Mixer (σ × Nat)) : Prop where
  good : Good m'
  copies : m.copies.length ≤ m'.copies.length
  sounds : ∀ c < MIX_CHANNELS, ∀ id < m.copies.length, m'.Holds c id → m.Holds c id ∧
    unitsUntil id (m'.sounds c) + m'.device.2 ≤ unitsUntil id (m.sounds c) + m.device.2

/-- Progress adds up. -/
theorem Progressed.trans {m m' m'' : Mixer (σ × Nat)} (h : Progressed m m')
    (h' : Progressed m' m'') : Progressed m m'' := by
  refine ⟨h'.good, Nat.le_trans h.copies h'.copies, fun c hc id hid hholds => ?_⟩
  obtain ⟨hmid, hle'⟩ := h'.sounds c hc id (Nat.lt_of_lt_of_le hid h.copies) hholds
  obtain ⟨hfirst, hle⟩ := h.sounds c hc id hid hmid
  exact ⟨hfirst, Nat.le_trans hle' hle⟩

/-- The segments that a step may put on a channel: new ones, and playable. -/
def Added (m m' : Mixer σ) (added : List Segment) : Prop :=
  ∀ seg ∈ added, seg.Playable ∧
    ∃ id, seg.data = some id ∧ m.copies.length ≤ id ∧ id < m'.copies.length

/-- A step that plays nothing: on every channel the segments stay or are dropped, and new ones
come behind them. -/
theorem Progressed.of_added {m m' : Mixer (σ × Nat)} (h : Good m) (hok : MixerOk [] m')
    (hcopies : m.copies.length ≤ m'.copies.length) (hcount : m'.device.2 = m.device.2)
    (hsounds : ∀ c < MIX_CHANNELS, ∃ added, Added m m' added ∧
      (m'.sounds c = m.sounds c ++ added ∨ m'.sounds c = added)) : Progressed m m' := by
  have hmem : ∀ c < MIX_CHANNELS, ∀ seg ∈ m'.sounds c,
      seg ∈ m.sounds c ∨ ∃ added, Added m m' added ∧ seg ∈ added := by
    intro c hc seg hseg
    obtain ⟨added, hadded, heq | heq⟩ := hsounds c hc
    · rw [heq] at hseg
      exact (List.mem_append.mp hseg).imp id fun hmem => ⟨added, hadded, hmem⟩
    · rw [heq] at hseg
      exact .inr ⟨added, hadded, hseg⟩
  refine ⟨⟨hok, fun c hc seg hseg => ?_, fun c hc seg hseg id hid => ?_⟩, hcopies,
    fun c hc id hid hholds => ?_⟩
  · rcases hmem c hc seg hseg with hold | ⟨added, hadded, hnew⟩
    · exact h.playable c hc seg hold
    · exact (hadded seg hnew).1
  · rcases hmem c hc seg hseg with hold | ⟨added, hadded, hnew⟩
    · exact Nat.lt_of_lt_of_le (h.known c hc seg hold id hid) hcopies
    · obtain ⟨-, id', hid', -, hlt⟩ := hadded seg hnew
      obtain rfl := Option.some.inj (hid'.symm.trans hid)
      exact hlt
  · -- The new segments have other copies.
    have hother : ∀ added, Added m m' added → ∀ s ∈ added, s.data ≠ some id := by
      intro added hadded s hs heq
      obtain ⟨-, id', hid', hge, -⟩ := hadded s hs
      have := Option.some.inj (hid'.symm.trans heq)
      omega
    obtain ⟨added, hadded, heq | heq⟩ := hsounds c hc
    · obtain ⟨s, hs, hdata⟩ := hholds
      rw [heq] at hs ⊢
      rw [unitsUntil_append (hother added hadded), hcount]
      rcases List.mem_append.mp hs with hs | hs
      · exact ⟨⟨s, hs, hdata⟩, Nat.le_refl _⟩
      · exact absurd hdata (hother added hadded s hs)
    · obtain ⟨s, hs, hdata⟩ := hholds
      rw [heq] at hs
      exact absurd hdata (hother added hadded s hs)

/-- A step that leaves the channels alone. -/
theorem Progressed.of_channels {m m' : Mixer (σ × Nat)} (h : Good m) (hok : MixerOk [] m')
    (hcopies : m'.copies = m.copies) (hchannels : m'.channels = m.channels)
    (hcount : m'.device.2 = m.device.2) : Progressed m m' := by
  refine .of_added h hok (by rw [hcopies]) hcount fun c _ =>
    ⟨[], fun _ hmem => absurd hmem List.not_mem_nil, .inl ?_⟩
  rw [List.append_nil]
  show (m'.channels.getD c {}).segments = (m.channels.getD c {}).segments
  rw [hchannels]

/-- Nothing happened. -/
theorem Progressed.refl {m : Mixer (σ × Nat)} (h : Good m) : Progressed m m :=
  .of_channels h h.ok rfl rfl rfl

/-- The device moved. -/
theorem Progressed.device {m : Mixer (σ × Nat)} (h : Good m) {d : σ × Nat}
    (hcount : d.2 = m.device.2) : Progressed m { m with device := d } :=
  .of_channels h (h.ok.device d) rfl rfl hcount

section Steps

variable {m : Mixer (σ × Nat)} (drv : Driver σ)

/-- A submission, with its count. -/
theorem doSubmit_progressed (h : Good m) : Progressed m (m.doSubmit (counting drv)).2 := by
  obtain ⟨hsounds, hcopies, hsucceeded, hfailed⟩ := doSubmit_spec (counting drv) h.ready
  have hcount : (m.doSubmit (counting drv)).2.device.2 =
      if (m.doSubmit (counting drv)).1 then m.device.2 + 1 else m.device.2 := by
    cases hres : (m.doSubmit (counting drv)).1 with
    | true =>
      obtain ⟨-, window, hplay⟩ := hsucceeded hres
      obtain ⟨hyes, hdev⟩ := Prod.mk.inj hplay
      rw [← hdev, if_pos rfl]
      exact if_pos hyes
    | false =>
      rw [if_neg (by simp)]
      rcases hfailed hres with ⟨hdev, -⟩ | ⟨hdev, -⟩ | ⟨window, hplay⟩
      · rw [hdev]
      · rw [hdev]
        rfl
      · obtain ⟨hno, hdev⟩ := Prod.mk.inj hplay
        rw [← hdev]
        exact if_neg (by rw [hno]; simp)
  cases hres : (m.doSubmit (counting drv)).1 with
  | false =>
    rw [hres] at hsounds hcount
    refine .of_added h (h.ok.doSubmit _) (by rw [hcopies]) hcount fun c hc =>
      ⟨[], fun _ hmem => absurd hmem List.not_mem_nil, .inl ?_⟩
    rw [List.append_nil]
    exact hsounds c hc
  | true =>
    simp only [hres, if_true] at hsounds hcount
    refine ⟨⟨h.ok.doSubmit _, fun c hc seg hseg => ?_, fun c hc seg hseg id hid => ?_⟩,
      by rw [hcopies], fun c hc id _ hholds => ?_⟩
    · rw [hsounds c hc] at hseg
      exact (mem_moved (h.playable c hc) hseg).1
    · rw [hsounds c hc] at hseg
      obtain ⟨-, t, ht, hdata⟩ := mem_moved (h.playable c hc) hseg
      rw [hcopies]
      exact h.known c hc t ht id (hdata.trans hid)
    · unfold Mixer.Holds at hholds
      rw [hsounds c hc] at hholds ⊢
      obtain ⟨hbefore, hle⟩ := unitsUntil_moved (h.playable c hc)
        (fun seg rest hfront => h.advance_pos hc hfront) hholds
      refine ⟨hbefore, ?_⟩
      rw [hcount]
      omega

/-- The status functions of the driver. -/
theorem driverIsPlaying_progressed (h : Good m) :
    Progressed m (m.driverIsPlaying (counting drv)).2 := by
  unfold Mixer.driverIsPlaying
  split
  · exact .refl h
  · cases hask : drv.isPlaying with
    | none =>
      rw [show (counting drv).isPlaying = none by simp [counting, hask]]
      exact .refl h
    | some ask =>
      rw [show (counting drv).isPlaying = some fun s => ((ask s.1).1, (ask s.1).2, s.2) by
        simp [counting, hask]]
      exact .device h rfl

/-- Stopping the driver. -/
theorem stopDriverIfIdle_progressed (h : Good m) :
    Progressed m (m.stopDriverIfIdle (counting drv)) := by
  have hplaying := driverIsPlaying_progressed drv h
  unfold Mixer.stopDriverIfIdle
  dsimp only
  rw [h.ready.anyActive]
  split
  · exact .refl h
  · split
    · exact .refl h
    · split
      · exact hplaying
      · exact hplaying.trans (.device hplaying.good rfl)

/-- The loop of `mix_update_locked`, by induction on its rounds. -/
theorem updateLoop_progressed {buffered : σ × Nat → Nat × σ × Nat}
    (hb : ∀ s, (buffered s).2.2 = s.2) {rounds : Nat} : ∀ {m : Mixer (σ × Nat)}, Good m →
      Progressed m (m.updateLoop (counting drv) buffered rounds) := by
  induction rounds with
  | zero => exact fun h => .refl h
  | succ rounds ih =>
    intro m h
    have hasked : ∀ {m' : Mixer (σ × Nat)}, Good m' →
        Progressed m' { m' with device := (buffered m'.device).2 } :=
      fun h' => .device h' (hb _)
    have hbefore := hasked h
    have hsubmitted := hbefore.trans (doSubmit_progressed drv hbefore.good)
    have hafter := hsubmitted.trans (hasked hsubmitted.good)
    unfold Mixer.updateLoop
    dsimp only
    rw [h.ready.anyActive]
    split
    · exact .refl h
    · split
      · exact hbefore
      · split
        · exact hsubmitted
        · split
          · exact hafter
          · exact hafter.trans (ih hafter.good)

/-- A call of `mix_update`. By induction on its rounds. -/
theorem mixUpdate_progressed (h : Good m) (rounds : Nat) :
    Progressed m (m.mixUpdate (counting drv) rounds) := by
  have hplaying := driverIsPlaying_progressed drv h
  have hchoice : ∀ buffered, (if m.driverSet = true ∧ m.initialised = true
      then (counting drv).bufferedFrames else none) = some buffered →
      ∀ s, (buffered s).2.2 = s.2 := by
    intro buffered hsome s
    split at hsome
    · obtain ⟨ask, -, rfl⟩ := Option.map_eq_some_iff.mp hsome
      rfl
    · exact absurd hsome (by simp)
  unfold Mixer.mixUpdate
  dsimp only
  rw [h.ready.anyActive]
  split
  · exact .refl h
  · split
    · rename_i buffered hsome
      exact updateLoop_progressed drv (hchoice _ hsome) h
    · split
      · exact hplaying
      · exact hplaying.trans (doSubmit_progressed drv hplaying.good)

/-- A function on one channel: the others keep their segments. -/
theorem sounds_update {m : Mixer σ} (hlen : m.channels.length = MIX_CHANNELS) {c : Nat}
    (hc : c < MIX_CHANNELS) (ch : Channel) (es : List MixEvent) (d : Nat) :
    (m.update c ch es).sounds d = if d = c then ch.segments else m.sounds d := by
  unfold Mixer.sounds
  rw [update_channel hlen hc]
  split
  · rfl
  · rfl

/-- Resetting channels drops segments. -/
theorem reset_progressed (h : Good m) {c : Nat} (hc : c < MIX_CHANNELS) :
    Progressed m (m.update c (resetMixChannel c (m.channel c)).1
      (resetMixChannel c (m.channel c)).2) := by
  refine .of_added h (h.ok.reset hc) (Nat.le_refl _) rfl fun d _ =>
    ⟨[], fun _ hmem => absurd hmem List.not_mem_nil, ?_⟩
  rw [sounds_update h.ok.length hc, List.append_nil]
  split
  · exact .inr rfl
  · exact .inl rfl

/-- Dropping sounds. -/
theorem resetWhere_progressed {test : Channel → Bool} {cs : List Nat} :
    ∀ {m : Mixer (σ × Nat)}, Good m → (∀ c ∈ cs, c < MIX_CHANNELS) →
      Progressed m (m.resetWhere test cs) := by
  induction cs with
  | nil => exact fun h _ => .refl h
  | cons c cs ih =>
    intro m h hcs
    have hrest : ∀ d ∈ cs, d < MIX_CHANNELS := fun d hd => hcs d (List.mem_cons_of_mem _ hd)
    unfold Mixer.resetWhere
    split
    · have hreset := reset_progressed h (hcs c List.mem_cons_self)
      exact hreset.trans (ih hreset.good hrest)
    · exact ih h hrest

/-- Dropping all of them. -/
theorem mixShutdown_progressed (h : Good m) : Progressed m m.mixShutdown :=
  resetWhere_progressed h fun _ => mem_channels

/-- An accepted request has samples. -/
theorem srcSamples_pos {a : PlayArgs} (hok : a.ok = true) : 0 < a.srcSamples.toNat := by
  simp only [PlayArgs.ok, Bool.and_eq_true, decide_eq_true_eq] at hok
  exact Nat.pos_of_ne_zero fun h0 => hok.1.1.1.2 (UInt32.toNat_inj.mp h0)

/-- The segment of a playable call is playable and new. -/
theorem copySamples_added {a : PlayArgs} (hargs : a.ok ≠ false) (hplayable : a.Playable) :
    Added m (m.copySamples a).2 [(m.copySamples a).1] := by
  have hvalid := copySamples_valid m hargs
  obtain ⟨hrate, hframes⟩ := hplayable
  intro seg hseg
  obtain rfl := List.mem_singleton.mp hseg
  have hpos := srcSamples_pos (by simpa using hargs)
  refine ⟨⟨hpos, hrate, ?_⟩, m.copies.length, rfl, Nat.le_refl _, ?_⟩
  · have hr : 0 < a.sampleRate.toNat := hvalid.rate
    show ((a.srcSamples.toNat - 0) * MIX_OUTPUT_RATE + a.sampleRate.toNat - 1) /
      a.sampleRate.toNat < U32
    rw [Nat.sub_zero, Nat.div_lt_iff_lt_mul hr]
    have hsplit : U32 * a.sampleRate.toNat =
        (U32 - 1) * a.sampleRate.toNat + a.sampleRate.toNat := by
      rw [Nat.sub_mul, Nat.one_mul, Nat.sub_add_cancel]
      exact Nat.le_mul_of_pos_left _ (by decide)
    omega
  · show m.copies.length < (m.copies ++ [_]).length
    rw [List.length_append, List.length_singleton]
    exact Nat.lt_succ_self _

/-- Playing a sound. -/
theorem mixPlay_progressed (h : Good m) {a : PlayArgs} (hplayable : a.ok = true → a.Playable) :
    Progressed m (m.mixPlay a).2 := by
  have hok := h.ok.mixPlay a
  unfold Mixer.mixPlay at hok ⊢
  split at hok
  · rename_i hargs
    rw [if_pos hargs]
    exact .refl h
  · rename_i hargs
    rw [if_neg hargs]
    have hc := PlayArgs.channel_lt hargs
    have hadded := copySamples_added (m := m) hargs (hplayable (by simpa using hargs))
    refine .of_added h hok ?_ rfl fun d _ => ?_
    · show m.copies.length ≤ (m.copies ++ [_]).length
      rw [List.length_append]
      exact Nat.le_add_right _ _
    · have hsounds := sounds_update (h.ok.copySamples a).length hc
        (adoptCurrentSegment a.chIdx.toNat {} (m.copySamples a).1).1
        ((resetMixChannel a.chIdx.toNat ((m.copySamples a).2.channel a.chIdx.toNat)).2 ++
          (m.copySamples a).1.data.toList.map (.accepted a.chIdx.toNat) ++
          (adoptCurrentSegment a.chIdx.toNat {} (m.copySamples a).1).2) d
      by_cases hd : d = a.chIdx.toNat
      · rw [if_pos hd] at hsounds
        exact ⟨_, hadded, .inr hsounds⟩
      · rw [if_neg hd] at hsounds
        refine ⟨[], fun _ hmem => absurd hmem List.not_mem_nil, .inl ?_⟩
        rw [List.append_nil]
        exact hsounds

/-- Queueing a sound. -/
theorem mixQueuePlay_progressed (h : Good m) {a : PlayArgs}
    (hplayable : a.ok = true → a.Playable) : Progressed m (m.mixQueuePlay a).2 := by
  have hok := h.ok.mixQueuePlay a
  unfold Mixer.mixQueuePlay at hok ⊢
  split at hok
  · rename_i hargs
    rw [if_pos hargs]
    exact .refl h
  · rename_i hargs
    rw [if_neg hargs]
    have hc := PlayArgs.channel_lt hargs
    have hmade := h.ok.copySamples a
    have hadded := copySamples_added (m := m) hargs (hplayable (by simpa using hargs))
    have hlen : m.copies.length ≤ (m.copySamples a).2.copies.length := by
      show m.copies.length ≤ (m.copies ++ [_]).length
      rw [List.length_append]
      exact Nat.le_add_right _ _
    have hchannel := hmade.ok _ hc
    dsimp only at hok ⊢
    split at hok
    · -- An idle channel plays the segment at once.
      rename_i hidle
      rw [if_pos hidle]
      refine .of_added h hok hlen rfl fun d _ => ?_
      have hsounds := sounds_update hmade.length hc
        (adoptCurrentSegment a.chIdx.toNat ((m.copySamples a).2.channel a.chIdx.toNat)
          (m.copySamples a).1).1
        ((m.copySamples a).1.data.toList.map (.accepted a.chIdx.toNat) ++
          (adoptCurrentSegment a.chIdx.toNat ((m.copySamples a).2.channel a.chIdx.toNat)
            (m.copySamples a).1).2) d
      by_cases hd : d = a.chIdx.toNat
      · rw [if_pos hd] at hsounds
        refine ⟨_, hadded, .inr (hsounds.trans ?_)⟩
        have hwaiting : ((m.copySamples a).2.channel a.chIdx.toNat).waiting = [] :=
          (hchannel.idle hidle.1).2
        show [(m.copySamples a).1] ++ ((m.copySamples a).2.channel a.chIdx.toNat).waiting = _
        rw [hwaiting, List.append_nil]
      · rw [if_neg hd] at hsounds
        refine ⟨[], fun _ hmem => absurd hmem List.not_mem_nil, .inl ?_⟩
        rw [List.append_nil]
        exact hsounds
    · rename_i hbusy
      rw [if_neg hbusy]
      have hactive : ((m.copySamples a).2.channel a.chIdx.toNat).active = true := by
        by_contra hne
        rw [Bool.not_eq_true] at hne
        refine hbusy ⟨hne, ?_⟩
        rw [hchannel.count, (hchannel.idle hne).2]
        rfl
      cases hpush : enqueuePendingSegment ((m.copySamples a).2.channel a.chIdx.toNat)
          (m.copySamples a).1 with
      | none =>
        -- The ring is full: the copy is freed again.
        rw [hpush] at hok
        dsimp only at hok ⊢
        refine .of_added h hok hlen rfl fun d _ =>
          ⟨[], fun _ hmem => absurd hmem List.not_mem_nil, .inl ?_⟩
        rw [List.append_nil]
        rfl
      | some ch' =>
        rw [hpush] at hok
        dsimp only at hok ⊢
        have hsame : ch'.active = true ∧
            ch'.current = ((m.copySamples a).2.channel a.chIdx.toNat).current := by
          unfold enqueuePendingSegment at hpush
          split at hpush
          · cases hpush
          · cases hpush
            exact ⟨hactive, rfl⟩
        obtain ⟨hok', -⟩ := enqueuePendingSegment_spec a.chIdx.toNat hchannel
          (show (m.copySamples a).1.data = some m.copies.length from rfl)
          (copySamples_valid m hargs) hactive hpush
        refine .of_added h hok hlen rfl fun d _ => ?_
        rw [sounds_update hmade.length hc]
        split
        · rename_i hd
          subst hd
          refine ⟨_, hadded, .inl ?_⟩
          rw [segments_eq hok', if_pos hsame.1, hsame.2]
          show _ = ((m.copySamples a).2.channel a.chIdx.toNat).segments ++ _
          rw [segments_eq hchannel, if_pos hactive]
          rfl
        · refine ⟨[], fun _ hmem => absurd hmem List.not_mem_nil, .inl ?_⟩
          rw [List.append_nil]
          rfl

/-- Every call whose sound is playable. -/
theorem next_progressed (h : Good m) {op : MixOp} (hop : PlayableStep (.call op : MixerStep σ)) :
    Progressed m (m.next (counting drv) op) := by
  have hok := h.ok.next (counting drv) op
  cases op with
  | play a => exact mixPlay_progressed h hop
  | queuePlay a => exact mixQueuePlay_progressed h hop
  | stop chIdx =>
    show Progressed m (m.mixStop (counting drv) chIdx)
    unfold Mixer.mixStop
    dsimp only
    split
    · exact .refl h
    · have hreset := reset_progressed h (show chIdx.toNat < MIX_CHANNELS by omega)
      exact hreset.trans (stopDriverIfIdle_progressed drv hreset.good)
  | stopRange base size =>
    show Progressed m (m.mixStopRange (counting drv) base size)
    unfold Mixer.mixStopRange
    dsimp only
    split
    · exact .refl h
    · split
      · exact .refl h
      · have hreset := @resetWhere_progressed _
          (fun ch => ch.current.sourceIn base (add64 base size) ||
            ch.pending.any (Segment.sourceIn base (add64 base size))) _ _ h fun _ => mem_channels
        exact hreset.trans (stopDriverIfIdle_progressed drv hreset.good)
  | update rounds => exact mixUpdate_progressed drv h rounds
  | isPlaying chIdx =>
    show Progressed m (m.mixIsPlaying chIdx).2
    unfold Mixer.mixIsPlaying
    split
    · exact .refl h
    · have hc : chIdx.toNat < MIX_CHANNELS := by omega
      rw [refresh_settled h.ok hc (h.ready.settled hc)]
      exact .refl h
  | shutdown => exact mixShutdown_progressed h
  | shutdownActive =>
    have hstopped : Progressed m { m with device := (counting drv).shutdown m.device } :=
      .device h rfl
    show Progressed m (m.shutdownActive (counting drv))
    unfold Mixer.shutdownActive
    dsimp only
    split
    · have hreset := hstopped.trans (mixShutdown_progressed hstopped.good)
      exact hreset.trans (.of_channels hreset.good
        ⟨hreset.good.ok.length, hreset.good.ok.ok, hreset.good.ok.live, hreset.good.ok.queue,
          hreset.good.ok.copied⟩ rfl rfl rfl)
    · have hreset := mixShutdown_progressed h
      exact hreset.trans (.of_channels hreset.good
        ⟨hreset.good.ok.length, hreset.good.ok.ok, hreset.good.ok.live, hreset.good.ok.queue,
          hreset.good.ok.copied⟩ rfl rfl rfl)
  | registerDriver =>
    have hsame : (m.next (counting drv) .registerDriver).copies = m.copies ∧
        (m.next (counting drv) .registerDriver).channels = m.channels ∧
        (m.next (counting drv) .registerDriver).device.2 = m.device.2 := by
      show (m.registerDriver (counting drv)).copies = m.copies ∧
        (m.registerDriver (counting drv)).channels = m.channels ∧
        (m.registerDriver (counting drv)).device.2 = m.device.2
      unfold Mixer.registerDriver
      split
      · exact ⟨rfl, rfl, rfl⟩
      · exact ⟨rfl, rfl, rfl⟩
    exact .of_channels h hok hsame.1 hsame.2.1 hsame.2.2
  | initActive ok =>
    have hsame : (m.next (counting drv) (.initActive ok)).copies = m.copies ∧
        (m.next (counting drv) (.initActive ok)).channels = m.channels ∧
        (m.next (counting drv) (.initActive ok)).device.2 = m.device.2 := by
      show (m.initActive ok).copies = m.copies ∧ (m.initActive ok).channels = m.channels ∧
        (m.initActive ok).device.2 = m.device.2
      unfold Mixer.initActive
      split
      · exact ⟨rfl, rfl, rfl⟩
      · exact ⟨rfl, rfl, rfl⟩
    exact .of_channels h hok hsame.1 hsame.2.1 hsame.2.2

/-- One step of the mixer. -/
theorem stepped_progressed (h : Good m) {l : MixerStep σ} (hl : PlayableStep l) :
    Progressed m (m.stepped drv l) := by
  cases l with
  | call op => exact next_progressed drv h hl
  | submit device =>
    have hdevice : Progressed m (m.deviceIn device) := .device h rfl
    exact hdevice.trans (doSubmit_progressed drv hdevice.good)

end Steps

/-! ### Runs -/

/-- No sound is queued at boot. -/
theorem sounds_initial (d : σ) {c : Nat} (hc : c < MIX_CHANNELS) :
    (Mixer.initial d).sounds c = [] := by
  show Channel.segments ((List.replicate MIX_CHANNELS ({} : Channel)).getD c {}) = []
  rw [List.getD_eq_getElem?_getD, List.getElem?_replicate, if_pos hc]
  rfl

/-- The mixer is good at boot. -/
theorem Good.initial (d : σ) : Good (Mixer.initial d) := by
  refine ⟨MixerOk.initial d, fun c hc seg hseg => ?_, fun c hc seg hseg => ?_⟩
  · rw [sounds_initial d hc] at hseg
    exact absurd hseg List.not_mem_nil
  · rw [sounds_initial d hc] at hseg
    exact absurd hseg List.not_mem_nil

/-- The invariant of a run with playable sounds. -/
theorem good_of_reachable (drv : Driver σ) {m : Mixer (σ × Nat)}
    (h : ((mixerSystem drv).restrict fun _ l => PlayableStep l).Reachable m) : Good m := by
  refine h.invariant (P := Good) ?_ ?_
  · rintro m ⟨d, rfl⟩
    exact Good.initial _
  · rintro m l m' - hgood ⟨hl, rfl⟩
    exact (stepped_progressed drv hgood hl).good

/-- A stretch of such a run. -/
theorem progressed_of_leads (drv : Driver σ) {m m' : Mixer (σ × Nat)}
    (h : ((mixerSystem drv).restrict fun _ l => PlayableStep l).Reachable m)
    (hleads : ((mixerSystem drv).restrict fun _ l => PlayableStep l).Leads m m') :
    Progressed m m' := by
  refine TransitionSystem.Leads.invariant (P := Progressed m) h
    (.refl (good_of_reachable drv h)) ?_ hleads
  rintro u l v - hu ⟨hl, rfl⟩
  exact hu.trans (stepped_progressed drv hu.good hl)

/-- For every driver and every run whose accepted sounds are playable: in every state, with the
device in any state, a submission that succeeds advances or finishes a segment, and with a driver
that takes every window one fails only when no channel is active; and a sound on a channel is
gone after as many successful submissions as it has units in front of its end. -/
theorem mixer_progress (drv : Driver σ) {m : Mixer (σ × Nat)}
    (h : ((mixerSystem drv).restrict fun _ l => PlayableStep l).Reachable m) :
    (∀ d, SubmitProgresses (counting drv) (m.deviceIn d)) ∧
    ∀ c < MIX_CHANNELS, ∀ id m', m.Holds c id →
      ((mixerSystem drv).restrict fun _ l => PlayableStep l).Leads m m' →
      m.device.2 + unitsUntil id (m.sounds c) ≤ m'.device.2 → ¬ m'.Holds c id := by
  have hgood := good_of_reachable drv h
  refine ⟨fun d => Good.submitProgresses _ (hgood.device _), ?_⟩
  intro c hc id m' hholds hleads hcount hstill
  have hprogressed := progressed_of_leads drv h hleads
  obtain ⟨seg, hseg, hdata⟩ := hholds
  obtain ⟨-, hle⟩ := hprogressed.sounds c hc id (hgood.known c hc seg hseg id hdata) hstill
  -- A sound that is still there has a unit left.
  have hpos : 0 < unitsUntil id (m'.sounds c) := by
    cases hsounds : m'.sounds c with
    | nil =>
      obtain ⟨s, hs, -⟩ := hstill
      rw [hsounds] at hs
      exact absurd hs List.not_mem_nil
    | cons s rest =>
      have hleft := (hprogressed.good.playable c hc s (hsounds ▸ List.mem_cons_self)).left
      unfold Mixer.Holds at hstill
      rw [hsounds] at hstill
      rw [unitsUntil_cons hstill]
      unfold Segment.left
      omega
  omega

/-- The calls that start a sound of one window. -/
def shortSteps : List (MixerStep Unit) :=
  [.call .registerDriver, .call (.initActive true),
    .call (.play ⟨0, 1, [200], 1, .unsigned8, 48000, 255, 255, true⟩)]

def shortSound : Mixer (Unit × Nat) :=
  shortSteps.foldl (Mixer.stepped silentDriver) (Mixer.initial ((), 0))

/-- The state of the example is reached. -/
theorem shortSound_reachable :
    ((mixerSystem silentDriver).restrict fun _ l => PlayableStep l).Reachable shortSound := by
  refine @TransitionSystem.reachable_of_okAlong _ _
    ((mixerSystem silentDriver).restrict fun _ l => PlayableStep l) (Mixer.stepped silentDriver)
    (fun _ l => PlayableStep l) (fun _ _ hl => ⟨hl, rfl⟩) _ _ (.init ⟨(), rfl⟩) ?_
  exact ⟨trivial, trivial, fun _ => by decide, trivial⟩

/-- One unit at the output rate is gone after one window. -/
theorem mixer_progress_short :
    shortSound.Holds 0 0 ∧ ¬ (shortSound.stepped silentDriver (.submit ())).Holds 0 0 := by
  have hholds : shortSound.Holds 0 0 := ⟨_, List.mem_cons_self, rfl⟩
  have hleads : ((mixerSystem silentDriver).restrict fun _ l => PlayableStep l).Leads shortSound
      (shortSound.stepped silentDriver (.submit ())) :=
    TransitionSystem.Leads.step (l := MixerStep.submit ()) .refl ⟨trivial, rfl⟩
  exact ⟨hholds, (mixer_progress silentDriver shortSound_reachable).2 0 (by decide) 0 _ hholds
    hleads (by decide)⟩

end VKernel.Proofs.Sound

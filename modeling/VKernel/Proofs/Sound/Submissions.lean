import Mathlib.Data.List.MinMax
import VKernel.Sound.Progress
import VKernel.Proofs.Sound.Linearity

/-!
# `VKernel.Proofs.Sound.Submissions`: what one submission does to the queues

A mixer is `Ready` when every segment on its channels has units left. Then the refreshes do
nothing, and `mix_do_submit_locked` does to the queues of segments what `moved` says, with the
window that `Mixer.window` computes (`doSubmit_spec`).
-/

set_option autoImplicit false

namespace VKernel.Proofs.Sound

open VKernel.Sound VKernel.Lib

variable {σ : Type}

/-! ### The segments of a channel -/

/-- The segments of a well-formed channel. -/
theorem segments_eq {ch : Channel} {w : List Segment} (hok : ChannelOk ch w) :
    ch.segments = if ch.active then ch.current :: w else [] := by
  unfold Channel.segments
  rw [hok.waiting_eq]
  cases hactive : ch.active with
  | true => rfl
  | false => simp [(hok.idle hactive).2]

/-- What is left of a list of segments when the first one is moved. -/
def moved (out : Nat) : List Segment → List Segment
  | [] => []
  | seg :: rest =>
    let seg' := { seg with srcPos := seg.srcPos + seg.advance out }
    if seg'.srcPos < seg'.srcTotal then seg' :: rest else rest

/-- The segments with units left. -/
def live (seg : Segment) : List Segment := if seg.srcPos < seg.srcTotal then [seg] else []

theorem live_done {seg : Segment} (h : seg.srcTotal ≤ seg.srcPos) : live seg = [] :=
  if_neg (Nat.not_lt.mpr h)

theorem flatMap_live {segs : List Segment} (h : ∀ seg ∈ segs, seg.srcPos < seg.srcTotal) :
    segs.flatMap live = segs := by
  induction segs with
  | nil => rfl
  | cons seg segs ih =>
    have hseg : live seg = [seg] := if_pos (h seg List.mem_cons_self)
    rw [List.flatMap_cons, hseg, ih fun s hs => h s (List.mem_cons_of_mem _ hs)]
    rfl

theorem length_flatMap_live (segs : List Segment) :
    (segs.flatMap live).length ≤ segs.length ∧
      ((segs.flatMap live).length = segs.length → segs.flatMap live = segs) := by
  induction segs with
  | nil => exact ⟨Nat.le_refl _, fun _ => rfl⟩
  | cons seg segs ih =>
    obtain ⟨hle, heq⟩ := ih
    rw [List.flatMap_cons]
    by_cases hseg : seg.srcPos < seg.srcTotal
    · have hlive : live seg = [seg] := if_pos hseg
      rw [hlive, List.singleton_append, List.length_cons, List.length_cons]
      refine ⟨Nat.succ_le_succ hle, fun h => ?_⟩
      rw [heq (Nat.succ.inj h)]
    · have hlive : live seg = [] := if_neg hseg
      rw [hlive, List.nil_append, List.length_cons]
      exact ⟨Nat.le_succ_of_le hle, fun h => by omega⟩

/-- A channel without a current segment starts the first waiting one. -/
theorem activate_segments (c : Nat) {ch : Channel} {w : List Segment} (hok : RingOk ch w)
    (hcur : ch.current = {}) (hleft : ∀ seg ∈ w, seg.srcPos < seg.srcTotal) :
    (activateNextSegment c ch).channel.segments = w ∧
      Settled (activateNextSegment c ch).channel := by
  obtain ⟨w', href, hshort⟩ := activateNextSegment_spec c hok hcur
  have hworth := href.worth live fun s hs => live_done hs
  rw [hcur, @live_done {} (Nat.le_refl _), flatMap_live hleft, List.nil_append] at hworth
  rw [segments_eq href.ok]
  cases hresult : (activateNextSegment c ch).result with
  | true =>
    -- Every segment counts once on both sides, and so none of them is finished.
    have hlt := hshort hresult
    obtain ⟨hle, heq⟩ := length_flatMap_live w'
    have hlen := congrArg List.length hworth
    rw [List.length_append] at hlen
    have hfront : (activateNextSegment c ch).channel.current.srcPos <
        (activateNextSegment c ch).channel.current.srcTotal := by
      by_contra hdone
      rw [live_done (Nat.le_of_not_lt hdone), List.length_nil] at hlen
      omega
    have hlive : live (activateNextSegment c ch).channel.current =
        [(activateNextSegment c ch).channel.current] := if_pos hfront
    rw [hlive] at hlen hworth
    rw [List.length_singleton] at hlen
    rw [heq (by omega)] at hworth
    rw [href.active, hresult, if_pos rfl]
    exact ⟨hworth, fun _ => hfront⟩
  | false =>
    have hidle := href.active.trans hresult
    obtain ⟨hcur', hw'⟩ := href.ok.idle hidle
    rw [hcur', hw', @live_done {} (Nat.le_refl _)] at hworth
    rw [hidle, if_neg (by simp)]
    exact ⟨hworth, fun hactive => absurd (hidle.symm.trans hactive) (by simp)⟩

/-- The loop of the refresh stops at a segment with units left. -/
theorem refreshLoop_settled (c : Nat) {n : Nat} (hn : 0 < n) {ch : Channel}
    (hactive : ch.active = true) (hset : Settled ch) : (refreshLoop c n ch).channel = ch := by
  obtain ⟨k, rfl⟩ := Nat.exists_eq_succ_of_ne_zero (Nat.ne_of_gt hn)
  unfold refreshLoop
  rw [if_neg (by rw [hactive]; simp), if_pos (hset hactive)]

/-- A window moves the first segment of a channel, and a finished one makes way for the next. -/
theorem afterWindow_segments (c out : Nat) {ch : Channel} (hok : ChannelOk ch ch.waiting)
    (hleft : ∀ seg ∈ ch.segments, seg.srcPos < seg.srcTotal) :
    (afterWindow c out ch).segments = moved out ch.segments := by
  rw [segments_eq hok] at hleft ⊢
  unfold afterWindow
  by_cases hactive : ch.active = true
  · rw [if_pos hactive] at hleft ⊢
    rw [if_pos hactive]
    have hadvanced : ChannelOk (ch.advanced out) ch.waiting := by
      have hv := hok.current hactive
      refine ⟨⟨hok.ring, hok.le, hok.count, hok.head, hok.tail, hok.owned⟩,
        fun _ => ⟨hv.data, hv.rate, hv.rateLt, hv.total, ?_⟩,
        fun hidle => absurd (hactive.symm.trans hidle) (by simp)⟩
      have hle : ch.current.advance out ≤ ch.current.srcTotal - ch.current.srcPos :=
        Nat.min_le_right _ _
      have hpos := hv.pos
      show ch.current.srcPos + ch.current.advance out ≤ ch.current.srcTotal
      omega
    have hwaiting : ∀ seg ∈ ch.waiting, seg.srcPos < seg.srcTotal :=
      fun seg hseg => hleft seg (List.mem_cons_of_mem _ hseg)
    show _ = if (ch.advanced out).current.srcPos < (ch.advanced out).current.srcTotal then
      (ch.advanced out).current :: ch.waiting else ch.waiting
    split
    · rename_i hmore
      rw [refreshChannel_settled c hadvanced fun _ => hmore, segments_eq hadvanced,
        if_pos (show (ch.advanced out).active = true from hactive)]
    · -- The first segment is finished: the refresh frees it and starts the next one.
      rename_i hdone
      have hring : RingOk { ch.advanced out with current := {} } ch.waiting :=
        ⟨hok.ring, hok.le, hok.count, hok.head, hok.tail, hok.owned⟩
      obtain ⟨hsegments, hsettled⟩ := activate_segments c hring rfl hwaiting
      have hactive' : ¬ (ch.advanced out).active = false := by
        rw [show (ch.advanced out).active = true from hactive]
        simp
      unfold refreshChannel
      rw [if_neg hactive']
      unfold refreshLoop
      rw [if_neg hactive', if_neg hdone]
      dsimp only
      split
      · rename_i hresult
        obtain ⟨w', href, hshort⟩ := activateNextSegment_spec c hring rfl
        have hlt := hshort hresult
        have hcount : (ch.advanced out).pendingCount = ch.waiting.length := hok.count
        have hloop := refreshLoop_settled c (show 0 < (ch.advanced out).pendingCount by omega)
          (href.active.trans hresult) hsettled
        exact (congrArg Channel.segments hloop).trans hsegments
      · exact hsegments
  · rw [if_neg hactive, if_neg hactive, segments_eq hok, if_neg hactive]
    rfl

/-! ### Ready mixers -/

/-- Every segment on a channel has units left. -/
structure Ready (m : Mixer σ) : Prop where
  ok : MixerOk [] m
  left : ∀ c < MIX_CHANNELS, ∀ seg ∈ m.sounds c, seg.srcPos < seg.srcTotal

section Ready

variable {m : Mixer σ} {c : Nat}

theorem Ready.sounds_eq (h : Ready m) (hc : c < MIX_CHANNELS) :
    m.sounds c =
      if (m.channel c).active then (m.channel c).current :: (m.channel c).waiting else [] :=
  segments_eq (h.ok.ok c hc)

/-- The current segment of an active channel is the first of its queue. -/
theorem Ready.current_mem (h : Ready m) (hc : c < MIX_CHANNELS)
    (hactive : (m.channel c).active = true) : (m.channel c).current ∈ m.sounds c := by
  rw [h.sounds_eq hc, if_pos hactive]
  exact List.mem_cons_self

theorem Ready.settled (h : Ready m) (hc : c < MIX_CHANNELS) : Settled (m.channel c) :=
  fun hactive => h.left c hc _ (h.current_mem hc hactive)

/-- The front of a queue is the current segment of an active channel. -/
theorem Ready.front (h : Ready m) (hc : c < MIX_CHANNELS) {seg : Segment} {rest : List Segment}
    (hsounds : m.sounds c = seg :: rest) :
    (m.channel c).active = true ∧ (m.channel c).current = seg ∧ seg.Valid := by
  have heq := h.sounds_eq hc
  rw [hsounds] at heq
  cases hactive : (m.channel c).active with
  | false =>
    rw [hactive] at heq
    exact absurd heq (by simp)
  | true =>
    rw [hactive, if_pos rfl] at heq
    obtain ⟨rfl, -⟩ := List.cons.inj heq
    exact ⟨rfl, rfl, (h.ok.ok c hc).current hactive⟩

/-- A refresh does nothing, so the first active channel is found without a change. -/
theorem Ready.anyActiveFrom (h : Ready m) : ∀ {cs : List Nat}, (∀ c ∈ cs, c < MIX_CHANNELS) →
    m.anyActiveFrom cs = (cs.any fun c => (m.channel c).active, m) := by
  intro cs
  induction cs with
  | nil => exact fun _ => rfl
  | cons c cs ih =>
    intro hcs
    have hc := hcs c List.mem_cons_self
    unfold Mixer.anyActiveFrom
    rw [refresh_settled h.ok hc (h.settled hc)]
    simp only [List.any_cons]
    cases hactive : (m.channel c).active with
    | true => simp
    | false => simpa using ih fun d hd => hcs d (List.mem_cons_of_mem _ hd)

theorem Ready.anyActive (h : Ready m) : m.anyActive.2 = m :=
  congrArg Prod.snd (h.anyActiveFrom fun _ => mem_channels)

/-- The first pass. -/
theorem Ready.longestFrom (h : Ready m) : ∀ {cs : List Nat} {out : Nat},
    (∀ c ∈ cs, c < MIX_CHANNELS) →
      m.longestFrom out cs = (max out ((cs.map m.demand).foldr max 0), m) := by
  intro cs
  induction cs with
  | nil =>
    intro out _
    rw [List.map_nil, List.foldr_nil, Nat.max_eq_left (Nat.zero_le _)]
    rfl
  | cons c cs ih =>
    intro out hcs
    have hc := hcs c List.mem_cons_self
    unfold Mixer.longestFrom
    rw [refresh_settled h.ok hc (h.settled hc), List.map_cons, List.foldr_cons]
    dsimp only
    split
    · rename_i hactive
      have hdemand : m.demand c = (m.channel c).current.remainingFrames := if_pos hactive
      rw [ih fun d hd => hcs d (List.mem_cons_of_mem _ hd), hdemand, Nat.max_assoc]
    · rename_i hidle
      have hdemand : m.demand c = 0 := if_neg hidle
      rw [ih fun d hd => hcs d (List.mem_cons_of_mem _ hd), hdemand,
        Nat.max_eq_right (Nat.zero_le _)]

/-- No window is shorter than what a channel asks for, up to the cap. -/
theorem demand_le_window (m : Mixer σ) {c : Nat} (hc : c < MIX_CHANNELS) :
    min (m.demand c) MIX_WINDOW_FRAMES ≤ m.window := by
  have hmem : m.demand c ∈ (List.range MIX_CHANNELS).map m.demand :=
    List.mem_map_of_mem (List.mem_range.mpr hc)
  have hle := List.le_max_of_le' 0 hmem (Nat.le_refl _)
  unfold Mixer.window
  omega

end Ready

/-! ### One submission -/

/-- What a submission did: the channels moved by the window when it succeeded, and the answer is
the driver's, if it was asked. -/
structure Submitted (drv : Driver σ) (m : Mixer σ) (r : Bool × Mixer σ) : Prop where
  sounds : ∀ c < MIX_CHANNELS,
    r.2.sounds c = if r.1 then moved m.window (m.sounds c) else m.sounds c
  copies : r.2.copies = m.copies
  succeeded : r.1 = true → 0 < m.window ∧
    ∃ window, drv.play (drv.setSampleRate m.device MIX_OUTPUT_RATE) window = (true, r.2.device)
  failed : r.1 = false → (r.2.device = m.device ∧ (m.driverSet = false ∨ m.initialised = false)) ∨
    (r.2.device = drv.stop m.device ∧ m.window = 0) ∨
    ∃ window, drv.play (drv.setSampleRate m.device MIX_OUTPUT_RATE) window = (false, r.2.device)

theorem doSubmit_spec (drv : Driver σ) {m : Mixer σ} (h : Ready m) :
    Submitted drv m (m.doSubmit drv) := by
  have hall : ∀ c ∈ List.range MIX_CHANNELS, c < MIX_CHANNELS := fun _ => mem_channels
  have hlongest := @Ready.longestFrom _ m h _ 0 hall
  rw [Nat.max_eq_right (Nat.zero_le _)] at hlongest
  have hset : ∀ c ∈ List.range MIX_CHANNELS, Settled (m.channel c) :=
    fun c hc => h.settled (hall c hc)
  unfold Mixer.doSubmit
  dsimp only
  rw [hlongest]
  dsimp only
  split
  · rename_i hoff
    exact ⟨fun _ _ => rfl, rfl, fun h => absurd h (by simp), fun _ => .inl ⟨rfl, hoff⟩⟩
  · split
    · rename_i hzero
      refine ⟨fun _ _ => rfl, rfl, fun h => absurd h (by simp), fun _ => .inr (.inl ⟨rfl, ?_⟩)⟩
      unfold Mixer.window
      rw [hzero]
      rfl
    · rename_i hzero
      rw [show min (((List.range MIX_CHANNELS).map m.demand).foldr max 0) MIX_WINDOW_FRAMES =
        m.window from rfl]
      obtain ⟨hchannel, hkept, -, -⟩ := @mixFrom_spec _ m.window _ m
        (List.replicate m.window (0, 0)) h.ok hall hset
      have hmixed : MixerOk [] (m.mixFrom m.window (List.replicate m.window (0, 0))
          (List.range MIX_CHANNELS)).2 := h.ok.mixFrom hall
      generalize m.mixFrom m.window (List.replicate m.window (0, 0)) (List.range MIX_CHANNELS) =
        mixed at hchannel hkept hmixed ⊢
      rw [hkept.device]
      generalize mixed.1.map (fun f => (clamp16 f.1, clamp16 f.2)) = window
      generalize hplay : drv.play (drv.setSampleRate m.device MIX_OUTPUT_RATE) window = played
      split
      · rename_i hplayed
        obtain ⟨hadvanced, hkept'⟩ := @advanceFrom_spec _ m.window _
          { mixed.2 with device := played.2 } (hmixed.device _) List.nodup_range hall
          fun c hc => by
            show Settled (mixed.2.channel c)
            rw [hchannel c]
            exact hset c hc
        refine ⟨fun c hc => ?_, hkept'.copies.trans hkept.copies, fun _ => ⟨?_, window, ?_⟩,
          fun h => absurd h (by simp)⟩
        · have hchan : Mixer.channel (Mixer.advanceFrom { mixed.2 with device := played.2 }
              m.window (List.range MIX_CHANNELS)) c = afterWindow c m.window (m.channel c) := by
            rw [hadvanced c, if_pos (List.mem_range.mpr hc)]
            exact congrArg (afterWindow c m.window) (hchannel c)
          show Channel.segments (Mixer.channel _ c) = _
          rw [hchan]
          exact afterWindow_segments c _ (h.ok.ok c hc) (h.left c hc)
        · unfold Mixer.window MIX_WINDOW_FRAMES
          omega
        · rw [hplay, hkept'.device, ← hplayed]
      · rename_i hplayed
        refine ⟨fun c hc => ?_, hkept.copies, fun h => absurd h (by simp),
          fun _ => .inr (.inr ⟨window, hplay.trans ?_⟩)⟩
        · show Channel.segments (mixed.2.channel c) = m.sounds c
          rw [hchannel c]
          rfl
        · rw [Bool.not_eq_true] at hplayed
          rw [← hplayed]

end VKernel.Proofs.Sound

import VKernel.Proofs.Sound.Resampling

/-!
# `VKernel.Proofs.Sound.Linearity`: the mixer over time

What has been played and what the channels still have to play make up one stream
(`Mixer.whole`). Refreshing a channel does not touch it. A window moves its first frames from
the channels to the driver, and leaves the stream as it was as long as every active channel is
cut cleanly (`CutOk`): the rest of a longer segment has to start on a whole source unit, and a
shorter segment must have nothing queued behind it, since the next one only starts with the
next window.

`mix_do_submit_locked` makes three passes over the channels. After the first one every channel
is settled, so that the refreshes of the other two change nothing, and each pass is one
function of the channels.
-/

set_option autoImplicit false

namespace VKernel.Sound

variable {σ : Type}

/-- What was played and what the channels still have to play. -/
def Mixer.whole (m : Mixer (σ × List Frame)) : List Frame := m.device.2 ++ saturatedSum m.streams

/-- A channel as the next refresh leaves it. -/
def Mixer.settled (m : Mixer σ) (c : Nat) : Channel := (refreshChannel c (m.channel c)).channel

/-- The length of the next window: the longest rest of a current segment, capped. -/
def Mixer.windowLength (m : Mixer σ) : Nat :=
  min (((List.range MIX_CHANNELS).map fun c => (m.settled c).current.frames).foldr max 0)
    MIX_WINDOW_FRAMES

/-- A window of `out` frames cuts the channel cleanly: its computations do not wrap, a segment
that ends before the window has nothing waiting behind it, and one that goes on after it goes
on at a whole source unit. -/
structure CutOk (ch : Channel) (out : Nat) : Prop where
  index : ch.current.frames < out →
    ch.current.srcPos + ch.current.frames * ch.current.sampleRate / MIX_OUTPUT_RATE < U32
  frames : ch.current.frames < U32
  short : ch.current.frames < out → ch.pendingCount = 0
  long : out < ch.current.frames → MIX_OUTPUT_RATE ∣ out * ch.current.sampleRate

instance (ch : Channel) (out : Nat) : Decidable (CutOk ch out) :=
  decidable_of_iff
    (((ch.current.frames < out → ch.current.srcPos +
          ch.current.frames * ch.current.sampleRate / MIX_OUTPUT_RATE < U32) ∧
        ch.current.frames < U32) ∧
      (ch.current.frames < out → ch.pendingCount = 0) ∧
      (out < ch.current.frames → MIX_OUTPUT_RATE ∣ out * ch.current.sampleRate))
    ⟨fun h => ⟨h.1.1, h.1.2, h.2.1, h.2.2⟩, fun h => ⟨⟨h.index, h.frames⟩, h.short, h.long⟩⟩

/-- The next window cuts every active channel cleanly. -/
def Mixer.WindowOk (m : Mixer σ) : Prop :=
  ∀ c < MIX_CHANNELS, (m.settled c).active = true → CutOk (m.settled c) m.windowLength

instance (m : Mixer σ) : Decidable m.WindowOk :=
  inferInstanceAs (Decidable (∀ c < MIX_CHANNELS,
    (m.settled c).active = true → CutOk (m.settled c) m.windowLength))

/-- Every window of the loop of `mix_update_locked` is clean. -/
def Mixer.LoopOk (drv : Driver σ) (buffered : σ → Nat × σ) : Nat → Mixer σ → Prop
  | 0, _ => True
  | rounds + 1, m =>
    let active := m.anyActive
    active.1 = true →
      let before := buffered active.2.device
      let m := { active.2 with device := before.2 }
      before.1 < MIX_TARGET_BUFFERED_FRAMES →
        m.WindowOk ∧
          let submitted := m.doSubmit drv
          submitted.1 = true →
            let after := buffered submitted.2.device
            before.1 < after.1 →
              Mixer.LoopOk drv buffered rounds { submitted.2 with device := after.2 }

/-- Every window of a call of `mix_update` is clean. -/
def Mixer.UpdateOk (drv : Driver σ) (rounds : Nat) (m : Mixer σ) : Prop :=
  let active := m.anyActive
  let m := active.2
  active.1 = true →
    match if m.driverSet = true ∧ m.initialised = true then drv.bufferedFrames else none with
    | some buffered => m.LoopOk drv buffered rounds
    | none => (m.driverIsPlaying drv).1 = false → (m.driverIsPlaying drv).2.WindowOk

/-- The mixer after a sequence of `mix_update` calls, each with a bound on its rounds. -/
def Mixer.updates (drv : Driver σ) (m : Mixer σ) : List Nat → Mixer σ
  | [] => m
  | rounds :: rest => (m.mixUpdate drv rounds).updates drv rest

/-- Every window of a sequence of `mix_update` calls is clean. -/
def Mixer.UpdatesOk (drv : Driver σ) (m : Mixer σ) : List Nat → Prop
  | [] => True
  | rounds :: rest => m.UpdateOk drv rounds ∧ (m.mixUpdate drv rounds).UpdatesOk drv rest

end VKernel.Sound

namespace VKernel.Proofs.Sound

open VKernel.Sound VKernel.Lib

variable {σ : Type}

/-! ### One channel -/

/-- An active channel has samples left. -/
def Settled (ch : Channel) : Prop :=
  ch.active = true → ch.current.srcPos < ch.current.srcTotal

/-- Refreshing a settled channel does nothing. -/
theorem refreshChannel_settled (c : Nat) {ch : Channel} {w : List Segment} (hok : ChannelOk ch w)
    (hset : Settled ch) : refreshChannel c ch = ⟨ch.active, ch, []⟩ := by
  unfold refreshChannel
  by_cases hidle : ch.active = false
  · have hcount : ch.pendingCount = 0 := by
      rw [hok.count, (hok.idle hidle).2]
      rfl
    have hsame : { ch with active := false } = ch := by rw [← hidle]
    rw [if_pos hidle, activateNextSegment, if_pos hcount, hsame, hidle]
  · rw [if_neg hidle]
    have hactive : ch.active = true := by simpa using hidle
    unfold refreshLoop
    rw [if_neg hidle, if_pos (hset hactive), hactive]

/-- A refreshed channel is settled and plays what it played before. -/
theorem refreshChannel_stream (c : Nat) {ch : Channel} {w : List Segment} (hok : ChannelOk ch w)
    (copies : List (List UInt8)) :
    ChannelOk (refreshChannel c ch).channel (refreshChannel c ch).channel.waiting ∧
      Settled (refreshChannel c ch).channel ∧
      (refreshChannel c ch).channel.active = (refreshChannel c ch).result ∧
      (refreshChannel c ch).channel.stream copies = ch.stream copies := by
  obtain ⟨⟨w', href⟩, hpos⟩ := refreshChannel_spec c hok
  refine ⟨?_, fun hactive => hpos (href.active ▸ hactive), href.active, ?_⟩
  · rw [href.ok.waiting_eq]
    exact href.ok
  · unfold Channel.stream
    rw [href.ok.waiting_eq, hok.waiting_eq]
    exact href.worth _ fun s hs => resampled_done copies hs

/-- What a channel adds to a window. -/
def contribution (copies : List (List UInt8)) (out : Nat) (ch : Channel) : List Frame :=
  if ch.active = true then ch.current.windowFrames (ch.current.bytesIn copies) out else []

/-- A channel after a window. -/
def afterWindow (c out : Nat) (ch : Channel) : Channel :=
  if ch.active = true then
    (refreshChannel c (ch.advanced out)).channel
  else ch

/-- An idle channel plays nothing. -/
theorem stream_idle {ch : Channel} {w : List Segment} (hok : ChannelOk ch w)
    (hidle : ch.active = false) (copies : List (List UInt8)) : ch.stream copies = [] := by
  obtain ⟨hcur, hw⟩ := hok.idle hidle
  unfold Channel.stream
  rw [hok.waiting_eq, hw, hcur]
  rfl

/-- A clean cut: the window gets the first frames of the channel, and the others are left. -/
theorem window_cut (c : Nat) {ch : Channel} (hok : ChannelOk ch ch.waiting)
    (copies : List (List UInt8)) {out : Nat} (hout : out ≤ MIX_WINDOW_FRAMES)
    (hcut : ch.active = true → CutOk ch out) :
    (∀ n < out, (contribution copies out ch).getD n (0, 0) = (ch.stream copies).getD n (0, 0)) ∧
      (afterWindow c out ch).stream copies = (ch.stream copies).drop out := by
  unfold contribution afterWindow
  by_cases hactive : ch.active = true
  · rw [if_pos hactive, if_pos hactive]
    obtain ⟨hindex, hframes, hshort, hlong⟩ := hcut hactive
    have hv := hok.current hactive
    have hlen := length_resampled copies ch.current
    -- The channel with its position moved is well-formed, and its refresh plays the same.
    have hmoved : ChannelOk (ch.advanced out) ch.waiting := by
      refine ⟨⟨hok.ring, hok.le, hok.count, hok.head, hok.tail, hok.owned⟩,
        fun _ => ⟨hv.data, hv.rate, hv.rateLt, hv.total, ?_⟩,
        fun hidle => absurd (hactive.symm.trans hidle) (by simp)⟩
      have hle : ch.current.advance out ≤ ch.current.srcTotal - ch.current.srcPos :=
        Nat.min_le_right _ _
      have hpos := hv.pos
      show ch.current.srcPos + ch.current.advance out ≤ ch.current.srcTotal
      omega
    have hstream := (refreshChannel_stream c hmoved copies).2.2.2
    have hwindow := windowFrames_eq copies hv ⟨hindex, hframes⟩ hout
    rw [hwindow, hstream]
    have hrest : (ch.advanced out).stream copies =
        (ch.advanced out).current.resampled copies ++
          ch.waiting.flatMap (Segment.resampled copies) := by
      unfold Channel.stream
      rw [hmoved.waiting_eq]
    rw [hrest]
    unfold Channel.stream
    by_cases hlt : out < ch.current.frames
    · refine ⟨fun n hn => ?_, ?_⟩
      · rw [List.getD_append _ _ _ _ (by omega), List.getD_eq_getElem?_getD,
          List.getElem?_take_of_lt hn, ← List.getD_eq_getElem?_getD]
      · have hadv : (ch.advanced out).current.resampled copies =
            (ch.current.resampled copies).drop out :=
          resampled_advance copies hv hout hlt (hlong hlt)
        rw [hadv, List.drop_append_of_le_length (by omega)]
    · have hend : ch.current.frames ≤ out := by omega
      have hdone : (ch.advanced out).current.resampled copies = [] :=
        resampled_done copies (advance_end hv hout hend)
      rw [hdone, List.nil_append, List.take_of_length_le (by omega)]
      by_cases heq : ch.current.frames = out
      · refine ⟨fun n hn => ?_, ?_⟩
        · rw [List.getD_append _ _ _ _ (by omega)]
        · rw [List.drop_append, List.drop_of_length_le (by omega), hlen, heq, Nat.sub_self]
          rfl
      · -- The segment ends inside the window, and nothing waits behind it.
        have hw : ch.waiting = [] := by
          apply List.eq_nil_of_length_eq_zero
          rw [← hok.count]
          exact hshort (by omega)
        rw [hw, List.flatMap_nil, List.append_nil]
        exact ⟨fun _ _ => rfl, (List.drop_of_length_le (by omega)).symm⟩
  · rw [if_neg hactive, if_neg hactive]
    have hstream := stream_idle hok (by simpa using hactive) copies
    rw [hstream]
    exact ⟨fun _ _ => rfl, by simp⟩

/-! ### Sums of streams -/

theorem longest_drop (streams : List (List Frame)) (k : Nat) :
    longest (streams.map (List.drop k)) = longest streams - k := by
  unfold longest
  induction streams with
  | nil => simp
  | cons t ts ih =>
    simp only [List.map_cons, List.foldr_cons, List.length_drop] at ih ⊢
    rw [ih]
    omega

/-- The sum of what is left of the streams is what is left of their sum. -/
theorem saturatedSum_drop (streams : List (List Frame)) (k : Nat) :
    saturatedSum (streams.map (List.drop k)) = (saturatedSum streams).drop k := by
  unfold saturatedSum
  rw [longest_drop]
  refine List.ext_getElem (by simp) fun n _ _ => ?_
  simp [List.getD_eq_getElem?_getD, Function.comp_def]

/-- A window whose frames are the clamped sums is the beginning of the sum. -/
theorem saturatedSum_take (streams : List (List Frame)) {k : Nat} (hk : k ≤ longest streams)
    {acc : List Frame} (hlen : acc.length = k)
    (hacc : ∀ n < k, acc.getD n (0, 0) = (streams.map fun s => s.getD n (0, 0)).sum) :
    acc.map clampFrame = (saturatedSum streams).take k := by
  refine List.ext_getElem ?_ fun n hn _ => ?_
  · simp [saturatedSum, hlen, hk]
  · have hn' : n < k := by simpa [hlen] using hn
    have hget := hacc n hn'
    rw [List.getD_eq_getElem _ _ (by omega)] at hget
    simp [saturatedSum, hget]

/-- Addition into the accumulation buffer. -/
theorem addFrames_spec (acc bs : List Frame) :
    (addFrames acc bs).length = acc.length ∧
      ∀ n < acc.length,
        (addFrames acc bs).getD n (0, 0) = acc.getD n (0, 0) + bs.getD n (0, 0) := by
  induction acc generalizing bs with
  | nil => exact ⟨rfl, fun n hn => absurd hn (Nat.not_lt_zero n)⟩
  | cons a acc ih =>
    cases bs with
    | nil =>
      refine ⟨rfl, fun n hn => ?_⟩
      show _ = (a :: acc).getD n (0, 0) + 0
      rw [add_zero]
      rfl
    | cons b bs =>
      obtain ⟨hlen, hget⟩ := ih bs
      refine ⟨by simp [addFrames, hlen], fun n hn => ?_⟩
      cases n with
      | zero => rfl
      | succ n => exact hget n (by simpa using hn)

/-! ### The passes -/

/-- The mixer kept everything but its channels and its log. -/
structure Kept (m m' : Mixer σ) : Prop where
  copies : m'.copies = m.copies
  device : m'.device = m.device
  driverSet : m'.driverSet = m.driverSet
  initialised : m'.initialised = m.initialised

theorem Kept.refl (m : Mixer σ) : Kept m m := ⟨rfl, rfl, rfl, rfl⟩

theorem Kept.trans {m m' m'' : Mixer σ} (h : Kept m m') (h' : Kept m' m'') : Kept m m'' :=
  ⟨h'.copies.trans h.copies, h'.device.trans h.device, h'.driverSet.trans h.driverSet,
    h'.initialised.trans h.initialised⟩

/-- A refresh settles one channel and keeps the others. -/
theorem refresh_channel {m : Mixer σ} (h : MixerOk [] m) {c : Nat} (hc : c < MIX_CHANNELS)
    (d : Nat) : (m.refresh c).2.channel d = if d = c then m.settled c else m.channel d :=
  update_channel h.length hc _ _ d

theorem refresh_kept (m : Mixer σ) (c : Nat) : Kept m (m.refresh c).2 := ⟨rfl, rfl, rfl, rfl⟩

/-- Refreshing a settled channel changes nothing. -/
theorem refresh_settled {m : Mixer σ} (h : MixerOk [] m) {c : Nat} (hc : c < MIX_CHANNELS)
    (hset : Settled (m.channel c)) : m.refresh c = ((m.channel c).active, m) := by
  unfold Mixer.refresh
  dsimp only
  rw [refreshChannel_settled c (h.ok c hc) hset]
  dsimp only
  rw [Mixer.update, set_channel_self h.length hc, List.append_nil]

/-- The streams of a mixer with one channel settled. -/
theorem refresh_streams {m : Mixer σ} (h : MixerOk [] m) {c : Nat} (hc : c < MIX_CHANNELS) :
    (m.refresh c).2.streams = m.streams := by
  unfold Mixer.streams
  refine List.map_congr_left fun d _ => ?_
  rw [refresh_channel h hc, (refresh_kept m c).copies]
  split
  · rename_i hd
    subst hd
    exact (refreshChannel_stream d (h.ok d hc) m.copies).2.2.2
  · rfl

theorem anyActiveFrom_streams {cs : List Nat} :
    ∀ {m : Mixer σ}, MixerOk [] m → (∀ c ∈ cs, c < MIX_CHANNELS) →
      (m.anyActiveFrom cs).2.streams = m.streams ∧ Kept m (m.anyActiveFrom cs).2 := by
  induction cs with
  | nil => exact fun _ _ => ⟨rfl, Kept.refl _⟩
  | cons c cs ih =>
    intro m h hcs
    have hc := hcs c List.mem_cons_self
    have hstreams := refresh_streams h hc
    unfold Mixer.anyActiveFrom
    dsimp only
    split
    · exact ⟨hstreams, refresh_kept m c⟩
    · obtain ⟨hrest, hkept⟩ := ih (h.refresh hc).1 fun d hd => hcs d (List.mem_cons_of_mem _ hd)
      exact ⟨hrest.trans hstreams, (refresh_kept m c).trans hkept⟩

/-- The first pass settles the channels and finds the longest rest. -/
theorem longestFrom_spec {cs : List Nat} :
    ∀ {m : Mixer σ} {out : Nat}, MixerOk [] m → cs.Nodup → (∀ c ∈ cs, c < MIX_CHANNELS) →
      (∀ c ∈ cs, (m.settled c).active = true → (m.settled c).current.frames < U32) →
      (∀ d, (m.longestFrom out cs).2.channel d = if d ∈ cs then m.settled d else m.channel d) ∧
        Kept m (m.longestFrom out cs).2 ∧
        (m.longestFrom out cs).1 =
          max out ((cs.map fun c => (m.settled c).current.frames).foldr max 0) := by
  induction cs with
  | nil =>
    exact fun _ _ _ _ =>
      ⟨fun d => by simp [Mixer.longestFrom], Kept.refl _, by simp [Mixer.longestFrom]⟩
  | cons c cs ih =>
    intro m out h hnodup hcs hfits
    have hc := hcs c List.mem_cons_self
    obtain ⟨hcnot, hnodup'⟩ := List.nodup_cons.mp hnodup
    have hchan := refresh_channel h hc
    -- The other channels are as before.
    have hother : ∀ d ∈ cs, (m.refresh c).2.settled d = m.settled d := by
      intro d hd
      have hne : d ≠ c := fun heq => hcnot (heq ▸ hd)
      unfold Mixer.settled
      rw [hchan d, if_neg hne]
    have hrest := fun o => @ih (m.refresh c).2 o (h.refresh hc).1 hnodup'
      (fun d hd => hcs d (List.mem_cons_of_mem _ hd))
      (fun d hd hact => by
        rw [hother d hd] at hact ⊢
        exact hfits d (List.mem_cons_of_mem _ hd) hact)
    have hchannels : ∀ d,
      (if d ∈ cs then (m.refresh c).2.settled d else (m.refresh c).2.channel d) =
        if d ∈ c :: cs then m.settled d else m.channel d := by
      intro d
      by_cases hd : d ∈ cs
      · rw [if_pos hd, if_pos (List.mem_cons_of_mem _ hd), hother d hd]
      · rw [if_neg hd, hchan d]
        by_cases hdc : d = c
        · rw [if_pos hdc, if_pos (hdc ▸ List.mem_cons_self), hdc]
        · rw [if_neg hdc, if_neg (by simp [hd, hdc])]
    have hmap : (cs.map fun c' => ((m.refresh c).2.settled c').current.frames) =
        cs.map fun c' => (m.settled c').current.frames :=
      List.map_congr_left fun d hd => by rw [hother d hd]
    have hself : ((m.refresh c).2.channel c) = m.settled c := by rw [hchan c, if_pos rfl]
    have hactive : (m.settled c).active = (m.refresh c).1 :=
      (refreshChannel_stream c (h.ok c hc) m.copies).2.2.1
    unfold Mixer.longestFrom
    dsimp only
    rw [List.map_cons, List.foldr_cons]
    split
    · rename_i hres
      obtain ⟨hch, hkept, hmax⟩ :=
        hrest (max out ((m.refresh c).2.channel c).current.remainingFrames)
      have hframes : (m.settled c).current.remainingFrames = (m.settled c).current.frames :=
        Nat.mod_eq_of_lt (hfits c List.mem_cons_self (hactive.trans hres))
      refine ⟨fun d => (hch d).trans (hchannels d), (refresh_kept m c).trans hkept, ?_⟩
      rw [hmax, hmap, hself, hframes, Nat.max_assoc]
    · rename_i hres
      obtain ⟨hch, hkept, hmax⟩ := hrest out
      have hidle : (m.settled c).active = false := by
        rw [hactive]
        simpa using hres
      have hcur : (m.settled c).current.frames = 0 := by
        have hempty : (m.settled c).current = {} :=
          ((refreshChannel_stream c (h.ok c hc) m.copies).1.idle hidle).1
        rw [hempty]
        rfl
      refine ⟨fun d => (hch d).trans (hchannels d), (refresh_kept m c).trans hkept, ?_⟩
      rw [hmax, hmap, hcur, Nat.max_eq_right (Nat.zero_le _)]

/-- The second pass adds the contributions of settled channels. -/
theorem mixFrom_spec {out : Nat} {cs : List Nat} :
    ∀ {m : Mixer σ} {acc : List Frame}, MixerOk [] m → (∀ c ∈ cs, c < MIX_CHANNELS) →
      (∀ c ∈ cs, Settled (m.channel c)) →
      (∀ d, (m.mixFrom out acc cs).2.channel d = m.channel d) ∧
        Kept m (m.mixFrom out acc cs).2 ∧
        (m.mixFrom out acc cs).1.length = acc.length ∧
        ∀ n < acc.length, (m.mixFrom out acc cs).1.getD n (0, 0) = acc.getD n (0, 0) +
          (cs.map fun c => (contribution m.copies out (m.channel c)).getD n (0, 0)).sum := by
  induction cs with
  | nil =>
    exact fun _ _ _ => ⟨fun _ => rfl, Kept.refl _, rfl, fun n _ => by
      rw [List.map_nil, List.sum_nil, add_zero]; rfl⟩
  | cons c cs ih =>
    intro m acc h hcs hset
    have hc := hcs c List.mem_cons_self
    have hrefresh := refresh_settled h hc (hset c List.mem_cons_self)
    have hrest : ∀ d ∈ cs, d < MIX_CHANNELS := fun d hd => hcs d (List.mem_cons_of_mem _ hd)
    have hset' : ∀ d ∈ cs, Settled (m.channel d) := fun d hd => hset d (List.mem_cons_of_mem _ hd)
    unfold Mixer.mixFrom
    dsimp only
    rw [hrefresh]
    dsimp only
    split
    · rename_i hactive
      obtain ⟨hch, hkept, hlen, hget⟩ := @ih
        { m with log := m.log ++ (m.channel c).current.data.toList.map MixEvent.read }
        (addFrames acc ((m.channel c).current.windowFrames
          ((m.channel c).current.bytesIn m.copies) out))
        (h.readCurrent hc hactive) hrest hset'
      obtain ⟨hlen', hadd⟩ := addFrames_spec acc ((m.channel c).current.windowFrames
        ((m.channel c).current.bytesIn m.copies) out)
      refine ⟨hch, ⟨hkept.copies, hkept.device, hkept.driverSet, hkept.initialised⟩,
        hlen.trans hlen', fun n hn => ?_⟩
      have hsome : contribution m.copies out (m.channel c) =
          (m.channel c).current.windowFrames ((m.channel c).current.bytesIn m.copies) out :=
        if_pos hactive
      rw [List.map_cons, List.sum_cons, hsome, ← add_assoc, ← hadd n hn]
      exact hget n (hlen' ▸ hn)
    · rename_i hidle
      obtain ⟨hch, hkept, hlen, hget⟩ := @ih m acc h hrest hset'
      refine ⟨hch, hkept, hlen, fun n hn => ?_⟩
      rw [hget n hn, List.map_cons, List.sum_cons]
      have hnone : contribution m.copies out (m.channel c) = [] := if_neg hidle
      rw [hnone]
      show _ = _ + ((0, 0) + _)
      rw [show ((0, 0) : Frame) = 0 from rfl, zero_add]

/-- The third pass takes the window off every channel. -/
theorem advanceFrom_spec {out : Nat} {cs : List Nat} :
    ∀ {m : Mixer σ}, MixerOk [] m → cs.Nodup → (∀ c ∈ cs, c < MIX_CHANNELS) →
      (∀ c ∈ cs, Settled (m.channel c)) →
      (∀ d, (m.advanceFrom out cs).channel d =
        if d ∈ cs then afterWindow d out (m.channel d) else m.channel d) ∧
        Kept m (m.advanceFrom out cs) := by
  induction cs with
  | nil => exact fun _ _ _ _ => ⟨fun _ => by simp [Mixer.advanceFrom], Kept.refl _⟩
  | cons c cs ih =>
    intro m h hnodup hcs hset
    have hc := hcs c List.mem_cons_self
    obtain ⟨hcnot, hnodup'⟩ := List.nodup_cons.mp hnodup
    have hrefresh := refresh_settled h hc (hset c List.mem_cons_self)
    have hrest : ∀ d ∈ cs, d < MIX_CHANNELS := fun d hd => hcs d (List.mem_cons_of_mem _ hd)
    unfold Mixer.advanceFrom
    dsimp only
    rw [hrefresh]
    dsimp only
    split
    · rename_i hactive
      have hmoved := h.advance hc hactive out
      have hupd := update_channel h.length hc ((m.channel c).advanced out) []
      -- The channel after its own refresh, and the others as before.
      have hchan : ∀ d, (((m.update c ((m.channel c).advanced out) []).refresh c).2).channel d =
          if d = c then afterWindow c out (m.channel c) else m.channel d := by
        intro d
        rw [refresh_channel hmoved hc d]
        split
        · unfold Mixer.settled afterWindow
          rw [hupd c, if_pos rfl, if_pos hactive]
        · rename_i hne
          rw [hupd d, if_neg hne]
      obtain ⟨hch, hkept⟩ := ih (hmoved.refresh hc).1 hnodup' hrest fun d hd => by
        have hne : d ≠ c := fun heq => hcnot (heq ▸ hd)
        have hsame := hchan d
        rw [if_neg hne] at hsame
        show Settled (((m.update c ((m.channel c).advanced out) []).refresh c).2.channel d)
        rw [hsame]
        exact hset d (List.mem_cons_of_mem _ hd)
      refine ⟨fun d => ?_, ⟨hkept.copies, hkept.device, hkept.driverSet, hkept.initialised⟩⟩
      refine (hch d).trans ?_
      have hsame := hchan d
      by_cases hd : d ∈ cs
      · have hne : d ≠ c := fun heq => hcnot (heq ▸ hd)
        rw [if_neg hne] at hsame
        rw [if_pos hd, if_pos (List.mem_cons_of_mem _ hd)]
        exact congrArg (afterWindow d out) hsame
      · rw [if_neg hd]
        by_cases hdc : d = c
        · subst hdc
          rw [if_pos rfl] at hsame
          rw [if_pos List.mem_cons_self]
          exact hsame
        · rw [if_neg hdc] at hsame
          rw [if_neg (by simp [hd, hdc])]
          exact hsame
    · rename_i hidle
      obtain ⟨hch, hkept⟩ := ih h hnodup' hrest fun d hd => hset d (List.mem_cons_of_mem _ hd)
      refine ⟨fun d => (hch d).trans ?_, hkept⟩
      by_cases hd : d ∈ cs
      · rw [if_pos hd, if_pos (List.mem_cons_of_mem _ hd)]
      · rw [if_neg hd]
        by_cases hdc : d = c
        · subst hdc
          rw [if_pos List.mem_cons_self, afterWindow, if_neg hidle]
        · rw [if_neg (by simp [hd, hdc])]

/-! ### One window -/

theorem foldr_max_le {cs : List Nat} {f g : Nat → Nat} (h : ∀ c ∈ cs, f c ≤ g c) :
    (cs.map f).foldr max 0 ≤ (cs.map g).foldr max 0 := by
  induction cs with
  | nil => exact Nat.le_refl _
  | cons c cs ih =>
    have hc := h c List.mem_cons_self
    have hrest := ih fun d hd => h d (List.mem_cons_of_mem _ hd)
    simp only [List.map_cons, List.foldr_cons]
    omega

/-- The stream of a settled channel is the stream of the channel. -/
theorem settled_stream {m : Mixer σ} (h : MixerOk [] m) {c : Nat} (hc : c < MIX_CHANNELS) :
    (m.settled c).stream m.copies = (m.channel c).stream m.copies :=
  (refreshChannel_stream c (h.ok c hc) m.copies).2.2.2

/-- The window is no longer than what there is to play. -/
theorem windowLength_le {m : Mixer σ} (h : MixerOk [] m) : m.windowLength ≤ longest m.streams := by
  refine Nat.le_trans (Nat.min_le_left _ _) ?_
  unfold longest Mixer.streams
  rw [List.map_map]
  refine foldr_max_le fun c hc => ?_
  show (m.settled c).current.frames ≤ ((m.channel c).stream m.copies).length
  rw [← settled_stream h (mem_channels hc), Channel.stream, List.length_append, length_resampled]
  exact Nat.le_add_right _ _

/-- The second and the third pass over settled channels that are cut cleanly: the window is
the beginning of their sum, and the rest of it stays. -/
theorem window_whole {m : Mixer (σ × List Frame)} (h : MixerOk [] m) {out : Nat}
    (hset : ∀ c ∈ List.range MIX_CHANNELS, Settled (m.channel c))
    (hout : out ≤ MIX_WINDOW_FRAMES) (hlong : out ≤ longest m.streams)
    (hcut : ∀ c < MIX_CHANNELS, (m.channel c).active = true → CutOk (m.channel c) out) (d : σ) :
    Mixer.whole (Mixer.advanceFrom
      { (m.mixFrom out (List.replicate out (0, 0)) (List.range MIX_CHANNELS)).2 with
        device := (d, m.device.2 ++
          (m.mixFrom out (List.replicate out (0, 0)) (List.range MIX_CHANNELS)).1.map clampFrame) }
      out (List.range MIX_CHANNELS)) = m.whole := by
  have hall : ∀ c ∈ List.range MIX_CHANNELS, c < MIX_CHANNELS := fun _ => mem_channels
  obtain ⟨hch₂, hkept₂, hlen₂, hget₂⟩ :=
    @mixFrom_spec _ out _ m (List.replicate out (0, 0)) h hall hset
  rw [List.length_replicate] at hlen₂ hget₂
  have hwindow : (m.mixFrom out (List.replicate out (0, 0)) (List.range MIX_CHANNELS)).1.map
      clampFrame = (saturatedSum m.streams).take out := by
    refine saturatedSum_take m.streams hlong hlen₂ fun n hn => ?_
    rw [hget₂ n hn, List.getD_replicate _ hn, show ((0, 0) : Frame) = 0 from rfl, zero_add,
      Mixer.streams, List.map_map]
    refine congrArg List.sum (List.map_congr_left fun c hc => ?_)
    exact (window_cut c (h.ok c (hall c hc)) m.copies hout (hcut c (hall c hc))).1 n hn
  obtain ⟨hch₃, hkept₃⟩ := @advanceFrom_spec _ out _
    { (m.mixFrom out (List.replicate out (0, 0)) (List.range MIX_CHANNELS)).2 with
      device := (d, m.device.2 ++
        (m.mixFrom out (List.replicate out (0, 0)) (List.range MIX_CHANNELS)).1.map clampFrame) }
    ((h.mixFrom hall).device _) List.nodup_range hall fun c hc => by
      show Settled ((m.mixFrom out (List.replicate out (0, 0))
        (List.range MIX_CHANNELS)).2.channel c)
      rw [hch₂ c]
      exact hset c hc
  have hstreams : (Mixer.advanceFrom
      { (m.mixFrom out (List.replicate out (0, 0)) (List.range MIX_CHANNELS)).2 with
        device := (d, m.device.2 ++
          (m.mixFrom out (List.replicate out (0, 0)) (List.range MIX_CHANNELS)).1.map clampFrame) }
      out (List.range MIX_CHANNELS)).streams = m.streams.map (List.drop out) := by
    unfold Mixer.streams
    rw [List.map_map]
    refine List.map_congr_left fun c hc => ?_
    have hchan : _ = afterWindow c out (m.channel c) :=
      (hch₃ c).trans ((if_pos hc).trans (congrArg (afterWindow c out) (hch₂ c)))
    rw [hchan, hkept₃.copies]
    show Channel.stream (m.mixFrom out _ _).2.copies _ = _
    rw [hkept₂.copies]
    exact (window_cut c (h.ok c (hall c hc)) m.copies hout (hcut c (hall c hc))).2
  unfold Mixer.whole
  rw [hstreams, saturatedSum_drop, hkept₃.device]
  show (m.device.2 ++ _) ++ _ = _
  rw [hwindow, List.append_assoc, List.take_append_drop]

/-- A clean window moves its frames from the channels to the driver. -/
theorem doSubmit_whole (drv : Driver σ) {m : Mixer (σ × List Frame)} (h : MixerOk [] m)
    (hok : m.WindowOk) : (m.doSubmit (recording drv)).2.whole = m.whole := by
  have hall : ∀ c ∈ List.range MIX_CHANNELS, c < MIX_CHANNELS := fun _ => mem_channels
  obtain ⟨hch₁, hkept₁, hlongest⟩ := @longestFrom_spec _ _ m 0 h List.nodup_range hall
    fun c hc hact => (hok c (hall c hc) hact).frames
  have hok₁ : MixerOk [] (m.longestFrom 0 (List.range MIX_CHANNELS)).2 := h.longestFrom hall
  -- After the first pass every channel is settled and plays what it played.
  have hsettled : ∀ c ∈ List.range MIX_CHANNELS,
      (m.longestFrom 0 (List.range MIX_CHANNELS)).2.channel c = m.settled c := by
    intro c hc
    rw [hch₁ c, if_pos hc]
  have hstreams : (m.longestFrom 0 (List.range MIX_CHANNELS)).2.streams = m.streams := by
    unfold Mixer.streams
    refine List.map_congr_left fun c hc => ?_
    rw [hsettled c hc, hkept₁.copies]
    exact settled_stream h (hall c hc)
  have hset : ∀ c ∈ List.range MIX_CHANNELS,
      Settled ((m.longestFrom 0 (List.range MIX_CHANNELS)).2.channel c) := by
    intro c hc
    rw [hsettled c hc]
    exact (refreshChannel_stream c (h.ok c (hall c hc)) m.copies).2.1
  have hlength : min (m.longestFrom 0 (List.range MIX_CHANNELS)).1 MIX_WINDOW_FRAMES =
      m.windowLength := by
    rw [hlongest, Nat.max_eq_right (Nat.zero_le _)]
    rfl
  unfold Mixer.doSubmit
  dsimp only
  split
  · rfl
  · split
    · -- Nothing is left to play, and the driver is stopped.
      show (m.longestFrom 0 (List.range MIX_CHANNELS)).2.device.2 ++ saturatedSum
        (m.longestFrom 0 (List.range MIX_CHANNELS)).2.streams = _
      rw [hkept₁.device, hstreams]
      rfl
    · rw [hlength]
      have hcut : ∀ c < MIX_CHANNELS,
          ((m.longestFrom 0 (List.range MIX_CHANNELS)).2.channel c).active = true →
          CutOk ((m.longestFrom 0 (List.range MIX_CHANNELS)).2.channel c) m.windowLength := by
        intro c hc
        rw [hsettled c (List.mem_range.mpr hc)]
        exact hok c hc
      have hwhole := fun d => window_whole hok₁ hset (Nat.min_le_right _ _)
        (hstreams ▸ windowLength_le h) hcut d
      have hsame : (m.longestFrom 0 (List.range MIX_CHANNELS)).2.whole = m.whole := by
        unfold Mixer.whole
        rw [hkept₁.device, hstreams]
      have hdevice := (@mixFrom_spec _ m.windowLength _ _
        (List.replicate m.windowLength (0, 0)) hok₁ hall hset).2.1.device
      rw [hsame] at hwhole
      show Mixer.whole (Mixer.advanceFrom _ _ _) = _
      rw [← hwhole (drv.play
        (drv.setSampleRate ((m.longestFrom 0 (List.range MIX_CHANNELS)).2.mixFrom
        m.windowLength (List.replicate m.windowLength (0, 0))
        (List.range MIX_CHANNELS)).2.device.1 MIX_OUTPUT_RATE) _).2, ← hdevice]
      rfl

/-! ### Runs -/

theorem anyActive_whole {m : Mixer (σ × List Frame)} (h : MixerOk [] m) :
    m.anyActive.2.whole = m.whole := by
  obtain ⟨hstreams, hkept⟩ := anyActiveFrom_streams h fun c => @mem_channels c
  have hstreams' : m.anyActive.2.streams = m.streams := hstreams
  have hdevice : m.anyActive.2.device = m.device := hkept.device
  unfold Mixer.whole
  rw [hstreams', hdevice]

/-- The loop of `mix_update_locked` with clean windows. -/
theorem updateLoop_whole (drv : Driver σ) {buffered : σ × List Frame → Nat × σ × List Frame}
    (hb : ∀ s, (buffered s).2.2 = s.2) {rounds : Nat} :
    ∀ {m : Mixer (σ × List Frame)}, MixerOk [] m →
      m.LoopOk (recording drv) buffered rounds →
      (m.updateLoop (recording drv) buffered rounds).whole = m.whole := by
  induction rounds with
  | zero => exact fun _ _ => rfl
  | succ rounds ih =>
    intro m h hloop
    have hactive := h.anyActive
    have hwhole := anyActive_whole h
    have hbefore : ({ m.anyActive.2 with
        device := (buffered m.anyActive.2.device).2 } : Mixer (σ × List Frame)).whole =
          m.whole := by
      rw [← hwhole]
      show (buffered m.anyActive.2.device).2.2 ++ _ = _
      rw [hb]
      rfl
    unfold Mixer.updateLoop
    dsimp only
    split
    · exact hwhole
    · rename_i hact
      split
      · exact hbefore
      · rename_i htarget
        obtain ⟨hok, hrest⟩ := hloop (by simpa using hact) (Nat.lt_of_not_le htarget)
        have hsub := doSubmit_whole drv (hactive.device _) hok
        have hmixer := (hactive.device (buffered m.anyActive.2.device).2).doSubmit (recording drv)
        split
        · exact hsub.trans hbefore
        · rename_i hsubmitted
          -- Asking for the buffered frames again touches no frame.
          have hafter : ∀ m' : Mixer (σ × List Frame),
              ({ m' with device := (buffered m'.device).2 } : Mixer (σ × List Frame)).whole =
                m'.whole := by
            intro m'
            show (buffered m'.device).2.2 ++ _ = _
            rw [hb]
            rfl
          split
          · exact (hafter _).trans (hsub.trans hbefore)
          · rename_i hmore
            refine (ih (hmixer.device _) ?_).trans ((hafter _).trans (hsub.trans hbefore))
            exact hrest (by simpa using hsubmitted) (Nat.lt_of_not_le hmore)

/-- The driver's status functions touch no frame. -/
theorem driverIsPlaying_whole (drv : Driver σ) (m : Mixer (σ × List Frame)) :
    (m.driverIsPlaying (recording drv)).2.whole = m.whole := by
  unfold Mixer.driverIsPlaying
  split
  · rfl
  · cases hask : drv.isPlaying with
    | none =>
      rw [show (recording drv).isPlaying = none by simp [recording, hask]]
    | some ask =>
      rw [show (recording drv).isPlaying = some fun s => ((ask s.1).1, (ask s.1).2, s.2) by
        simp [recording, hask]]
      rfl

/-- A call of `mix_update` with clean windows. -/
theorem mixUpdate_whole (drv : Driver σ) {rounds : Nat} {m : Mixer (σ × List Frame)}
    (h : MixerOk [] m) (hok : m.UpdateOk (recording drv) rounds) :
    (m.mixUpdate (recording drv) rounds).whole = m.whole := by
  have hactive := h.anyActive
  have hwhole := anyActive_whole h
  unfold Mixer.mixUpdate
  unfold Mixer.UpdateOk at hok
  dsimp only at hok ⊢
  split
  · exact hwhole
  · rename_i hact
    have hok' := hok (by simpa using hact)
    have hchoice : ∀ buffered, (if m.anyActive.2.driverSet = true ∧ m.anyActive.2.initialised = true
        then (recording drv).bufferedFrames else none) = some buffered →
        ∀ s, (buffered s).2.2 = s.2 := by
      intro buffered hsome s
      split at hsome
      · obtain ⟨ask, -, rfl⟩ := Option.map_eq_some_iff.mp hsome
        rfl
      · exact absurd hsome (by simp)
    revert hok' hchoice
    generalize (if m.anyActive.2.driverSet = true ∧ m.anyActive.2.initialised = true
      then (recording drv).bufferedFrames else none) = choice
    intro hok' hchoice
    cases choice with
    | some buffered => exact (updateLoop_whole drv (hchoice buffered rfl) hactive hok').trans hwhole
    | none =>
      have hplaying := driverIsPlaying_whole drv m.anyActive.2
      dsimp only at hok' ⊢
      split
      · exact hplaying.trans hwhole
      · rename_i hidle
        have hwindow := hok' (by simpa using hidle)
        exact (doSubmit_whole drv (hactive.driverIsPlaying _) hwindow).trans
          (hplaying.trans hwhole)

theorem updates_whole (drv : Driver σ) {rest : List Nat} :
    ∀ {m : Mixer (σ × List Frame)}, MixerOk [] m → m.UpdatesOk (recording drv) rest →
      MixerOk [] (m.updates (recording drv) rest) ∧
        (m.updates (recording drv) rest).whole = m.whole := by
  induction rest with
  | nil => exact fun h _ => ⟨h, rfl⟩
  | cons rounds rest ih =>
    intro m h hok
    obtain ⟨hmixer, hwhole⟩ := ih (h.mixUpdate (recording drv) rounds) hok.2
    exact ⟨hmixer, hwhole.trans (mixUpdate_whole drv h hok.1)⟩

/-- Idle channels have nothing to play. -/
theorem saturatedSum_idle {m : Mixer σ} (h : MixerOk [] m)
    (hidle : ∀ c < MIX_CHANNELS, (m.channel c).active = false) : saturatedSum m.streams = [] := by
  have hempty : m.streams = (List.range MIX_CHANNELS).map fun _ => [] :=
    List.map_congr_left fun c hc =>
      stream_idle (h.ok c (mem_channels hc)) (hidle c (mem_channels hc)) m.copies
  rw [hempty]
  rfl

/-- For every always-accepting driver, every state of the mixer that calls can lead to, and
every sequence of `mix_update` calls whose windows are all clean: the frames played and the
frames still to play are the saturated sum of the channels' own streams, each its segments
resampled on their own and played back to back. When all channels have ended, all of it was
played. -/
theorem played_of_clean_windows (drv : Driver σ) (d : σ × List Frame) (ops : List MixOp)
    (rounds : List Nat) (hok : (Mixer.run (recording drv) d ops).UpdatesOk (recording drv) rounds) :
    ((Mixer.run (recording drv) d ops).updates (recording drv) rounds).device.2 ++
        saturatedSum ((Mixer.run (recording drv) d ops).updates (recording drv) rounds).streams =
      (Mixer.run (recording drv) d ops).device.2 ++
        saturatedSum (Mixer.run (recording drv) d ops).streams ∧
    ((∀ c < MIX_CHANNELS,
        (((Mixer.run (recording drv) d ops).updates (recording drv) rounds).channel c).active =
          false) →
      ((Mixer.run (recording drv) d ops).updates (recording drv) rounds).device.2 =
        (Mixer.run (recording drv) d ops).device.2 ++
          saturatedSum (Mixer.run (recording drv) d ops).streams) := by
  obtain ⟨hmixer, hwhole⟩ := updates_whole drv (MixerOk.run (recording drv) d ops) hok
  refine ⟨hwhole, fun hidle => ?_⟩
  unfold Mixer.whole at hwhole
  rwa [saturatedSum_idle hmixer hidle, List.append_nil] at hwhole

/-- Two sounds of one frame on one channel and one on another, played in two windows. -/
theorem played_of_clean_windows_two_sounds :
    ((Mixer.run (recording silentDriver) ((), [])
        [.registerDriver, .initActive true,
          .play ⟨0, 1, [200], 1, .unsigned8, 48000, 255, 255, true⟩,
          .queuePlay ⟨0, 1, [100], 1, .unsigned8, 48000, 255, 255, true⟩,
          .play ⟨1, 1, [150], 1, .unsigned8, 48000, 255, 255, true⟩]).updates
      (recording silentDriver) [1, 1]).device.2 = [(23970, 23970), (-7140, -7140)] := by
  have hclean := (played_of_clean_windows silentDriver ((), [])
    [.registerDriver, .initActive true,
      .play ⟨0, 1, [200], 1, .unsigned8, 48000, 255, 255, true⟩,
      .queuePlay ⟨0, 1, [100], 1, .unsigned8, 48000, 255, 255, true⟩,
      .play ⟨1, 1, [150], 1, .unsigned8, 48000, 255, 255, true⟩] [1, 1]
    ⟨fun _ _ => by decide, fun _ _ => by decide, trivial⟩).2 (by decide)
  rw [hclean]
  decide

/-- A channel with a second sound queued behind a shorter one, and another channel whose
sound is longer than the first: the queued sound starts a frame late. -/
theorem queued_segment_late :
    ∃ (ops : List MixOp) (rounds : List Nat),
      ((Mixer.run (recording silentDriver) ((), []) ops).updates (recording silentDriver)
          rounds).device.2 ++
        saturatedSum ((Mixer.run (recording silentDriver) ((), []) ops).updates
          (recording silentDriver) rounds).streams ≠
      (Mixer.run (recording silentDriver) ((), []) ops).device.2 ++
        saturatedSum (Mixer.run (recording silentDriver) ((), []) ops).streams := by
  refine ⟨[.registerDriver, .initActive true,
    .play ⟨0, 1, [200], 1, .unsigned8, 48000, 255, 255, true⟩,
    .queuePlay ⟨0, 1, [100], 1, .unsigned8, 48000, 255, 255, true⟩,
    .play ⟨1, 1, [150, 160], 2, .unsigned8, 48000, 255, 255, true⟩], [1, 1], ?_⟩
  decide

end VKernel.Proofs.Sound

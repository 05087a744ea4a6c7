import VKernel.Proofs.Sound.Channels

/-!
# `VKernel.Proofs.Sound.Ownership`: every heap copy has one owner

`MixerOk` ties the log of a mixer to its channels: the live copies are those that the slots
refer to, each once, and the queue of a channel holds what waits in its ring. A call that has
made a copy and not yet put it in a slot has it `float`ing.

Every function of the mixer changes one channel at a time, so `MixerOk.update` is the only
place where the two views of the log and the list of channels meet. The passes over the
channels are inductions over the list of channel numbers.
-/

set_option autoImplicit false

namespace VKernel.Proofs.Sound

open VKernel.Sound VKernel.Lib

variable {σ : Type}

/-- The slots and the `float`ing copies account for all live copies, and every channel's
queue is what its ring holds. -/
structure MixerOk (float : List Nat) (m : Mixer σ) : Prop where
  length : m.channels.length = MIX_CHANNELS
  ok : ∀ c < MIX_CHANNELS, ChannelOk (m.channel c) (m.channel c).waiting
  live : ∃ r, runLive [] m.log = some r ∧ r.Perm (float ++ m.channels.flatMap Channel.ids)
  queue : ∀ c < MIX_CHANNELS, runQueue c [] m.log = some (m.channel c).waitingIds
  copied : ∀ id, m.log.count (.copied id) = if id < m.copies.length then 1 else 0

/-- The device is no part of it. -/
theorem MixerOk.device {float : List Nat} {m : Mixer σ} (h : MixerOk float m) (d : σ) :
    MixerOk float { m with device := d } :=
  ⟨h.length, h.ok, h.live, h.queue, h.copied⟩

/-- `update` changes one channel. -/
theorem update_channel {m : Mixer σ} (hlen : m.channels.length = MIX_CHANNELS) {c : Nat}
    (hc : c < MIX_CHANNELS) (ch : Channel) (es : List MixEvent) (d : Nat) :
    (m.update c ch es).channel d = if d = c then ch else m.channel d := by
  show (m.channels.set c ch).getD d {} = _
  by_cases hd : d = c
  · subst hd
    rw [if_pos rfl, List.getD_eq_getElem?_getD, List.getElem?_set_self (hlen ▸ hc)]
    rfl
  · rw [if_neg hd, List.getD_eq_getElem?_getD, List.getElem?_set_ne (Ne.symm hd)]
    rfl

theorem set_channel_self {m : Mixer σ} (hlen : m.channels.length = MIX_CHANNELS) {c : Nat}
    (hc : c < MIX_CHANNELS) : m.channels.set c (m.channel c) = m.channels := by
  have hlt : c < m.channels.length := hlen ▸ hc
  unfold Mixer.channel
  rw [List.getD_eq_getElem _ _ hlt, List.set_getElem_self]

/-- The slots of all channels, those of one channel first. -/
theorem flatMap_ids_split (l : List Channel) {c : Nat} (hc : c < l.length) :
    ∃ others, ∀ ch, ((l.set c ch).flatMap Channel.ids).Perm (ch.ids ++ others) := by
  refine ⟨(l.take c ++ l.drop (c + 1)).flatMap Channel.ids, fun ch => ?_⟩
  rw [List.set_eq_take_append_cons_drop, if_pos hc, List.flatMap_append, List.flatMap_cons,
    List.flatMap_append, ← List.append_assoc, ← List.append_assoc]
  exact List.Perm.append_right _ List.perm_append_comm

/-- A function on one channel keeps the accounts of the mixer. -/
theorem MixerOk.update {float float' : List Nat} {m : Mixer σ} {c : Nat} {ch : Channel}
    {w : List Segment} {es : List MixEvent} (h : MixerOk float m) (hc : c < MIX_CHANNELS)
    (hok : ChannelOk ch w)
    (hdoes : Does c (float ++ (m.channel c).ids) (m.channel c).waitingIds es (float' ++ ch.ids)
      (w.filterMap Segment.data)) :
    MixerOk float' (m.update c ch es) := by
  have hchannel := update_channel h.length hc ch es
  obtain ⟨others, hsplit⟩ := flatMap_ids_split m.channels (c := c) (h.length ▸ hc)
  have hself := set_channel_self h.length hc
  refine ⟨?_, ?_, ?_, ?_, ?_⟩
  · show (m.channels.set c ch).length = _
    rw [List.length_set, h.length]
  · intro d hd
    rw [hchannel d]
    split
    · rw [hok.waiting_eq]
      exact hok
    · exact h.ok d hd
  · -- The copies of the other channels are the ones the function does not reach.
    obtain ⟨r, hr, hperm⟩ := h.live
    have hbefore := hsplit (m.channel c)
    rw [hself] at hbefore
    have hperm' : r.Perm (float ++ (m.channel c).ids ++ others) := by
      rw [List.append_assoc]
      exact hperm.trans (hbefore.append_left float)
    obtain ⟨t, ht, hpt⟩ := hdoes.live others
    obtain ⟨t', ht', hpt'⟩ := runLive_perm hperm'.symm ht
    refine ⟨t', ?_, ?_⟩
    · show runLive [] (m.log ++ es) = _
      rw [runLive_append, hr]
      exact ht'
    · refine hpt'.symm.trans (hpt.trans ?_)
      rw [List.append_assoc]
      exact (hsplit ch).symm.append_left float'
  · intro d hd
    show runQueue d [] (m.log ++ es) = _
    rw [runQueue_append, h.queue d hd, hchannel d]
    by_cases hdc : d = c
    · subst hdc
      rw [if_pos rfl, hok.waitingIds_eq]
      exact hdoes.queue
    · rw [if_neg hdc]
      exact hdoes.frame d hdc _
  · intro id
    show (m.log ++ es).count (.copied id) = _
    rw [List.count_append, h.copied id, List.count_eq_zero.mpr (hdoes.copied id)]
    rfl

/-! ### The passes -/

/-- Refreshing a channel: its result says whether it is active. -/
theorem MixerOk.refresh {m : Mixer σ} (h : MixerOk [] m) {c : Nat} (hc : c < MIX_CHANNELS) :
    MixerOk [] (m.refresh c).2 ∧ ((m.refresh c).2.channel c).active = (m.refresh c).1 := by
  obtain ⟨⟨w, href⟩, -⟩ := refreshChannel_spec c (h.ok c hc)
  refine ⟨h.update hc href.ok href.does, ?_⟩
  show ((m.update c _ _).channel c).active = _
  rw [update_channel h.length hc, if_pos rfl]
  exact href.active

/-- The buffers have one owner each after `any_active`. The lemmas that follow say so of the
other functions, and end with a run. -/
theorem MixerOk.anyActiveFrom {cs : List Nat} :
    ∀ {m : Mixer σ}, MixerOk [] m → (∀ c ∈ cs, c < MIX_CHANNELS) →
      MixerOk [] (m.anyActiveFrom cs).2 := by
  induction cs with
  | nil => exact fun h _ => h
  | cons c cs ih =>
    intro m h hcs
    obtain ⟨href, -⟩ := h.refresh (hcs c List.mem_cons_self)
    unfold Mixer.anyActiveFrom
    dsimp only
    split
    · exact href
    · exact ih href fun d hd => hcs d (List.mem_cons_of_mem _ hd)

theorem mem_channels {c : Nat} (h : c ∈ List.range MIX_CHANNELS) : c < MIX_CHANNELS :=
  List.mem_range.mp h

theorem MixerOk.anyActive {m : Mixer σ} (h : MixerOk [] m) : MixerOk [] m.anyActive.2 :=
  h.anyActiveFrom fun _ => mem_channels

theorem MixerOk.longestFrom {cs : List Nat} :
    ∀ {m : Mixer σ} {out : Nat}, MixerOk [] m → (∀ c ∈ cs, c < MIX_CHANNELS) →
      MixerOk [] (m.longestFrom out cs).2 := by
  induction cs with
  | nil => exact fun h _ => h
  | cons c cs ih =>
    intro m out h hcs
    obtain ⟨href, -⟩ := h.refresh (hcs c List.mem_cons_self)
    have hrest : ∀ d ∈ cs, d < MIX_CHANNELS := fun d hd => hcs d (List.mem_cons_of_mem _ hd)
    unfold Mixer.longestFrom
    dsimp only
    split
    · exact ih href hrest
    · exact ih href hrest

/-- The current segment of an active channel may be read: its copy is live. -/
theorem MixerOk.readCurrent {m : Mixer σ} (h : MixerOk [] m) {c : Nat} (hc : c < MIX_CHANNELS)
    (hactive : (m.channel c).active = true) :
    MixerOk [] { m with
      log := m.log ++ (m.channel c).current.data.toList.map MixEvent.read } := by
  have hok := h.ok c hc
  obtain ⟨id, hid⟩ := Option.isSome_iff_exists.mp (hok.current hactive).data
  have hmem : id ∈ (m.channel c).ids := hok.ids_perm.mem_iff.mpr (by simp [hid])
  have hlog : { m with log := m.log ++ (m.channel c).current.data.toList.map MixEvent.read } =
      m.update c (m.channel c) [.read id] := by
    rw [Mixer.update, set_channel_self h.length hc, hid]
    rfl
  rw [hlog]
  exact h.update hc hok (Does.read c _ hmem)

/-- Mixing reads the current segments of active channels. -/
theorem MixerOk.mixFrom {outFrames : Nat} {cs : List Nat} :
    ∀ {m : Mixer σ} {acc : List Frame}, MixerOk [] m → (∀ c ∈ cs, c < MIX_CHANNELS) →
      MixerOk [] (m.mixFrom outFrames acc cs).2 := by
  induction cs with
  | nil => exact fun h _ => h
  | cons c cs ih =>
    intro m acc h hcs
    have hc := hcs c List.mem_cons_self
    obtain ⟨href, hactive⟩ := h.refresh hc
    have hrest : ∀ d ∈ cs, d < MIX_CHANNELS := fun d hd => hcs d (List.mem_cons_of_mem _ hd)
    unfold Mixer.mixFrom
    dsimp only
    split
    · rename_i hres
      exact ih (href.readCurrent hc (hactive.trans hres)) hrest
    · exact ih href hrest

/-- Moving the source position of an active channel. -/
theorem MixerOk.advance {m : Mixer σ} (h : MixerOk [] m) {c : Nat} (hc : c < MIX_CHANNELS)
    (hactive : (m.channel c).active = true) (outFrames : Nat) :
    MixerOk [] (m.update c ((m.channel c).advanced outFrames) []) := by
  have hok := h.ok c hc
  refine h.update (w := (m.channel c).waiting) hc
    ⟨⟨hok.ring, hok.le, hok.count, hok.head, hok.tail, hok.owned⟩, fun hact => ?_, fun hidle => ?_⟩
    (Does.refl c _ _)
  · obtain ⟨hdata, hrate, hrateLt, htotal, hpos⟩ := hok.current hact
    refine ⟨hdata, hrate, hrateLt, htotal, ?_⟩
    have hle : (m.channel c).current.advance outFrames ≤
        (m.channel c).current.srcTotal - (m.channel c).current.srcPos := Nat.min_le_right _ _
    show (m.channel c).current.srcPos + (m.channel c).current.advance outFrames ≤
      (m.channel c).current.srcTotal
    have hpos' : (m.channel c).current.srcPos ≤ (m.channel c).current.srcTotal := hpos
    omega
  · exact absurd (hactive.symm.trans hidle) (by simp)

theorem MixerOk.advanceFrom {outFrames : Nat} {cs : List Nat} :
    ∀ {m : Mixer σ}, MixerOk [] m → (∀ c ∈ cs, c < MIX_CHANNELS) →
      MixerOk [] (m.advanceFrom outFrames cs) := by
  induction cs with
  | nil => exact fun h _ => h
  | cons c cs ih =>
    intro m h hcs
    have hc := hcs c List.mem_cons_self
    obtain ⟨href, hactive⟩ := h.refresh hc
    have hrest : ∀ d ∈ cs, d < MIX_CHANNELS := fun d hd => hcs d (List.mem_cons_of_mem _ hd)
    unfold Mixer.advanceFrom
    dsimp only
    split
    · rename_i hres
      have hmoved := href.advance hc (hactive.trans hres) outFrames
      exact ih (hmoved.refresh hc).1 hrest
    · exact ih href hrest

/-- Resetting channels. -/
theorem MixerOk.reset {float : List Nat} {m : Mixer σ} (h : MixerOk float m) {c : Nat}
    (hc : c < MIX_CHANNELS) :
    MixerOk float (m.update c (resetMixChannel c (m.channel c)).1
      (resetMixChannel c (m.channel c)).2) := by
  refine h.update hc ChannelOk.empty ?_
  have hdoes := resetMixChannel_does c (m.channel c) (m.channel c).waitingIds float
  exact hdoes.congr List.perm_append_comm (by rw [show (resetMixChannel c (m.channel c)).1.ids = []
    from ids_empty, List.append_nil])

theorem MixerOk.resetWhere {test : Channel → Bool} {cs : List Nat} :
    ∀ {m : Mixer σ}, MixerOk [] m → (∀ c ∈ cs, c < MIX_CHANNELS) →
      MixerOk [] (m.resetWhere test cs) := by
  induction cs with
  | nil => exact fun h _ => h
  | cons c cs ih =>
    intro m h hcs
    have hrest : ∀ d ∈ cs, d < MIX_CHANNELS := fun d hd => hcs d (List.mem_cons_of_mem _ hd)
    unfold Mixer.resetWhere
    split
    · exact ih (h.reset (hcs c List.mem_cons_self)) hrest
    · exact ih h hrest

/-! ### The calls -/

theorem MixerOk.doSubmit (drv : Driver σ) {m : Mixer σ} (h : MixerOk [] m) :
    MixerOk [] (m.doSubmit drv).2 := by
  have hall : ∀ c ∈ List.range MIX_CHANNELS, c < MIX_CHANNELS := fun _ => mem_channels
  have hlong : MixerOk [] (m.longestFrom 0 (List.range MIX_CHANNELS)).2 := h.longestFrom hall
  unfold Mixer.doSubmit
  dsimp only
  split
  · exact h
  · split
    · exact hlong.device _
    · split
      · exact ((hlong.mixFrom hall).device _).advanceFrom hall
      · exact (hlong.mixFrom hall).device _

theorem MixerOk.driverIsPlaying (drv : Driver σ) {float : List Nat} {m : Mixer σ}
    (h : MixerOk float m) : MixerOk float (m.driverIsPlaying drv).2 := by
  unfold Mixer.driverIsPlaying
  split
  · exact h
  · split
    · exact h
    · exact h.device _

theorem MixerOk.stopDriverIfIdle (drv : Driver σ) {m : Mixer σ} (h : MixerOk [] m) :
    MixerOk [] (m.stopDriverIfIdle drv) := by
  unfold Mixer.stopDriverIfIdle
  dsimp only
  split
  · exact h
  · split
    · exact h.anyActive
    · have hplaying := h.anyActive.driverIsPlaying drv
      split
      · exact hplaying
      · exact hplaying.device _

theorem MixerOk.updateLoop (drv : Driver σ) (buffered : σ → Nat × σ) {rounds : Nat} :
    ∀ {m : Mixer σ}, MixerOk [] m → MixerOk [] (m.updateLoop drv buffered rounds) := by
  induction rounds with
  | zero => exact fun h => h
  | succ rounds ih =>
    intro m h
    have hactive := h.anyActive
    unfold Mixer.updateLoop
    dsimp only
    split
    · exact hactive
    · split
      · exact hactive.device _
      · have hsub := (hactive.device (buffered m.anyActive.2.device).2).doSubmit drv
        split
        · exact hsub
        · split
          · exact hsub.device _
          · exact ih (hsub.device _)

theorem MixerOk.mixUpdate (drv : Driver σ) (rounds : Nat) {m : Mixer σ} (h : MixerOk [] m) :
    MixerOk [] (m.mixUpdate drv rounds) := by
  have hactive := h.anyActive
  unfold Mixer.mixUpdate
  dsimp only
  split
  · exact hactive
  · split
    · exact hactive.updateLoop drv _
    · have hplaying := hactive.driverIsPlaying drv
      split
      · exact hplaying
      · exact hplaying.doSubmit drv

/-- A new copy has the next number and floats until a slot takes it. -/
theorem MixerOk.copySamples {m : Mixer σ} (h : MixerOk [] m) (a : PlayArgs) :
    MixerOk [m.copies.length] (m.copySamples a).2 := by
  refine ⟨h.length, h.ok, ?_, ?_, ?_⟩
  · obtain ⟨r, hr, hperm⟩ := h.live
    have hfresh : m.copies.length ∉ r := by
      have hcount := runLive_count hr m.copies.length
      rw [h.copied, if_neg (Nat.lt_irrefl _)] at hcount
      rw [← List.count_eq_zero]
      simp only [List.count_nil] at hcount
      omega
    refine ⟨m.copies.length :: r, ?_, hperm.cons _⟩
    show runLive [] (m.log ++ [.copied m.copies.length]) = _
    rw [runLive_append, hr]
    simp [runLive, stepLive, hfresh]
  · intro c hc
    show runQueue c [] (m.log ++ [.copied m.copies.length]) = _
    rw [runQueue_append, h.queue c hc]
    rfl
  · intro id
    show (m.log ++ [MixEvent.copied m.copies.length]).count (MixEvent.copied id) =
      if id < (m.copies ++
        [a.bytes.take (payloadBytes a.fmt a.srcSamples.toNat)]).length then 1 else 0
    rw [List.count_append, h.copied id, List.length_append, List.length_singleton,
      List.count_singleton]
    simp only [beq_iff_eq, MixEvent.copied.injEq]
    split <;> split <;> split <;> omega

/-- The segment that a call fills in is valid. -/
theorem copySamples_valid (m : Mixer σ) {a : PlayArgs} (h : a.ok ≠ false) :
    (m.copySamples a).1.Valid := by
  rw [ne_eq, Bool.not_eq_false] at h
  simp only [PlayArgs.ok, Bool.and_eq_true, decide_eq_true_eq] at h
  obtain ⟨⟨⟨⟨-, -⟩, hrate⟩, -⟩, -⟩ := h
  refine ⟨rfl, Nat.pos_of_ne_zero fun h0 => hrate ?_, a.sampleRate.toNat_lt, a.srcSamples.toNat_lt,
    Nat.zero_le _⟩
  exact UInt32.toNat_inj.mp h0

/-- An accepted request names a channel. -/
theorem PlayArgs.channel_lt {a : PlayArgs} (h : a.ok ≠ false) : a.chIdx.toNat < MIX_CHANNELS := by
  rw [ne_eq, Bool.not_eq_false] at h
  simp only [PlayArgs.ok, Bool.and_eq_true, decide_eq_true_eq] at h
  obtain ⟨⟨⟨⟨⟨⟨h0, hlt⟩, -⟩, -⟩, -⟩, -⟩, -⟩ := h
  omega

theorem MixerOk.mixPlay {m : Mixer σ} (h : MixerOk [] m) (a : PlayArgs) :
    MixerOk [] (m.mixPlay a).2 := by
  unfold Mixer.mixPlay
  dsimp only
  split
  · exact h
  · rename_i hargs
    have hc := PlayArgs.channel_lt hargs
    have hmade := h.copySamples a
    obtain ⟨hok, hadopt⟩ := adoptCurrentSegment_spec a.chIdx.toNat ChannelOk.empty rfl
      (show (m.copySamples a).1.data = some m.copies.length from rfl) (copySamples_valid m hargs)
    refine hmade.update hc hok ?_
    rw [List.append_assoc]
    exact ((resetMixChannel_does _ _ _ [m.copies.length]).trans hadopt).congr
      List.perm_append_comm (List.Perm.refl _)

theorem MixerOk.mixQueuePlay {m : Mixer σ} (h : MixerOk [] m) (a : PlayArgs) :
    MixerOk [] (m.mixQueuePlay a).2 := by
  unfold Mixer.mixQueuePlay
  dsimp only
  split
  · exact h
  · rename_i hargs
    have hc := PlayArgs.channel_lt hargs
    have hmade := h.copySamples a
    have hok := hmade.ok _ hc
    have hseg : (m.copySamples a).1.data = some m.copies.length := rfl
    split
    · -- An idle channel plays the segment at once.
      rename_i hidle
      obtain ⟨hcur, hw⟩ := hok.idle hidle.1
      rw [hw] at hok
      obtain ⟨hok', hadopt⟩ := adoptCurrentSegment_spec a.chIdx.toNat hok hcur hseg
        (copySamples_valid m hargs)
      refine hmade.update hc hok' ?_
      rw [hok.waitingIds_eq]
      exact hadopt
    · rename_i hbusy
      have hactive : ((m.copySamples a).2.channel a.chIdx.toNat).active = true := by
        by_contra hne
        rw [Bool.not_eq_true] at hne
        refine hbusy ⟨hne, ?_⟩
        rw [hok.count, (hok.idle hne).2]
        rfl
      split
      · rename_i ch' hpush
        obtain ⟨hok', henq⟩ := enqueuePendingSegment_spec a.chIdx.toNat hok hseg
          (copySamples_valid m hargs) hactive hpush
        exact hmade.update hc hok' henq
      · -- The ring is full: the copy is freed again.
        have hdoes : Does a.chIdx.toNat
            ([m.copies.length] ++ ((m.copySamples a).2.channel a.chIdx.toNat).ids)
            ((m.copySamples a).2.channel a.chIdx.toNat).waitingIds (m.copySamples a).1.release
            ([] ++ ((m.copySamples a).2.channel a.chIdx.toNat).ids)
            (((m.copySamples a).2.channel a.chIdx.toNat).waiting.filterMap Segment.data) :=
          Does.free _ [m.copies.length] _ _
        have hfree := hmade.update hc hok hdoes
        rw [Mixer.update, set_channel_self hmade.length hc] at hfree
        exact hfree

theorem MixerOk.mixShutdown {m : Mixer σ} (h : MixerOk [] m) : MixerOk [] m.mixShutdown :=
  h.resetWhere fun _ => mem_channels

/-- Every call keeps the accounts. -/
theorem MixerOk.next (drv : Driver σ) {m : Mixer σ} (h : MixerOk [] m) (op : MixOp) :
    MixerOk [] (m.next drv op) := by
  cases op with
  | play a => exact h.mixPlay a
  | queuePlay a => exact h.mixQueuePlay a
  | stop chIdx =>
    show MixerOk [] (m.mixStop drv chIdx)
    unfold Mixer.mixStop
    dsimp only
    split
    · exact h
    · exact (h.reset (by omega)).stopDriverIfIdle drv
  | stopRange base size =>
    show MixerOk [] (m.mixStopRange drv base size)
    unfold Mixer.mixStopRange
    dsimp only
    split
    · exact h
    · split
      · exact h
      · exact (h.resetWhere fun _ => mem_channels).stopDriverIfIdle drv
  | update rounds => exact h.mixUpdate drv rounds
  | isPlaying chIdx =>
    show MixerOk [] (m.mixIsPlaying chIdx).2
    unfold Mixer.mixIsPlaying
    split
    · exact h
    · exact (h.refresh (by omega)).1
  | shutdown => exact h.mixShutdown
  | shutdownActive =>
    show MixerOk [] (m.shutdownActive drv)
    unfold Mixer.shutdownActive
    dsimp only
    split
    · have hreset := (h.device (drv.shutdown m.device)).mixShutdown
      exact ⟨hreset.length, hreset.ok, hreset.live, hreset.queue, hreset.copied⟩
    · have hreset := h.mixShutdown
      exact ⟨hreset.length, hreset.ok, hreset.live, hreset.queue, hreset.copied⟩
  | registerDriver =>
    show MixerOk [] (m.registerDriver drv)
    unfold Mixer.registerDriver
    split
    · exact ⟨h.length, h.ok, h.live, h.queue, h.copied⟩
    · exact ⟨h.length, h.ok, h.live, h.queue, h.copied⟩
  | initActive ok =>
    show MixerOk [] (m.initActive ok)
    unfold Mixer.initActive
    split
    · exact ⟨h.length, h.ok, h.live, h.queue, h.copied⟩
    · exact h

theorem MixerOk.initial (d : σ) : MixerOk [] (Mixer.initial d) where
  length := rfl
  ok c hc := by
    have hch : (Mixer.initial d).channel c = {} := by
      show (List.replicate MIX_CHANNELS ({} : Channel)).getD c {} = {}
      rw [List.getD_eq_getElem?_getD, List.getElem?_replicate, if_pos hc]
      rfl
    rw [hch]
    exact ChannelOk.empty
  live := ⟨[], rfl, List.Perm.refl _⟩
  queue c hc := by
    have hch : (Mixer.initial d).channel c = {} := by
      show (List.replicate MIX_CHANNELS ({} : Channel)).getD c {} = {}
      rw [List.getD_eq_getElem?_getD, List.getElem?_replicate, if_pos hc]
      rfl
    rw [hch]
    rfl
  copied id := by simp [Mixer.initial]

/-- The mixer after a sequence of calls. -/
def Mixer.run (drv : Driver σ) (d : σ) (ops : List MixOp) : Mixer σ :=
  ops.foldl (Mixer.next drv) (Mixer.initial d)

/-- The invariant holds after any calls. -/
theorem MixerOk.run (drv : Driver σ) (d : σ) (ops : List MixOp) :
    MixerOk [] (Mixer.run drv d ops) := by
  unfold Mixer.run
  generalize hm : Mixer.initial d = m
  have h : MixerOk [] m := hm ▸ MixerOk.initial d
  clear hm
  induction ops generalizing m with
  | nil => exact h
  | cons op ops ih => exact ih (m.next drv op) (h.next drv op)

/-- For every driver and every sequence of calls: each heap copy ever made is in exactly one
slot and was not freed, or in none and was freed once; a copy is only read after it was made
and before it is freed; and the log of each channel is the run of a queue, in which segments
become current in the order they were accepted and only a reset drops what waits. -/
theorem copies_owned_once (drv : Driver σ) (d : σ) (ops : List MixOp) :
    (∀ id < (Mixer.run drv d ops).copies.length,
      ((Mixer.run drv d ops).channels.flatMap Channel.ids).count id +
        (Mixer.run drv d ops).log.count (.freed id) = 1) ∧
    (∀ before after id, (Mixer.run drv d ops).log = before ++ .read id :: after →
      .copied id ∈ before ∧ .freed id ∉ before) ∧
    (∀ c < MIX_CHANNELS, runQueue c [] (Mixer.run drv d ops).log =
      some ((Mixer.run drv d ops).channel c).waitingIds) := by
  have h := MixerOk.run drv d ops
  obtain ⟨r, hr, hperm⟩ := h.live
  refine ⟨fun id hid => ?_, fun before after id hlog => ?_, h.queue⟩
  · -- What is live is what the channels hold: each copy is there once or was freed once.
    have hcount := runLive_count hr id
    rw [h.copied id, if_pos hid, hperm.count_eq, List.nil_append, List.count_nil] at hcount
    exact hcount
  · -- A read needs a live copy, so its copy came before and its free did not.
    rw [hlog, runLive_append] at hr
    obtain ⟨l, hl, hrest⟩ := Option.bind_eq_some_iff.mp hr
    obtain ⟨l', hl', -⟩ := Option.bind_eq_some_iff.mp hrest
    have hmem : id ∈ l := by
      by_contra hne
      rw [show stepLive l (.read id) = none from if_neg hne] at hl'
      exact absurd hl' (by simp)
    have hcount := runLive_count hl id
    have hpos : 0 < l.count id := List.count_pos_iff.mpr hmem
    have hone : before.count (.copied id) ≤ 1 := by
      have hall := h.copied id
      rw [hlog, List.count_append] at hall
      split at hall <;> omega
    rw [List.count_nil] at hcount
    refine ⟨List.count_pos_iff.mp (by omega), List.count_eq_zero.mp (by omega)⟩

/-- A sound on channel 0, a second one queued behind it, and two windows: the first copy is
freed once and the second is played. -/
theorem copies_owned_once_two_sounds :
    ∃ m, m = Mixer.run silentDriver ()
        [.registerDriver, .initActive true,
          .play ⟨0, 1, [1, 2], 2, .unsigned8, 48000, 255, 255, true⟩,
          .queuePlay ⟨0, 1, [3], 1, .unsigned8, 48000, 255, 255, true⟩, .update 1] ∧
      m.copies.length = 2 ∧
      (m.channels.flatMap Channel.ids).count 0 + m.log.count (.freed 0) = 1 ∧
      MixEvent.freed 0 ∈ m.log ∧
      runQueue 0 [] m.log = some (m.channel 0).waitingIds := by
  refine ⟨_, rfl, by decide, ?_, by decide, ?_⟩
  · exact (copies_owned_once silentDriver () _).1 0 (by decide)
  · exact (copies_owned_once silentDriver () _).2.2 0 (by decide)

end VKernel.Proofs.Sound

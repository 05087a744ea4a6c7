import VKernel.Proofs.Sound.MixerEvents
import VKernel.Sound.Resampling

/-!
# `VKernel.Proofs.Sound.Channels`: the segments of one channel

`ChannelOk ch w` says that the ring of `ch` holds the segments `w`, in order, and nothing
else: the slots outside the window are empty, an idle channel holds nothing at all, and an
active one has a current segment. The plain structure copies of the source keep this because
each of them clears the slot it copies from.

For each function on a channel there is one lemma: the invariant afterwards, and what the
function `Does`.
-/

set_option autoImplicit false

namespace VKernel.Sound

/-- The copies that the slots of a channel refer to. -/
def Channel.ids (ch : Channel) : List Nat := (ch.current :: ch.pending).filterMap Segment.data

/-- A segment that a call has filled in: it owns a copy, its rate is not 0, and its values
are 32-bit ones. -/
structure Segment.Valid (seg : Segment) : Prop where
  data : seg.data.isSome
  rate : 0 < seg.sampleRate
  rateLt : seg.sampleRate < U32
  total : seg.srcTotal < U32
  pos : seg.srcPos ≤ seg.srcTotal

/-- The copies of the waiting segments. -/
def Channel.waitingIds (ch : Channel) : List Nat := ch.waiting.filterMap Segment.data

end VKernel.Sound

namespace VKernel.Proofs.Sound

open VKernel.Sound VKernel.Lib

/-- The ring of the channel holds exactly the segments `w`. -/
structure RingOk (ch : Channel) (w : List Segment) : Prop where
  ring : RingHolds ch.pending ch.pendingHead w (List.replicate (MIX_QUEUE_CAPACITY - w.length) {})
  le : w.length ≤ MIX_QUEUE_CAPACITY
  count : ch.pendingCount = w.length
  head : ch.pendingHead < MIX_QUEUE_CAPACITY
  tail : ch.pendingTail = (ch.pendingHead + w.length) % MIX_QUEUE_CAPACITY
  owned : ∀ seg ∈ w, seg.Valid

/-- The channel holds exactly the segments `w` besides the current one, which is there when
it is active; an idle channel holds nothing. -/
structure ChannelOk (ch : Channel) (w : List Segment) : Prop extends RingOk ch w where
  current : ch.active = true → ch.current.Valid
  idle : ch.active = false → ch.current = {} ∧ w = []

theorem RingOk.length {ch : Channel} {w : List Segment} (h : RingOk ch w) :
    ch.pending.length = MIX_QUEUE_CAPACITY := by
  have hlen := h.ring.length
  have hle := h.le
  rw [List.length_replicate] at hlen
  omega

/-- The waiting segments are those of the window. -/
theorem RingOk.waiting_eq {ch : Channel} {w : List Segment} (h : RingOk ch w) :
    ch.waiting = w := by
  unfold Channel.waiting
  rw [h.count, h.ring, List.take_left]

theorem RingOk.waitingIds_eq {ch : Channel} {w : List Segment} (h : RingOk ch w) :
    ch.waitingIds = w.filterMap Segment.data := by
  rw [Channel.waitingIds, h.waiting_eq]

/-- The copies of a channel are the current one and the waiting ones. -/
theorem RingOk.ids_perm {ch : Channel} {w : List Segment} (h : RingOk ch w) :
    ch.ids.Perm (ch.current.data.toList ++ w.filterMap Segment.data) := by
  have hpending : (ch.pending.filterMap Segment.data).Perm (w.filterMap Segment.data) := by
    have hp := h.ring.perm.filterMap Segment.data
    rw [List.filterMap_append] at hp
    -- The slots outside the window refer to nothing.
    have hempty : (List.replicate (MIX_QUEUE_CAPACITY - w.length) ({} : Segment)).filterMap
        Segment.data = [] := by
      rw [List.filterMap_eq_nil_iff]
      intro seg hseg
      rw [List.eq_of_mem_replicate hseg]
    rwa [hempty, List.append_nil] at hp
  unfold Channel.ids
  cases hcur : ch.current.data with
  | none =>
    rw [List.filterMap_cons_none hcur]
    exact hpending
  | some id =>
    rw [List.filterMap_cons_some hcur]
    exact hpending.cons id

/-- A fresh channel. -/
theorem ChannelOk.empty : ChannelOk {} [] where
  ring := rfl
  le := by decide
  count := rfl
  head := by decide
  tail := rfl
  owned := by simp
  current h := absurd h Bool.false_ne_true
  idle _ := ⟨rfl, rfl⟩

/-- A channel without segments refers to no copy. -/
theorem ids_empty : ({} : Channel).ids = [] := rfl

/-! ### Resetting -/

/-- The frees of a list of slots. -/
theorem flatMap_release (l : List Segment) :
    l.flatMap Segment.release = (l.filterMap Segment.data).map .freed := by
  induction l with
  | nil => rfl
  | cons seg l ih =>
    rw [List.flatMap_cons, ih]
    unfold Segment.release
    cases hdata : seg.data with
    | none => rw [List.filterMap_cons_none hdata]; rfl
    | some id => rw [List.filterMap_cons_some hdata]; rfl

/-- `reset_mix_channel_locked` frees everything the channel refers to. -/
theorem resetMixChannel_does (c : Nat) (ch : Channel) (q held : List Nat) :
    Does c (ch.ids ++ held) q (resetMixChannel c ch).2 held [] := by
  have hevents : (resetMixChannel c ch).2 = ch.ids.map .freed ++ [.cleared c] := by
    rw [Channel.ids, ← flatMap_release]
    rfl
  rw [hevents]
  exact (Does.free c ch.ids held q).trans (Does.clear c held q)

/-! ### Playing and queueing -/

/-- `adopt_current_segment_locked` on an idle channel: the segment was just accepted and
starts at once. -/
theorem adoptCurrentSegment_spec (c : Nat) {ch : Channel} (hok : ChannelOk ch [])
    (hidle : ch.current = {}) {seg : Segment} {id : Nat} (hseg : seg.data = some id)
    (hvalid : seg.Valid) :
    ChannelOk (adoptCurrentSegment c ch seg).1 [] ∧
      Does c (id :: ch.ids) []
        (seg.data.toList.map (.accepted c) ++ (adoptCurrentSegment c ch seg).2)
        (adoptCurrentSegment c ch seg).1.ids [] := by
  have hok' : ChannelOk (adoptCurrentSegment c ch seg).1 [] := by
    refine ⟨⟨hok.ring, hok.le, hok.count, hok.head, hok.tail, hok.owned⟩, fun _ => hvalid,
      fun h => ?_⟩
    · have hactive : seg.data.isSome = false := h
      rw [hseg] at hactive
      exact absurd hactive (by simp)
  refine ⟨hok', ?_⟩
  have hold : ch.ids.Perm [] := by
    have hp := hok.ids_perm
    rw [hidle] at hp
    exact hp
  have hnew : (adoptCurrentSegment c ch seg).1.ids.Perm [id] := by
    have hp := hok'.ids_perm
    rw [show (adoptCurrentSegment c ch seg).1.current = seg from rfl, hseg] at hp
    exact hp
  have hevents : seg.data.toList.map (MixEvent.accepted c) ++ (adoptCurrentSegment c ch seg).2 =
      [.accepted c id] ++ [.started c id] := by
    simp [adoptCurrentSegment, hseg, hidle, Segment.release]
  rw [hevents]
  exact ((Does.accept c id [id] []).trans (Does.start c id [id] [])).congr (hold.cons id) hnew.symm

/-- `enqueue_pending_segment_locked` puts an accepted segment behind the waiting ones. -/
theorem enqueuePendingSegment_spec (c : Nat) {ch ch' : Channel} {w : List Segment}
    (hok : ChannelOk ch w) {seg : Segment} {id : Nat} (hseg : seg.data = some id)
    (hvalid : seg.Valid) (hactive : ch.active = true)
    (h : enqueuePendingSegment ch seg = some ch') :
    ChannelOk ch' (w ++ [seg]) ∧
      Does c (id :: ch.ids) (w.filterMap Segment.data) (seg.data.toList.map (.accepted c))
        ch'.ids ((w ++ [seg]).filterMap Segment.data) := by
  unfold enqueuePendingSegment at h
  split at h
  · exact absurd h (by simp)
  · rename_i hfull
    have hcount := hok.count
    have hlt : w.length < MIX_QUEUE_CAPACITY := by omega
    have hsplit : List.replicate (MIX_QUEUE_CAPACITY - w.length) ({} : Segment) =
        {} :: List.replicate (MIX_QUEUE_CAPACITY - (w ++ [seg]).length) {} := by
      rw [← List.replicate_succ, List.length_append, List.length_singleton]
      congr 1
      omega
    have hring := hok.ring
    rw [hsplit] at hring
    have hpush := hring.push seg
    rw [hok.length, ← hok.tail] at hpush
    have hch' := (Option.some.inj h).symm
    have hok' : ChannelOk ch' (w ++ [seg]) := by
      rw [hch']
      refine ⟨⟨hpush, ?_, ?_, hok.head, ?_, ?_⟩, hok.current, fun hidle => ?_⟩
      · rw [List.length_append, List.length_singleton]
        omega
      · show ch.pendingCount + 1 = (w ++ [seg]).length
        rw [List.length_append, List.length_singleton, hcount]
      · show (ch.pendingTail + 1) % MIX_QUEUE_CAPACITY =
          (ch.pendingHead + (w ++ [seg]).length) % MIX_QUEUE_CAPACITY
        rw [hok.tail, List.length_append, List.length_singleton, Nat.mod_add_mod, Nat.add_assoc]
      · intro m hm
        rcases List.mem_append.mp hm with hm | hm
        · exact hok.owned m hm
        · rw [List.mem_singleton.mp hm]
          exact hvalid
      · exact absurd (hactive.symm.trans hidle) (by simp)
    refine ⟨hok', ?_⟩
    have hids : (id :: ch.ids).Perm ch'.ids := by
      have hp := hok'.ids_perm
      rw [List.filterMap_append, List.filterMap_cons_some hseg, List.filterMap_nil,
        ← List.append_assoc] at hp
      have hcur : ch'.current = ch.current := by rw [hch']
      rw [hcur] at hp
      have hold := (hok.ids_perm.cons id)
      exact hold.trans ((List.perm_append_singleton id _).symm.trans hp.symm)
    have hwait : (w ++ [seg]).filterMap Segment.data = w.filterMap Segment.data ++ [id] := by
      rw [List.filterMap_append, List.filterMap_cons_some hseg, List.filterMap_nil]
    rw [hwait, hseg]
    exact (Does.accept c id (id :: ch.ids) _).congr (List.Perm.refl _) hids

/-! ### Refreshing -/

/-- The outcome `o` of a refresh of a channel that waits for `w`: the channel is well-formed
again and waits for `w'`, its result says whether it is active, and whatever a segment is worth
while it has samples left, the segments are worth the same as before. -/
structure Refreshed (c : Nat) (ch : Channel) (w : List Segment) (o : Outcome)
    (w' : List Segment) : Prop where
  ok : ChannelOk o.channel w'
  active : o.channel.active = o.result
  does : Does c ch.ids (w.filterMap Segment.data) o.events o.channel.ids
    (w'.filterMap Segment.data)
  worth : ∀ {α : Type} (val : Segment → List α), (∀ s, s.srcTotal ≤ s.srcPos → val s = []) →
    val o.channel.current ++ w'.flatMap val = val ch.current ++ w.flatMap val

/-- `activate_next_segment_locked` on a channel whose current slot is cleared. -/
theorem activateNextSegment_spec (c : Nat) {ch : Channel} {w : List Segment} (hok : RingOk ch w)
    (hcur : ch.current = {}) :
    ∃ w', Refreshed c ch w (activateNextSegment c ch) w' ∧
      ((activateNextSegment c ch).result = true → w'.length < w.length) := by
  have hids := hok.ids_perm
  rw [hcur] at hids
  unfold activateNextSegment
  by_cases h0 : ch.pendingCount = 0
  · have hw : w = [] := List.eq_nil_of_length_eq_zero (hok.count ▸ h0)
    subst hw
    rw [if_pos h0]
    have hok' : ChannelOk { ch with active := false } [] :=
      ⟨⟨hok.ring, hok.le, hok.count, hok.head, hok.tail, hok.owned⟩,
        fun h => absurd h Bool.false_ne_true, fun _ => ⟨hcur, rfl⟩⟩
    exact ⟨[], ⟨hok', rfl, Does.refl c _ _, fun _ _ => rfl⟩, fun h => absurd h (by simp)⟩
  · rw [if_neg h0]
    cases w with
    | nil => exact absurd hok.count h0
    | cons seg w =>
      have hlen := hok.length
      have hhead : ch.pendingHead < ch.pending.length := hlen ▸ hok.head
      have hget : ch.pending.getD ch.pendingHead {} = seg := by
        rw [List.getD_eq_getElem?_getD, hok.ring.head hhead]
        rfl
      have hpop := hok.ring.pop hhead {}
      have hle := hok.le
      have hcount := hok.count
      rw [List.length_cons] at hle hcount
      obtain ⟨id, hid⟩ := Option.isSome_iff_exists.mp (hok.owned seg List.mem_cons_self).data
      have hrest : List.replicate (MIX_QUEUE_CAPACITY - (seg :: w).length) ({} : Segment) ++
        [({} : Segment)] =
          List.replicate (MIX_QUEUE_CAPACITY - w.length) ({} : Segment) := by
        rw [← List.replicate_succ', List.length_cons]
        congr 1
        omega
      rw [hlen, hrest] at hpop
      simp only [hget]
      have hok' : ChannelOk { ch with
          current := seg
          pending := ch.pending.set ch.pendingHead {}
          pendingHead := (ch.pendingHead + 1) % MIX_QUEUE_CAPACITY
          pendingCount := ch.pendingCount - 1
          active := true } w := by
        refine ⟨⟨hpop, by omega, by simp only []; omega, Nat.mod_lt _ (by decide), ?_, ?_⟩,
          fun _ => hok.owned seg List.mem_cons_self, fun h => absurd h (by simp)⟩
        · show ch.pendingTail = _
          rw [hok.tail, Nat.mod_add_mod, List.length_cons, Nat.add_assoc, Nat.add_comm w.length]
        · exact fun m hm => hok.owned m (List.mem_cons_of_mem _ hm)
      refine ⟨w, ⟨hok', rfl, ?_, fun val hval => ?_⟩, fun _ => Nat.lt_succ_self _⟩
      · have hnew := hok'.ids_perm
        simp only [hid] at hnew
        rw [List.filterMap_cons_some hid] at hids ⊢
        rw [hid]
        exact (Does.start c id _ _).congr hids hnew.symm
      · rw [hcur, hval {} (Nat.le_refl _), List.nil_append, List.flatMap_cons]

/-- Every round of `refresh_channel_locked` frees a finished segment and starts the next. -/
theorem refreshLoop_spec (c : Nat) {n : Nat} :
    ∀ {ch : Channel} {w : List Segment}, ChannelOk ch w → w.length < n →
      (∃ w', Refreshed c ch w (refreshLoop c n ch) w') ∧
        ((refreshLoop c n ch).result = true →
          (refreshLoop c n ch).channel.current.srcPos <
            (refreshLoop c n ch).channel.current.srcTotal) := by
  induction n with
  | zero => exact fun _ h => absurd h (Nat.not_lt_zero _)
  | succ n ih =>
    intro ch w hok hlt
    unfold refreshLoop
    split
    · rename_i hidle
      exact ⟨⟨w, hok, hidle, Does.refl c _ _, fun _ _ => rfl⟩, fun h => absurd h (by simp)⟩
    · rename_i hactive
      rw [Bool.not_eq_false] at hactive
      split
      · rename_i hpos
        exact ⟨⟨w, hok, hactive, Does.refl c _ _, fun _ _ => rfl⟩, fun _ => hpos⟩
      · -- The current segment is used up: it is freed, and the next one is tried.
        rename_i hdone
        have hring : RingOk { ch with current := {} } w :=
          ⟨hok.ring, hok.le, hok.count, hok.head, hok.tail, hok.owned⟩
        obtain ⟨id, hid⟩ := Option.isSome_iff_exists.mp (hok.current hactive).data
        have hids : ch.ids.Perm ([id] ++ { ch with current := {} : Channel }.ids) := by
          have hp := hok.ids_perm
          rw [hid] at hp
          exact hp.trans (hring.ids_perm.symm.cons id)
        have hfree : Does c ch.ids (w.filterMap Segment.data) ch.current.release
            { ch with current := {} : Channel }.ids (w.filterMap Segment.data) := by
          rw [show ch.current.release = [id].map .freed by simp [Segment.release, hid]]
          exact (Does.free c [id] _ _).congr hids (List.Perm.refl _)
        obtain ⟨w₁, hnext, hshort⟩ := activateNextSegment_spec c hring rfl
        have hdoes := hfree.trans hnext.does
        have hworth : ∀ {α : Type} (val : Segment → List α),
            (∀ s, s.srcTotal ≤ s.srcPos → val s = []) →
            val (activateNextSegment c { ch with current := {} }).channel.current ++
              w₁.flatMap val = val ch.current ++ w.flatMap val := by
          intro α val hval
          rw [hnext.worth val hval, hval ch.current (Nat.le_of_not_lt hdone)]
          rw [hval _ (Nat.le_refl _)]
        dsimp only
        by_cases hresult : (activateNextSegment c { ch with current := {} }).result = true
        · rw [if_pos hresult]
          obtain ⟨⟨w₂, hrest⟩, hpos⟩ := ih hnext.ok (by have := hshort hresult; omega)
          exact ⟨⟨w₂, hrest.ok, hrest.active, hdoes.trans hrest.does,
            fun val hval => (hrest.worth val hval).trans (hworth val hval)⟩, hpos⟩
        · rw [if_neg hresult]
          rw [Bool.not_eq_true] at hresult
          exact ⟨⟨w₁, hnext.ok, hnext.active.trans hresult, hdoes, hworth⟩,
            fun h => absurd h (by simp)⟩

/-- `refresh_channel_locked` keeps the channel well-formed. It returns whether the channel is
active, and then its current segment has samples left. -/
theorem refreshChannel_spec (c : Nat) {ch : Channel} {w : List Segment} (hok : ChannelOk ch w) :
    (∃ w', Refreshed c ch w (refreshChannel c ch) w') ∧
      ((refreshChannel c ch).result = true →
        (refreshChannel c ch).channel.current.srcPos <
          (refreshChannel c ch).channel.current.srcTotal) := by
  unfold refreshChannel
  split
  · rename_i hidle
    obtain ⟨hcur, hw⟩ := hok.idle hidle
    obtain ⟨w', hnext, hshort⟩ := activateNextSegment_spec c hok.toRingOk hcur
    refine ⟨⟨w', hnext⟩, fun h => ?_⟩
    -- An idle channel waits for nothing, so nothing is activated.
    have hlt := hshort h
    rw [hw] at hlt
    exact absurd hlt (Nat.not_lt_zero _)
  · exact refreshLoop_spec c hok (by rw [hok.count]; exact Nat.lt_succ_self _)

end VKernel.Proofs.Sound

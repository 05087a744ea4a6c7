import Mathlib.Algebra.Order.BigOperators.Group.List
import Mathlib.Data.List.Nodup
import Mathlib.Data.List.Perm.Subperm
import VKernel.Drivers.SoundAc97

/-!
# `VKernel.Proofs.Drivers.SoundAc97`: the AC'97 driver keeps its books

Whatever the controller says in its registers, it only decides how many descriptors leave the
queue at its head. `RingInv` is the invariant: it follows the queue as a list through
`releaseHeadBuffer_spec` and `enqueue_spec`, the only two operations that change it, and every
call of the driver is put together from these and the reset.
-/

set_option autoImplicit false

namespace VKernel.Proofs.Drivers

open VKernel VKernel.Lib VKernel.Drivers VKernel.Sound

/-- What the driver keeps between two steps. A buffer holds at most a quarter of its bytes as
frames, so the total fits in 32 bits. -/
structure RingInv (s : Ac97) : Prop where
  ready : s.bdlReady = true
  head : s.queueHeadDesc < BDL_COUNT
  tail : s.queueTailDesc = (s.queueHeadDesc + s.queueCount) % BDL_COUNT
  frames : s.queuedFrames = (s.queue.map s.descFrames).sum
  small : ∀ desc ∈ s.queue, s.descFrames desc ≤ DMA_BUFFER_SIZE / 4
  nodup : (s.queue.map s.descBuffer).Nodup
  range : ∀ desc ∈ s.queue, s.descBuffer desc < STREAM_BUFFER_COUNT
  inUse : ∀ slot < STREAM_BUFFER_COUNT,
    s.dmaInUse slot = true ↔ slot ∈ s.queue.map s.descBuffer

/-! ### The queue as a list -/

theorem length_queue (s : Ac97) : s.queue.length = s.queueCount := by
  unfold Ac97.queue
  rw [List.length_map, List.length_range]

/-- Fewer than the ring's slots are distinct slots. -/
theorem nodup_queue {s : Ac97} (hcount : s.queueCount ≤ BDL_COUNT) : s.queue.Nodup := by
  unfold Ac97.queue
  refine List.Nodup.map_on (fun i hi j hj heq => ?_) List.nodup_range
  have hi := List.mem_range.mp hi
  have hj := List.mem_range.mp hj
  unfold BDL_COUNT at heq hcount
  omega

/-- Two buffers, so at most two descriptors. -/
theorem RingInv.count {s : Ac97} (h : RingInv s) : s.queueCount ≤ STREAM_BUFFER_COUNT := by
  have hsub : s.queue.map s.descBuffer ⊆ List.range STREAM_BUFFER_COUNT := by
    intro slot hslot
    obtain ⟨desc, hdesc, rfl⟩ := List.mem_map.mp hslot
    exact List.mem_range.mpr (h.range desc hdesc)
  have hle := (List.Nodup.subperm h.nodup hsub).length_le
  rwa [List.length_map, length_queue, List.length_range] at hle

/-- The head of a queue that is not empty, and the rest. -/
theorem queue_cons {s : Ac97} {n : Nat} (hhead : s.queueHeadDesc < BDL_COUNT)
    (hcount : s.queueCount = n + 1) :
    s.queue = s.queueHeadDesc ::
      (List.range n).map fun k => ((s.queueHeadDesc + 1) % BDL_COUNT + k) % BDL_COUNT := by
  unfold Ac97.queue
  rw [hcount, List.range_succ_eq_map, List.map_cons, List.map_map, Nat.add_zero,
    Nat.mod_eq_of_lt hhead]
  refine congrArg _ (List.map_congr_left fun k _ => ?_)
  show (s.queueHeadDesc + (k + 1)) % BDL_COUNT = _
  unfold BDL_COUNT
  omega

/-- What `s.releaseHeadBuffer` leaves of the queue. -/
theorem queue_releaseHeadBuffer {s : Ac97} (hhead : s.queueHeadDesc < BDL_COUNT)
    (hpos : s.queueCount ≠ 0) :
    s.queue = s.queueHeadDesc :: s.releaseHeadBuffer.queue := by
  obtain ⟨n, hn⟩ := Nat.exists_eq_succ_of_ne_zero hpos
  rw [queue_cons hhead hn]
  unfold Ac97.releaseHeadBuffer Ac97.queue
  rw [if_neg hpos]
  simp only [hn, Nat.succ_eq_add_one, Nat.add_sub_cancel]

/-! ### The operations -/

theorem ringInv_reset {s : Ac97} (hready : s.bdlReady = true) : RingInv s.resetStreamState where
  ready := hready
  head := Nat.two_pow_pos 5
  tail := rfl
  frames := rfl
  small := fun _ h => absurd h List.not_mem_nil
  nodup := List.nodup_nil
  range := fun _ h => absurd h List.not_mem_nil
  inUse := by
    intro slot hslot
    have hfree : s.resetStreamState.dmaInUse slot = false := if_pos hslot
    rw [hfree]
    exact iff_of_false Bool.false_ne_true List.not_mem_nil

/-- Releasing the head of the queue. -/
theorem releaseHeadBuffer_spec {s : Ac97} (h : RingInv s) : RingInv s.releaseHeadBuffer := by
  by_cases hpos : s.queueCount = 0
  · rw [Ac97.releaseHeadBuffer, if_pos hpos]
    exact h
  · have hqueue := queue_releaseHeadBuffer h.head hpos
    have hcount := h.count
    have hnodup : s.queue.Nodup := nodup_queue (hcount.trans (by decide))
    have hrange := h.range
    have hsmall := h.small
    have hbuffers := h.nodup
    rw [hqueue] at hnodup hrange hsmall hbuffers
    obtain ⟨hout, hrest⟩ := List.nodup_cons.mp hnodup
    obtain ⟨hfresh, hbuffers⟩ := List.nodup_cons.mp hbuffers
    -- Behind the head nothing is written.
    have hne : ∀ desc ∈ s.releaseHeadBuffer.queue, desc ≠ s.queueHeadDesc := by
      rintro desc hdesc rfl
      exact hout hdesc
    have hframes : ∀ desc ∈ s.releaseHeadBuffer.queue,
        s.releaseHeadBuffer.descFrames desc = s.descFrames desc := by
      intro desc hdesc
      unfold Ac97.releaseHeadBuffer
      rw [if_neg hpos]
      exact Function.update_of_ne (hne desc hdesc) _ _
    have hbuffer : ∀ desc ∈ s.releaseHeadBuffer.queue,
        s.releaseHeadBuffer.descBuffer desc = s.descBuffer desc := by
      intro desc hdesc
      unfold Ac97.releaseHeadBuffer
      rw [if_neg hpos]
      exact Function.update_of_ne (hne desc hdesc) _ _
    have hmap : s.releaseHeadBuffer.queue.map s.releaseHeadBuffer.descBuffer
        = s.releaseHeadBuffer.queue.map s.descBuffer := List.map_congr_left hbuffer
    refine ⟨?_, ?_, ?_, ?_, ?_, ?_, ?_, ?_⟩
    · unfold Ac97.releaseHeadBuffer
      rw [if_neg hpos]
      exact h.ready
    · unfold Ac97.releaseHeadBuffer
      rw [if_neg hpos]
      exact Nat.mod_lt _ (by decide)
    · unfold Ac97.releaseHeadBuffer
      rw [if_neg hpos]
      show s.queueTailDesc = ((s.queueHeadDesc + 1) % BDL_COUNT + (s.queueCount - 1)) % BDL_COUNT
      rw [h.tail]
      unfold BDL_COUNT
      omega
    · have hsum := h.frames
      rw [hqueue, List.map_cons, List.sum_cons] at hsum
      rw [List.map_congr_left hframes]
      have hleft : s.releaseHeadBuffer.queuedFrames
          = s.queuedFrames - s.descFrames s.queueHeadDesc := by
        unfold Ac97.releaseHeadBuffer
        rw [if_neg hpos]
        exact if_pos (by omega)
      omega
    · intro desc hdesc
      rw [hframes desc hdesc]
      exact hsmall desc (List.mem_cons_of_mem _ hdesc)
    · rw [hmap]
      exact hbuffers
    · intro desc hdesc
      rw [hbuffer desc hdesc]
      exact hrange desc (List.mem_cons_of_mem _ hdesc)
    · intro slot hslot
      have huse := h.inUse slot hslot
      rw [hqueue, List.map_cons, List.mem_cons] at huse
      have hlt : s.descBuffer s.queueHeadDesc < STREAM_BUFFER_COUNT :=
        hrange _ List.mem_cons_self
      have hinUse : s.releaseHeadBuffer.dmaInUse
          = Function.update s.dmaInUse (s.descBuffer s.queueHeadDesc) false := by
        unfold Ac97.releaseHeadBuffer
        rw [if_neg hpos]
        exact if_pos hlt
      rw [hmap, hinUse]
      by_cases heq : slot = s.descBuffer s.queueHeadDesc
      · rw [heq, Function.update_self]
        exact iff_of_false Bool.false_ne_true hfresh
      · rw [Function.update_of_ne heq, huse]
        exact or_iff_right heq

/-- A loop of releases. -/
theorem ringInv_releaseWhile (more : Ac97 → Bool) :
    ∀ (n : Nat) {s : Ac97}, RingInv s → RingInv (Ac97.releaseWhile more n s) := by
  intro n
  induction n with
  | zero => exact fun h => h
  | succ n ih =>
    intro s h
    unfold Ac97.releaseWhile
    split
    · exact ih (releaseHeadBuffer_spec h)
    · exact h

/-- The rest of the state is no part of the books. -/
theorem RingInv.frame {s : Ac97} (h : RingInv s) (playing : Bool) (playEndTick sampleRate : Nat)
    (writes : List (Register × Nat)) (dmaBuf : Nat → Option (Nat → UInt8)) :
    RingInv { s with
      playing := playing, playEndTick := playEndTick, sampleRate := sampleRate
      writes := writes, dmaBuf := dmaBuf } :=
  ⟨h.ready, h.head, h.tail, h.frames, h.small, h.nodup, h.range, h.inUse⟩

theorem RingInv.write {s : Ac97} (h : RingInv s) (reg : Register) (val : Nat) :
    RingInv (s.write reg val) :=
  h.frame _ _ _ _ _

theorem updateWatchdog_eq (s : Ac97) (now : Nat) :
    ∃ tick, s.updateWatchdog now = { s with playEndTick := tick } := by
  unfold Ac97.updateWatchdog
  split
  · exact ⟨0, rfl⟩
  · exact ⟨_, rfl⟩

theorem RingInv.updateWatchdog {s : Ac97} (h : RingInv s) (now : Nat) :
    RingInv (s.updateWatchdog now) := by
  obtain ⟨tick, htick⟩ := updateWatchdog_eq s now
  rw [htick]
  exact h.frame _ _ _ _ _

/-- The books after `ac97_refresh_playback_state`, whatever the device says. -/
theorem refreshPlaybackState_spec {s : Ac97} (h : RingInv s) (r : Reads) :
    RingInv (s.refreshPlaybackState r) := by
  have hplayed : RingInv (s.releasePlayed r.civ) := ringInv_releaseWhile _ _ h
  have hcleared : RingInv (if r.sr &&& (SR_LVBCI ||| SR_BCIS ||| SR_FIFOE) ≠ 0
      then (s.releasePlayed r.civ).clearStatus else s.releasePlayed r.civ) := by
    split
    · exact hplayed.write _ _
    · exact hplayed
  have hrest : ∀ t : Ac97, RingInv t →
      RingInv (if r.sr &&& SR_FIFOE ≠ 0 ∨ r.sr &&& SR_DCH ≠ 0 then
          { t.releaseAll.write .cr 0 with playing := false, playEndTick := 0 }
        else if t.playEndTick ≠ 0 ∧ t.playEndTick ≤ r.now then t.resetChannel.resetStreamState
        else t.updateWatchdog r.rearm) := by
    intro t ht
    split
    · have hall : RingInv t.releaseAll := ringInv_releaseWhile _ _ ht
      exact hall.frame _ _ _ _ _
    · split
      · exact ringInv_reset (s := t.resetChannel) ht.ready
      · exact ht.updateWatchdog _
  unfold Ac97.refreshPlaybackState
  split
  · exact h
  · exact hrest _ hcleared

theorem playPrepare_spec {s : Ac97} (h : RingInv s) (r : Reads) : RingInv (s.playPrepare r) := by
  have hrefresh := refreshPlaybackState_spec h r
  unfold Ac97.playPrepare
  simp only
  split
  · exact (ringInv_reset (s := (s.refreshPlaybackState r).resetChannel) hrefresh.ready).write _ _
  · exact hrefresh

/-- A buffer that is acquired was free. -/
theorem acquireBufferSlot_some {s t : Ac97} {slot : Nat}
    (h : s.acquireBufferSlot = (some slot, t)) :
    slot < STREAM_BUFFER_COUNT ∧ s.dmaInUse slot = false ∧
      t = { s with dmaInUse := Function.update s.dmaInUse slot true } := by
  unfold Ac97.acquireBufferSlot at h
  split at h
  · rename_i found hfind
    obtain ⟨hslot, rfl⟩ := Prod.mk.inj h
    obtain rfl := Option.some.inj hslot
    have hfree := List.find?_some hfind
    exact ⟨List.mem_range.mp (List.mem_of_find?_eq_some hfind), by simpa using hfree, rfl⟩
  · exact absurd (Prod.mk.inj h).1.symm (Option.some_ne_none slot)

/-- A transfer is at most a quarter of the buffer in frames. -/
theorem fillBuffer_frames (samples : Nat → UInt8) (length : Nat) (fmt : SoundFormat)
    (old : Nat → UInt8) : (Ac97.fillBuffer samples length fmt old).2 / 2 ≤ DMA_BUFFER_SIZE / 4 := by
  have htransfer : (if DMA_BUFFER_SIZE < length then DMA_BUFFER_SIZE else length)
      ≤ DMA_BUFFER_SIZE := by
    by_cases hlong : DMA_BUFFER_SIZE < length
    · rw [if_pos hlong]
    · rw [if_neg hlong]
      exact Nat.not_lt.mp hlong
  have hsize : DMA_BUFFER_SIZE = 65536 := rfl
  cases fmt with
  | unsigned8 =>
    simp only [Ac97.fillBuffer]
    generalize (if DMA_BUFFER_SIZE < length then DMA_BUFFER_SIZE else length) = transfer
      at htransfer ⊢
    by_cases hclamp : DMA_BUFFER_SIZE < transfer * 4
    · rw [if_pos hclamp]
      omega
    · rw [if_neg hclamp]
      omega
  | signed16 | signed16Stereo =>
    simp only [Ac97.fillBuffer]
    generalize (if DMA_BUFFER_SIZE < length then DMA_BUFFER_SIZE else length) = transfer
      at htransfer ⊢
    omega

/-- What `enqueue` writes, as far as the books go. -/
theorem enqueue_eq (s : Ac97) (slot sampleCount now : Nat) :
    ∃ bdl playing playEndTick writes, s.enqueue slot sampleCount now = { s with
      bdl := bdl
      descBuffer := Function.update s.descBuffer s.queueTailDesc slot
      descFrames := Function.update s.descFrames s.queueTailDesc (sampleCount / 2)
      queuedFrames := (s.queuedFrames + sampleCount / 2) % 2 ^ 32
      queueHeadDesc := if s.queueCount = 0 then s.queueTailDesc else s.queueHeadDesc
      queueTailDesc := (s.queueTailDesc + 1) % BDL_COUNT
      queueCount := (s.queueCount + 1) % 2 ^ 8
      playing := playing, playEndTick := playEndTick, writes := writes } := by
  unfold Ac97.enqueue
  cases hplaying : s.playing with
  | true =>
    simp only [Ac97.write, Bool.not_true, Bool.false_eq_true, if_false]
    obtain ⟨tick, htick⟩ := updateWatchdog_eq _ now
    rw [htick]
    exact ⟨_, _, _, _, rfl⟩
  | false =>
    simp only [Ac97.write, Bool.not_false, if_true]
    obtain ⟨tick, htick⟩ := updateWatchdog_eq _ now
    rw [htick]
    exact ⟨_, _, _, _, rfl⟩

/-- Filling a free buffer and queueing it. -/
theorem enqueue_spec {s : Ac97} (h : RingInv s) {slot sampleCount : Nat}
    (hslot : slot < STREAM_BUFFER_COUNT) (hfree : s.dmaInUse slot = false)
    (hsmall : sampleCount / 2 ≤ DMA_BUFFER_SIZE / 4) (now : Nat) :
    RingInv ({ s with dmaInUse := Function.update s.dmaInUse slot true }.enqueue slot sampleCount
      now) := by
  obtain ⟨bdl, playing, playEndTick, writes, heq⟩ :=
    enqueue_eq { s with dmaInUse := Function.update s.dmaInUse slot true } slot sampleCount now
  have hcount := h.count
  unfold STREAM_BUFFER_COUNT at hcount
  rw [heq]
  -- An empty queue has its tail at its head, so the head stays where it is.
  have hhead : (if s.queueCount = 0 then s.queueTailDesc else s.queueHeadDesc)
      = s.queueHeadDesc := by
    split
    · rename_i h0
      rw [h.tail, h0, Nat.add_zero, Nat.mod_eq_of_lt h.head]
    · rfl
  have hlen : (s.queueCount + 1) % 2 ^ 8 = s.queueCount + 1 := Nat.mod_eq_of_lt (by omega)
  have hout : s.queueTailDesc ∉ s.queue := by
    intro hmem
    obtain ⟨k, hk, hkeq⟩ := List.mem_map.mp hmem
    have hk := List.mem_range.mp hk
    rw [h.tail] at hkeq
    unfold BDL_COUNT at hkeq
    omega
  have hnot : slot ∉ s.queue.map s.descBuffer := by
    rw [← h.inUse slot hslot, hfree]
    exact Bool.false_ne_true
  -- The descriptors that were queued keep what they hold.
  have hne : ∀ desc ∈ s.queue, desc ≠ s.queueTailDesc := by
    rintro desc hdesc rfl
    exact hout hdesc
  have hframes : s.queue.map (Function.update s.descFrames s.queueTailDesc (sampleCount / 2))
      = s.queue.map s.descFrames :=
    List.map_congr_left fun desc hdesc => Function.update_of_ne (hne desc hdesc) _ _
  have hbuffers : s.queue.map (Function.update s.descBuffer s.queueTailDesc slot)
      = s.queue.map s.descBuffer :=
    List.map_congr_left fun desc hdesc => Function.update_of_ne (hne desc hdesc) _ _
  have hbooks : RingInv { s with
      bdl := bdl
      dmaInUse := Function.update s.dmaInUse slot true
      descBuffer := Function.update s.descBuffer s.queueTailDesc slot
      descFrames := Function.update s.descFrames s.queueTailDesc (sampleCount / 2)
      queuedFrames := (s.queuedFrames + sampleCount / 2) % 2 ^ 32
      queueHeadDesc := s.queueHeadDesc
      queueTailDesc := (s.queueTailDesc + 1) % BDL_COUNT
      queueCount := s.queueCount + 1 } := by
    have hqueue : (List.range (s.queueCount + 1)).map (fun k => (s.queueHeadDesc + k) % BDL_COUNT)
        = s.queue ++ [s.queueTailDesc] := by
      rw [List.range_succ, List.map_append, List.map_singleton, h.tail]
      rfl
    have htotal : (s.queue.map s.descFrames).sum ≤ s.queueCount * (DMA_BUFFER_SIZE / 4) := by
      have hle : (s.queue.map s.descFrames).sum
          ≤ (s.queue.map s.descFrames).length * (DMA_BUFFER_SIZE / 4) :=
        List.sum_le_card_nsmul _ _ fun n hn => by
          obtain ⟨desc, hdesc, rfl⟩ := List.mem_map.mp hn
          exact h.small desc hdesc
      rwa [List.length_map, length_queue] at hle
    exact
      { ready := h.ready
        head := h.head
        tail := by
          show (s.queueTailDesc + 1) % BDL_COUNT
            = (s.queueHeadDesc + (s.queueCount + 1)) % BDL_COUNT
          rw [h.tail]
          unfold BDL_COUNT
          omega
        frames := by
          unfold Ac97.queue
          simp only
          rw [hqueue, List.map_append, hframes, List.sum_append, ← h.frames, List.map_singleton,
            List.sum_singleton, Function.update_self]
          refine Nat.mod_eq_of_lt ?_
          rw [← h.frames] at htotal
          have hsize : DMA_BUFFER_SIZE / 4 = 16384 := rfl
          rw [hsize] at htotal hsmall
          omega
        small := by
          intro desc hdesc
          unfold Ac97.queue at hdesc
          simp only at hdesc ⊢
          rw [hqueue, List.mem_append, List.mem_singleton] at hdesc
          rcases hdesc with hdesc | rfl
          · rw [Function.update_of_ne (hne desc hdesc)]
            exact h.small desc hdesc
          · rw [Function.update_self]
            exact hsmall
        nodup := by
          unfold Ac97.queue
          simp only
          rw [hqueue, List.map_append, hbuffers, List.map_singleton, Function.update_self]
          exact List.nodup_append.mpr ⟨h.nodup, List.nodup_singleton _, fun a ha b hb hab =>
            hnot (List.mem_singleton.mp hb ▸ hab ▸ ha)⟩
        range := by
          intro desc hdesc
          unfold Ac97.queue at hdesc
          simp only at hdesc ⊢
          rw [hqueue, List.mem_append, List.mem_singleton] at hdesc
          rcases hdesc with hdesc | rfl
          · rw [Function.update_of_ne (hne desc hdesc)]
            exact h.range desc hdesc
          · rw [Function.update_self]
            exact hslot
        inUse := by
          intro other hother
          unfold Ac97.queue
          simp only
          rw [hqueue, List.map_append, hbuffers, List.map_singleton, Function.update_self,
            List.mem_append, List.mem_singleton]
          by_cases hsame : other = slot
          · rw [hsame, Function.update_self]
            exact iff_of_true rfl (.inr rfl)
          · rw [Function.update_of_ne hsame, h.inUse other hother]
            exact (or_iff_left hsame).symm }
  have hfinal := hbooks.frame playing playEndTick s.sampleRate writes s.dmaBuf
  simp only [hhead, hlen]
  exact hfinal

/-! ### The calls -/

/-- Only `ac97_play` writes to a buffer. -/
theorem dmaBuf_releaseWhile (more : Ac97 → Bool) :
    ∀ (n : Nat) (s : Ac97), (Ac97.releaseWhile more n s).dmaBuf = s.dmaBuf := by
  intro n
  induction n with
  | zero => exact fun _ => rfl
  | succ n ih =>
    intro s
    unfold Ac97.releaseWhile
    split
    · rw [ih]
      unfold Ac97.releaseHeadBuffer
      split
      · rfl
      · rfl
    · rfl

theorem dmaBuf_refreshPlaybackState (s : Ac97) (r : Reads) :
    (s.refreshPlaybackState r).dmaBuf = s.dmaBuf := by
  have hcleared : (if r.sr &&& (SR_LVBCI ||| SR_BCIS ||| SR_FIFOE) ≠ 0
      then (s.releasePlayed r.civ).clearStatus else s.releasePlayed r.civ).dmaBuf = s.dmaBuf := by
    split
    · exact dmaBuf_releaseWhile _ _ s
    · exact dmaBuf_releaseWhile _ _ s
  have hrest : ∀ t : Ac97, t.dmaBuf = s.dmaBuf →
      Ac97.dmaBuf (if r.sr &&& SR_FIFOE ≠ 0 ∨ r.sr &&& SR_DCH ≠ 0 then
          { t.releaseAll.write .cr 0 with playing := false, playEndTick := 0 }
        else if t.playEndTick ≠ 0 ∧ t.playEndTick ≤ r.now then t.resetChannel.resetStreamState
        else t.updateWatchdog r.rearm) = s.dmaBuf := by
    intro t ht
    split
    · exact (dmaBuf_releaseWhile _ _ t).trans ht
    · split
      · exact ht
      · obtain ⟨tick, htick⟩ := updateWatchdog_eq t r.rearm
        rw [htick]
        exact ht
  unfold Ac97.refreshPlaybackState
  split
  · rfl
  · exact hrest _ hcleared

theorem dmaBuf_playPrepare (s : Ac97) (r : Reads) : (s.playPrepare r).dmaBuf = s.dmaBuf := by
  have hrefresh := dmaBuf_refreshPlaybackState s r
  unfold Ac97.playPrepare
  generalize s.refreshPlaybackState r = t at hrefresh
  simp only
  split
  · exact hrefresh
  · exact hrefresh

/-- A `play` keeps the books, and it writes to no buffer or to one that was free. -/
theorem play_spec {s : Ac97} (h : RingInv s) (samples : Nat → UInt8) (length : Nat)
    (fmt : SoundFormat) (r : Reads) (now : Nat) :
    RingInv (s.play samples length fmt r now).2 ∧
      ∀ slot, (s.play samples length fmt r now).2.dmaBuf slot ≠ s.dmaBuf slot →
        slot < STREAM_BUFFER_COUNT ∧ (s.playPrepare r).dmaInUse slot = false := by
  have hprep := playPrepare_spec h r
  have hbuf := dmaBuf_playPrepare s r
  unfold Ac97.play
  generalize s.playPrepare r = t at hprep hbuf ⊢
  have hsame : ∀ slot, t.dmaBuf slot ≠ s.dmaBuf slot →
      slot < STREAM_BUFFER_COUNT ∧ t.dmaInUse slot = false :=
    fun slot hne => absurd (congrFun hbuf slot) hne
  split
  · exact ⟨h, fun _ hne => absurd rfl hne⟩
  · simp only
    split
    · exact ⟨hprep, hsame⟩
    · split
      · -- No buffer is free.
        rename_i u hacquire
        have hu : u = t := by
          unfold Ac97.acquireBufferSlot at hacquire
          split at hacquire
          · exact absurd (Prod.mk.inj hacquire).1 (Option.some_ne_none _)
          · exact (Prod.mk.inj hacquire).2.symm
        rw [hu]
        exact ⟨hprep, hsame⟩
      · rename_i slot u hacquire
        obtain ⟨hslot, hfree, rfl⟩ := acquireBufferSlot_some hacquire
        simp only
        split
        · -- The buffer was never allocated, and is given back.
          have hback : Function.update (Function.update t.dmaInUse slot true) slot false
              = t.dmaInUse := by
            rw [Function.update_idem, ← hfree, Function.update_eq_self]
          simp only [hback]
          exact ⟨hprep, hsame⟩
        · rename_i old hold
          have hout := fillBuffer_frames samples length fmt old
          generalize Ac97.fillBuffer samples length fmt old = out at hout ⊢
          -- The copy and the rate register are no part of the books.
          have hfilled := hprep.frame t.playing t.playEndTick t.sampleRate
            (t.writes ++ [(.pcmFrontRate, t.sampleRate % 2 ^ 16)])
            (Function.update t.dmaBuf slot (some out.1))
          refine ⟨enqueue_spec hfilled hslot hfree hout now, fun other hne => ?_⟩
          by_cases hother : other = slot
          · rw [hother]
            exact ⟨hslot, hfree⟩
          · refine hsame other fun heq => hne ?_
            rw [← heq]
            obtain ⟨bdl, playing, playEndTick, writes, hqueued⟩ := enqueue_eq
              { ({ t with dmaInUse := Function.update t.dmaInUse slot true }.write .pcmFrontRate
                  (t.sampleRate % 2 ^ 16)) with
                dmaBuf := Function.update t.dmaBuf slot (some out.1) } slot out.2 now
            exact (congrFun (congrArg Ac97.dmaBuf hqueued) other).trans
              (Function.update_of_ne hother _ _)

/-- Every call keeps the books. -/
theorem ringInv_next {s : Ac97} (h : RingInv s) (op : Ac97Op) : RingInv (s.next op) := by
  cases op with
  | play samples length fmt r now => exact (play_spec h samples length fmt r now).1
  | stop => exact ringInv_reset (s := (s.write .cr 0).clearStatus) h.ready
  | isPlaying r => exact refreshPlaybackState_spec h r
  | bufferedFrames r => exact refreshPlaybackState_spec h r
  | setSampleRate rateHz actual =>
    simp only [Ac97.next, Ac97.setSampleRate]
    split
    · exact h
    · simp only
      split
      · exact h.frame _ _ _ _ _
      · exact h.frame _ _ _ _ _

theorem ringInv_of_reachable {s : Ac97} (hs : ac97System.Reachable s) : RingInv s := by
  refine hs.invariant (fun s hinit => ?_) (fun s op t _ h hstep => ?_)
  · obtain ⟨s₀, hready, rfl⟩ := hinit
    exact ringInv_reset hready
  · obtain rfl := Option.some.inj hstep
    exact ringInv_next h op

/-- The books in the words of the driver's variables. -/
theorem RingInv.accounted {s : Ac97} (h : RingInv s) : s.Accounted where
  ring := ⟨h.head, h.count.trans (by decide), h.tail⟩
  frames := h.frames
  owned := by
    intro slot hslot huse
    obtain ⟨desc, hdesc, hbuffer⟩ := List.mem_map.mp ((h.inUse slot hslot).mp huse)
    refine ⟨desc, ⟨hdesc, hbuffer⟩, fun other hother => ?_⟩
    exact List.inj_on_of_nodup_map h.nodup hother.1 hdesc (hother.2.trans hbuffer.symm)
  used desc hdesc := ⟨h.range desc hdesc,
    (h.inUse _ (h.range desc hdesc)).mpr (List.mem_map_of_mem hdesc)⟩
  free := by
    intro slot hslot hnone
    cases huse : s.dmaInUse slot with
    | false => rfl
    | true =>
      obtain ⟨desc, hdesc, hbuffer⟩ := List.mem_map.mp ((h.inUse slot hslot).mp huse)
      exact absurd hbuffer (hnone desc hdesc)

/-- After every sequence of calls, whatever the device answers, the books of the queue are
right, and a further `play` writes only to a buffer to which no descriptor of the queue refers
when it does. -/
theorem ac97_queue_accounting (s : Ac97) (hs : ac97System.Reachable s) :
    s.Accounted ∧
      ∀ samples length fmt r now slot,
        (s.play samples length fmt r now).2.dmaBuf slot ≠ s.dmaBuf slot →
          ∀ desc ∈ (s.playPrepare r).queue, (s.playPrepare r).descBuffer desc ≠ slot := by
  have hinv := ringInv_of_reachable hs
  refine ⟨hinv.accounted, fun samples length fmt r now slot hne desc hdesc hbuffer => ?_⟩
  obtain ⟨hslot, hfree⟩ := (play_spec hinv samples length fmt r now).2 slot hne
  have huse := ((playPrepare_spec hinv r).inUse slot hslot).mpr
    (List.mem_map.mpr ⟨desc, hdesc, hbuffer⟩)
  exact Bool.false_ne_true (hfree.symm.trans huse)

/-- The driver behind `ac97_init`, with zeroed buffers. -/
def idleAc97 : Ac97 :=
  { bdlReady := true, bdlPhys := 0x1000, bdl := fun _ => Bd.zero
    dmaBuf := fun _ => some fun _ => 0, dmaPhys := fun slot => 0x10000 * (slot + 1)
    dmaInUse := fun _ => false, descBuffer := fun _ => 0, descFrames := fun _ => 0
    sampleRate := 48000, playing := false, playEndTick := 0, queuedFrames := 0
    queueHeadDesc := 0, queueTailDesc := 0, queueCount := 0, writes := [] : Ac97 }.resetStreamState

/-- Two sounds, one behind the other. -/
theorem ac97_queue_accounting_two_plays :
    ((idleAc97.next (.play (fun _ => 1) 8 .signed16 ⟨0, 0, 0, 0⟩ 0)).next
      (.play (fun _ => 1) 8 .signed16 ⟨0, 0, 0, 0⟩ 0)).Accounted := by
  have hinit : ac97System.Reachable idleAc97 := .init ⟨_, rfl, rfl⟩
  exact (ac97_queue_accounting _ (.step (l := .play (fun _ => 1) 8 .signed16 ⟨0, 0, 0, 0⟩ 0)
    (.step (l := .play (fun _ => 1) 8 .signed16 ⟨0, 0, 0, 0⟩ 0) hinit rfl) rfl)).1

/-- Two buffers of two frames each are queued, and both are in use. -/
example : (fun s : Ac97 => (s.queue, s.queuedFrames, s.dmaInUse 0, s.dmaInUse 1))
    ((idleAc97.next (.play (fun _ => 1) 8 .signed16 ⟨0, 0, 0, 0⟩ 0)).next
      (.play (fun _ => 1) 8 .signed16 ⟨0, 0, 0, 0⟩ 0)) = ([0, 1], 4, true, true) := by
  with_unfolding_all decide

end VKernel.Proofs.Drivers

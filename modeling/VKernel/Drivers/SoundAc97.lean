import Mathlib.Logic.Function.Basic
import VKernel.Lib.Transition
import VKernel.Sched.Sleep
import VKernel.Sound.Mixer

/-!
# `VKernel.Drivers.SoundAc97`: the playback queue of the AC'97 driver

The driver owns two DMA buffers and a ring of 32 buffer descriptors. `ac97_play` copies its
samples into a free buffer and puts a descriptor behind the queue; the controller plays the
queue in order and says in its registers how far it is. `ac97_refresh_playback_state` takes
that over at the start of every call: the descriptors in front of the current index are done,
and on an error, a halt or a late end of the playback the whole queue is dropped.

What the driver reads from the controller and from the clock during a call is an argument,
`Reads`: the device may answer anything. What it writes to the registers is kept in `writes`.
-/

set_option autoImplicit false

namespace VKernel.Drivers

open VKernel VKernel.Lib VKernel.Sound VKernel.Sched

/-- `STREAM_BUFFER_COUNT`. -/
def STREAM_BUFFER_COUNT : Nat := 2

/-- `BDL_COUNT`. -/
def BDL_COUNT : Nat := 32

/-- `DMA_BUFFER_SIZE`. -/
def DMA_BUFFER_SIZE : Nat := 65536

/-- `PLAYBACK_WATCHDOG_SLACK_TICKS`. -/
def PLAYBACK_WATCHDOG_SLACK_TICKS : Nat := 2

/-- `INVALID_BUFFER_SLOT`. -/
def INVALID_BUFFER_SLOT : Nat := 0xFF

/-- `CR_RPBM`. -/
def CR_RPBM : Nat := 0x01

/-- `CR_RR`. -/
def CR_RR : Nat := 0x02

/-- `CR_LVBIE`. -/
def CR_LVBIE : Nat := 0x04

/-- `CR_IOCE`. -/
def CR_IOCE : Nat := 0x10

/-- `SR_DCH`. -/
def SR_DCH : Nat := 0x01

/-- `SR_LVBCI`. -/
def SR_LVBCI : Nat := 0x04

/-- `SR_BCIS`. -/
def SR_BCIS : Nat := 0x08

/-- `SR_FIFOE`. -/
def SR_FIFOE : Nat := 0x10

/-- `BD_IOC`. -/
def BD_IOC : Nat := 0x4000

/-- `BD_BUP`. -/
def BD_BUP : Nat := 0x8000

/-- The registers that the driver writes: those of the PCM-out channel and the sample rate of
the mixer. -/
inductive Register
  | bdbar | lvi | sr | cr | pcmFrontRate
  deriving DecidableEq, Repr

/-- `ac97_bd`. -/
structure Bd where
  addr : Nat
  length : Nat
  flags : Nat
  deriving DecidableEq, Repr

/-- A descriptor that is not in use. -/
def Bd.zero : Bd := ⟨0, 0, 0⟩

/-- The driver state of `sound_ac97.cpp`. A DMA buffer that was not allocated is `none`. -/
structure Ac97 where
  /-- `s_bdl` is not null. -/
  bdlReady : Bool
  bdlPhys : Nat
  bdl : Nat → Bd
  dmaBuf : Nat → Option (Nat → UInt8)
  dmaPhys : Nat → Nat
  dmaInUse : Nat → Bool
  descBuffer : Nat → Nat
  descFrames : Nat → Nat
  sampleRate : Nat
  playing : Bool
  playEndTick : Nat
  queuedFrames : Nat
  queueHeadDesc : Nat
  queueTailDesc : Nat
  queueCount : Nat
  writes : List (Register × Nat)

/-- What the driver reads in one `ac97_refresh_playback_state`: the status and the current index
of the controller, and the tick count at the test of the watchdog and when it is set again. -/
structure Reads where
  sr : Nat
  civ : Nat
  now : Nat
  rearm : Nat
  deriving DecidableEq, Repr

namespace Ac97

/-- A write to a register. -/
def write (s : Ac97) (reg : Register) (val : Nat) : Ac97 :=
  { s with writes := s.writes ++ [(reg, val)] }

/-- `ac97_clear_status`. -/
def clearStatus (s : Ac97) : Ac97 := s.write .sr (SR_LVBCI ||| SR_BCIS ||| SR_FIFOE)

/-- `ac97_reset_channel`. -/
def resetChannel (s : Ac97) : Ac97 := ((s.write .cr CR_RR).write .cr 0).clearStatus

/-- `ac97_reset_stream_state`. Without a descriptor list there are no entries to clear. -/
def resetStreamState (s : Ac97) : Ac97 :=
  { s with
    playing := false
    playEndTick := 0
    queuedFrames := 0
    queueHeadDesc := 0
    queueTailDesc := 0
    queueCount := 0
    bdl := fun i => if s.bdlReady ∧ i < BDL_COUNT then Bd.zero else s.bdl i
    descBuffer := fun i =>
      if s.bdlReady ∧ i < BDL_COUNT then INVALID_BUFFER_SLOT else s.descBuffer i
    descFrames := fun i => if s.bdlReady ∧ i < BDL_COUNT then 0 else s.descFrames i
    dmaInUse := fun slot => if slot < STREAM_BUFFER_COUNT then false else s.dmaInUse slot }

/-- `ac97_acquire_buffer_slot`. `none` is the result -1. -/
def acquireBufferSlot (s : Ac97) : Option Nat × Ac97 :=
  match (List.range STREAM_BUFFER_COUNT).find? fun slot => !s.dmaInUse slot with
  | some slot => (some slot, { s with dmaInUse := Function.update s.dmaInUse slot true })
  | none => (none, s)

/-- `ac97_update_watchdog` at tick `now`. -/
def updateWatchdog (s : Ac97) (now : Nat) : Ac97 :=
  if !s.playing ∨ s.queuedFrames = 0 ∨ s.sampleRate = 0 then { s with playEndTick := 0 }
  else
    let durTicks := (s.queuedFrames * SCHED_TICK_HZ + s.sampleRate - 1) / s.sampleRate
    { s with
      playEndTick :=
        add64 (add64 now (if durTicks < 1 then 1 else durTicks)) PLAYBACK_WATCHDOG_SLACK_TICKS }

/-- `ac97_release_head_buffer`. -/
def releaseHeadBuffer (s : Ac97) : Ac97 :=
  if s.queueCount = 0 then s
  else
    let desc := s.queueHeadDesc
    let slot := s.descBuffer desc
    { s with
      dmaInUse :=
        if slot < STREAM_BUFFER_COUNT then Function.update s.dmaInUse slot false else s.dmaInUse
      queuedFrames :=
        if s.descFrames desc ≤ s.queuedFrames then s.queuedFrames - s.descFrames desc else 0
      descFrames := Function.update s.descFrames desc 0
      descBuffer := Function.update s.descBuffer desc INVALID_BUFFER_SLOT
      bdl := Function.update s.bdl desc Bd.zero
      queueHeadDesc := (s.queueHeadDesc + 1) % BDL_COUNT
      queueCount := s.queueCount - 1 }

/-- A loop of `ac97_release_head_buffer`, for at most `n` rounds. Each round takes one descriptor
out of the queue, so `s_queue_count` rounds are enough. -/
def releaseWhile (more : Ac97 → Bool) : Nat → Ac97 → Ac97
  | 0, s => s
  | n + 1, s => if more s then releaseWhile more n s.releaseHeadBuffer else s

/-- The descriptors that the controller has passed. The last one stays. -/
def releasePlayed (s : Ac97) (civ : Nat) : Ac97 :=
  releaseWhile (fun s => 1 < s.queueCount && s.queueHeadDesc != civ) s.queueCount s

/-- All descriptors. -/
def releaseAll (s : Ac97) : Ac97 := releaseWhile (fun s => 0 < s.queueCount) s.queueCount s

/-- `ac97_refresh_playback_state`. -/
def refreshPlaybackState (s : Ac97) (r : Reads) : Ac97 :=
  if !s.playing then s
  else
    let s := s.releasePlayed r.civ
    let s := if r.sr &&& (SR_LVBCI ||| SR_BCIS ||| SR_FIFOE) ≠ 0 then s.clearStatus else s
    if r.sr &&& SR_FIFOE ≠ 0 ∨ r.sr &&& SR_DCH ≠ 0 then
      { s.releaseAll.write .cr 0 with playing := false, playEndTick := 0 }
    else if s.playEndTick ≠ 0 ∧ s.playEndTick ≤ r.now then s.resetChannel.resetStreamState
    else s.updateWatchdog r.rearm

/-- `ac97_set_sample_rate`, with the rate that the codec reports back. -/
def setSampleRate (s : Ac97) (rateHz actual : Nat) : Bool × Ac97 :=
  if rateHz < 8000 ∨ 48000 < rateHz then (false, s)
  else
    let s := { s with sampleRate := rateHz }.write .pcmFrontRate (rateHz % 2 ^ 16)
    (true, if actual ≠ rateHz % 2 ^ 16 then { s with sampleRate := actual } else s)

/-- The part of `ac97_play` before a buffer is looked for: an idle stream starts over. -/
def playPrepare (s : Ac97) (r : Reads) : Ac97 :=
  let s := s.refreshPlaybackState r
  if !s.playing then s.resetChannel.resetStreamState.write .bdbar s.bdlPhys else s

/-- What `ac97_play` puts into a buffer of contents `old`, with `sample_count`. Unsigned bytes
become stereo frames of two little-endian 16-bit samples, the sample less 128 in the high
byte. -/
def fillBuffer (samples : Nat → UInt8) (length : Nat) (fmt : SoundFormat) (old : Nat → UInt8) :
    (Nat → UInt8) × Nat :=
  let transfer := if DMA_BUFFER_SIZE < length then DMA_BUFFER_SIZE else length
  match fmt with
  | .unsigned8 =>
    let numFrames := if DMA_BUFFER_SIZE < transfer * 4 then DMA_BUFFER_SIZE / 4 else transfer
    (fun j => if j < numFrames * 4 then if j % 2 = 0 then 0 else samples (j / 4) - 128 else old j,
      numFrames * 2)
  | .signed16 | .signed16Stereo =>
    (fun j => if j < transfer then samples j else old j, transfer / 2)

/-- The end of `ac97_play`: the descriptor for `sampleCount` samples in buffer `slot`. -/
def enqueue (s : Ac97) (slot sampleCount now : Nat) : Ac97 :=
  let desc := s.queueTailDesc
  let s := { s with
    bdl := Function.update s.bdl desc ⟨s.dmaPhys slot, sampleCount % 2 ^ 16, BD_IOC ||| BD_BUP⟩
    descBuffer := Function.update s.descBuffer desc slot
    descFrames := Function.update s.descFrames desc (sampleCount / 2)
    queuedFrames := (s.queuedFrames + sampleCount / 2) % 2 ^ 32
    queueHeadDesc := if s.queueCount = 0 then desc else s.queueHeadDesc
    queueTailDesc := (desc + 1) % BDL_COUNT
    queueCount := (s.queueCount + 1) % 2 ^ 8 }
  let s := s.write .lvi desc
  let s := if !s.playing then
      { s.write .cr (CR_RPBM ||| CR_LVBIE ||| CR_IOCE) with playing := true }
    else s
  s.updateWatchdog now

/-- `ac97_play`. `now` is the tick count when the watchdog is set at its end. -/
def play (s : Ac97) (samples : Nat → UInt8) (length : Nat) (fmt : SoundFormat) (r : Reads)
    (now : Nat) : Bool × Ac97 :=
  if !s.bdlReady ∨ length = 0 then (false, s)
  else
    let s := s.playPrepare r
    if BDL_COUNT ≤ s.queueCount then (false, s)
    else
      match s.acquireBufferSlot with
      | (none, s) => (false, s)
      | (some slot, s) =>
        match s.dmaBuf slot with
        | none => (false, { s with dmaInUse := Function.update s.dmaInUse slot false })
        | some old =>
          let s := s.write .pcmFrontRate (s.sampleRate % 2 ^ 16)
          let out := fillBuffer samples length fmt old
          let s := { s with dmaBuf := Function.update s.dmaBuf slot (some out.1) }
          (true, s.enqueue slot out.2 now)

/-- `ac97_stop`. -/
def stop (s : Ac97) : Ac97 := (s.write .cr 0).clearStatus.resetStreamState

/-- `ac97_is_playing`. -/
def isPlaying (s : Ac97) (r : Reads) : Bool × Ac97 :=
  let s := s.refreshPlaybackState r
  (s.playing, s)

/-- `ac97_buffered_frames`. -/
def bufferedFrames (s : Ac97) (r : Reads) : Nat × Ac97 :=
  let s := s.refreshPlaybackState r
  (s.queuedFrames, s)

end Ac97

/-- The calls of the driver, each with what it reads. -/
inductive Ac97Op
  | play (samples : Nat → UInt8) (length : Nat) (fmt : SoundFormat) (r : Reads) (now : Nat)
  | stop
  | isPlaying (r : Reads)
  | bufferedFrames (r : Reads)
  | setSampleRate (rateHz actual : Nat)

/-- One call. -/
def Ac97.next (s : Ac97) : Ac97Op → Ac97
  | .play samples length fmt r now => (s.play samples length fmt r now).2
  | .stop => s.stop
  | .isPlaying r => (s.isPlaying r).2
  | .bufferedFrames r => (s.bufferedFrames r).2
  | .setSampleRate rateHz actual => (s.setSampleRate rateHz actual).2

/-- Every sequence of calls after `ac97_init`, which ends with `ac97_reset_stream_state`. -/
def ac97System : TransitionSystem Ac97 Ac97Op :=
  TransitionSystem.ofFun (fun s => ∃ s₀ : Ac97, s₀.bdlReady = true ∧ s = s₀.resetStreamState)
    fun s op => some (s.next op)

/-- The descriptors of the queue: `s_queue_count` consecutive ring slots from the head on. -/
def Ac97.queue (s : Ac97) : List Nat :=
  (List.range s.queueCount).map fun k => (s.queueHeadDesc + k) % BDL_COUNT

/-- The books of the queue. -/
structure Ac97.Accounted (s : Ac97) : Prop where
  /-- The queue lies in the ring and ends in front of the tail. -/
  ring : s.queueHeadDesc < BDL_COUNT ∧ s.queueCount ≤ BDL_COUNT ∧
    s.queueTailDesc = (s.queueHeadDesc + s.queueCount) % BDL_COUNT
  /-- `s_queued_frames` is what the queue holds. -/
  frames : s.queuedFrames = (s.queue.map s.descFrames).sum
  /-- A buffer in use belongs to exactly one descriptor of the queue. -/
  owned : ∀ slot < STREAM_BUFFER_COUNT, s.dmaInUse slot = true →
    ∃! desc, desc ∈ s.queue ∧ s.descBuffer desc = slot
  /-- A descriptor of the queue refers to a buffer in use. -/
  used : ∀ desc ∈ s.queue, s.descBuffer desc < STREAM_BUFFER_COUNT ∧
    s.dmaInUse (s.descBuffer desc) = true
  /-- A buffer that no descriptor of the queue refers to is free. -/
  free : ∀ slot < STREAM_BUFFER_COUNT, (∀ desc ∈ s.queue, s.descBuffer desc ≠ slot) →
    s.dmaInUse slot = false

end VKernel.Drivers

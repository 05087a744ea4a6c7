import Mathlib.Algebra.Group.Prod
import VKernel.Sound.Mixer

/-!
# `VKernel.Sound.Resampling`: what the mixer is meant to play

The meaning of a set of channels, apart from how it is cut into windows. A segment plays its
source units at the output rate, frame `n` being the unit `n * rate / 48000` from its position
(`Segment.resampled`). A channel plays its current segment and then the waiting ones
(`Channel.stream`). The mixer plays the saturated sum of its channels (`saturatedSum`).
-/

set_option autoImplicit false

namespace VKernel.Sound

/-- The output frames that the rest of a segment fills, rounded up. -/
def Segment.frames (seg : Segment) : Nat :=
  ((seg.srcTotal - seg.srcPos) * MIX_OUTPUT_RATE + seg.sampleRate - 1) / seg.sampleRate

/-- The contents of a segment's copy. -/
def Segment.bytesIn (copies : List (List UInt8)) (seg : Segment) : List UInt8 :=
  (seg.data.bind fun id => copies[id]?).getD []

/-- The rest of a segment at the output rate, scaled by its volumes. -/
def Segment.resampled (copies : List (List UInt8)) (seg : Segment) : List Frame :=
  (List.range seg.frames).map fun n =>
    seg.scaledAt (seg.bytesIn copies) (seg.srcPos + n * seg.sampleRate / MIX_OUTPUT_RATE)

/-- The segments in the window of the ring, oldest first. -/
def Channel.waiting (ch : Channel) : List Segment :=
  (ch.pending.rotate ch.pendingHead).take ch.pendingCount

/-- What a channel still has to play: its segments back to back. -/
def Channel.stream (copies : List (List UInt8)) (ch : Channel) : List Frame :=
  ch.current.resampled copies ++ ch.waiting.flatMap (Segment.resampled copies)

/-- A frame clamped to 16 bits. -/
def clampFrame (f : Frame) : Frame := (clamp16 f.1, clamp16 f.2)

/-- The length of the longest stream. -/
def longest (streams : List (List Frame)) : Nat := (streams.map List.length).foldr max 0

/-- The saturated sum of streams: a stream that has ended adds nothing. -/
def saturatedSum (streams : List (List Frame)) : List Frame :=
  (List.range (longest streams)).map fun n =>
    clampFrame (streams.map fun s => s.getD n (0, 0)).sum

variable {σ : Type}

/-- What the channels of a mixer still have to play. -/
def Mixer.streams (m : Mixer σ) : List (List Frame) :=
  (List.range MIX_CHANNELS).map fun c => (m.channel c).stream m.copies

/-- An always-accepting driver, with a record of the frames it was given. -/
def recording (drv : Driver σ) : Driver (σ × List Frame) where
  play s window := (true, (drv.play s.1 window).2, s.2 ++ window)
  stop s := (drv.stop s.1, s.2)
  setSampleRate s rate := (drv.setSampleRate s.1 rate, s.2)
  shutdown s := (drv.shutdown s.1, s.2)
  isPlaying := drv.isPlaying.map fun ask s => ((ask s.1).1, (ask s.1).2, s.2)
  bufferedFrames := drv.bufferedFrames.map fun ask s => ((ask s.1).1, (ask s.1).2, s.2)

end VKernel.Sound

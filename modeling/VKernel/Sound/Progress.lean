import VKernel.Sound.Resampling
import VKernel.Lib.Transition

/-!
# `VKernel.Sound.Progress`: sounds that come to their end

The channels of the mixer are queues of segments (`Mixer.sounds`). A submission is to get on
with what is at the front of them (`SubmitProgresses`), and then every sound comes to its end: it
waits for `unitsUntil` source units, and each submission takes one of them at least.

The window of a submission has at most `MIX_WINDOW_FRAMES` frames, and its length and the way
that a segment advances in it are rounded down to whole frames and units. A sound that is so
slow that a whole window is less than one of its units never advances, and the length of one
with `2 ^ 32` frames or more is cut. `PlayArgs.Playable` leaves both out.

`mixerSystem` is the mixer under every sequence of calls. Submissions are made by `mix_update`,
and also on their own here, with the device in any state: so each submission inside of a
`mix_update` starts in a state of the system. `counting` counts those that succeed.
-/

set_option autoImplicit false

namespace VKernel.Sound

open VKernel.Lib

variable {σ : Type}

/-- The source units that a segment has left. -/
def Segment.left (seg : Segment) : Nat := seg.srcTotal - seg.srcPos

/-- The segments of a channel, the current one first. -/
def Channel.segments (ch : Channel) : List Segment :=
  (if ch.active then [ch.current] else []) ++ ch.waiting

/-- The segments on channel `c`. -/
def Mixer.sounds (m : Mixer σ) (c : Nat) : List Segment := (m.channel c).segments

/-- The sound with the heap copy `id` is on channel `c`. -/
def Mixer.Holds (m : Mixer σ) (c id : Nat) : Prop := ∃ seg ∈ m.sounds c, seg.data = some id

/-- The source units up to the end of the last segment with the copy `id`. -/
def unitsUntil (id : Nat) : List Segment → Nat
  | [] => 0
  | seg :: rest =>
    if ∃ s ∈ seg :: rest, s.data = some id then seg.left + unitsUntil id rest else 0

/-- What channel `c` asks of the next window. -/
def Mixer.demand (m : Mixer σ) (c : Nat) : Nat :=
  if (m.channel c).active then (m.channel c).current.remainingFrames else 0

/-- The length of the next window: the longest rest of a channel, capped. -/
def Mixer.window (m : Mixer σ) : Nat :=
  min (((List.range MIX_CHANNELS).map m.demand).foldr max 0) MIX_WINDOW_FRAMES

/-- A segment with units left that every window gets on with: a whole window is at least one
unit, and its frames are counted in 32 bits. -/
structure Segment.Playable (seg : Segment) : Prop where
  left : seg.srcPos < seg.srcTotal
  rate : MIX_OUTPUT_RATE ≤ MIX_WINDOW_FRAMES * seg.sampleRate
  frames : seg.frames < U32

/-- The same of a call: its rate is at least 3, and its length is less than `2 ^ 32` frames. -/
def PlayArgs.Playable (a : PlayArgs) : Prop :=
  MIX_OUTPUT_RATE ≤ MIX_WINDOW_FRAMES * a.sampleRate.toNat ∧
    a.srcSamples.toNat * MIX_OUTPUT_RATE ≤ (U32 - 1) * a.sampleRate.toNat

instance (a : PlayArgs) : Decidable a.Playable := inferInstanceAs (Decidable (_ ∧ _))

/-- The driver takes every window. -/
def Driver.Accepting (drv : Driver σ) : Prop := ∀ s window, (drv.play s window).1 = true

/-- What a submission is to do: one that succeeds finishes the first segment of a channel or
advances it, and with a driver that takes every window one fails only when no channel is
active. -/
structure SubmitProgresses (drv : Driver σ) (m : Mixer σ) : Prop where
  advances : (m.doSubmit drv).1 = true → ∃ c < MIX_CHANNELS, ∃ seg rest,
    m.sounds c = seg :: rest ∧
      ((m.doSubmit drv).2.sounds c = rest ∨
        ∃ n > 0, (m.doSubmit drv).2.sounds c = { seg with srcPos := seg.srcPos + n } :: rest)
  idle : drv.Accepting → m.driverSet = true → m.initialised = true →
    (m.doSubmit drv).1 = false → ∀ c < MIX_CHANNELS, (m.channel c).active = false

/-- A driver with a count of the windows that it took. -/
def counting (drv : Driver σ) : Driver (σ × Nat) where
  play s window :=
    ((drv.play s.1 window).1, (drv.play s.1 window).2,
      if (drv.play s.1 window).1 then s.2 + 1 else s.2)
  stop s := (drv.stop s.1, s.2)
  setSampleRate s rate := (drv.setSampleRate s.1 rate, s.2)
  shutdown s := (drv.shutdown s.1, s.2)
  isPlaying := drv.isPlaying.map fun ask s => ((ask s.1).1, (ask s.1).2, s.2)
  bufferedFrames := drv.bufferedFrames.map fun ask s => ((ask s.1).1, (ask s.1).2, s.2)

/-- The mixer with the device in another state. The count stays. -/
def Mixer.deviceIn (m : Mixer (σ × Nat)) (d : σ) : Mixer (σ × Nat) :=
  { m with device := (d, m.device.2) }

/-- The steps of a run: a call, or a submission with the device in some state. -/
inductive MixerStep (σ : Type)
  | call (op : MixOp)
  | submit (device : σ)

/-- One step. -/
def Mixer.stepped (drv : Driver σ) (m : Mixer (σ × Nat)) : MixerStep σ → Mixer (σ × Nat)
  | .call op => m.next (counting drv) op
  | .submit device => ((m.deviceIn device).doSubmit (counting drv)).2

/-- The mixer under every sequence of steps. -/
def mixerSystem (drv : Driver σ) : TransitionSystem (Mixer (σ × Nat)) (MixerStep σ) where
  init m := ∃ d, m = Mixer.initial (d, 0)
  step m l m' := m' = m.stepped drv l

/-- The sounds of a step are playable, if the call accepts them. -/
def PlayableStep (l : MixerStep σ) : Prop :=
  match l with
  | .call (.play a) | .call (.queuePlay a) => a.ok = true → a.Playable
  | _ => True

end VKernel.Sound

import VKernel.Types

/-!
# `VKernel.Sound.Mixer`: the software mixer of `sound.cpp`

A channel plays one segment (`current`) and keeps up to four more in a ring (`pending`).
Every segment owns a heap copy of the caller's samples. Here a copy is named by its number:
`copies` holds the contents of all copies made so far, in the order they were made, and a
segment's `data` is the number of its copy.

The functions on one channel return what they do to the heap and to the order of segments as
a list of `MixEvent`; the mixer keeps all of them, oldest first, in `log`. Nothing reads the
log: it records what a run did.

The driver is a parameter (`Driver`): any answers, with any state of its own. Every exported
function runs under `s_sound_lock`, apart from making the heap copy, which is private to the
call, so a call is one step.
-/

set_option autoImplicit false

namespace VKernel.Sound

/-! ### Segments and channels -/

/-- `MIX_OUTPUT_RATE`. -/
def MIX_OUTPUT_RATE : Nat := 48000

/-- `MIX_WINDOW_FRAMES`. -/
def MIX_WINDOW_FRAMES : Nat := 16384

/-- `MIX_TARGET_BUFFERED_FRAMES`. -/
def MIX_TARGET_BUFFERED_FRAMES : Nat := MIX_OUTPUT_RATE / 4

/-- `MIX_QUEUE_CAPACITY`. -/
def MIX_QUEUE_CAPACITY : Nat := 4

/-- `MIX_CHANNELS`. -/
def MIX_CHANNELS : Nat := 8

/-- The range of `u32`. -/
def U32 : Nat := 2 ^ 32

/-- `sound_format`. -/
inductive SoundFormat
  | unsigned8 | signed16 | signed16Stereo
  deriving DecidableEq, Repr

/-- `bytes_per_unit`. -/
def SoundFormat.bytesPerUnit : SoundFormat → Nat
  | .unsigned8 => 1
  | .signed16 => 2
  | .signed16Stereo => 4

/-- `payload_bytes`. The result 0 means that the size does not fit in 32 bits. -/
def payloadBytes (fmt : SoundFormat) (srcTotal : Nat) : Nat :=
  if srcTotal > (U32 - 1) / fmt.bytesPerUnit then 0 else srcTotal * fmt.bytesPerUnit

/-- `mix_segment_t`. `data` is the number of the heap copy, `sourceData` the caller's
address. -/
structure Segment where
  data : Option Nat := none
  sourceData : Nat := 0
  srcTotal : Nat := 0
  srcPos : Nat := 0
  sampleRate : Nat := 0
  fmt : SoundFormat := .unsigned8
  volLeft : UInt8 := 0
  volRight : UInt8 := 0
  deriving DecidableEq, Repr

/-- `mix_ch_t`. -/
structure Channel where
  current : Segment := {}
  pending : List Segment := List.replicate MIX_QUEUE_CAPACITY {}
  pendingHead : Nat := 0
  pendingTail : Nat := 0
  pendingCount : Nat := 0
  active : Bool := false
  deriving DecidableEq, Repr

/-- What a run does to the heap copies and to the order of the segments. -/
inductive MixEvent
  /-- A heap copy was made. -/
  | copied (id : Nat)
  /-- A heap copy was freed. -/
  | freed (id : Nat)
  /-- Samples of a heap copy were mixed. -/
  | read (id : Nat)
  /-- A call that accepted a segment for a channel. -/
  | accepted (ch id : Nat)
  /-- A segment became the current one of a channel. -/
  | started (ch id : Nat)
  /-- A channel was reset, with all its segments. -/
  | cleared (ch : Nat)
  deriving DecidableEq, Repr

/-- What a function on a channel returns, leaves behind and does. -/
structure Outcome where
  result : Bool
  channel : Channel
  events : List MixEvent
  deriving DecidableEq, Repr

/-- The `free` of `reset_segment_locked`. -/
def Segment.release (seg : Segment) : List MixEvent := seg.data.toList.map .freed

/-- `reset_mix_channel_locked`. -/
def resetMixChannel (c : Nat) (ch : Channel) : Channel × List MixEvent :=
  ({}, ch.current.release ++ ch.pending.flatMap Segment.release ++ [.cleared c])

/-- `adopt_current_segment_locked`. -/
def adoptCurrentSegment (c : Nat) (ch : Channel) (seg : Segment) : Channel × List MixEvent :=
  ({ ch with current := seg, active := seg.data.isSome },
    ch.current.release ++ seg.data.toList.map (.started c))

/-- `enqueue_pending_segment_locked`. `none` is the result `false`. -/
def enqueuePendingSegment (ch : Channel) (seg : Segment) : Option Channel :=
  if ch.pendingCount ≥ MIX_QUEUE_CAPACITY then none
  else some { ch with
    pending := ch.pending.set ch.pendingTail seg
    pendingTail := (ch.pendingTail + 1) % MIX_QUEUE_CAPACITY
    pendingCount := ch.pendingCount + 1 }

/-- `activate_next_segment_locked`. -/
def activateNextSegment (c : Nat) (ch : Channel) : Outcome :=
  if ch.pendingCount = 0 then ⟨false, { ch with active := false }, []⟩
  else
    let next := ch.pending.getD ch.pendingHead {}
    ⟨true,
      { ch with
        current := next
        pending := ch.pending.set ch.pendingHead {}
        pendingHead := (ch.pendingHead + 1) % MIX_QUEUE_CAPACITY
        pendingCount := ch.pendingCount - 1
        active := true },
      next.data.toList.map (.started c)⟩

/-- The loop of `refresh_channel_locked`. Each round but the last takes a pending segment, so
one round more than there are pending segments is enough. -/
def refreshLoop (c : Nat) : Nat → Channel → Outcome
  | 0, ch => ⟨false, ch, []⟩
  | n + 1, ch =>
    if ch.active = false then ⟨false, ch, []⟩
    else if ch.current.srcPos < ch.current.srcTotal then ⟨true, ch, []⟩
    else
      let next := activateNextSegment c { ch with current := {} }
      let freed := ch.current.release ++ next.events
      if next.result then
        let rest := refreshLoop c n next.channel
        ⟨rest.result, rest.channel, freed ++ rest.events⟩
      else ⟨false, next.channel, freed⟩

/-- `refresh_channel_locked`. -/
def refreshChannel (c : Nat) (ch : Channel) : Outcome :=
  if ch.active = false then activateNextSegment c ch
  else refreshLoop c (ch.pendingCount + 1) ch

/-! ### The mixer -/

/-- A stereo frame. -/
abbrev Frame := Int × Int

/-- `sound_driver_t`, over the driver's own state. The two status functions may be missing. -/
structure Driver (σ : Type) where
  play : σ → List Frame → Bool × σ
  stop : σ → σ
  setSampleRate : σ → Nat → σ
  shutdown : σ → σ
  isPlaying : Option (σ → Bool × σ)
  bufferedFrames : Option (σ → Nat × σ)

/-- A driver that accepts every window, without a state and without the status functions. -/
def silentDriver : Driver Unit where
  play _ _ := (true, ())
  stop _ := ()
  setSampleRate _ _ := ()
  shutdown _ := ()
  isPlaying := none
  bufferedFrames := none

/-- The globals of `sound.cpp` that the mixer uses. `driverSet` is `s_active != null`. -/
structure Mixer (σ : Type) where
  channels : List Channel
  copies : List (List UInt8)
  log : List MixEvent
  driverSet : Bool
  initialised : Bool
  device : σ

variable {σ : Type}

/-- The state before the first call. -/
def Mixer.initial (d : σ) : Mixer σ :=
  ⟨List.replicate MIX_CHANNELS {}, [], [], false, false, d⟩

/-- `s_mix_ch[c]`. -/
def Mixer.channel (m : Mixer σ) (c : Nat) : Channel := m.channels.getD c {}

/-- The mixer after a function on channel `c`. -/
def Mixer.update (m : Mixer σ) (c : Nat) (ch : Channel) (events : List MixEvent) : Mixer σ :=
  { m with channels := m.channels.set c ch, log := m.log ++ events }

/-- `refresh_channel_locked(s_mix_ch[c])`. -/
def Mixer.refresh (m : Mixer σ) (c : Nat) : Bool × Mixer σ :=
  let out := refreshChannel c (m.channel c)
  (out.result, m.update c out.channel out.events)

/-- The loop of `any_active_mix_channels_locked`. It stops at the first active channel. -/
def Mixer.anyActiveFrom (m : Mixer σ) : List Nat → Bool × Mixer σ
  | [] => (false, m)
  | c :: cs =>
    let r := m.refresh c
    if r.1 then (true, r.2) else r.2.anyActiveFrom cs

/-- `any_active_mix_channels_locked`. -/
def Mixer.anyActive (m : Mixer σ) : Bool × Mixer σ :=
  m.anyActiveFrom (List.range MIX_CHANNELS)

/-! ### Mixing one window -/

/-- A little-endian `i16` in a copy. -/
def i16At (bytes : List UInt8) (i : Nat) : Int :=
  let v := (bytes.getD i 0).toNat + 256 * (bytes.getD (i + 1) 0).toNat
  if v < 32768 then v else (v : Int) - 65536

/-- `sample_l` and `sample_r` for source unit `i`. -/
def sampleAt (fmt : SoundFormat) (bytes : List UInt8) (i : Nat) : Frame :=
  match fmt with
  | .unsigned8 =>
    let s := (((bytes.getD i 0).toNat : Int) - 128) * 256
    (s, s)
  | .signed16 => (i16At bytes (2 * i), i16At bytes (2 * i))
  | .signed16Stereo => (i16At bytes (4 * i), i16At bytes (4 * i + 2))

/-- What a source unit adds to the accumulation buffer. -/
def Segment.scaledAt (seg : Segment) (bytes : List UInt8) (i : Nat) : Frame :=
  let s := sampleAt seg.fmt bytes i
  ((s.1 * seg.volLeft.toNat) >>> (8 : Nat), (s.2 * seg.volRight.toNat) >>> (8 : Nat))

/-- `ch_frames`: the output frames that the rest of a segment fills. -/
def Segment.remainingFrames (seg : Segment) : Nat :=
  ((seg.srcTotal - seg.srcPos) * MIX_OUTPUT_RATE + seg.sampleRate - 1) / seg.sampleRate % U32

/-- `src_idx` for output frame `f` of the window. -/
def Segment.sourceIndex (seg : Segment) (f : Nat) : Nat :=
  (seg.srcPos + f * seg.sampleRate / MIX_OUTPUT_RATE % U32) % U32

/-- The frames that the inner loop adds for a segment, up to its `break`. -/
def Segment.windowFrames (seg : Segment) (bytes : List UInt8) (outFrames : Nat) : List Frame :=
  ((List.range outFrames).takeWhile fun f => decide (seg.sourceIndex f < seg.srcTotal)).map
    fun f => seg.scaledAt bytes (seg.sourceIndex f)

/-- Addition into the accumulation buffer, from its first frame on. -/
def addFrames : List Frame → List Frame → List Frame
  | [], _ => []
  | acc, [] => acc
  | a :: acc, b :: bs => (a.1 + b.1, a.2 + b.2) :: addFrames acc bs

/-- The clamp to `i16`. -/
def clamp16 (v : Int) : Int := if v > 32767 then 32767 else if v < -32768 then -32768 else v

/-- `advance`, capped. -/
def Segment.advance (seg : Segment) (outFrames : Nat) : Nat :=
  min (outFrames * seg.sampleRate / MIX_OUTPUT_RATE % U32) (seg.srcTotal - seg.srcPos)

/-- The channel with its source position moved by the frames of a window. -/
def Channel.advanced (ch : Channel) (outFrames : Nat) : Channel :=
  { ch with
    current := { ch.current with srcPos := ch.current.srcPos + ch.current.advance outFrames } }

/-- The first pass of `mix_do_submit_locked`: the longest rest of a channel. -/
def Mixer.longestFrom (m : Mixer σ) (out : Nat) : List Nat → Nat × Mixer σ
  | [] => (out, m)
  | c :: cs =>
    let r := m.refresh c
    if r.1 then r.2.longestFrom (max out (r.2.channel c).current.remainingFrames) cs
    else r.2.longestFrom out cs

/-- The second pass: the channels are summed up. -/
def Mixer.mixFrom (m : Mixer σ) (outFrames : Nat) (acc : List Frame) :
    List Nat → List Frame × Mixer σ
  | [] => (acc, m)
  | c :: cs =>
    let r := m.refresh c
    if r.1 then
      let seg := (r.2.channel c).current
      let bytes := (seg.data.bind fun id => r.2.copies[id]?).getD []
      { r.2 with log := r.2.log ++ seg.data.toList.map MixEvent.read }.mixFrom outFrames
        (addFrames acc (seg.windowFrames bytes outFrames)) cs
    else r.2.mixFrom outFrames acc cs

/-- The third pass: the source positions advance. -/
def Mixer.advanceFrom (m : Mixer σ) (outFrames : Nat) : List Nat → Mixer σ
  | [] => m
  | c :: cs =>
    let r := m.refresh c
    if r.1 then
      ((r.2.update c ((r.2.channel c).advanced outFrames) []).refresh c).2.advanceFrom outFrames cs
    else r.2.advanceFrom outFrames cs

/-- `mix_do_submit_locked`. -/
def Mixer.doSubmit (drv : Driver σ) (m : Mixer σ) : Bool × Mixer σ :=
  if m.driverSet = false ∨ m.initialised = false then (false, m)
  else
    let channels := List.range MIX_CHANNELS
    let longest := m.longestFrom 0 channels
    let m := longest.2
    if longest.1 = 0 then (false, { m with device := drv.stop m.device })
    else
      let outFrames := min longest.1 MIX_WINDOW_FRAMES
      let mixed := m.mixFrom outFrames (List.replicate outFrames (0, 0)) channels
      let m := mixed.2
      let window := mixed.1.map fun f => (clamp16 f.1, clamp16 f.2)
      let played := drv.play (drv.setSampleRate m.device MIX_OUTPUT_RATE) window
      let m := { m with device := played.2 }
      if played.1 then (true, m.advanceFrom outFrames channels) else (false, m)

/-! ### The calls -/

/-- `driver_is_playing_locked`. -/
def Mixer.driverIsPlaying (drv : Driver σ) (m : Mixer σ) : Bool × Mixer σ :=
  if m.driverSet = false ∨ m.initialised = false then (false, m)
  else
    match drv.isPlaying with
    | none => (false, m)
    | some ask =>
      let a := ask m.device
      (a.1, { m with device := a.2 })

/-- `stop_driver_if_idle_locked`. -/
def Mixer.stopDriverIfIdle (drv : Driver σ) (m : Mixer σ) : Mixer σ :=
  if m.driverSet = false ∨ m.initialised = false then m
  else
    let active := m.anyActive
    if active.1 then active.2
    else
      let playing := active.2.driverIsPlaying drv
      if playing.1 then playing.2
      else { playing.2 with device := drv.stop playing.2.device }

/-- The loop of `mix_update_locked` for a driver that counts its frames, after at most
`rounds` rounds. -/
def Mixer.updateLoop (drv : Driver σ) (buffered : σ → Nat × σ) : Nat → Mixer σ → Mixer σ
  | 0, m => m
  | rounds + 1, m =>
    let active := m.anyActive
    if active.1 = false then active.2
    else
      let before := buffered active.2.device
      let m := { active.2 with device := before.2 }
      if before.1 ≥ MIX_TARGET_BUFFERED_FRAMES then m
      else
        let submitted := m.doSubmit drv
        if submitted.1 = false then submitted.2
        else
          let after := buffered submitted.2.device
          let m := { submitted.2 with device := after.2 }
          if after.1 ≤ before.1 then m else m.updateLoop drv buffered rounds

/-- `mix_update_locked`. -/
def Mixer.mixUpdate (drv : Driver σ) (rounds : Nat) (m : Mixer σ) : Mixer σ :=
  let active := m.anyActive
  let m := active.2
  if active.1 = false then m
  else
    match if m.driverSet = true ∧ m.initialised = true then drv.bufferedFrames else none with
    | some buffered => m.updateLoop drv buffered rounds
    | none =>
      let playing := m.driverIsPlaying drv
      if playing.1 then playing.2 else (playing.2.doSubmit drv).2

/-- The arguments of `mix_play` and `mix_queue_play`, the bytes that the caller's address
points to, and whether the heap has room for the copy. -/
structure PlayArgs where
  chIdx : Int
  source : Nat
  bytes : List UInt8
  srcSamples : UInt32
  fmt : SoundFormat
  sampleRate : UInt32
  volLeft : UInt8
  volRight : UInt8
  heapOk : Bool
  deriving DecidableEq, Repr

/-- The tests of both calls on their arguments, and the allocation. -/
def PlayArgs.ok (a : PlayArgs) : Bool :=
  decide (0 ≤ a.chIdx ∧ a.chIdx < MIX_CHANNELS) && decide (a.source ≠ 0) &&
    decide (a.srcSamples ≠ 0) && decide (a.sampleRate ≠ 0) &&
    decide (payloadBytes a.fmt a.srcSamples.toNat ≠ 0) && a.heapOk

/-- The mixer with the heap copy of the call, and the segment that owns it. -/
def Mixer.copySamples (m : Mixer σ) (a : PlayArgs) : Segment × Mixer σ :=
  let id := m.copies.length
  (⟨some id, a.source, a.srcSamples.toNat, 0, a.sampleRate.toNat, a.fmt, a.volLeft, a.volRight⟩,
    { m with
      copies := m.copies ++ [a.bytes.take (payloadBytes a.fmt a.srcSamples.toNat)]
      log := m.log ++ [.copied id] })

/-- `mix_play`. -/
def Mixer.mixPlay (m : Mixer σ) (a : PlayArgs) : Bool × Mixer σ :=
  if a.ok = false then (false, m)
  else
    let c := a.chIdx.toNat
    let made := m.copySamples a
    let seg := made.1
    let m := made.2
    let cleared := resetMixChannel c (m.channel c)
    let adopted := adoptCurrentSegment c cleared.1 seg
    (true, m.update c adopted.1
      (cleared.2 ++ seg.data.toList.map (.accepted c) ++ adopted.2))

/-- `mix_queue_play`. -/
def Mixer.mixQueuePlay (m : Mixer σ) (a : PlayArgs) : Bool × Mixer σ :=
  if a.ok = false then (false, m)
  else
    let c := a.chIdx.toNat
    let made := m.copySamples a
    let seg := made.1
    let m := made.2
    let ch := m.channel c
    if ch.active = false ∧ ch.pendingCount = 0 then
      let adopted := adoptCurrentSegment c ch seg
      (true, m.update c adopted.1 (seg.data.toList.map (.accepted c) ++ adopted.2))
    else
      match enqueuePendingSegment ch seg with
      | some ch' => (true, m.update c ch' (seg.data.toList.map (.accepted c)))
      | none => (false, { m with log := m.log ++ seg.release })

/-- `mix_stop`. -/
def Mixer.mixStop (drv : Driver σ) (m : Mixer σ) (chIdx : Int) : Mixer σ :=
  if chIdx < 0 ∨ chIdx ≥ MIX_CHANNELS then m
  else
    let c := chIdx.toNat
    let cleared := resetMixChannel c (m.channel c)
    (m.update c cleared.1 cleared.2).stopDriverIfIdle drv

/-- `mix_is_playing`. -/
def Mixer.mixIsPlaying (m : Mixer σ) (chIdx : Int) : Bool × Mixer σ :=
  if chIdx < 0 ∨ chIdx ≥ MIX_CHANNELS then (false, m) else m.refresh chIdx.toNat

/-- The segment was made from an address in `[start, stop)`. -/
def Segment.sourceIn (start stop : Nat) (seg : Segment) : Bool :=
  seg.sourceData != 0 && decide (start ≤ seg.sourceData ∧ seg.sourceData < stop)

/-- The channels of a list are reset when a test on them succeeds. -/
def Mixer.resetWhere (m : Mixer σ) (test : Channel → Bool) : List Nat → Mixer σ
  | [] => m
  | c :: cs =>
    if test (m.channel c) then
      let cleared := resetMixChannel c (m.channel c)
      (m.update c cleared.1 cleared.2).resetWhere test cs
    else m.resetWhere test cs

/-- `mix_stop_range`. -/
def Mixer.mixStopRange (drv : Driver σ) (m : Mixer σ) (base size : Nat) : Mixer σ :=
  if base = 0 ∨ size = 0 then m
  else
    let stop := add64 base size
    if stop < base then m
    else
      (m.resetWhere (fun ch => ch.current.sourceIn base stop || ch.pending.any
        (Segment.sourceIn base stop))
        (List.range MIX_CHANNELS)).stopDriverIfIdle drv

/-- `mix_shutdown`. -/
def Mixer.mixShutdown (m : Mixer σ) : Mixer σ :=
  m.resetWhere (fun _ => true) (List.range MIX_CHANNELS)

/-- `shutdown_active`. -/
def Mixer.shutdownActive (drv : Driver σ) (m : Mixer σ) : Mixer σ :=
  let m :=
    if m.driverSet = true ∧ m.initialised = true then { m with device := drv.shutdown m.device }
    else m
  { m.mixShutdown with initialised := false, driverSet := false }

/-- `register_driver`. -/
def Mixer.registerDriver (drv : Driver σ) (m : Mixer σ) : Mixer σ :=
  if m.driverSet = true ∧ m.initialised = true then
    { m with device := drv.shutdown m.device, initialised := false, driverSet := true }
  else { m with driverSet := true }

/-- `init_active`, with the answer of the driver's `init`. -/
def Mixer.initActive (m : Mixer σ) (ok : Bool) : Mixer σ :=
  if m.driverSet = true ∧ m.initialised = false ∧ ok = true then { m with initialised := true }
  else m

/-- The calls. -/
inductive MixOp
  | play (a : PlayArgs)
  | queuePlay (a : PlayArgs)
  | stop (chIdx : Int)
  | stopRange (base size : Nat)
  | update (rounds : Nat)
  | isPlaying (chIdx : Int)
  | shutdown
  | shutdownActive
  | registerDriver
  | initActive (ok : Bool)
  deriving DecidableEq, Repr

/-- One call. -/
def Mixer.next (drv : Driver σ) (m : Mixer σ) : MixOp → Mixer σ
  | .play a => (m.mixPlay a).2
  | .queuePlay a => (m.mixQueuePlay a).2
  | .stop chIdx => m.mixStop drv chIdx
  | .stopRange base size => m.mixStopRange drv base size
  | .update rounds => m.mixUpdate drv rounds
  | .isPlaying chIdx => (m.mixIsPlaying chIdx).2
  | .shutdown => m.mixShutdown
  | .shutdownActive => m.shutdownActive drv
  | .registerDriver => m.registerDriver drv
  | .initActive ok => m.initActive ok

end VKernel.Sound

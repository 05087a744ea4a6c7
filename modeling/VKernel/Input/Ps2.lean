import VKernel.Lib.DroppingQueue

/-!
# `VKernel.Input.Ps2`: the PS/2 keyboard and mouse of `input.cpp`

`Ps2` holds the static variables of the file and what the controller has to offer. The output
buffer of the 8042 is the list `port`: each byte with bit 5 of the status register, which says that
it comes from the mouse. A read of an empty list is a status register without bit 0. Bytes that
arrive during a call count as there when it begins: the loops stop at the first empty status.

The mouse queue is any `DroppingQueue`; that of the source is a `DroppingRing`.
-/

set_option autoImplicit false

namespace VKernel.Input

open VKernel.Lib

/-! ### The keyboard -/

/-- Scan code set 1 to ASCII, unshifted. Codes from 0x58 on have no character. -/
def scNormal : List UInt8 :=
  [0, 0x1B] ++ ['1', '2', '3', '4', '5', '6', '7', '8'].map Char.toUInt8 ++
  ['9', '0', '-', '='].map Char.toUInt8 ++ [8, 9] ++
  ['q', 'w', 'e', 'r', 't', 'y', 'u', 'i', 'o', 'p', '[', ']'].map Char.toUInt8 ++ [13] ++
  [0] ++ -- 0x1D, left Ctrl
  ['a', 's', 'd', 'f', 'g', 'h', 'j', 'k', 'l', ';'].map Char.toUInt8 ++ [39, 96] ++
  [0] ++ -- 0x2A, left Shift
  [92] ++
  ['z', 'x', 'c', 'v', 'b', 'n', 'm', ',', '.', '/'].map Char.toUInt8 ++
  [0] ++ -- 0x36, right Shift
  ['*'.toUInt8] ++
  [0] ++ -- 0x38, left Alt
  [' '.toUInt8] ++
  [0] ++ -- 0x3A, Caps Lock
  List.replicate 10 0 ++ List.replicate 2 0 ++ -- F1 to F10, Num Lock, Scroll Lock
  List.replicate 3 0 ++ ['-'.toUInt8] ++ List.replicate 3 0 ++ ['+'.toUInt8] ++ -- number pad
  List.replicate 3 0 ++ List.replicate 2 0 ++ List.replicate 44 0

/-- Scan code set 1 to ASCII, shifted. -/
def scShifted : List UInt8 :=
  [0, 0x1B] ++ ['!', '@', '#', '$', '%', '^', '&', '*'].map Char.toUInt8 ++
  ['(', ')', '_', '+'].map Char.toUInt8 ++ [8, 9] ++
  ['Q', 'W', 'E', 'R', 'T', 'Y', 'U', 'I', 'O', 'P'].map Char.toUInt8 ++ [123, 125, 13] ++
  [0] ++
  ['A', 'S', 'D', 'F', 'G', 'H', 'J', 'K', 'L', ':'].map Char.toUInt8 ++ [34, 126] ++
  [0] ++
  [124] ++
  ['Z', 'X', 'C', 'V', 'B', 'N', 'M', '<', '>', '?'].map Char.toUInt8 ++
  [0] ++
  ['*'.toUInt8] ++
  [0] ++
  [' '.toUInt8] ++
  [0] ++
  List.replicate 10 0 ++ List.replicate 2 0 ++
  List.replicate 3 0 ++ ['-'.toUInt8] ++ List.replicate 3 0 ++ ['+'.toUInt8] ++
  List.replicate 3 0 ++ List.replicate 2 0 ++ List.replicate 44 0

/-- `s_sc_normal[sc]`. -/
def normalChar (sc : UInt8) : UInt8 := scNormal.getD sc.toNat 0

/-- `s_sc_shifted[sc]`. -/
def shiftedChar (sc : UInt8) : UInt8 := scShifted.getD sc.toNat 0

/-- `base_n >= 'a' && base_n <= 'z'`. -/
def isLetter (c : UInt8) : Bool := 'a'.toUInt8 ≤ c && c ≤ 'z'.toUInt8

/-- `s_shift`, `s_caps`, `s_ext`, `s_ctrl` and `s_alt`. -/
structure KeyState where
  shift : Bool
  caps : Bool
  ext : Bool
  ctrl : Bool
  alt : Bool
  deriving DecidableEq, Repr

/-- The values they start with. -/
def KeyState.boot : KeyState := ⟨false, false, false, false, false⟩

/-- `vk_key_event_t`. -/
structure KeyEvent where
  scancode : UInt32
  pressed : UInt32
  ascii : UInt8
  modifiers : UInt32
  deriving DecidableEq, Repr

/-- The loop body of `ps2_try_read` for a keyboard byte: the character that it returns, if it
returns. -/
def KeyState.read (k : KeyState) (sc : UInt8) : KeyState × Option UInt8 :=
  if sc = 0xE0 then ({ k with ext := true }, none)
  else
    let ext := k.ext
    let k := { k with ext := false }
    -- Extended make and break codes are ignored.
    if ext then (k, none)
    else if sc &&& 0x80 ≠ 0 then
      let make := sc &&& 0x7F
      (if make = 0x2A ∨ make = 0x36 then { k with shift := false } else k, none)
    else if sc = 0x2A ∨ sc = 0x36 then ({ k with shift := true }, none)
    else if sc = 0x3A then ({ k with caps := !k.caps }, none)
    else if sc = 0x1D ∨ sc = 0x38 then (k, none)
    else if sc ≥ 128 then (k, none)
    else
      let baseN := normalChar sc
      let baseS := shiftedChar sc
      if isLetter baseN then (k, some (if k.caps ^^ k.shift then baseS else baseN))
      else
        let c := if k.shift then baseS else baseN
        (k, if c ≠ 0 then some c else none)

/-- The modifier tracking of `ps2_try_read_raw`, in the order of the source. -/
def KeyState.track (k : KeyState) (make : UInt8) (released : Bool) : KeyState :=
  let k := if make = 0x2A ∨ make = 0x36 then { k with shift := !released } else k
  let k := if make = 0x1D then { k with ctrl := !released } else k
  let k := if make = 0x38 then { k with alt := !released } else k
  if make = 0x3A ∧ !released then { k with caps := !k.caps } else k

/-- The event of `ps2_try_read_raw` for a code, with the modifiers tracked already. -/
def KeyState.event (k : KeyState) (ext : Bool) (make : UInt8) (released : Bool) : KeyEvent where
  scancode := if ext then make.toUInt32 ||| 0x80 else make.toUInt32
  pressed := if released then 0 else 1
  ascii :=
    if !ext && !released && make < 128 then
      if isLetter (normalChar make) then
        if k.caps ^^ k.shift then shiftedChar make else normalChar make
      else if k.shift then shiftedChar make else normalChar make
    else 0
  modifiers :=
    (if k.shift then 1 else 0) ||| (if k.ctrl then 2 else 0) ||| (if k.alt then 4 else 0)

/-- The loop body of `ps2_try_read_raw` for a keyboard byte: the event that it returns, if it
returns. -/
def KeyState.readRaw (k : KeyState) (sc : UInt8) : KeyState × Option KeyEvent :=
  if sc = 0xE0 then ({ k with ext := true }, none)
  else
    let ext := k.ext
    let released := sc &&& 0x80 ≠ 0
    let make := sc &&& 0x7F
    let k := KeyState.track { k with ext := false } make released
    (k, some (k.event ext make released))

/-! ### The mouse -/

/-- `vk_mouse_event_t`. -/
structure MouseEvent where
  dx : Int
  dy : Int
  buttons : UInt32
  deriving DecidableEq, Repr

/-- `MOUSE_QUEUE_SIZE` of `input.cpp`. -/
def MOUSE_QUEUE_SIZE : Nat := 8

/-- There is a phase 0. -/
local instance neZeroPhases : NeZero 3 := ⟨by decide⟩

/-- `s_mouse_buf` and `s_mouse_phase`. Behind phase 0 the first byte of the packet is there. -/
structure MouseAssembler where
  buf : Vector UInt8 3
  phase : Fin 3
  synced : phase ≠ 0 → buf[0] &&& 0x08 ≠ 0

/-- Zero bytes, between two packets. -/
def MouseAssembler.boot : MouseAssembler :=
  ⟨Vector.replicate 3 0, 0, fun h => absurd rfl h⟩

/-- The event of a complete packet. -/
def packetEvent (flags rawX rawY : UInt8) : MouseEvent where
  dx := (rawX.toNat : Int) - (if flags &&& 0x10 ≠ 0 then 256 else 0)
  dy := -(rawY.toNat : Int) + (if flags &&& 0x20 ≠ 0 then 256 else 0)
  buttons := (flags &&& 0x07).toUInt32

/-- `ps2_pump_mouse_byte` up to the push: the event of a packet that is complete and has no
overflow bit. -/
def MouseAssembler.feed (a : MouseAssembler) (byte : UInt8) : MouseAssembler × Option MouseEvent :=
  if hfirst : a.phase = 0 then
    -- The first byte of a packet always has bit 3 set.
    if hsync : byte &&& 0x08 = 0 then (a, none)
    else ({ buf := a.buf.set 0 byte, phase := 1, synced := fun _ => by simpa using hsync }, none)
  else if a.phase = 1 then
    ({ buf := a.buf.set 1 byte, phase := 2, synced := fun _ => by simpa using a.synced hfirst },
      none)
  else
    let buf := a.buf.set 2 byte
    ({ buf := buf, phase := 0, synced := fun h => absurd rfl h },
      if buf[0] &&& 0xC0 ≠ 0 then none else some (packetEvent buf[0] buf[1] buf[2]))

namespace MouseAssembler

/-- The bytes of a packet that is not complete. -/
def pending (a : MouseAssembler) : List UInt8 := a.buf.toList.take a.phase

theorem toList_buf (buf : Vector UInt8 3) : buf.toList = [buf[0], buf[1], buf[2]] := by
  refine List.ext_getElem (by simp) fun i hi _ => ?_
  rw [Vector.length_toList] at hi
  rw [Vector.getElem_toList]
  have hcases : i = 0 ∨ i = 1 ∨ i = 2 := by omega
  rcases hcases with rfl | rfl | rfl
  · rfl
  · rfl
  · rfl

theorem pending_zero {a : MouseAssembler} (h : a.phase = 0) : a.pending = [] := by
  rw [pending, h]
  rfl

theorem pending_one {a : MouseAssembler} (h : a.phase = 1) : a.pending = [a.buf[0]] := by
  rw [pending, h, toList_buf]
  rfl

theorem pending_two {a : MouseAssembler} (h : a.phase = 2) :
    a.pending = [a.buf[0], a.buf[1]] := by
  rw [pending, h, toList_buf]
  rfl

end MouseAssembler

/-! ### The controller -/

/-- A byte in the output buffer. `aux` is bit 5 of the status. -/
structure PortEntry where
  aux : Bool
  data : UInt8
  deriving DecidableEq, Repr

/-- The static variables of `input.cpp`, what the 8042 offers and what COM1 offers. -/
structure Ps2 (Q : Type → Nat → Type) where
  keys : KeyState
  ready : Bool
  assembler : MouseAssembler
  queue : Q MouseEvent MOUSE_QUEUE_SIZE
  port : List PortEntry
  serial : List UInt8

/-- The static variables before the first call, with nothing to read. -/
def Ps2.boot : Ps2 DroppingRing where
  keys := KeyState.boot
  ready := false
  assembler := MouseAssembler.boot
  queue := DroppingRing.empty ⟨0, 0, 0⟩ (by decide)
  port := []
  serial := []

variable {Q : Type → Nat → Type} [DroppingQueue Q]

/-- `mouse_q_push`. -/
def mouseQPush (s : Ps2 Q) (ev : MouseEvent) : Ps2 Q :=
  { s with queue := DroppingQueue.push s.queue ev }

/-- `mouse_q_pop`. -/
def mouseQPop (s : Ps2 Q) : Option MouseEvent × Ps2 Q :=
  ((DroppingQueue.pop s.queue).1, { s with queue := (DroppingQueue.pop s.queue).2 })

/-- `ps2_pump_mouse_byte`. -/
def ps2PumpMouseByte (s : Ps2 Q) (byte : UInt8) : Ps2 Q :=
  match s.assembler.feed byte with
  | (a, none) => { s with assembler := a }
  | (a, some ev) => mouseQPush { s with assembler := a } ev

/-- The loop of both keyboard readers, with `body` for a keyboard byte. -/
def drainPort {ρ : Type} (body : KeyState → UInt8 → KeyState × Option ρ) :
    Ps2 Q → List PortEntry → Option ρ × Ps2 Q
  | s, [] => (none, { s with port := [] })
  | s, e :: port =>
    -- An aux byte is pumped, and the search for a keyboard byte goes on.
    if e.aux then drainPort body (ps2PumpMouseByte s e.data) port
    else
      match body s.keys e.data with
      | (k, none) => drainPort body { s with keys := k } port
      | (k, some r) => (some r, { s with keys := k, port := port })

/-- `ps2_try_read`, with 0 for no character. -/
def ps2TryRead (s : Ps2 Q) : UInt8 × Ps2 Q :=
  let r := drainPort KeyState.read s s.port
  (r.1.getD 0, r.2)

/-- `ps2_try_read_raw`. -/
def ps2TryReadRaw (s : Ps2 Q) : Option KeyEvent × Ps2 Q := drainPort KeyState.readRaw s s.port

/-- The loop of `poll_mouse`: it ends at the first entry that is not an aux byte. -/
def drainAux : Ps2 Q → List PortEntry → Ps2 Q
  | s, [] => { s with port := [] }
  | s, e :: port =>
    if e.aux then drainAux (ps2PumpMouseByte s e.data) port else { s with port := e :: port }

/-- `poll_mouse`. -/
def pollMouse (s : Ps2 Q) : Option MouseEvent × Ps2 Q :=
  if !s.ready then (none, s) else mouseQPop (drainAux s s.port)

/-- `serial_try_read`. -/
def serialTryRead (s : Ps2 Q) : UInt8 × Ps2 Q :=
  (s.serial.headD 0, { s with serial := s.serial.tail })

end VKernel.Input

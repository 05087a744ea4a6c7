import VKernel.Input.Ps2

/-!
# `VKernel.Input.Readers`: two readers for one keyboard

`ps2_try_read` and `ps2_try_read_raw` take bytes from the same port and share the modifiers.
`runReads` runs any sequence of their calls, with whatever arrives in front of each call, and
`ReaderIndependent` says that it does not matter which reader gets which byte.
`SameForBothReaders` is a condition on the bytes alone. It speaks of the codes of the sequence: a
code is a byte other than the prefix 0xE0, and it is extended if the byte in front of it is the
prefix.
-/

set_option autoImplicit false

namespace VKernel.Input

open VKernel.Lib

/-! ### Calls of the readers -/

inductive Reader
  | tryRead | tryReadRaw
  deriving DecidableEq, Repr

/-- The keyboard state behind a byte that the reader gets. -/
def Reader.step : Reader → KeyState → UInt8 → KeyState
  | .tryRead, k, sc => (k.read sc).1
  | .tryReadRaw, k, sc => (k.readRaw sc).1

/-- A call of a reader, and what arrives at the port in front of it. -/
structure ReadCall where
  arrived : List PortEntry
  reader : Reader

section
variable {Q : Type → Nat → Type} [DroppingQueue Q]

def ReadCall.run (s : Ps2 Q) (c : ReadCall) : Ps2 Q :=
  let s := { s with port := s.port ++ c.arrived }
  match c.reader with
  | .tryRead => (ps2TryRead s).2
  | .tryReadRaw => (ps2TryReadRaw s).2

def runReads (s : Ps2 Q) (calls : List ReadCall) : Ps2 Q := calls.foldl ReadCall.run s

end

/-- The bytes that are not from the mouse. -/
def keyboardBytes (port : List PortEntry) : List UInt8 :=
  (port.filter fun e => !e.aux).map PortEntry.data

/-- Everything that arrives in a run. -/
def arrivals (calls : List ReadCall) : List PortEntry := calls.flatMap ReadCall.arrived

/-- The same modifiers and prefix, and so the same character and the same event for whatever comes
next. -/
structure SameForNextKey (s₁ s₂ : Ps2 DroppingRing) : Prop where
  keys : s₁.keys = s₂.keys
  char : ∀ port, (ps2TryRead { s₁ with port := port }).1 = (ps2TryRead { s₂ with port := port }).1
  event : ∀ port,
    (ps2TryReadRaw { s₁ with port := port }).1 = (ps2TryReadRaw { s₂ with port := port }).1

/-- Any two runs that read exactly the keyboard bytes `bytes`, from the keyboard state `k` on, end
alike. The mouse may send different bytes in the two. -/
def ReaderIndependent (k : KeyState) (bytes : List UInt8) : Prop :=
  ∀ s₁ s₂ : Ps2 DroppingRing, s₁.keys = k → s₂.keys = k → s₁.port = [] → s₂.port = [] →
    ∀ calls₁ calls₂ : List ReadCall,
      keyboardBytes (arrivals calls₁) = bytes → keyboardBytes (arrivals calls₂) = bytes →
      (runReads s₁ calls₁).port = [] → (runReads s₂ calls₂).port = [] →
      SameForNextKey (runReads s₁ calls₁) (runReads s₂ calls₂)

/-! ### The codes of a byte sequence -/

/-- A byte that is not the prefix, and whether the prefix came in front of it. -/
structure KeyCode where
  extended : Bool
  byte : UInt8
  deriving DecidableEq, Repr

namespace KeyCode

def make (c : KeyCode) : UInt8 := c.byte &&& 0x7F

def pressed (c : KeyCode) : Bool := c.byte &&& 0x80 = 0

/-- Left or right Shift. -/
def isShift (c : KeyCode) : Bool := c.make = 0x2A || c.make = 0x36

def isCtrl (c : KeyCode) : Bool := c.make = 0x1D

def isAlt (c : KeyCode) : Bool := c.make = 0x38

def isCaps (c : KeyCode) : Bool := c.make = 0x3A

end KeyCode

/-- The codes of a sequence. `ext` says whether the prefix came in front of it. -/
def codes : Bool → List UInt8 → List KeyCode
  | _, [] => []
  | ext, b :: bs => if b = 0xE0 then codes true bs else ⟨ext, b⟩ :: codes false bs

/-- Shift behind the codes as far as the plain ones set it. -/
def plainShift (shift : Bool) (cs : List KeyCode) : Bool :=
  cs.foldl (fun v c => if c.isShift && !c.extended then c.pressed else v) shift

/-- No code of the sequence makes a difference between the readers:

- `ctrl`, `alt`: only `ps2_try_read_raw` tracks Ctrl and Alt, so each of their codes must leave
  the modifier as it was at the start;
- `caps`: only `ps2_try_read_raw` takes an extended Caps Lock for Caps Lock, so none is pressed;
- `shift`: only `ps2_try_read_raw` takes an extended Shift for Shift, so each of them must leave
  shift as it is there, unless a plain Shift code follows. -/
structure SameForBothReaders (k : KeyState) (bytes : List UInt8) : Prop where
  ctrl : ∀ c ∈ codes k.ext bytes, c.isCtrl → c.pressed = k.ctrl
  alt : ∀ c ∈ codes k.ext bytes, c.isAlt → c.pressed = k.alt
  caps : ∀ c ∈ codes k.ext bytes, c.isCaps → c.extended → c.pressed = false
  shift : ∀ before c after, codes k.ext bytes = before ++ c :: after → c.isShift → c.extended →
    (∀ d ∈ after, d.isShift → d.extended) → c.pressed = plainShift k.shift before

end VKernel.Input

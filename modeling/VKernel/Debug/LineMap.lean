import Mathlib.Data.List.Basic

/-!
# `VKernel.Debug.LineMap`: the two readers of line maps

A `vklines1` map gives source lines to addresses, one record in a line. `kernel_debug.cpp` reads the
map of the kernel, and `process_debug.cpp` has a reader of its own for the maps of programs. A text
is a list of bytes here, and a pointer into it is what is left of the list. What both files have
word for word is defined once, in `VKernel.Debug`; what they have in different words is in
`VKernel.KernelDebug` and `VKernel.ProcessDebug`.

`extractLines` is the sequence of the records that a reader takes from a text. For the reader of the
programs it is the sequence in front of the filter for the range of the image.
-/

set_option autoImplicit false

namespace VKernel.Debug

/-! ### Characters and numbers -/

def LF : UInt8 := 10

def CR : UInt8 := 13

def TAB : UInt8 := 9

/-- `"vklines1"`. -/
def VKLINES1 : List UInt8 := ['v', 'k', 'l', 'i', 'n', 'e', 's', '1'].map Char.toUInt8

/-- `find_char`: what is in front of the first `ch` and what is behind it. -/
def findChar (ch : UInt8) (s : List UInt8) : Option (List UInt8 × List UInt8) :=
  match s.dropWhile (· != ch) with
  | [] => none
  | _ :: rest => some (s.takeWhile (· != ch), rest)

/-- `parse_hex_u64`, for a function that knows the digits. -/
def parseHexU64 (digit : UInt8 → Option UInt8) (s : List UInt8) : Option UInt64 :=
  if s = [] then none
  else s.foldlM (fun value ch => (digit ch).map fun d => value <<< 4 ||| d.toUInt64) 0

/-- A round of `parse_dec_u32`. The value is below `2 ^ 32` before each round. -/
def decStep (value : Nat) (ch : UInt8) : Option Nat :=
  if ch < '0'.toUInt8 ∨ '9'.toUInt8 < ch then none
  else
    let value := value * 10 + (ch - '0'.toUInt8).toNat
    if value > 0xFFFFFFFF then none else some value

/-- `parse_dec_u32`. -/
def parseDecU32 (s : List UInt8) : Option UInt32 :=
  if s = [] then none else (s.foldlM decStep 0).map UInt32.ofNat

/-! ### Lines -/

/-- A line of a map: an address, a line number and the path of a source file. -/
structure LineRecord where
  address : UInt64
  line : UInt32
  path : List UInt8
  deriving DecidableEq, Repr

/-- The part of `parse_line_record` that the files share, for a reader of hexadecimal numbers. -/
def lineRecord (hex : List UInt8 → Option UInt64) (line : List UInt8) : Option LineRecord := do
  let tab1 ← findChar TAB line
  let tab2 ← findChar TAB tab1.2
  if tab2.2 = [] then none
  else
    let address ← hex tab1.1
    let number ← parseDecU32 tab2.1
    return ⟨address, number, tab2.2⟩

/-- The text up to the next newline. -/
def findLineEnd (text : List UInt8) : List UInt8 := text.takeWhile (· != LF)

/-- The text behind the next newline. -/
def nextCursor (text : List UInt8) : List UInt8 := (text.dropWhile (· != LF)).tail

theorem length_nextCursor {text : List UInt8} (h : text ≠ []) :
    (nextCursor text).length < text.length := by
  have hdrop := (List.dropWhile_sublist (· != LF) (l := text)).length_le
  have hpos := List.length_pos_iff.mpr h
  rw [nextCursor, List.length_tail]
  omega

/-- The lines of a text, without their newlines. -/
def lines (text : List UInt8) : List (List UInt8) :=
  if h : text = [] then [] else findLineEnd text :: lines (nextCursor text)
termination_by text.length
decreasing_by exact length_nextCursor h

end VKernel.Debug

namespace VKernel.KernelDebug

open VKernel.Debug

/-- `is_hex_digit`. -/
def isHexDigit (ch : UInt8) : Bool :=
  ('0'.toUInt8 ≤ ch && ch ≤ '9'.toUInt8) || ('a'.toUInt8 ≤ ch && ch ≤ 'f'.toUInt8) ||
    ('A'.toUInt8 ≤ ch && ch ≤ 'F'.toUInt8)

/-- `hex_value`. -/
def hexValue (ch : UInt8) : UInt8 :=
  if '0'.toUInt8 ≤ ch ∧ ch ≤ '9'.toUInt8 then ch - '0'.toUInt8
  else if 'a'.toUInt8 ≤ ch ∧ ch ≤ 'f'.toUInt8 then 10 + (ch - 'a'.toUInt8)
  else 10 + (ch - 'A'.toUInt8)

/-- `parse_hex_u64`. -/
def parseHexU64 (s : List UInt8) : Option UInt64 :=
  Debug.parseHexU64 (fun ch => if isHexDigit ch then some (hexValue ch) else none) s

/-- `parse_line_record`. -/
def parseLineRecord (line : List UInt8) : Option LineRecord :=
  if line = [] then none else lineRecord parseHexU64 line

/-- The lines behind the header, where `count_lines_in_map` accepts it. -/
def mapLines (text : List UInt8) : Option (List (List UInt8)) :=
  if text = [] then none
  else if findLineEnd text ≠ VKLINES1 then none
  else some (lines (nextCursor text))

/-- The records of a text, where `count_lines_in_map` finds any. -/
def extractLines (text : List UInt8) : Option (List LineRecord) := do
  let body ← mapLines text
  let records := body.filterMap parseLineRecord
  if records = [] then none else some records

end VKernel.KernelDebug

namespace VKernel.ProcessDebug

open VKernel.Debug

/-- `hex_value`. -/
def hexValue (ch : UInt8) : UInt8 :=
  if '0'.toUInt8 ≤ ch ∧ ch ≤ '9'.toUInt8 then ch - '0'.toUInt8
  else if 'a'.toUInt8 ≤ ch ∧ ch ≤ 'f'.toUInt8 then 10 + (ch - 'a'.toUInt8)
  else if 'A'.toUInt8 ≤ ch ∧ ch ≤ 'F'.toUInt8 then 10 + (ch - 'A'.toUInt8)
  else 0xFF

/-- `parse_hex_u64`. -/
def parseHexU64 (s : List UInt8) : Option UInt64 :=
  Debug.parseHexU64 (fun ch => if hexValue ch > 0x0F then none else some (hexValue ch)) s

/-- `parse_line_record`. -/
def parseLineRecord (line : List UInt8) : Option LineRecord := lineRecord parseHexU64 line

/-- The end of `next_line`: a carriage return at the end of a line is no part of it. -/
def trimCr (line : List UInt8) : List UInt8 :=
  if line.getLast? = some CR then line.dropLast else line

/-- The lines behind the header, where `attach_lines_from_map` accepts it. -/
def mapLines (text : List UInt8) : Option (List (List UInt8)) :=
  if text = [] then none
  else if trimCr (findLineEnd text) ≠ VKLINES1 then none
  else some ((lines (nextCursor text)).map trimCr)

/-- A line of the loops of `attach_lines_from_map`: empty lines and empty paths are skipped. -/
def acceptLine (line : List UInt8) : Option LineRecord :=
  if line = [] then none
  else
    match parseLineRecord line with
    | none => none
    | some r => if r.path = [] then none else some r

/-- The records of a text, if there are any, without the filter for the range of the image. -/
def extractLines (text : List UInt8) : Option (List LineRecord) := do
  let body ← mapLines text
  let records := body.filterMap acceptLine
  if records = [] then none else some records

end VKernel.ProcessDebug

namespace VKernel.Debug

/-- The readers accept the same and take the same records from it. -/
def ReadersAgree (text : List UInt8) : Prop :=
  KernelDebug.extractLines text = ProcessDebug.extractLines text

/-- No carriage return in front of a newline makes a difference:

- `header`: where one ends the header, nothing behind it is a record for the reader of programs;
- `records`: behind a header without one, no line with one is a record for the reader of the kernel.
-/
structure LineEndingsAgree (text : List UInt8) : Prop where
  header : findLineEnd text = VKLINES1 ++ [CR] → ∀ line ∈ lines (nextCursor text),
    ProcessDebug.parseLineRecord (ProcessDebug.trimCr line) = none
  records : findLineEnd text = VKLINES1 → ∀ line ∈ lines (nextCursor text),
    line.getLast? = some CR → KernelDebug.parseLineRecord line = none

end VKernel.Debug

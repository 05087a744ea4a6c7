import VKernel.Kobj.Listing

/-!
# `VKernel.Kobj.Rpc`: JSON texts, from `rpc.cpp`

A text is read through a `const char*` and is a `CString` here. The output of the append functions
is what stands in the buffer in front of the terminator, as in `Listing`.

`json_extract_string_buffer` looks for its pattern at every index of the text. `searchMember` is
this loop over the ends of the text, `memberAt` is its body, and `readString` is the loop that
copies the value.
-/

set_option autoImplicit false

namespace VKernel.Kobj

def quote : UInt8 := '"'.toUInt8

def backslash : UInt8 := '\\'.toUInt8

def colon : UInt8 := ':'.toUInt8

def comma : UInt8 := ','.toUInt8

/-! ### Writing -/

/-- `append_str`. -/
def appendStr (cap : Nat) (out s : List UInt8) : List UInt8 := s.foldl (appendCh cap) out

/-- What `append_json_escaped` writes for a character. -/
def jsonEscape (ch : UInt8) : List UInt8 :=
  if ch = quote then [backslash, quote]
  else if ch = backslash then [backslash, backslash]
  else if ch = '\n'.toUInt8 then [backslash, 'n'.toUInt8]
  else if ch = '\r'.toUInt8 then [backslash, 'r'.toUInt8]
  else if ch = '\t'.toUInt8 then [backslash, 't'.toUInt8]
  else [ch]

/-- `append_json_escaped`. -/
def appendJsonEscaped (cap : Nat) (out : List UInt8) (s : CString) : List UInt8 :=
  s.chars.foldl (fun out ch => appendStr cap out (jsonEscape ch)) out

/-! ### Reading -/

/-- The characters that `json_extract_string_buffer` skips. -/
def isJsonSpace (ch : UInt8) : Bool :=
  ch == ' '.toUInt8 || ch == '\t'.toUInt8 || ch == '\n'.toUInt8 || ch == '\r'.toUInt8

def skipJsonSpaces (text : List UInt8) : List UInt8 := text.dropWhile isJsonSpace

/-- The character that an escape stands for. -/
def jsonUnescape (esc : UInt8) : UInt8 :=
  if esc = 'n'.toUInt8 then '\n'.toUInt8
  else if esc = 'r'.toUInt8 then '\r'.toUInt8
  else if esc = 't'.toUInt8 then '\t'.toUInt8
  else esc

/-- The loop that copies a value, with the room that is left for it. A backslash at the end of the
text stands for itself. -/
def readString : Nat → List UInt8 → List UInt8
  | 0, _ => []
  | _ + 1, [] => []
  | room + 1, ch :: rest =>
    if ch = quote then []
    else if ch = backslash then
      match rest with
      | [] => [ch]
      | esc :: rest => jsonUnescape esc :: readString room rest
    else ch :: readString room rest

/-- What stands behind a match of the pattern: a colon, and the value in quotes. -/
def memberValue (outCap : Nat) (text : List UInt8) : Option (List UInt8) :=
  match skipJsonSpaces text with
  | [] => none
  | ch :: rest =>
    if ch ≠ colon then none
    else
      match skipJsonSpaces rest with
      | [] => none
      | ch :: body => if ch ≠ quote then none else some (readString (outCap - 1) body)

/-- The body of the search, at an index of the text. -/
def memberAt (pattern : List UInt8) (outCap : Nat) (text : List UInt8) : Option (List UInt8) :=
  if pattern <+: text then memberValue outCap (text.drop pattern.length) else none

/-- The search of `json_extract_string_buffer`. -/
def searchMember (pattern : List UInt8) (outCap : Nat) : List UInt8 → Option (List UInt8)
  | [] => none
  | ch :: rest =>
    (memberAt pattern outCap (ch :: rest)).or (searchMember pattern outCap rest)

/-- The size of the array `pattern`. -/
def JSON_PATTERN_SIZE : Nat := 32

/-- `json_extract_string_buffer`, with `none` for false. -/
def jsonExtractStringBuffer (json key : CString) (outCap : Nat) : Option (List UInt8) :=
  if outCap = 0 then none
  else if key.chars.length + 3 ≥ JSON_PATTERN_SIZE then none
  else searchMember (quote :: key.chars ++ [quote]) outCap json.chars

end VKernel.Kobj

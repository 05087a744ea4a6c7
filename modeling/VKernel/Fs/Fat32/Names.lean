import VKernel.Fs.Streams
import VKernel.Lib.LittleEndian

/-!
# `VKernel.Fs.Fat32.Names`: directory entries and the names they carry

A directory of `fat32.cpp` is a sequence of 32-byte slots. A slot is read as a `FATEntry`, or,
when its attributes say so, as a `FATLongFileNameEntry`: `FatEntry` and `LfnEntry` are the
two, with the packed layout of the source in `byte` and `ofBytes`. Since `FatEntry` has a
field for each of the 32 bytes, the raw content of a slot is a `FatEntry` here, and
`LfnEntry.ofEntry` is the `reinterpret_cast`.

A name is a list of bytes. `isValidSfnName` chooses between the two encodings: `encodeSfn`
with `encodeCaseInfo`, or an alias (`sfnAlias`) with long-name slots (`createLfnEntries`).
`decodeShortName` and `decodeLfnName` are the way back.
-/

set_option autoImplicit false

namespace VKernel.Fs.Fat32

open VKernel.Lib

/-! ### Constants -/

/-- `ATTR_VOLUME_ID`. -/
def ATTR_VOLUME_ID : UInt8 := 0x08

/-- `ATTR_DIRECTORY`. -/
def ATTR_DIRECTORY : UInt8 := 0x10

/-- `ATTR_ARCHIVE`. -/
def ATTR_ARCHIVE : UInt8 := 0x20

/-- `ATTR_LONG_FILE_NAME`. -/
def ATTR_LONG_FILE_NAME : UInt8 := 0x0F

/-- `CASE_INFO_BASE_LOWER`. -/
def CASE_INFO_BASE_LOWER : UInt8 := 0x08

/-- `CASE_INFO_EXT_LOWER`. -/
def CASE_INFO_EXT_LOWER : UInt8 := 0x10

/-- `DIR_ENTRY_END`. -/
def DIR_ENTRY_END : UInt8 := 0x00

/-- `DIR_ENTRY_UNUSED`. -/
def DIR_ENTRY_UNUSED : UInt8 := 0xE5

/-- `LFN_LAST_ENTRY_MASK`. -/
def LFN_LAST_ENTRY_MASK : UInt8 := 0x40

/-- `MAX_LFN_ENTRIES`. -/
def MAX_LFN_ENTRIES : Nat := 20

/-! ### Slots -/

/-- `FATEntry`. -/
structure FatEntry where
  filename : Vector UInt8 8
  extension : Vector UInt8 3
  attributes : UInt8
  caseInfo : UInt8
  creationTimeTenths : UInt8
  creationTime : UInt16
  creationDate : UInt16
  lastAccessedDate : UInt16
  firstClusterHigh : UInt16
  modificationTime : UInt16
  modificationDate : UInt16
  firstClusterLow : UInt16
  fileSize : UInt32
  deriving DecidableEq

/-- A `u16` of a packed structure. -/
def u16At (b : Buffer) (offset : Nat) : UInt16 := UInt16.ofNat (leValue b offset 2)

/-- A `u32` of a packed structure. -/
def u32At (b : Buffer) (offset : Nat) : UInt32 := UInt32.ofNat (leValue b offset 4)

/-- The 32 bytes at the start of a buffer as a `FATEntry`. -/
def FatEntry.ofBytes (b : Buffer) : FatEntry where
  filename := .ofFn fun i => b i
  extension := .ofFn fun i => b (8 + i)
  attributes := b 11
  caseInfo := b 12
  creationTimeTenths := b 13
  creationTime := u16At b 14
  creationDate := u16At b 16
  lastAccessedDate := u16At b 18
  firstClusterHigh := u16At b 20
  modificationTime := u16At b 22
  modificationDate := u16At b 24
  firstClusterLow := u16At b 26
  fileSize := u32At b 28

/-- Byte `i` of the packed structure. -/
def FatEntry.byte (e : FatEntry) : Buffer := fun i =>
  if h : i < 8 then e.filename.get ⟨i, h⟩
  else if h : i - 8 < 3 then e.extension.get ⟨i - 8, h⟩
  else if i = 11 then e.attributes
  else if i = 12 then e.caseInfo
  else if i = 13 then e.creationTimeTenths
  else if i < 16 then leByte e.creationTime.toNat (i - 14)
  else if i < 18 then leByte e.creationDate.toNat (i - 16)
  else if i < 20 then leByte e.lastAccessedDate.toNat (i - 18)
  else if i < 22 then leByte e.firstClusterHigh.toNat (i - 20)
  else if i < 24 then leByte e.modificationTime.toNat (i - 22)
  else if i < 26 then leByte e.modificationDate.toNat (i - 24)
  else if i < 28 then leByte e.firstClusterLow.toNat (i - 26)
  else if i < 32 then leByte e.fileSize.toNat (i - 28)
  else 0

/-- `FATEntry entry {}`. -/
def FatEntry.zero : FatEntry := .ofBytes fun _ => 0

/-- The first byte of a slot, which tells its state. -/
def FatEntry.firstByte (e : FatEntry) : UInt8 := e.filename.get 0

/-- `first_cluster`. -/
def FatEntry.firstCluster (e : FatEntry) : Nat :=
  e.firstClusterHigh.toNat * 2 ^ 16 + e.firstClusterLow.toNat

/-- `is_directory`. -/
def FatEntry.isDirectory (e : FatEntry) : Bool := e.attributes &&& ATTR_DIRECTORY != 0

/-- The 11 bytes that `sfn_exists` compares: `filename` and `extension`. -/
def FatEntry.shortName (e : FatEntry) : List UInt8 := e.filename.toList ++ e.extension.toList

/-- `FATLongFileNameEntry`. The 13 characters are `name1`, `name2` and `name3` in order, the
order in which `set_lfn_character` and `decode_lfn_name` count them. -/
structure LfnEntry where
  order : UInt8
  characters : Vector UInt16 13
  attributes : UInt8
  entryType : UInt8
  checksum : UInt8
  firstClusterLow : UInt16
  deriving DecidableEq

/-- The offset of a character in the packed structure. -/
def lfnOffset (i : Nat) : Nat :=
  if i < 5 then 1 + 2 * i else if i < 11 then 14 + 2 * (i - 5) else 28 + 2 * (i - 11)

/-- A slot as a `FATLongFileNameEntry`. -/
def LfnEntry.ofEntry (e : FatEntry) : LfnEntry where
  order := e.byte 0
  characters := .ofFn fun i => u16At e.byte (lfnOffset i)
  attributes := e.byte 11
  entryType := e.byte 12
  checksum := e.byte 13
  firstClusterLow := u16At e.byte 26

/-- Byte `i` of the packed structure. -/
def LfnEntry.byte (e : LfnEntry) : Buffer := fun i =>
  if i = 0 then e.order
  else if h : (i - 1) / 2 < 5 then
    leByte (e.characters.get ⟨(i - 1) / 2, by omega⟩).toNat ((i - 1) % 2)
  else if i = 11 then e.attributes
  else if i = 12 then e.entryType
  else if i = 13 then e.checksum
  else if h : (i - 14) / 2 < 6 then
    leByte (e.characters.get ⟨5 + (i - 14) / 2, by omega⟩).toNat ((i - 14) % 2)
  else if i < 28 then leByte e.firstClusterLow.toNat (i - 26)
  else if h : (i - 28) / 2 < 2 then
    leByte (e.characters.get ⟨11 + (i - 28) / 2, by omega⟩).toNat ((i - 28) % 2)
  else 0

/-! ### Characters -/

/-- `ascii_upper`. -/
def asciiUpper (ch : UInt8) : UInt8 :=
  if 'a'.toUInt8 ≤ ch ∧ ch ≤ 'z'.toUInt8 then ch - 'a'.toUInt8 + 'A'.toUInt8 else ch

/-- `ascii_lower`. -/
def asciiLower (ch : UInt8) : UInt8 :=
  if 'A'.toUInt8 ≤ ch ∧ ch ≤ 'Z'.toUInt8 then ch - 'A'.toUInt8 + 'a'.toUInt8 else ch

/-- `is_ascii_alnum`. -/
def isAsciiAlnum (ch : UInt8) : Bool :=
  let upper := asciiUpper ch
  decide ('A'.toUInt8 ≤ upper ∧ upper ≤ 'Z'.toUInt8) ||
    decide ('0'.toUInt8 ≤ ch ∧ ch ≤ '9'.toUInt8)

/-- The characters that `is_valid_sfn_char` accepts besides letters and digits; the first is
the apostrophe. -/
def sfnPunctuation : List UInt8 :=
  0x27 :: ['$', '%', '-', '_', '@', '~', '!', '(', ')', '^', '#', '&'].map Char.toUInt8

/-- `is_valid_sfn_char`. -/
def isValidSfnChar (ch : UInt8) : Bool :=
  let upper := asciiUpper ch
  isAsciiAlnum upper || sfnPunctuation.contains upper

/-! ### Short names -/

/-- `split_name_for_alias`: the parts before and after the last dot. -/
def splitNameForAlias : List UInt8 → List UInt8 × List UInt8
  | [] => ([], [])
  | ch :: rest =>
    if '.'.toUInt8 ∈ rest then
      let (base, extension) := splitNameForAlias rest
      (ch :: base, extension)
    else if ch = '.'.toUInt8 then ([], rest)
    else (ch :: rest, [])

/-- `is_valid_sfn_name`. -/
def isValidSfnName (name : List UInt8) : Bool :=
  if name = [] then false
  else if name.any fun ch => isSeparator ch || ch == ' '.toUInt8 then false
  else if name.count '.'.toUInt8 > 1 then false
  else
    let (base, extension) := splitNameForAlias name
    if base = [] ∨ base.length > 8 ∨ extension.length > 3 then false
    else base.all isValidSfnChar && extension.all isValidSfnChar

/-- A field of a short name: the characters from the start, then spaces. -/
def sfnField (n : Nat) (chars : List UInt8) : Vector UInt8 n :=
  .ofFn fun i => chars.getD i ' '.toUInt8

/-- `encode_sfn`. -/
def encodeSfn (e : FatEntry) (name : List UInt8) : FatEntry :=
  let (base, extension) := splitNameForAlias name
  { e with filename := sfnField 8 (base.map asciiUpper)
           extension := sfnField 3 (extension.map asciiUpper) }

/-- `component_has_lowercase`. -/
def componentHasLowercase (value : List UInt8) : Bool :=
  value.any fun ch => decide ('a'.toUInt8 ≤ ch ∧ ch ≤ 'z'.toUInt8)

/-- `encode_case_info`. -/
def encodeCaseInfo (name : List UInt8) : UInt8 :=
  let (base, extension) := splitNameForAlias name
  let caseInfo := if base ≠ [] ∧ componentHasLowercase base then CASE_INFO_BASE_LOWER else 0
  if extension ≠ [] ∧ componentHasLowercase extension then caseInfo ||| CASE_INFO_EXT_LOWER
  else caseInfo

/-- `decode_short_name`. The name has at most 12 characters, so that the assignment of it
succeeds. -/
def decodeShortName (e : FatEntry) : List UInt8 :=
  let lowerBase := e.caseInfo &&& CASE_INFO_BASE_LOWER != 0
  let lowerExt := e.caseInfo &&& CASE_INFO_EXT_LOWER != 0
  let base := (e.filename.toList.takeWhile (· != ' '.toUInt8)).map
    fun ch => if lowerBase then asciiLower ch else ch
  if e.extension.get 0 ≠ ' '.toUInt8 then
    base ++ '.'.toUInt8 :: (e.extension.toList.takeWhile (· != ' '.toUInt8)).map
      fun ch => if lowerExt then asciiLower ch else ch
  else base

/-! ### Aliases -/

/-- The character that `sanitize_component` stores for one of its input, if any. -/
def sanitizeChar (ch : UInt8) : Option UInt8 :=
  let upper := asciiUpper ch
  if isAsciiAlnum upper || ['_', '$', '-', '~'].any fun c => upper == c.toUInt8 then some upper
  else if ch = ' '.toUInt8 ∨ ch = '.'.toUInt8 then none
  else some '_'.toUInt8

/-- `sanitize_component` with an output buffer of `outputCap` bytes. -/
def sanitizeComponent (input : List UInt8) (outputCap : Nat) : List UInt8 :=
  (input.filterMap sanitizeChar).take outputCap

/-- The first loop of `render_decimal`: the digits from the lowest on, at most `count`. -/
def decimalDigits : Nat → Nat → List UInt8
  | 0, _ => []
  | count + 1, value =>
    if value > 0 then ('0'.toUInt8 + UInt8.ofNat (value % 10)) :: decimalDigits count (value / 10)
    else []

/-- `render_decimal` of a positive value. -/
def renderDecimal (value outCap : Nat) : List UInt8 :=
  ((decimalDigits 16 value).reverse).take outCap

/-- The body of the loop of `generate_unique_sfn`: the alias with a number. -/
def sfnAlias (base extension : List UInt8) (unique : Nat) : List UInt8 :=
  let digits := renderDecimal unique 4
  let prefixLen := min (8 - 1 - digits.length) base.length
  let prefixLen := if prefixLen = 0 then 1 else prefixLen
  (sfnField 8 (base.take prefixLen ++ '~'.toUInt8 :: digits)).toList ++
    (sfnField 3 (extension.take 3)).toList

/-- The base and the extension that `generate_unique_sfn` makes aliases of. -/
def aliasParts (name : List UInt8) : List UInt8 × List UInt8 :=
  let (baseName, extensionName) := splitNameForAlias name
  let base := sanitizeComponent baseName 64
  (if base = [] then ['F', 'I', 'L', 'E'].map Char.toUInt8 else base,
    sanitizeComponent extensionName 16)

/-- The two copies at the end of `generate_unique_sfn`. -/
def FatEntry.setShortName (e : FatEntry) (shortName : List UInt8) : FatEntry :=
  { e with filename := sfnField 8 shortName, extension := sfnField 3 (shortName.drop 8) }

/-! ### Long names -/

/-- `lfn_checksum`. -/
def lfnChecksum (e : FatEntry) : UInt8 :=
  e.shortName.foldl (fun checksum ch => (checksum <<< 7) + (checksum >>> 1) + ch) 0

/-- The characters of one long-name slot: a fragment of the name, a terminator when it is
shorter than 13, and padding. -/
def lfnCharacters (fragment : List UInt8) : Vector UInt16 13 :=
  .ofFn fun i =>
    if i < fragment.length then (fragment.getD i 0).toUInt16
    else if i = fragment.length then 0x0000 else 0xFFFF

/-- The body of the loop of `create_lfn_entries`. -/
def lfnEntry (name : List UInt8) (checksum : UInt8) (entryCount index : Nat) : LfnEntry where
  order := if index + 1 = entryCount then UInt8.ofNat (index + 1) ||| LFN_LAST_ENTRY_MASK
    else UInt8.ofNat (index + 1)
  characters := lfnCharacters ((name.drop (index * 13)).take 13)
  attributes := ATTR_LONG_FILE_NAME
  entryType := 0
  checksum := checksum
  firstClusterLow := 0

/-- `create_lfn_entries`. -/
def createLfnEntries (name : List UInt8) (checksum : UInt8) : Option (List LfnEntry) :=
  let entryCount := (name.length + 12) / 13
  if entryCount = 0 ∨ entryCount > MAX_LFN_ENTRIES then none
  else some ((List.range entryCount).map (lfnEntry name checksum entryCount))

/-- `append_lfn_character` into a buffer of `cap` bytes, and whether the name is done. -/
def appendLfnCharacter (cap : Nat) (out : List UInt8) (value : UInt16) : List UInt8 × Bool :=
  if value = 0x0000 then (out, true)
  else if value = 0xFFFF then (out, false)
  else if out.length + 1 ≥ cap then (out, true)
  else (out ++ [if value < 0x80 then value.toUInt8 else '?'.toUInt8], false)

/-- The loops of `decode_lfn_name` over the characters, until one says that the name is done. -/
def collectLfnCharacters (cap : Nat) : List UInt8 → List UInt16 → List UInt8
  | out, [] => out
  | out, value :: rest =>
    match appendLfnCharacter cap out value with
    | (out, true) => out
    | (out, false) => collectLfnCharacters cap out rest

/-- `decode_lfn_name`. The name has at most 255 characters, so that the assignment of it
succeeds. -/
def decodeLfnName (e : FatEntry) (pending : List LfnEntry) : Option (List UInt8) :=
  if pending = [] then none
  else if pending.any fun lfn => lfn.checksum != lfnChecksum e then none
  else
    some (collectLfnCharacters 256 [] (pending.reverse.flatMap fun lfn => lfn.characters.toList))

end VKernel.Fs.Fat32

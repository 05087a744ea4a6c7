import Mathlib.Data.List.DropRight
import VKernel.Types
import VKernel.Debug.LineMap
import VKernel.Lib.KeyedTable
import VKernel.Loader.Elf

/-!
# `VKernel.Debug.Tables`: symbol tables and line tables

`kernel_debug.cpp` and `process_debug.cpp` build four tables: of symbols and of source lines, for
the kernel and for programs. A builder goes twice over the same items, the lines of a map or the
symbols of an ELF file. The first pass counts what it accepts, and the second one fills a storage of
that size: entries in front, names behind them. An entry keeps the place of its name in 32 bits.
Then the entries are sorted by address, and a lookup searches them by halving.

Here the passes, the sort and the lookup are written once, for the functions with which the passes
accept an item. The builders follow under the names of the source. Nothing in the source checks a
write of the second pass, so the model does: one that leaves its part of the storage stops the
builder with `Outside`.

The heap is `alloc`: whether it has a number of bytes. A reading of the file system is a parameter
as well. Signed sums of addresses are taken to wrap.
-/

set_option autoImplicit false

namespace VKernel.Debug

open VKernel.Lib

/-! ### Records and entries -/

/-- What an item of a map or a file says. `info` is the size of a symbol or the number of a line. -/
structure Record (ι : Type) where
  address : UInt64
  info : ι
  name : List UInt8
  deriving DecidableEq, Repr

/-- `kernel_symbol_entry`, `kernel_line_entry`, `process_symbol` and `process_line`. -/
structure Entry (ι : Type) where
  address : UInt64
  info : ι
  nameOffset : UInt32
  deriving DecidableEq, Repr

/-- `sizeof` of an entry, the same for the four kinds. -/
def ENTRY_SIZE : Nat := 16

/-- The two parts of a storage, as far as they are written. -/
structure Table (ι : Type) where
  entries : List (Entry ι)
  strings : List UInt8
  deriving DecidableEq, Repr

/-- The sizes of a storage. The names begin behind `entriesBytes`. -/
structure Storage where
  entriesBytes : Nat
  totalBytes : Nat
  deriving DecidableEq, Repr

/-- A write that leaves its part of the storage. -/
inductive Outside where
  | entry (index : Nat)
  | string (offset length : Nat)
  deriving DecidableEq, Repr

/-! ### The passes -/

section Passes

variable {τ ι : Type}

/-- `count` and `string_bytes`, of type `usize`. -/
structure Counts where
  count : Nat
  bytes : Nat
  deriving DecidableEq, Repr

/-- A round of a counting pass. The item is accepted with a name of a known length. -/
def countStep (count : τ → Option Nat) (c : Counts) (item : τ) : Counts :=
  match count item with
  | none => c
  | some length => ⟨add64 c.count 1, add64 c.bytes (length + 1)⟩

def countPass (count : τ → Option Nat) (items : List τ) : Counts :=
  items.foldl (countStep count) ⟨0, 0⟩

/-- `entries_bytes` and `total_bytes`. -/
def Counts.storage (c : Counts) : Storage where
  entriesBytes := c.count * ENTRY_SIZE % U64
  totalBytes := add64 (c.count * ENTRY_SIZE % U64) c.bytes

/-- `entries[next_entry++] = entry`. -/
def writeEntry (s : Storage) (t : Table ι) (entry : Entry ι) : Except Outside (Table ι) :=
  if t.entries.length * ENTRY_SIZE + ENTRY_SIZE ≤ min s.entriesBytes s.totalBytes then
    .ok { t with entries := t.entries ++ [entry] }
  else .error (.entry t.entries.length)

/-- `memory::copy` to `strings + next_string`, and the byte behind the name. -/
def writeString (s : Storage) (t : Table ι) (name : List UInt8) : Except Outside (Table ι) :=
  if s.entriesBytes + (t.strings.length + (name.length + 1)) ≤ s.totalBytes then
    .ok { t with strings := t.strings ++ (name ++ [0]) }
  else .error (.string t.strings.length (name.length + 1))

/-- A round of a filling pass. `next_string` is cut to 32 bits for the entry. -/
def fillStep (fill : τ → Option (Record ι)) (s : Storage) (t : Table ι) (item : τ) :
    Except Outside (Table ι) :=
  match fill item with
  | none => .ok t
  | some r => do
    let t ← writeEntry s t ⟨r.address, r.info, UInt32.ofNat t.strings.length⟩
    writeString s t r.name

def fillPass (fill : τ → Option (Record ι)) (s : Storage) (items : List τ) :
    Except Outside (Table ι) :=
  items.foldlM (fillStep fill s) ⟨[], []⟩

/-- How the passes of a builder accept an item. -/
structure Passes (τ ι : Type) where
  count : τ → Option Nat
  fill : τ → Option (Record ι)

/-- The key of the sorts and of the searches. -/
def Entry.key (e : Entry ι) : Nat := e.address.toNat

/-- `sort_symbols_by_address` and `sort_lines_by_address`. -/
def sortByAddress (es : List (Entry ι)) : List (Entry ι) := KeyedTable.sortByKey Entry.key es

/-- What the builders have in common: `none` where they return `false`. -/
def buildTable (alloc : Nat → Bool) (p : Passes τ ι) (items : List τ) :
    Except Outside (Option (Table ι)) :=
  let c := countPass p.count items
  if c.count = 0 ∨ c.bytes = 0 then .ok none
  else if ¬ alloc c.storage.totalBytes then .ok none
  else do
    let t ← fillPass p.fill c.storage items
    return some { t with entries := sortByAddress t.entries }

/-- `resolved_symbol` and `resolved_source_location`. The pointer to the name is what is left of the
names behind it. -/
structure Found (ι : Type) where
  name : List UInt8
  address : UInt64
  offset : UInt64
  info : ι
  deriving DecidableEq, Repr

end Passes

end VKernel.Debug

namespace VKernel.KernelDebug

open VKernel.Debug VKernel.Lib

variable {ι : Type}

/-! ### The kernel -/

/-- `is_space`. -/
def isSpace (ch : UInt8) : Bool := ch == ' '.toUInt8 || ch == TAB || ch == CR

/-- `is_text_symbol_type`. -/
def isTextSymbolType (ch : UInt8) : Bool :=
  ch == 'T'.toUInt8 || ch == 't'.toUInt8 || ch == 'W'.toUInt8 || ch == 'w'.toUInt8

/-- The part of the loops of `count_symbols_in_map` and `build_symbol_table_from_map` behind the
digits. -/
def symbolName (rest : List UInt8) : Option (List UInt8) :=
  match rest.dropWhile isSpace with
  | [] => none
  | ch :: rest =>
    if ¬ isTextSymbolType ch then none
    else
      let p := rest.dropWhile isSpace
      if p = [] then none
      else
        let name := p.rdropWhile isSpace
        if name = [] then none else some name

/-- A line of `count_symbols_in_map`. -/
def countSymbol (line : List UInt8) : Option Nat :=
  let p := line.dropWhile isSpace
  if p.takeWhile isHexDigit = [] then none
  else (symbolName (p.dropWhile isHexDigit)).map List.length

/-- A line of `build_symbol_table_from_map`. -/
def fillSymbol (line : List UInt8) : Option (Record Unit) :=
  let p := line.dropWhile isSpace
  match parseHexU64 (p.takeWhile isHexDigit) with
  | none => none
  | some address => (symbolName (p.dropWhile isHexDigit)).map fun name => ⟨address, (), name⟩

def symbolPasses : Passes (List UInt8) Unit := ⟨countSymbol, fillSymbol⟩

/-- `build_symbol_table_from_map`. -/
def buildSymbolTableFromMap (alloc : Nat → Bool) (text : List UInt8) :
    Except Outside (Option (Table Unit)) :=
  if text = [] then .ok none else buildTable alloc symbolPasses (lines text)

/-- Both passes read a line of a line map with `parse_line_record`. -/
def fillLine (line : List UInt8) : Option (Record UInt32) :=
  (parseLineRecord line).map fun r => ⟨r.address, r.line, r.path⟩

def linePasses : Passes (List UInt8) UInt32 :=
  ⟨fun line => (parseLineRecord line).map fun r => r.path.length, fillLine⟩

/-- `build_line_table_from_map`. -/
def buildLineTableFromMap (alloc : Nat → Bool) (text : List UInt8) :
    Except Outside (Option (Table UInt32)) :=
  match mapLines text with
  | none => .ok none
  | some body => buildTable alloc linePasses body

/-- `lookup_symbol` and `lookup_source_location`, for the table that is loaded. -/
def lookup (table : Option (Table ι)) (imageBase address : UInt64) : Option (Found ι) :=
  match table with
  | none => none
  | some t =>
    if address < imageBase then none
    else
      (KeyedTable.floorEntry Entry.key t.entries (address - imageBase).toNat).map fun e =>
        { name := t.strings.drop e.nameOffset.toNat
          address := imageBase + e.address
          offset := address - imageBase - e.address
          info := e.info }

end VKernel.KernelDebug

namespace VKernel.ProcessDebug

open VKernel.Debug VKernel.Lib VKernel.Loader

variable {ι : Type}

/-! ### Programs -/

/-- The fields of `process_task_context` that the builders read. -/
structure ProcessTaskContext where
  imageBase : UInt64
  imageSize : UInt64
  deriving DecidableEq, Repr

/-- `runtime_address` lies in the image. The sum for its end wraps. -/
def ProcessTaskContext.covers (ctx : ProcessTaskContext) (address : UInt64) : Bool :=
  ctx.imageBase ≤ address && address < ctx.imageBase + ctx.imageSize

def ELF_MAGIC : List UInt8 := [0x7F, 'E'.toUInt8, 'L'.toUInt8, 'F'.toUInt8]

/-- The least address of the `PT_LOAD` segments, where the table of them is in the file. -/
def loadSegmentMin (file : List UInt8) : Option Nat :=
  let ehdr := parseEhdr file
  if ehdr.phoff ≠ 0 ∧ 0 < ehdr.phnum ∧ ehdr.phentsize = PHDR_SIZE ∧
      rangeOk file.length ehdr.phoff (ehdr.phnum * PHDR_SIZE) then
    (parsePhdrs file ehdr).foldl (fun least ph =>
      if ph.type ≠ PT_LOAD then least
      else
        match least with
        | none => some ph.vaddr
        | some v => if ph.vaddr < v then some ph.vaddr else some v) none
  else none

/-- `compute_elf_load_bias`. -/
def computeElfLoadBias (ctx : ProcessTaskContext) (file : List UInt8) : Option UInt64 :=
  if ctx.imageBase = 0 ∨ file.length < EHDR_SIZE then none
  else if (parseEhdr file).ident.take 4 ≠ ELF_MAGIC then none
  else (loadSegmentMin file).map fun vaddrMin => ctx.imageBase - UInt64.ofNat vaddrMin

/-! #### Symbols -/

def SHDR_SIZE : Nat := 64

def SYM_SIZE : Nat := 24

def SHT_SYMTAB : Nat := 2

def SHT_STRTAB : Nat := 3

def SHN_UNDEF : Nat := 0

def STT_FUNC : Nat := 2

/-- `Elf64_Shdr`, the fields that are read. -/
structure Shdr where
  type : Nat
  offset : Nat
  size : Nat
  link : Nat
  entsize : Nat
  deriving DecidableEq, Repr

/-- `Elf64_Sym`. -/
structure Sym where
  name : Nat
  info : Nat
  shndx : Nat
  value : UInt64
  size : Nat
  deriving DecidableEq, Repr

section File

variable (file : List UInt8)

/-- The section header at an offset of the file. -/
def parseShdr (base : Nat) : Shdr where
  type := leValue (fileByte file) (base + 4) 4
  offset := leValue (fileByte file) (base + 24) 8
  size := leValue (fileByte file) (base + 32) 8
  link := leValue (fileByte file) (base + 40) 4
  entsize := leValue (fileByte file) (base + 56) 8

/-- The symbol at an offset of the file. -/
def parseSym (base : Nat) : Sym where
  name := leValue (fileByte file) base 4
  info := leValue (fileByte file) (base + 4) 1
  shndx := leValue (fileByte file) (base + 6) 2
  value := UInt64.ofNat (leValue (fileByte file) (base + 8) 8)
  size := leValue (fileByte file) (base + 16) 8

/-- `e_shoff`. -/
def shoff : Nat := leValue (fileByte file) 40 8

/-- `e_shentsize`. -/
def shentsize : Nat := leValue (fileByte file) 58 2

/-- `e_shnum`. -/
def shnum : Nat := leValue (fileByte file) 60 2

/-- The section headers, where the table of them is in the file. -/
def sections : Option (List Shdr) :=
  if shoff file = 0 ∨ shnum file = 0 ∨ shentsize file ≠ SHDR_SIZE then none
  else if ¬ rangeOk file.length (shoff file) (shnum file * SHDR_SIZE) then none
  else some ((List.range (shnum file)).map fun i => parseShdr file (shoff file + i * SHDR_SIZE))

/-- A round of the search for the symbols: a section of symbols, and the one of their names. -/
def symtabWithNames (shdrs : List Shdr) (sh : Shdr) : Option (Shdr × Shdr) :=
  if sh.type ≠ SHT_SYMTAB then none
  else if sh.entsize ≠ SYM_SIZE then none
  else
    match shdrs[sh.link]? with
    | none => none
    | some linked =>
      if linked.type ≠ SHT_STRTAB then none
      else if ¬ rangeOk file.length sh.offset sh.size ∨
          ¬ rangeOk file.length linked.offset linked.size then none
      else some (sh, linked)

/-- The symbols and the names, where `attach_symbols_from_elf` gets to them. -/
def symtab : Option (List Sym × List UInt8) := do
  let shdrs ← sections file
  let found ← shdrs.findSome? (symtabWithNames file shdrs)
  if found.1.size = 0 then none
  else
    let syms := (List.range (found.1.size / SYM_SIZE)).map fun i =>
      parseSym file (found.1.offset + i * SYM_SIZE)
    return (syms, (file.drop found.2.offset).take found.2.size)

end File

/-- The name of a symbol: it ends inside of the names. -/
def symName (strtab : List UInt8) (name : Nat) : Option (List UInt8) :=
  let text := strtab.drop name
  let front := text.takeWhile (· != 0)
  if front.length = text.length ∨ front = [] then none else some front

/-- A round of the first pass of `attach_symbols_from_elf`. -/
def countSym (ctx : ProcessTaskContext) (loadBias : UInt64) (strtab : List UInt8) (sym : Sym) :
    Option Nat :=
  if sym.shndx = SHN_UNDEF ∨ sym.name = 0 then none
  else if sym.info % 16 ≠ STT_FUNC ∨ strtab.length ≤ sym.name then none
  else if ¬ ctx.covers (sym.value + loadBias) then none
  else (symName strtab sym.name).map List.length

/-- A round of the second pass, which makes the tests again. -/
def fillSym (ctx : ProcessTaskContext) (loadBias : UInt64) (strtab : List UInt8) (sym : Sym) :
    Option (Record UInt32) :=
  if sym.shndx = SHN_UNDEF ∨ sym.name = 0 then none
  else if sym.info % 16 ≠ STT_FUNC ∨ strtab.length ≤ sym.name then none
  else if ¬ ctx.covers (sym.value + loadBias) then none
  else
    (symName strtab sym.name).map fun name =>
      ⟨sym.value + loadBias, UInt32.ofNat (min sym.size 0xFFFFFFFF), name⟩

def symPasses (ctx : ProcessTaskContext) (loadBias : UInt64) (strtab : List UInt8) :
    Passes Sym UInt32 :=
  ⟨countSym ctx loadBias strtab, fillSym ctx loadBias strtab⟩

/-- `attach_symbols_from_elf`: what becomes of `ctx->symbols`. -/
def attachSymbolsFromElf (alloc : Nat → Bool) (ctx : ProcessTaskContext) (file : List UInt8) :
    Except Outside (Option (Table UInt32)) :=
  match computeElfLoadBias ctx file, symtab file with
  | some loadBias, some (syms, strtab) => buildTable alloc (symPasses ctx loadBias strtab) syms
  | _, _ => .ok none

/-! #### Lines -/

/-- The capacity of a `static_string<256>`. -/
def PATH_CAPACITY : Nat := 255

def LINE_MAP_DIRECTORY : List UInt8 := "/data/debug/lines/".toList.map Char.toUInt8

def LINE_MAP_SUFFIX : List UInt8 := ".lines".toList.map Char.toUInt8

/-- `build_line_map_path`. -/
def buildLineMapPath (programPath : List UInt8) : Option (List UInt8) :=
  let programName := programPath.rtakeWhile (· != '/'.toUInt8)
  if LINE_MAP_DIRECTORY.length + programName.length + LINE_MAP_SUFFIX.length > PATH_CAPACITY then
    none
  else some (LINE_MAP_DIRECTORY ++ programName ++ LINE_MAP_SUFFIX)

/-- A line of the first pass of `attach_lines_from_map`. A sum from `2 ^ 63` on is negative. -/
def countMapLine (ctx : ProcessTaskContext) (loadBias : UInt64) (line : List UInt8) : Option Nat :=
  match acceptLine line with
  | none => none
  | some r =>
    if 0x8000000000000000 ≤ r.address + loadBias then none
    else if ¬ ctx.covers (r.address + loadBias) then none
    else some r.path.length

/-- A line of the second pass. -/
def fillMapLine (ctx : ProcessTaskContext) (loadBias : UInt64) (line : List UInt8) :
    Option (Record UInt32) :=
  match acceptLine line with
  | none => none
  | some r =>
    if 0x8000000000000000 ≤ r.address + loadBias then none
    else if ¬ ctx.covers (r.address + loadBias) then none
    else some ⟨r.address + loadBias, r.line, r.path⟩

def mapLinePasses (ctx : ProcessTaskContext) (loadBias : UInt64) : Passes (List UInt8) UInt32 :=
  ⟨countMapLine ctx loadBias, fillMapLine ctx loadBias⟩

/-- The text that `attach_lines_from_map` reads, and the bias for it. -/
def lineMap (loadFile : List UInt8 → Option (List UInt8)) (ctx : ProcessTaskContext)
    (programPath file : List UInt8) : Option (UInt64 × List UInt8) := do
  if programPath = [] then none
  else
    let loadBias ← computeElfLoadBias ctx file
    let path ← buildLineMapPath programPath
    let text ← loadFile path
    return (loadBias, text)

/-- `attach_lines_from_map`: what becomes of `ctx->lines`. -/
def attachLinesFromMap (alloc : Nat → Bool) (loadFile : List UInt8 → Option (List UInt8))
    (ctx : ProcessTaskContext) (programPath file : List UInt8) :
    Except Outside (Option (Table UInt32)) :=
  match lineMap loadFile ctx programPath file with
  | none => .ok none
  | some (loadBias, text) =>
    match mapLines text with
    | none => .ok none
    | some body => buildTable alloc (mapLinePasses ctx loadBias) body

/-- `lookup_symbol` and `lookup_source_location`. -/
def lookup (table : Option (Table ι)) (address : UInt64) : Option (Found ι) :=
  match table with
  | none => none
  | some t =>
    (KeyedTable.floorEntry Entry.key t.entries address.toNat).map fun e =>
      { name := t.strings.drop e.nameOffset.toNat
        address := e.address
        offset := address - e.address
        info := e.info }

end VKernel.ProcessDebug

namespace VKernel.Debug

open VKernel.Lib

variable {τ ι : Type}

/-! ### What the tables are for -/

/-- The names of records, one behind the other with their ends. -/
def namesOf (records : List (Record ι)) : List UInt8 := records.flatMap fun r => r.name ++ [0]

/-- An entry is the one of a record: its name stands at the place that the entry keeps. -/
structure Refers (strings : List UInt8) (e : Entry ι) (r : Record ι) : Prop where
  address : e.address = r.address
  info : e.info = r.info
  name : r.name ++ [0] <+: strings.drop e.nameOffset.toNat

/-- The answer to a lookup, for the addresses of `records` from `base` on: a record with the
greatest address that is not above the one asked for, or nothing if there is none. -/
inductive Answers (records : List (Record ι)) (base : Nat) (address : UInt64) :
    Option (Found ι) → Prop where
  | none (h : ∀ r ∈ records, address.toNat < base + r.address.toNat) :
      Answers records base address none
  | some (r : Record ι) (found : Found ι) (hmem : r ∈ records)
      (hle : base + r.address.toNat ≤ address.toNat)
      (hgreatest : ∀ a ∈ records, base + a.address.toNat ≤ address.toNat →
        a.address.toNat ≤ r.address.toNat)
      (haddress : found.address.toNat = base + r.address.toNat)
      (hoffset : found.offset.toNat = address.toNat - (base + r.address.toNat))
      (hinfo : found.info = r.info) (hname : r.name ++ [0] <+: found.name) :
      Answers records base address (some found)

/-- What is said of a builder and its lookup, for the items that the builder gets to:

- `written`: the filling pass stays in the storage. It writes as many entries and bytes as the other
  pass has counted, and the entry of each accepted record;
- `sorted`: the table has these entries, with addresses in order;
- `answered`: where the heap has the storage, each lookup gives the answer. -/
structure TableCorrect (p : Passes τ ι) (items : List τ)
    (build : (Nat → Bool) → Except Outside (Option (Table ι)))
    (lookup : Option (Table ι) → UInt64 → Option (Found ι)) (base : Nat) : Prop where
  written : ∃ filled, fillPass p.fill (countPass p.count items).storage items = .ok filled ∧
    filled.entries.length = (countPass p.count items).count ∧
    filled.strings.length = (countPass p.count items).bytes ∧
    filled.entries.Forall₂ (Refers filled.strings) (items.filterMap p.fill)
  sorted : ∀ (alloc : Nat → Bool) (filled table : Table ι),
    fillPass p.fill (countPass p.count items).storage items = .ok filled →
    build alloc = .ok (some table) →
    table.entries.Perm filled.entries ∧ KeyedTable.Ordered Entry.key table.entries ∧
      table.strings = filled.strings
  answered : ∀ alloc : Nat → Bool, alloc (countPass p.count items).storage.totalBytes = true →
    ∃ table, build alloc = .ok table ∧
      ∀ address, Answers (items.filterMap p.fill) base address (lookup table address)

/-- The names of the records can be told from each other by places of 32 bits:

- `fits`: entries and names together have a size;
- `names`: the name of each record stands at its place modulo `2 ^ 32`. -/
structure NamesInReach (records : List (Record ι)) : Prop where
  fits : records.length * ENTRY_SIZE + (namesOf records).length < U64
  names : ∀ (front : List (Record ι)) (r : Record ι) (back : List (Record ι)),
    records = front ++ r :: back →
    r.name ++ [0] <+: (namesOf records).drop ((namesOf front).length % 2 ^ 32)

end VKernel.Debug

namespace VKernel.KernelDebug

open VKernel.Debug

/-- The lines of a line map, with none in a text that is rejected. -/
def lineItems (text : List UInt8) : List (List UInt8) := (mapLines text).getD []

def acceptedSymbols (text : List UInt8) : List (Record Unit) := (lines text).filterMap fillSymbol

def acceptedLines (text : List UInt8) : List (Record UInt32) := (lineItems text).filterMap fillLine

/-- The symbol table of the kernel, whose image is at `imageBase`. -/
def SymbolTableCorrect (imageBase : UInt64) (text : List UInt8) : Prop :=
  TableCorrect symbolPasses (lines text) (fun alloc => buildSymbolTableFromMap alloc text)
    (fun table => lookup table imageBase) imageBase.toNat

/-- The line table of the kernel. -/
def LineTableCorrect (imageBase : UInt64) (text : List UInt8) : Prop :=
  TableCorrect linePasses (lineItems text) (fun alloc => buildLineTableFromMap alloc text)
    (fun table => lookup table imageBase) imageBase.toNat

end VKernel.KernelDebug

namespace VKernel.ProcessDebug

open VKernel.Debug

/-- The symbols of a file, with none in a file that is rejected. -/
def symItems (ctx : ProcessTaskContext) (file : List UInt8) : List Sym :=
  match computeElfLoadBias ctx file with
  | none => []
  | some _ => ((symtab file).map Prod.fst).getD []

/-- How the passes accept the symbols of a file. -/
def filePasses (ctx : ProcessTaskContext) (file : List UInt8) : Passes Sym UInt32 :=
  symPasses ctx ((computeElfLoadBias ctx file).getD 0) (((symtab file).map Prod.snd).getD [])

def acceptedSymbols (ctx : ProcessTaskContext) (file : List UInt8) : List (Record UInt32) :=
  (symItems ctx file).filterMap (filePasses ctx file).fill

/-- The symbol table of a program. -/
def SymbolTableCorrect (ctx : ProcessTaskContext) (file : List UInt8) : Prop :=
  TableCorrect (filePasses ctx file) (symItems ctx file)
    (fun alloc => attachSymbolsFromElf alloc ctx file) lookup 0

/-- The lines of the line map of a program. -/
def lineItems (loadFile : List UInt8 → Option (List UInt8)) (ctx : ProcessTaskContext)
    (programPath file : List UInt8) : List (List UInt8) :=
  ((lineMap loadFile ctx programPath file).bind fun m => mapLines m.2).getD []

def mapPasses (ctx : ProcessTaskContext) (file : List UInt8) : Passes (List UInt8) UInt32 :=
  mapLinePasses ctx ((computeElfLoadBias ctx file).getD 0)

def acceptedLines (loadFile : List UInt8 → Option (List UInt8)) (ctx : ProcessTaskContext)
    (programPath file : List UInt8) : List (Record UInt32) :=
  (lineItems loadFile ctx programPath file).filterMap (mapPasses ctx file).fill

/-- The line table of a program. -/
def LineTableCorrect (loadFile : List UInt8 → Option (List UInt8)) (ctx : ProcessTaskContext)
    (programPath file : List UInt8) : Prop :=
  TableCorrect (mapPasses ctx file) (lineItems loadFile ctx programPath file)
    (fun alloc => attachLinesFromMap alloc loadFile ctx programPath file) lookup 0

end VKernel.ProcessDebug

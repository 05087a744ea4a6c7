import VKernel.Types
import VKernel.Lib.LittleEndian

/-!
# `VKernel.Loader.Elf`: the ELF64 loader of `elf.cpp`

`loadImpl` follows `load_impl`: header checks, span of the `PT_LOAD` segments, allocation of
the image, segment copy, and the `R_X86_64_RELATIVE` relocations of an `ET_DYN` file, which
are read from the image itself.

The source checks nothing at an access, so the model does: every read of the file and every
access to the image goes through `checkFile` or `Place.check`, and one that leaves its range
stops the load with `Stop.outside`. What the code does after such an access is not modelled.
Memory is a function from addresses to bytes, and the image lies in it from `writeBase` on.
The allocators are asked through `Allocators`.
-/

set_option autoImplicit false

namespace VKernel.Loader

open VKernel.Lib

/-- `elf_error`, without `ok`. -/
inductive ElfError where
  | tooSmall | badMagic | badClass | badEndian | badVersion | badMachine | badType
  | noLoadSegments | unsupportedInterp | noMemory | segmentOverflow
  deriving DecidableEq, Repr

/-- A range of the file by offset, or of memory by address. -/
inductive Access where
  | file (offset length : Nat)
  | image (address length : Nat)
  deriving DecidableEq, Repr

/-- Why a load stops: the error it returns, or the access that leaves its range. -/
inductive Stop where
  | rejected (error : ElfError)
  | outside (access : Access)
  deriving DecidableEq, Repr

/-! ### Headers -/

def EHDR_SIZE : Nat := 64
def PHDR_SIZE : Nat := 56
def DYN_SIZE : Nat := 16
def RELA_SIZE : Nat := 24

def ET_EXEC : Nat := 2
def ET_DYN : Nat := 3
def EM_X86_64 : Nat := 62
def PT_LOAD : Nat := 1
def PT_DYNAMIC : Nat := 2
def PT_INTERP : Nat := 3
def PT_PHDR : Nat := 6
def PT_TLS : Nat := 7
def DT_NULL : Nat := 0
def DT_RELA : Nat := 7
def DT_RELASZ : Nat := 8
def R_X86_64_RELATIVE : Nat := 8

/-- `Elf64_Ehdr`, the fields that the loader reads. `ident` is `e_ident[0 .. 6]`. -/
structure Ehdr where
  ident : List UInt8
  type : Nat
  machine : Nat
  entry : Nat
  phoff : Nat
  phentsize : Nat
  phnum : Nat
  deriving DecidableEq, Repr

/-- `Elf64_Phdr`, the fields that the loader reads. -/
structure Phdr where
  type : Nat
  offset : Nat
  vaddr : Nat
  filesz : Nat
  memsz : Nat
  align : Nat
  deriving DecidableEq, Repr

section File

variable (file : List UInt8)

/-- The file as memory, from address 0 on. -/
def fileByte (offset : Nat) : UInt8 := file.getD offset 0

/-- A read of the file. -/
def checkFile (offset length : Nat) : Except Stop Unit :=
  if offset + length ≤ file.length then .ok () else .error (.outside (.file offset length))

/-- The header at the start of the file. -/
def parseEhdr : Ehdr where
  ident := file.take 7
  type := leValue (fileByte file) 16 2
  machine := leValue (fileByte file) 18 2
  entry := leValue (fileByte file) 24 8
  phoff := leValue (fileByte file) 32 8
  phentsize := leValue (fileByte file) 54 2
  phnum := leValue (fileByte file) 56 2

/-- The program header at an offset of the file. -/
def parsePhdr (base : Nat) : Phdr where
  type := leValue (fileByte file) base 4
  offset := leValue (fileByte file) (base + 8) 8
  vaddr := leValue (fileByte file) (base + 16) 8
  filesz := leValue (fileByte file) (base + 32) 8
  memsz := leValue (fileByte file) (base + 40) 8
  align := leValue (fileByte file) (base + 48) 8

/-- The header is read. -/
def readEhdr : Except Stop Ehdr := do
  checkFile file 0 EHDR_SIZE
  return parseEhdr file

/-- `phdrs[i]`, with the table at `phoff`. -/
def readPhdr (phoff i : Nat) : Except Stop Phdr := do
  checkFile file (phoff + i * PHDR_SIZE) PHDR_SIZE
  return parsePhdr file (phoff + i * PHDR_SIZE)

/-- The program header table. -/
def parsePhdrs (ehdr : Ehdr) : List Phdr :=
  (List.range ehdr.phnum).map fun i => parsePhdr file (ehdr.phoff + i * PHDR_SIZE)

end File

/-- `range_ok`. -/
def rangeOk (fileSize offset len : Nat) : Bool :=
  decide (offset ≤ fileSize ∧ len ≤ fileSize - offset)

/-- `return` with an error unless the condition holds. -/
def require (condition : Bool) (error : ElfError) : Except Stop Unit :=
  if condition then .ok () else .error (.rejected error)

/-- Steps 1 to 4 of `load_impl`, and the range check of step 5. -/
def checkHeader (file : List UInt8) : Except Stop Ehdr := do
  require (decide (EHDR_SIZE ≤ file.length)) .tooSmall
  let ehdr ← readEhdr file
  require (decide (ehdr.ident.take 4 = [0x7F, 'E'.toUInt8, 'L'.toUInt8, 'F'.toUInt8])) .badMagic
  require (ehdr.ident.getD 4 0 == 2) .badClass
  require (ehdr.ident.getD 5 0 == 1) .badEndian
  require (ehdr.ident.getD 6 0 == 1) .badVersion
  require (decide (ehdr.machine = EM_X86_64)) .badMachine
  require (decide (ehdr.type = ET_EXEC ∨ ehdr.type = ET_DYN)) .badType
  require (rangeOk file.length ehdr.phoff (ehdr.phnum * PHDR_SIZE)) .tooSmall
  return ehdr

/-- The TLS fields of `load_result`. -/
structure Tls where
  vaddr : Nat
  filesz : Nat
  memsz : Nat
  align : Nat
  deriving DecidableEq, Repr

/-- The variables of the loop of step 6. -/
structure Span where
  vaddrMin : Nat := U64 - 1
  vaddrMax : Nat := 0
  maxAlign : Nat := 4096
  loadCount : Nat := 0
  phdrSegment : Option Phdr := none
  tls : Option Tls := none
  deriving DecidableEq

/-- The body of the loop of step 6. -/
def Span.add (fileSize : Nat) (ehdr : Ehdr) (span : Span) (ph : Phdr) : Except Stop Span := do
  require (decide (ph.type ≠ PT_INTERP)) .unsupportedInterp
  let span := if ph.type = PT_TLS then
      { span with tls := some ⟨ph.vaddr, ph.filesz, ph.memsz, ph.align⟩ } else span
  if ph.type ≠ PT_LOAD then return span
  require (rangeOk fileSize ph.offset ph.filesz) .segmentOverflow
  let segEnd := add64 ph.vaddr ph.memsz
  let covers := ph.offset ≤ ehdr.phoff ∧
    add64 ehdr.phoff (ehdr.phnum * PHDR_SIZE) ≤ add64 ph.offset ph.filesz
  return { span with
    vaddrMin := min span.vaddrMin ph.vaddr
    vaddrMax := max span.vaddrMax segEnd
    maxAlign := max span.maxAlign ph.align
    phdrSegment := if covers then some ph else span.phdrSegment
    loadCount := span.loadCount + 1 }

/-- Step 6. -/
def computeSpan (file : List UInt8) (ehdr : Ehdr) (phdrs : List Phdr) : Except Stop Span := do
  let span ← phdrs.foldlM (Span.add file.length ehdr) {}
  require (decide (span.loadCount ≠ 0)) .noLoadSegments
  return span

/-! ### The image -/

/-- The answers of the allocators: the physical address that `allocate_user_pages` returns
for a base and a size, `allocate_zero_aligned` of the heap for a size and an alignment, and
`allocate_pages` for a page count and an alignment. 0 is a failure. -/
structure Allocators where
  userPages : Nat → Nat → Nat
  heapZeroAligned : Nat → Nat → Nat
  pages : Nat → Nat → Nat

/-- Where the image lies. The first `limit` bytes from `writeBase` on are its own: the
requested size, or what a page count that was cut to 32 bits leaves of it. -/
structure Place where
  runtimeBase : Nat
  writeBase : Nat
  imageSize : Nat
  limit : Nat
  vmMapped : Bool
  fromPhys : Bool
  deriving DecidableEq, Repr

/-- The bytes of the pages that are allocated for `size` bytes. -/
def pageBytes (size : Nat) : Nat := (size + PAGE_SIZE_4K - 1) / PAGE_SIZE_4K % 2 ^ 32 * PAGE_SIZE_4K

/-- An access to the image. -/
def Place.check (place : Place) (address length : Nat) : Except Stop Unit :=
  if place.writeBase ≤ address ∧ address + length ≤ place.writeBase + place.limit then .ok ()
  else .error (.outside (.image address length))

/-- `align_up` of `elf.cpp`. -/
def elfAlignUp (value align : Nat) : Nat := if align = 0 then value else alignUp value align

/-- `image_size`. -/
def Span.imageSize (span : Span) : Nat := elfAlignUp (sub64 span.vaddrMax span.vaddrMin) 4096

/-- The allocation of step 7. `preferredBase` is `none` for `as == null`, and the result is
`none` when all allocators fail. -/
def choosePlace (alloc : Allocators) (preferredBase : Option Nat) (span : Span) : Option Place :=
  let imageSize := span.imageSize
  let pagesLimit := min imageSize (pageBytes imageSize)
  match preferredBase with
  | some base =>
    let base := elfAlignUp base span.maxAlign
    let phys := alloc.userPages base imageSize
    if phys = 0 then none else some ⟨base, phys, imageSize, pagesLimit, true, false⟩
  | none =>
    let base := alloc.heapZeroAligned imageSize span.maxAlign
    if base ≠ 0 then some ⟨base, base, imageSize, imageSize, false, false⟩
    else
      let count := (imageSize + PAGE_SIZE_4K - 1) / PAGE_SIZE_4K % 2 ^ 32
      let phys := alloc.pages count (max PAGE_SIZE_4K (span.maxAlign % 2 ^ 32))
      if phys = 0 then none else some ⟨phys, phys, imageSize, pagesLimit, false, true⟩

/-- Step 7. The fallback to pages clears the image itself; the other two allocators return
cleared memory. -/
def placeImage (alloc : Allocators) (preferredBase : Option Nat) (span : Span) :
    Except Stop Place :=
  match choosePlace alloc preferredBase span with
  | none => .error (.rejected .noMemory)
  | some place => do
      if place.fromPhys then place.check place.writeBase place.imageSize
      return place

/-- `load_bias`. -/
def Place.loadBias (place : Place) (span : Span) : Nat := sub64 place.runtimeBase span.vaddrMin

/-- `write_bias`. -/
def Place.writeBias (place : Place) (span : Span) : Nat := sub64 place.writeBase span.vaddrMin

/-- `result.phdr_addr`. -/
def phdrAddr (ehdr : Ehdr) (phdrs : List Phdr) (span : Span) (loadBias : Nat) : Nat :=
  let direct := match phdrs.find? fun ph => ph.type = PT_PHDR with
    | some ph => add64 ph.vaddr loadBias
    | none => 0
  match span.phdrSegment with
  | some ph =>
    if direct = 0 then add64 (add64 ph.vaddr (sub64 ehdr.phoff ph.offset)) loadBias else direct
  | none => direct

abbrev Mem := Nat → UInt8

/-- The copy of the bytes of the file in step 8. -/
def copyFilePart (file : List UInt8) (place : Place) (dest : Nat) (mem : Mem) (ph : Phdr) :
    Except Stop Mem :=
  if ph.filesz > 0 then do
    checkFile file ph.offset ph.filesz
    place.check dest ph.filesz
    return fun a => if dest ≤ a ∧ a < dest + ph.filesz
      then fileByte file (ph.offset + (a - dest)) else mem a
  else return mem

/-- The zeros behind the bytes of the file in step 8. -/
def clearBss (place : Place) (dest : Nat) (mem : Mem) (ph : Phdr) : Except Stop Mem :=
  if ph.memsz > ph.filesz then do
    let bss := add64 dest ph.filesz
    let length := ph.memsz - ph.filesz
    place.check bss length
    return fun a => if bss ≤ a ∧ a < bss + length then 0 else mem a
  else return mem

/-- The body of the loop of step 8. -/
def copySegment (file : List UInt8) (place : Place) (writeBias : Nat) (mem : Mem) (ph : Phdr) :
    Except Stop Mem := do
  if ph.type ≠ PT_LOAD then return mem
  else do
    let dest := add64 ph.vaddr writeBias
    let mem ← copyFilePart file place dest mem ph
    clearBss place dest mem ph

/-! ### Relocations -/

/-- The scan of the dynamic table from `dyn` on, up to `DT_NULL`. The variables of the loop
are `rela_vaddr` and `rela_size`. Every entry that is read lies in the image, so `limit / 16`
entries and one more are enough. -/
def scanDynamic (place : Place) (mem : Mem) : Nat → Nat → Nat → Nat → Except Stop (Nat × Nat)
  | 0, dyn, _, _ => .error (.outside (.image dyn 8))
  | fuel + 1, dyn, relaVaddr, relaSize => do
      place.check dyn 8
      let tag := leValue mem dyn 8
      if tag = DT_NULL then return (relaVaddr, relaSize)
      else if tag = DT_RELA then do
        place.check (add64 dyn 8) 8
        scanDynamic place mem fuel (add64 dyn DYN_SIZE) (leValue mem (add64 dyn 8) 8) relaSize
      else if tag = DT_RELASZ then do
        place.check (add64 dyn 8) 8
        scanDynamic place mem fuel (add64 dyn DYN_SIZE) relaVaddr (leValue mem (add64 dyn 8) 8)
      else scanDynamic place mem fuel (add64 dyn DYN_SIZE) relaVaddr relaSize

/-- `elf64_r_type`. -/
def relaType (info : Nat) : Nat := info % 2 ^ 32

/-- The loop over the relocation table, for `count` entries from `entry` on. -/
def applyRelocations (place : Place) (writeBias loadBias : Nat) :
    Nat → Nat → Mem → Except Stop Mem
  | 0, _, mem => .ok mem
  | count + 1, entry, mem => do
      place.check (add64 entry 8) 8
      if relaType (leValue mem (add64 entry 8) 8) ≠ R_X86_64_RELATIVE then
        applyRelocations place writeBias loadBias count (add64 entry RELA_SIZE) mem
      else do
        place.check entry 8
        let loc := add64 (leValue mem entry 8) writeBias
        place.check (add64 entry 16) 8
        let value := add64 loadBias (leValue mem (add64 entry 16) 8)
        place.check loc 8
        applyRelocations place writeBias loadBias count (add64 entry RELA_SIZE)
          (leStore mem loc 8 value)

/-- Step 9. -/
def relocate (place : Place) (span : Span) (phdrs : List Phdr) (mem : Mem) : Except Stop Mem := do
  let writeBias := place.writeBias span
  let (relaVaddr, relaSize) ← match phdrs.find? fun ph => ph.type = PT_DYNAMIC with
    | none => pure (0, 0)
    | some ph => scanDynamic place mem (place.limit / DYN_SIZE + 1) (add64 ph.vaddr writeBias) 0 0
  if relaVaddr ≠ 0 ∧ relaSize ≥ RELA_SIZE then
    applyRelocations place writeBias (place.loadBias span) (relaSize / RELA_SIZE)
      (add64 relaVaddr writeBias) mem
  else return mem

/-- `load_result` on success. -/
structure LoadResult where
  entry : Nat
  imageBase : Nat
  imageSize : Nat
  imageFromPhys : Bool
  imagePhys : Nat
  imageVmMapped : Bool
  phdrAddr : Nat
  phnum : Nat
  phentsize : Nat
  tls : Option Tls
  deriving DecidableEq, Repr

/-- What `load_impl` leaves: its result, where the image lies and the memory with it. -/
structure Loaded where
  result : LoadResult
  place : Place
  span : Span
  mem : Mem

/-- Steps 8 and 9, on cleared memory. -/
def fillImage (file : List UInt8) (ehdr : Ehdr) (phdrs : List Phdr) (span : Span)
    (place : Place) : Except Stop Mem := do
  let mem ← phdrs.foldlM (copySegment file place (place.writeBias span)) fun _ => 0
  if ehdr.type = ET_DYN then relocate place span phdrs mem else return mem

/-- The result of a load that succeeds. -/
def loadResult (ehdr : Ehdr) (phdrs : List Phdr) (span : Span) (place : Place) : LoadResult where
  entry := add64 ehdr.entry (place.loadBias span)
  imageBase := place.runtimeBase
  imageSize := place.imageSize
  imageFromPhys := place.fromPhys
  imagePhys := if place.vmMapped then place.writeBase else 0
  imageVmMapped := place.vmMapped
  phdrAddr := phdrAddr ehdr phdrs span (place.loadBias span)
  phnum := ehdr.phnum
  phentsize := ehdr.phentsize
  tls := span.tls

/-- `load_impl`. -/
def loadImpl (file : List UInt8) (alloc : Allocators) (preferredBase : Option Nat) :
    Except Stop Loaded := do
  let ehdr ← checkHeader file
  let phdrs ← (List.range ehdr.phnum).mapM (readPhdr file ehdr.phoff)
  let span ← computeSpan file ehdr phdrs
  let place ← placeImage alloc preferredBase span
  let mem ← fillImage file ehdr phdrs span place
  return ⟨loadResult ehdr phdrs span place, place, span, mem⟩

/-- `load`. -/
def load (file : List UInt8) (alloc : Allocators) : Except Stop Loaded := loadImpl file alloc none

/-- `load_into_address_space`. -/
def loadIntoAddressSpace (file : List UInt8) (alloc : Allocators) (preferredBase : Nat) :
    Except Stop Loaded := loadImpl file alloc (some preferredBase)

end VKernel.Loader

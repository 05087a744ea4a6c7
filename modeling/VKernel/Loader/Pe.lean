import VKernel.Loader.Elf

/-!
# `VKernel.Loader.Pe`: the PE32+ loader of `pe.cpp`

`load` follows `pe::load`: header checks, allocation of the image, copy of the headers and of
the sections, and the base relocations, whose blocks are read from the image itself. The
image is a function from offsets to bytes. `load` only ever moves pointers within or past the
image, so they are offsets too, and its address is used for `delta` and for the result.

As in `VKernel.Loader.Elf`, the checks of `checkFile` and `checkImage` are the model's own: the
source accesses memory without them, and an access that leaves its range stops the load
with `Stop.outside`. `rangeOk` is the same function in both loaders.
-/

set_option autoImplicit false

namespace VKernel.Loader.Pe

open VKernel.Lib

/-- `pe_error`, without `ok`. -/
inductive PeError where
  | tooSmall | badMagic | badMachine | badType | noMemory | badReloc
  deriving DecidableEq, Repr

/-- Why a load stops: the error it returns, or the access that leaves its range. -/
inductive Stop where
  | rejected (error : PeError)
  | outside (access : Access)
  deriving DecidableEq, Repr

def IMAGE_DOS_SIGNATURE : Nat := 0x5A4D
def IMAGE_NT_SIGNATURE : Nat := 0x00004550
def IMAGE_FILE_MACHINE_AMD64 : Nat := 0x8664
def IMAGE_OPTIONAL_HDR64_MAGIC : Nat := 0x020B
def IMAGE_DIRECTORY_ENTRY_BASERELOC : Nat := 5
def IMAGE_REL_BASED_ABSOLUTE : Nat := 0
def IMAGE_REL_BASED_DIR64 : Nat := 10

/-- The `sizeof` of the packed structures. -/
def DOS_HEADER_SIZE : Nat := 64
def NT_HEADERS_SIZE : Nat := 264
def SECTION_HEADER_SIZE : Nat := 40
def BASE_RELOCATION_SIZE : Nat := 8

/-- The offset of `OptionalHeader` in `IMAGE_NT_HEADERS64`. -/
def OPTIONAL_HEADER_OFFSET : Nat := 24

/-- `IMAGE_NT_HEADERS64`, the fields that the loader reads. The last two are the entry of
`DataDirectory` for the base relocations. -/
structure NtHeaders where
  signature : Nat
  machine : Nat
  numberOfSections : Nat
  sizeOfOptionalHeader : Nat
  magic : Nat
  addressOfEntryPoint : Nat
  imageBase : Nat
  sizeOfImage : Nat
  sizeOfHeaders : Nat
  relocVirtualAddress : Nat
  relocSize : Nat
  deriving DecidableEq, Repr

/-- `IMAGE_SECTION_HEADER`, the fields that the loader reads. -/
structure SectionHeader where
  virtualAddress : Nat
  sizeOfRawData : Nat
  pointerToRawData : Nat
  deriving DecidableEq, Repr

/-! ### The file -/

section File

variable (file : List UInt8)

/-- A read of the file. -/
def checkFile (offset length : Nat) : Except Stop Unit :=
  if offset + length ≤ file.length then .ok () else .error (.outside (.file offset length))

/-- The headers at an offset of the file. -/
def parseNtHeaders (nt : Nat) : NtHeaders :=
  let optional := nt + OPTIONAL_HEADER_OFFSET
  let reloc := optional + 112 + 8 * IMAGE_DIRECTORY_ENTRY_BASERELOC
  { signature := leValue (fileByte file) nt 4
    machine := leValue (fileByte file) (nt + 4) 2
    numberOfSections := leValue (fileByte file) (nt + 6) 2
    sizeOfOptionalHeader := leValue (fileByte file) (nt + 20) 2
    magic := leValue (fileByte file) optional 2
    addressOfEntryPoint := leValue (fileByte file) (optional + 16) 4
    imageBase := leValue (fileByte file) (optional + 24) 8
    sizeOfImage := leValue (fileByte file) (optional + 56) 4
    sizeOfHeaders := leValue (fileByte file) (optional + 60) 4
    relocVirtualAddress := leValue (fileByte file) reloc 4
    relocSize := leValue (fileByte file) (reloc + 4) 4 }

/-- The section header at an offset of the file. -/
def parseSection (base : Nat) : SectionHeader where
  virtualAddress := leValue (fileByte file) (base + 12) 4
  sizeOfRawData := leValue (fileByte file) (base + 16) 4
  pointerToRawData := leValue (fileByte file) (base + 20) 4

/-- `sections[i]`, with the table at `sectionsOffset`. -/
def readSection (sectionsOffset i : Nat) : Except Stop SectionHeader := do
  checkFile file (sectionsOffset + i * SECTION_HEADER_SIZE) SECTION_HEADER_SIZE
  return parseSection file (sectionsOffset + i * SECTION_HEADER_SIZE)

end File

/-- `return` with an error unless the condition holds. -/
def require (condition : Bool) (error : PeError) : Except Stop Unit :=
  if condition then .ok () else .error (.rejected error)

/-- `dos->e_lfanew` as the bit pattern of the `i32`. -/
def lfanew (file : List UInt8) : Nat := leValue (fileByte file) 60 4

/-- `sections_offset`. -/
def sectionsOffset (file : List UInt8) (nt : NtHeaders) : Nat :=
  lfanew file + OPTIONAL_HEADER_OFFSET + nt.sizeOfOptionalHeader

/-- Steps 1 and 2, with the range checks of the headers and of the section table. -/
def checkHeaders (file : List UInt8) : Except Stop NtHeaders := do
  require (decide (DOS_HEADER_SIZE ≤ file.length)) .tooSmall
  checkFile file 0 DOS_HEADER_SIZE
  require (decide (leValue (fileByte file) 0 2 = IMAGE_DOS_SIGNATURE)) .badMagic
  -- A negative `e_lfanew` has the top bit set.
  require (decide (lfanew file < 2 ^ 31) && rangeOk file.length (lfanew file) NT_HEADERS_SIZE)
    .tooSmall
  checkFile file (lfanew file) NT_HEADERS_SIZE
  let nt := parseNtHeaders file (lfanew file)
  require (decide (nt.signature = IMAGE_NT_SIGNATURE)) .badMagic
  require (decide (nt.machine = IMAGE_FILE_MACHINE_AMD64)) .badMachine
  require (decide (nt.magic = IMAGE_OPTIONAL_HDR64_MAGIC)) .badType
  require (rangeOk file.length 0 nt.sizeOfHeaders && decide (nt.sizeOfHeaders ≤ nt.sizeOfImage))
    .tooSmall
  require (rangeOk file.length (sectionsOffset file nt)
    (nt.numberOfSections * SECTION_HEADER_SIZE)) .tooSmall
  return nt

/-! ### The image -/

/-- An access to the image, of `size` bytes. -/
def checkImage (size offset length : Nat) : Except Stop Unit :=
  if offset + length ≤ size then .ok () else .error (.outside (.image offset length))

/-- `memory::copy` of a part of the file into the image. -/
def copyFromFile (file : List UInt8) (size dest source length : Nat) (image : Mem) :
    Except Stop Mem := do
  checkFile file source length
  checkImage size dest length
  return fun o => if dest ≤ o ∧ o < dest + length then fileByte file (source + (o - dest))
    else image o

/-- The sum of `sec.VirtualAddress` and `sec.SizeOfRawData`, in `u32`. -/
def SectionHeader.sectionEnd (sec : SectionHeader) : Nat :=
  (sec.virtualAddress + sec.sizeOfRawData) % 2 ^ 32

/-- The body of the loop of step 5. -/
def copySection (file : List UInt8) (nt : NtHeaders) (image : Mem) (i : Nat) :
    Except Stop Mem := do
  let sec ← readSection file (sectionsOffset file nt) i
  if sec.sizeOfRawData = 0 then return image
  else do
    require (decide (sec.sectionEnd ≤ nt.sizeOfImage)) .badReloc
    require (rangeOk file.length sec.pointerToRawData sec.sizeOfRawData) .tooSmall
    copyFromFile file nt.sizeOfImage sec.virtualAddress sec.pointerToRawData sec.sizeOfRawData image

/-- Steps 4 and 5, on the cleared image. -/
def copySections (file : List UInt8) (nt : NtHeaders) : Except Stop Mem := do
  let image ← copyFromFile file nt.sizeOfImage 0 0 nt.sizeOfHeaders fun _ => 0
  (List.range nt.numberOfSections).foldlM (copySection file nt) image

/-! ### Relocations -/

/-- `ent[j]` of the block at `blk`. -/
def entryOffset (blk j : Nat) : Nat := blk + BASE_RELOCATION_SIZE + 2 * j

/-- The body of the inner loop of step 6. `hdr->VirtualAddress` is read from the image for
each entry. -/
def relocateEntry (size delta blk : Nat) (image : Mem) (j : Nat) : Except Stop Mem := do
  checkImage size (entryOffset blk j) 2
  let entry := leValue image (entryOffset blk j) 2
  if entry / 2 ^ 12 = IMAGE_REL_BASED_ABSOLUTE then return image
  else if entry / 2 ^ 12 = IMAGE_REL_BASED_DIR64 then do
    checkImage size blk 4
    let rva := (leValue image blk 4 + entry % 2 ^ 12) % 2 ^ 32
    require (decide (rva + 8 ≤ size)) .badReloc
    checkImage size rva 8
    return leStore image rva 8 (add64 (leValue image rva 8) delta)
  else return image

/-- `hdr->SizeOfBlock`. -/
def sizeOfBlock (image : Mem) (blk : Nat) : Nat := leValue image (blk + 4) 4

/-- `nent` for a block of `size` bytes. -/
def entryCount (size : Nat) : Nat := (size - BASE_RELOCATION_SIZE) / 2

/-- The outer loop of step 6. The relocations of a block may change its own header, whose
`SizeOfBlock` is read again to go on. The first argument bounds the number of blocks: a block
is followed by one further on or, when its size has become 0, by itself and the end of the
loop, so `Size` blocks are enough. -/
def relocateBlocks (size delta blkEnd : Nat) : Nat → Nat → Mem → Except Stop Mem
  | 0, _, image => .ok image
  | fuel + 1, blk, image =>
    if blk + BASE_RELOCATION_SIZE ≤ blkEnd then do
      checkImage size (blk + 4) 4
      if sizeOfBlock image blk < BASE_RELOCATION_SIZE then return image
      else do
        let image ← (List.range (entryCount (sizeOfBlock image blk))).foldlM
          (relocateEntry size delta blk) image
        checkImage size (blk + 4) 4
        relocateBlocks size delta blkEnd fuel (blk + sizeOfBlock image blk) image
    else return image

/-- Step 6, for an image at the address `base`. -/
def relocate (nt : NtHeaders) (base : Nat) (image : Mem) : Except Stop Mem :=
  let delta := sub64 base nt.imageBase
  if 0 < nt.relocSize ∧ nt.relocVirtualAddress ≠ 0 ∧ delta ≠ 0 then do
    require (rangeOk nt.sizeOfImage nt.relocVirtualAddress nt.relocSize) .badReloc
    relocateBlocks nt.sizeOfImage delta (nt.relocVirtualAddress + nt.relocSize) nt.relocSize
      nt.relocVirtualAddress image
  else return image

/-- `load_result` on success, with the bytes of the image. -/
structure Loaded where
  entry : Nat
  imageBase : Nat
  imageSize : Nat
  image : Mem

/-- `load`. `allocateZero` is the answer of `g_kernel_heap.allocate_zero` for a size, with 0 for
a failure. -/
def load (file : List UInt8) (allocateZero : Nat → Nat) : Except Stop Loaded := do
  let nt ← checkHeaders file
  let base := allocateZero nt.sizeOfImage
  require (decide (base ≠ 0)) .noMemory
  let image ← copySections file nt
  let image ← relocate nt base image
  return ⟨add64 base nt.addressOfEntryPoint, base, nt.sizeOfImage, image⟩

end VKernel.Loader.Pe

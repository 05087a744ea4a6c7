import Mathlib.Tactic.MkIffOfInductiveProp
import VKernel.Loader.ElfSpec
import VKernel.Loader.PeImage

/-!
# `VKernel.Loader.PeSpec`: what a loaded PE file should look like

The image of a file before its relocations, byte by byte; the relocation blocks of that image and
their targets; and `LoadsAs`: the image has the bytes of the headers and of the sections, zeros
elsewhere, and the relocated words. `WellFormed` is what is asked of the file, and `Reordered`
says that another file lists the same sections and the same blocks in another order.
-/

set_option autoImplicit false

namespace VKernel.Loader.Pe

open VKernel.Lib

/-! ### Before the relocations -/

/-- The section has byte `o` of the image. -/
def SectionHeader.Covers (sec : SectionHeader) (o : Nat) : Prop :=
  sec.virtualAddress ≤ o ∧ o < sec.virtualAddress + sec.sizeOfRawData

instance (sec : SectionHeader) (o : Nat) : Decidable (sec.Covers o) :=
  inferInstanceAs (Decidable (_ ∧ _))

/-- The position in the file that byte `o` of the image comes from. -/
def sourceOf (file : List UInt8) (nt : NtHeaders) (o : Nat) : Option Nat :=
  if o < nt.sizeOfHeaders then some o
  else ((sections file nt).find? fun sec => decide (sec.Covers o)).map fun sec =>
    sec.pointerToRawData + (o - sec.virtualAddress)

/-- The image of the file at the address that it is linked to. -/
def linkedImage (file : List UInt8) (nt : NtHeaders) : Mem := fun o =>
  match sourceOf file nt o with
  | some i => fileByte file i
  | none => 0

/-! ### Relocation blocks -/

/-- A relocation block at an offset of the image: its size in bytes, the address that its entries
are relative to, and the entries. -/
structure RelocBlock where
  start : Nat
  size : Nat
  page : Nat
  entries : List Nat
  deriving DecidableEq, Repr

/-- What the block says, wherever it lies. -/
def RelocBlock.content (block : RelocBlock) : Nat × List Nat := (block.page, block.entries)

/-- The addresses of the words that a block relocates. Addresses in the image have 32 bits. -/
def contentTargets (content : Nat × List Nat) : List Nat :=
  (content.2.filter fun entry => decide (entry / 2 ^ 12 = IMAGE_REL_BASED_DIR64)).map fun entry =>
    (content.1 + entry % 2 ^ 12) % 2 ^ 32

/-- The first `size` bytes at `blk` as a block. -/
def blockAt (image : Mem) (blk size : Nat) : RelocBlock where
  start := blk
  size := size
  page := leValue image blk 4
  entries := (List.range (entryCount size)).map fun j => leValue image (entryOffset blk j) 2

/-- The blocks of the table from `blk` to `blkEnd`. A header that gives a size below its own ends
the table, as a block without entries. -/
def blocksFrom (image : Mem) (blkEnd : Nat) : Nat → Nat → List RelocBlock
  | 0, _ => []
  | fuel + 1, blk =>
    if blk + BASE_RELOCATION_SIZE ≤ blkEnd then
      if sizeOfBlock image blk < BASE_RELOCATION_SIZE then
        [blockAt image blk BASE_RELOCATION_SIZE]
      else blockAt image blk (sizeOfBlock image blk) ::
        blocksFrom image blkEnd fuel (blk + sizeOfBlock image blk)
    else []

/-- The relocation blocks of the file. A table at address 0 is none. -/
def relocBlocks (file : List UInt8) (nt : NtHeaders) : List RelocBlock :=
  if 0 < nt.relocSize ∧ nt.relocVirtualAddress ≠ 0 then
    blocksFrom (linkedImage file nt) (nt.relocVirtualAddress + nt.relocSize) nt.relocSize
      nt.relocVirtualAddress
  else []

/-- The addresses of the words that the file relocates, in the order of the entries. -/
def targets (file : List UInt8) (nt : NtHeaders) : List Nat :=
  ((relocBlocks file nt).map RelocBlock.content).flatMap contentTargets

/-! ### Well-formed files -/

/-- The sections share no byte of the image. -/
def SectionHeader.Disjoint (sec sec' : SectionHeader) : Prop :=
  sec.sizeOfRawData = 0 ∨ sec'.sizeOfRawData = 0 ∨
    Apart sec.virtualAddress sec.sizeOfRawData sec'.virtualAddress sec'.sizeOfRawData

instance (sec sec' : SectionHeader) : Decidable (sec.Disjoint sec') :=
  inferInstanceAs (Decidable (_ ∨ _ ∨ _ ∨ _))

/-- A well-formed file: sections that have bytes in the file lie in the file and in the image,
behind the headers and disjoint; relocation blocks lie in their table; no word that is relocated
overlaps a block or another one. -/
@[mk_iff]
structure WellFormed (file : List UInt8) (nt : NtHeaders) : Prop where
  inImage : ∀ sec ∈ sections file nt, 0 < sec.sizeOfRawData →
    sec.virtualAddress + sec.sizeOfRawData ≤ nt.sizeOfImage
  inFile : ∀ sec ∈ sections file nt, 0 < sec.sizeOfRawData →
    sec.pointerToRawData + sec.sizeOfRawData ≤ file.length
  behindHeaders : ∀ sec ∈ sections file nt, 0 < sec.sizeOfRawData →
    nt.sizeOfHeaders ≤ sec.virtualAddress
  disjoint : (sections file nt).Pairwise SectionHeader.Disjoint
  blocks : ∀ block ∈ relocBlocks file nt,
    block.start + block.size ≤ nt.relocVirtualAddress + nt.relocSize
  fixed : ∀ t ∈ targets file nt, ∀ block ∈ relocBlocks file nt, Apart t 8 block.start block.size
  apart : (targets file nt).Pairwise (WordsApart 8)

/-! ### The result -/

/-- Byte `o` of the image lies in no word that is relocated. -/
def Unrelocated (file : List UInt8) (nt : NtHeaders) (o : Nat) : Prop :=
  ∀ t ∈ targets file nt, o < t ∨ t + 8 ≤ o

/-- The file is loaded at `base`. The difference between the addresses may be negative. -/
structure LoadsAs (file : List UInt8) (nt : NtHeaders) (base : Nat) (loaded : Loaded) : Prop where
  imageBase : loaded.imageBase = base
  imageSize : loaded.imageSize = nt.sizeOfImage
  entry : loaded.entry = (base + nt.addressOfEntryPoint) % 2 ^ 64
  headers : ∀ o < nt.sizeOfHeaders, Unrelocated file nt o → loaded.image o = fileByte file o
  sections : ∀ sec ∈ sections file nt, ∀ k < sec.sizeOfRawData,
    Unrelocated file nt (sec.virtualAddress + k) →
      loaded.image (sec.virtualAddress + k) = fileByte file (sec.pointerToRawData + k)
  zeros : ∀ o, nt.sizeOfHeaders ≤ o → (∀ sec ∈ Pe.sections file nt, ¬ sec.Covers o) →
    Unrelocated file nt o → loaded.image o = 0
  words : ∀ t ∈ targets file nt, (leValue loaded.image t 8 : Int) =
    ((leValue (linkedImage file nt) t 8 : Int) + ((base : Int) - nt.imageBase)) % 2 ^ 64

/-! ### Order -/

/-- Another file with the same headers has the same section headers and the same relocation
blocks, in another order. -/
structure Reordered (file file' : List UInt8) (nt : NtHeaders) : Prop where
  sections : (sections file nt).Perm (sections file' nt)
  blocks : ((relocBlocks file nt).map RelocBlock.content).Perm
    ((relocBlocks file' nt).map RelocBlock.content)

/-- Where byte `o` of the image comes from, the files have the same byte. The tables themselves
differ between files in another order. -/
def SameSource (file file' : List UInt8) (nt : NtHeaders) (o : Nat) : Prop :=
  ∀ i, sourceOf file nt o = some i → fileByte file i = fileByte file' i

/-- Two loads give the same result, wherever the files have the same bytes: byte by byte, and
for a relocated word where all of its bytes are the same. -/
structure LoadsSame (file file' : List UInt8) (nt : NtHeaders) (loaded loaded' : Loaded) :
    Prop where
  imageBase : loaded'.imageBase = loaded.imageBase
  imageSize : loaded'.imageSize = loaded.imageSize
  entry : loaded'.entry = loaded.entry
  bytes : ∀ o, Unrelocated file nt o → SameSource file file' nt o →
    loaded'.image o = loaded.image o
  words : ∀ t ∈ targets file nt, (∀ k < 8, SameSource file file' nt (t + k)) →
    leValue loaded'.image t 8 = leValue loaded.image t 8

end VKernel.Loader.Pe

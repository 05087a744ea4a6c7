import VKernel.Loader.Pe

/-!
# `VKernel.Loader.PeImage`: the image of a PE file, and what must lie in it

The copies and relocations of `VKernel.Loader.Pe` as functions of the image, with no check of
an access. The loader checks the end of a section in `u32`, where it may wrap, and it does
not check the length of a relocation block: `SectionsFit` and `BlocksFit` say what a file
needs so that nothing goes wrong there.
-/

set_option autoImplicit false

namespace VKernel.Loader.Pe

open VKernel.Lib

/-! ### Sections -/

/-- The section table. -/
def sections (file : List UInt8) (nt : NtHeaders) : List SectionHeader :=
  (List.range nt.numberOfSections).map fun i =>
    parseSection file (sectionsOffset file nt + i * SECTION_HEADER_SIZE)

/-- The section passes the two checks of step 5, or has no bytes in the file. -/
def SectionHeader.Accepted (file : List UInt8) (nt : NtHeaders) (sec : SectionHeader) : Prop :=
  sec.sizeOfRawData = 0 ∨
    (sec.sectionEnd ≤ nt.sizeOfImage ∧ rangeOk file.length sec.pointerToRawData sec.sizeOfRawData)

instance (file : List UInt8) (nt : NtHeaders) (sec : SectionHeader) :
    Decidable (sec.Accepted file nt) := inferInstanceAs (Decidable (_ ∨ _))

/-- The section's bytes of the file over the image. -/
def addSection (file : List UInt8) (image : Mem) (sec : SectionHeader) : Mem := fun o =>
  if sec.virtualAddress ≤ o ∧ o < sec.virtualAddress + sec.sizeOfRawData then
    fileByte file (sec.pointerToRawData + (o - sec.virtualAddress))
  else image o

/-- The image after step 4. -/
def headerImage (file : List UInt8) (nt : NtHeaders) : Mem := fun o =>
  if o < nt.sizeOfHeaders then fileByte file o else 0

/-- The image after step 5. -/
def sectionImage (file : List UInt8) (nt : NtHeaders) : Mem :=
  (sections file nt).foldl (addSection file) (headerImage file nt)

/-- The end of no section that the loop copies wraps in `u32`. The loop goes up to the first
section that it rejects. -/
def SectionsFit (file : List UInt8) (nt : NtHeaders) : Prop :=
  ∀ sec ∈ (sections file nt).takeWhile fun sec => decide (sec.Accepted file nt),
    sec.virtualAddress + sec.sizeOfRawData < 2 ^ 32

/-! ### Relocations -/

/-- The type of entry `j` of the block at `blk`. -/
def entryType (image : Mem) (blk j : Nat) : Nat := leValue image (entryOffset blk j) 2 / 2 ^ 12

/-- The target of entry `j` of the block at `blk`. -/
def entryTarget (image : Mem) (blk j : Nat) : Nat :=
  (leValue image blk 4 + leValue image (entryOffset blk j) 2 % 2 ^ 12) % 2 ^ 32

/-- The entry is a relocation of a word that is not inside the image. -/
def EntryRejected (size blk : Nat) (image : Mem) (j : Nat) : Prop :=
  entryType image blk j = IMAGE_REL_BASED_DIR64 ∧ size < entryTarget image blk j + 8

instance (size blk : Nat) (image : Mem) (j : Nat) : Decidable (EntryRejected size blk image j) :=
  inferInstanceAs (Decidable (_ ∧ _))

/-- The image after one relocation entry. -/
def applyEntry (delta blk : Nat) (image : Mem) (j : Nat) : Mem :=
  if entryType image blk j = IMAGE_REL_BASED_DIR64 then
    leStore image (entryTarget image blk j) 8
      (add64 (leValue image (entryTarget image blk j) 8) delta)
  else image

/-- The image after the first `n` entries of the block at `blk`. -/
def applyEntries (delta blk : Nat) (image : Mem) (n : Nat) : Mem :=
  (List.range n).foldl (applyEntry delta blk) image

/-- One of the first `n` entries of the block is rejected when the loop comes to it. -/
def BlockRejected (size delta blk : Nat) (image : Mem) (n : Nat) : Prop :=
  ∃ j < n, EntryRejected size blk (applyEntries delta blk image j) j

/-- The number of entries of the block at `blk` that lie in the image. -/
def entriesInside (size blk : Nat) : Nat := (size - (blk + BASE_RELOCATION_SIZE)) / 2

/-- The entries of the block lie in the image, or one of those that do is rejected. -/
def BlockFits (size delta blk : Nat) (image : Mem) : Prop :=
  entryCount (sizeOfBlock image blk) ≤ entriesInside size blk ∨
    BlockRejected size delta blk image (entriesInside size blk)

/-- The loop works on the block at `blk`: the header lies in the table, and its size does not
end the loop. -/
def IsBlock (blkEnd blk : Nat) (image : Mem) : Prop :=
  blk + BASE_RELOCATION_SIZE ≤ blkEnd ∧ BASE_RELOCATION_SIZE ≤ sizeOfBlock image blk

instance (blkEnd blk : Nat) (image : Mem) : Decidable (IsBlock blkEnd blk image) :=
  inferInstanceAs (Decidable (_ ∧ _))

/-- The image after all entries of the block at `blk`. -/
def afterBlock (delta blk : Nat) (image : Mem) : Mem :=
  applyEntries delta blk image (entryCount (sizeOfBlock image blk))

/-- The loop that starts at the block `blk₀` of `image₀` comes to `blk`, and has made `image` of
the image. -/
inductive ComesTo (size delta blkEnd blk₀ : Nat) (image₀ : Mem) : Nat → Mem → Prop
  | first : ComesTo size delta blkEnd blk₀ image₀ blk₀ image₀
  | next {blk : Nat} {image : Mem} (h : ComesTo size delta blkEnd blk₀ image₀ blk image)
      (hblock : IsBlock blkEnd blk image)
      (hok : ¬ BlockRejected size delta blk image (entryCount (sizeOfBlock image blk))) :
      ComesTo size delta blkEnd blk₀ image₀
        (blk + sizeOfBlock (afterBlock delta blk image) blk) (afterBlock delta blk image)

/-- Every block that the loop works on fits. -/
def BlocksFit (size delta blkEnd blk₀ : Nat) (image₀ : Mem) : Prop :=
  ∀ blk image, ComesTo size delta blkEnd blk₀ image₀ blk image → IsBlock blkEnd blk image →
    BlockFits size delta blk image

/-- The image at `base` is relocated: there is a table, it lies in the image, and the image is
not where the file was linked to. -/
structure IsRelocated (nt : NtHeaders) (base : Nat) : Prop where
  size : 0 < nt.relocSize
  table : nt.relocVirtualAddress ≠ 0
  moved : sub64 base nt.imageBase ≠ 0
  inside : nt.relocVirtualAddress + nt.relocSize ≤ nt.sizeOfImage

/-- What a file needs so that the loader leaves neither the file nor its image at `base`. -/
structure FileFits (file : List UInt8) (nt : NtHeaders) (base : Nat) : Prop where
  sections : SectionsFit file nt
  blocks : (∀ sec ∈ Pe.sections file nt, sec.Accepted file nt) → IsRelocated nt base →
    BlocksFit nt.sizeOfImage (sub64 base nt.imageBase) (nt.relocVirtualAddress + nt.relocSize)
      nt.relocVirtualAddress (sectionImage file nt)

end VKernel.Loader.Pe

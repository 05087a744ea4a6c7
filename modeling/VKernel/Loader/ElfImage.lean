import VKernel.Loader.Elf

/-!
# `VKernel.Loader.ElfImage`: the image of an ELF file by link addresses

What the loader does with the image does not depend on where the image lies. Here it is a
function from offsets to bytes, and a link address `v` stands for the offset `v - lo` modulo
`2 ^ 64`, with `lo` the lowest address of a `PT_LOAD` segment. `ImageFits` says that all that
the loader touches lies in the first `limit` bytes.
-/

set_option autoImplicit false

namespace VKernel.Loader

open VKernel.Lib

/-- The bytes of the image by offset. -/
abbrev Image := Nat → UInt8

/-- The offset of a link address. -/
def offsetOf (lo v : Nat) : Nat := sub64 v lo

/-- The `length` bytes from the link address `v` on lie in the image. -/
def Inside (lo limit v length : Nat) : Prop := offsetOf lo v + length ≤ limit

instance (lo limit v length : Nat) : Decidable (Inside lo limit v length) :=
  inferInstanceAs (Decidable (_ ≤ _))

/-- The `u64` at a link address. -/
def Image.word (image : Image) (lo v : Nat) : Nat := leValue image (offsetOf lo v) 8

/-- One segment over the image: its bytes of the file, and zeros up to its size in memory. -/
def Image.addSegment (file : List UInt8) (lo : Nat) (image : Image) (ph : Phdr) : Image :=
  if ph.type ≠ PT_LOAD then image
  else fun o =>
    let start := offsetOf lo ph.vaddr
    if start ≤ o ∧ o < start + ph.filesz then fileByte file (ph.offset + (o - start))
    else if start ≤ o ∧ o < start + ph.memsz then 0
    else image o

/-- The image after step 8. -/
def segmentImage (file : List UInt8) (lo : Nat) (phdrs : List Phdr) : Image :=
  phdrs.foldl (Image.addSegment file lo) fun _ => 0

/-- Entry `k` of a table of entries of `size` bytes. -/
def entryAt (v size k : Nat) : Nat := add64 v (k * size)

/-- The scan of the dynamic table goes past the entry: it is not `DT_NULL`, and all that is
read of it lies in the image. The value is read for the tags `DT_RELA` and `DT_RELASZ`
only. -/
structure EntryPassed (lo limit : Nat) (image : Image) (entry : Nat) : Prop where
  tag : Inside lo limit entry 8
  notNull : image.word lo entry ≠ DT_NULL
  value : image.word lo entry = DT_RELA ∨ image.word lo entry = DT_RELASZ →
    Inside lo limit (add64 entry 8) 8

/-- The dynamic table at `v` ends with its entry `n`: that is its first `DT_NULL`, and all
that the scan reads up to there lies in the image. -/
structure DynamicEnds (lo limit : Nat) (image : Image) (v n : Nat) : Prop where
  passed : ∀ k < n, EntryPassed lo limit image (entryAt v DYN_SIZE k)
  last : Inside lo limit (entryAt v DYN_SIZE n) 8
  null : image.word lo (entryAt v DYN_SIZE n) = DT_NULL

/-- `rela_vaddr` and `rela_size` after one entry. -/
def relaEntry (image : Image) (lo : Nat) (table : Nat × Nat) (entry : Nat) : Nat × Nat :=
  if image.word lo entry = DT_RELA then (image.word lo (add64 entry 8), table.2)
  else if image.word lo entry = DT_RELASZ then (table.1, image.word lo (add64 entry 8))
  else table

/-- `rela_vaddr` and `rela_size` after the first `n` entries of the dynamic table. -/
def relaTable (image : Image) (lo v : Nat) : Nat → Nat × Nat
  | 0 => (0, 0)
  | n + 1 => relaEntry image lo (relaTable image lo v n) (entryAt v DYN_SIZE n)

/-- The entry is an `R_X86_64_RELATIVE` relocation. -/
def IsRelative (image : Image) (lo entry : Nat) : Prop :=
  relaType (image.word lo (add64 entry 8)) = R_X86_64_RELATIVE

instance (image : Image) (lo entry : Nat) : Decidable (IsRelative image lo entry) :=
  inferInstanceAs (Decidable (_ = _))

/-- One relocation: the word at the entry's `r_offset` becomes `load_bias + r_addend`. -/
def Image.relocated (image : Image) (lo loadBias entry : Nat) : Image :=
  if IsRelative image lo entry then
    leStore image (offsetOf lo (image.word lo entry)) 8
      (add64 loadBias (image.word lo (add64 entry 16)))
  else image

/-- The image after `count` relocations from `entry` on. The entries are read from the image
as the earlier ones have left it. -/
def relocatedImage (lo loadBias : Nat) : Nat → Nat → Image → Image
  | 0, _, image => image
  | count + 1, entry, image =>
    relocatedImage lo loadBias count (add64 entry RELA_SIZE)
      (image.relocated lo loadBias entry)

/-- All that one relocation touches lies in the image. -/
structure EntryFits (lo limit : Nat) (image : Image) (entry : Nat) : Prop where
  info : Inside lo limit (add64 entry 8) 8
  offset : IsRelative image lo entry → Inside lo limit entry 8
  addend : IsRelative image lo entry → Inside lo limit (add64 entry 16) 8
  target : IsRelative image lo entry → Inside lo limit (image.word lo entry) 8

/-- All that `count` relocations from `entry` on touch lies in the image. -/
def RelocationsFit (lo limit loadBias : Nat) : Nat → Nat → Image → Prop
  | 0, _, _ => True
  | count + 1, entry, image =>
    EntryFits lo limit image entry ∧
      RelocationsFit lo limit loadBias count (add64 entry RELA_SIZE)
        (image.relocated lo loadBias entry)

/-- The number of relocations of a table. -/
def relaCount (table : Nat × Nat) : Nat :=
  if table.1 ≠ 0 ∧ table.2 ≥ RELA_SIZE then table.2 / RELA_SIZE else 0

/-- All that the loader touches of the image lies in its first `limit` bytes: every `PT_LOAD`
segment with the larger of its two sizes, and for `ET_DYN` the first dynamic table up to
`DT_NULL`, and each relocation with its target. -/
structure ImageFits (file : List UInt8) (ehdr : Ehdr) (phdrs : List Phdr)
    (lo limit loadBias : Nat) : Prop where
  segments : ∀ ph ∈ phdrs, ph.type = PT_LOAD → 0 < max ph.filesz ph.memsz →
    Inside lo limit ph.vaddr (max ph.filesz ph.memsz)
  tables : ehdr.type = ET_DYN → ∀ ph, phdrs.find? (fun ph => ph.type = PT_DYNAMIC) = some ph →
    ∃ n, DynamicEnds lo limit (segmentImage file lo phdrs) ph.vaddr n ∧
      RelocationsFit lo limit loadBias
        (relaCount (relaTable (segmentImage file lo phdrs) lo ph.vaddr n))
        (relaTable (segmentImage file lo phdrs) lo ph.vaddr n).1 (segmentImage file lo phdrs)

end VKernel.Loader

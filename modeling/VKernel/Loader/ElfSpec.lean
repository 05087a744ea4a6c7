import VKernel.Loader.ElfImage

/-!
# `VKernel.Loader.ElfSpec`: what a loaded ELF file should look like

The bytes of a file by link address, the relocations of its table, and `LoadCorrect`: the
image has the file's bytes, zeros in the BSS and the relocated words. Nothing here knows
where the image lies, but for the bias. `WellFormed` is what is asked of the file.
-/

set_option autoImplicit false

namespace VKernel.Loader

open VKernel.Lib

/-- The segment loads the link address. -/
def Phdr.Covers (ph : Phdr) (v : Nat) : Prop :=
  ph.type = PT_LOAD ∧ ph.vaddr ≤ v ∧ v < ph.vaddr + ph.memsz

instance (ph : Phdr) (v : Nat) : Decidable (ph.Covers v) := inferInstanceAs (Decidable (_ ∧ _))

/-- Some segment loads the link address. -/
def LoadedAddress (phdrs : List Phdr) (v : Nat) : Prop := ∃ ph ∈ phdrs, ph.Covers v

/-- The `length` link addresses from `v` on are loaded. -/
def LoadedRange (phdrs : List Phdr) (v length : Nat) : Prop :=
  ∀ i < length, LoadedAddress phdrs (v + i)

/-- The byte of a segment at a link address: from the file, or zero in the BSS part. -/
def Phdr.byteAt (file : List UInt8) (ph : Phdr) (v : Nat) : UInt8 :=
  if v - ph.vaddr < ph.filesz then fileByte file (ph.offset + (v - ph.vaddr)) else 0

/-- The byte of the file at a link address, and zero where nothing is loaded. -/
def linkByte (file : List UInt8) (phdrs : List Phdr) (v : Nat) : UInt8 :=
  match phdrs.find? fun ph => decide (ph.Covers v) with
  | some ph => ph.byteAt file v
  | none => 0

/-! ### Relocations -/

/-- The file is relocated by the dynamic table of the header `ph`, whose first `DT_NULL` is
its entry `n`. -/
structure HasDynamic (file : List UInt8) (ehdr : Ehdr) (phdrs : List Phdr) (ph : Phdr)
    (n : Nat) : Prop where
  dyn : ehdr.type = ET_DYN
  first : phdrs.find? (fun ph => ph.type = PT_DYNAMIC) = some ph
  notNull : ∀ k < n, Image.word (linkByte file phdrs) 0 (ph.vaddr + k * DYN_SIZE) ≠ DT_NULL
  null : Image.word (linkByte file phdrs) 0 (ph.vaddr + n * DYN_SIZE) = DT_NULL

/-- Address and number of entries of the relocation table. -/
def relaBase (file : List UInt8) (phdrs : List Phdr) (ph : Phdr) (n : Nat) : Nat :=
  (relaTable (linkByte file phdrs) 0 ph.vaddr n).1

def relaEntries (file : List UInt8) (phdrs : List Phdr) (ph : Phdr) (n : Nat) : Nat :=
  relaCount (relaTable (linkByte file phdrs) 0 ph.vaddr n)

/-- Entry `i` of the relocation table is a relocation of the word at `target` to
`load_bias + addend`. -/
structure Relocation (file : List UInt8) (ehdr : Ehdr) (phdrs : List Phdr) (ph : Phdr)
    (n i target addend : Nat) : Prop where
  table : HasDynamic file ehdr phdrs ph n
  entry : i < relaEntries file phdrs ph n
  relative : IsRelative (linkByte file phdrs) 0 (relaBase file phdrs ph n + i * RELA_SIZE)
  target_eq : Image.word (linkByte file phdrs) 0 (relaBase file phdrs ph n + i * RELA_SIZE) = target
  addend_eq : Image.word (linkByte file phdrs) 0
    (relaBase file phdrs ph n + i * RELA_SIZE + 16) = addend

/-- The `length` addresses from `a` on and the `length'` addresses from `b` on are disjoint. -/
def Apart (a length b length' : Nat) : Prop := a + length ≤ b ∨ b + length' ≤ a

instance (a length b length' : Nat) : Decidable (Apart a length b length') :=
  inferInstanceAs (Decidable (_ ∨ _))

/-- A well-formed file: sizes in order and no address wrap, disjoint segments, tables and
relocation targets in loaded memory, and no target in the tables. -/
structure WellFormed (file : List UInt8) (ehdr : Ehdr) (phdrs : List Phdr) : Prop where
  sizes : ∀ ph ∈ phdrs, ph.type = PT_LOAD → ph.filesz ≤ ph.memsz ∧ ph.vaddr + ph.memsz < U64
  disjoint : phdrs.Pairwise fun a b => ∀ v, ¬ (a.Covers v ∧ b.Covers v)
  dynamic : ehdr.type = ET_DYN → ∀ ph,
    phdrs.find? (fun ph => ph.type = PT_DYNAMIC) = some ph →
      ∃ n, HasDynamic file ehdr phdrs ph n ∧ LoadedRange phdrs ph.vaddr ((n + 1) * DYN_SIZE)
  table : ∀ ph n, HasDynamic file ehdr phdrs ph n →
    LoadedRange phdrs (relaBase file phdrs ph n) (relaEntries file phdrs ph n * RELA_SIZE)
  target : ∀ ph n i t a, Relocation file ehdr phdrs ph n i t a → LoadedRange phdrs t 8
  apart : ∀ ph n i t a, Relocation file ehdr phdrs ph n i t a →
    Apart t 8 ph.vaddr ((n + 1) * DYN_SIZE) ∧
      Apart t 8 (relaBase file phdrs ph n) (relaEntries file phdrs ph n * RELA_SIZE)

/-- Different entries relocate words that do not overlap. -/
def TargetsApart (file : List UInt8) (ehdr : Ehdr) (phdrs : List Phdr) : Prop :=
  ∀ ph n i j t a t' a', Relocation file ehdr phdrs ph n i t a →
    Relocation file ehdr phdrs ph n j t' a' → i ≠ j → Apart t 8 t' 8

/-! ### The result -/

/-- A link-time address of the program header table: that of the first `PT_PHDR`, or that of
a segment whose bytes in the file have the table. -/
def PhdrLink (ehdr : Ehdr) (phdrs : List Phdr) (link : Nat) : Prop :=
  (∃ ph, phdrs.find? (fun ph => ph.type = PT_PHDR) = some ph ∧ link = ph.vaddr) ∨
    ∃ ph ∈ phdrs, ph.type = PT_LOAD ∧ ph.offset ≤ ehdr.phoff ∧
      ehdr.phoff + ehdr.phnum * PHDR_SIZE ≤ ph.offset + ph.filesz ∧
      link = ph.vaddr + (ehdr.phoff - ph.offset)

/-- The byte that the loaded program sees at a runtime address of its image. An image in an
address space is mapped from `runtimeBase` to the memory at `writeBase`. -/
def Loaded.byteAt (l : Loaded) (address : Nat) : UInt8 :=
  l.mem (l.place.writeBase + sub64 address l.place.runtimeBase)

/-- The `u64` that the loaded program sees at a runtime address. -/
def Loaded.wordAt (l : Loaded) (address : Nat) : Nat := leValue l.byteAt address 8

/-- `load_bias` of a load. -/
def Loaded.bias (l : Loaded) : Nat := l.place.loadBias l.span

/-- The image is the file's, relocated by its bias. -/
structure LoadCorrect (file : List UInt8) (ehdr : Ehdr) (phdrs : List Phdr) (l : Loaded) :
    Prop where
  bytes : ∀ v, LoadedAddress phdrs v →
    (∀ ph n i t a, Relocation file ehdr phdrs ph n i t a → ¬ (t ≤ v ∧ v < t + 8)) →
    l.byteAt (add64 v l.bias) = linkByte file phdrs v
  words : ∀ ph n i t a, Relocation file ehdr phdrs ph n i t a →
    l.wordAt (add64 t l.bias) = add64 l.bias a
  entry : l.result.entry = add64 ehdr.entry l.bias
  phdr : (∃ link, PhdrLink ehdr phdrs link) →
    ∃ link, PhdrLink ehdr phdrs link ∧ l.result.phdrAddr = add64 link l.bias
  ptPhdr : ∀ ph, phdrs.find? (fun ph => ph.type = PT_PHDR) = some ph →
    add64 ph.vaddr l.bias ≠ 0 → l.result.phdrAddr = add64 ph.vaddr l.bias

/-- Two images of one file are the same but for the bias: the same bytes outside of the
relocated words, and relocated words that differ as the biases do. -/
structure SameButBias (file : List UInt8) (ehdr : Ehdr) (phdrs : List Phdr) (l l' : Loaded) :
    Prop where
  size : l.result.imageSize = l'.result.imageSize
  bytes : ∀ o < l.result.imageSize,
    (∀ ph n i t a, Relocation file ehdr phdrs ph n i t a →
      ¬ (t ≤ l.span.vaddrMin + o ∧ l.span.vaddrMin + o < t + 8)) →
    l.mem (l.place.writeBase + o) = l'.mem (l'.place.writeBase + o)
  words : ∀ ph n i t a, Relocation file ehdr phdrs ph n i t a →
    sub64 (l.wordAt (add64 t l.bias)) l.bias = sub64 (l'.wordAt (add64 t l'.bias)) l'.bias
  entry : sub64 l.result.entry l.bias = sub64 l'.result.entry l'.bias

end VKernel.Loader

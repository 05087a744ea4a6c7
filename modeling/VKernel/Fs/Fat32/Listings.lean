import Mathlib.Data.List.DropRight
import VKernel.Fs.Fat32.Paths
import VKernel.Fs.Fat32.Soundness

/-!
# `VKernel.Fs.Fat32.Listings`: what a directory shows

`list_directory` hands the visible entries of a directory to its caller, up to the end mark. The
slots behind the end mark may hold anything. `write_file` puts a new entry into the first run of
free slots that is long enough; the slots from the end mark on count as free.

`AddsFile` is what the creation of a file should do to the list of the entries. `uncovered` are
the entries that appear besides, and `IsDotName` are the names that the list leaves out.
-/

set_option autoImplicit false

namespace VKernel.Fs.Fat32

open VKernel.Lib

/-! ### Entries -/

/-- A callback of `list_directory` that keeps every entry. -/
def keepEntry (infos : List DirectoryEntryInfo) (info : DirectoryEntryInfo) :
    List DirectoryEntryInfo × Bool := (infos ++ [info], false)

/-- The entries that some slots show. -/
def shown (slots : List (EntryLocation × FatEntry)) : List DirectoryEntryInfo :=
  match scanSlots (listCallback keepEntry) slots [] [] with
  | .stop infos => infos
  | .more _ infos => infos

/-- `list_directory` shows these entries of a directory, under every path that leads there. -/
structure Shows (g : MountState) (w : World) (rounds d : Nat) (infos : List DirectoryEntryInfo) :
    Prop where
  scan : outcome g w (scanDirectory g rounds d (listCallback keepEntry) []) = some (some infos)
  list : ∀ path, outcome g w (resolveDirectoryCluster g rounds path) = some (some d) →
    outcome g w (listDirectory g rounds path keepEntry []) = some (some infos)

/-- The list `after` is the list `before` with a file added. -/
def AddsFile (name : List UInt8) (size : Nat) (before after : List DirectoryEntryInfo) : Prop :=
  ∃ front back cluster, before = front ++ back ∧
    after = front ++ ⟨name, false, size, cluster⟩ :: back

/-! ### Slots -/

/-- The slots in front of the end mark. -/
def inFront (slots : List (EntryLocation × FatEntry)) : List (EntryLocation × FatEntry) :=
  slots.takeWhile fun s => s.2.firstByte != DIR_ENTRY_END

/-- A slot whose entry was removed. -/
def isUnused (s : EntryLocation × FatEntry) : Bool := s.2.firstByte == DIR_ENTRY_UNUSED

/-- Each slot of a long name is followed by another one or by the entry that it belongs to. -/
def LongNamesOwned (slots : List (EntryLocation × FatEntry)) : Prop :=
  ∀ pre s post, inFront slots = pre ++ s :: post → s.2.firstByte ≠ DIR_ENTRY_UNUSED →
    s.2.attributes = ATTR_LONG_FILE_NAME →
    ∃ t rest, post = t :: rest ∧ t.2.firstByte ≠ DIR_ENTRY_UNUSED ∧
      (t.2.attributes = ATTR_LONG_FILE_NAME ∨ t.2.IsLive)

/-- A directory by the FAT rules: its chain runs through clusters of the volume and ends, and in
front of the end mark no long name is without its entry. -/
structure ValidDirectory (g : MountState) (v : View) (d : Nat) (cs : List Nat) : Prop where
  chain : Chain v.link d cs
  inside : ∀ c ∈ cs, InVolume g c
  longNames : LongNamesOwned (dirSlots g v cs)

/-! ### New entries -/

/-- The slots that a new name takes. -/
def slotsNeeded (leaf : List UInt8) : Nat :=
  if isValidSfnName leaf then 1 else (leaf.length + 12) / 13 + 1

/-- The name that a new entry is shown with. -/
def shownName (leaf : List UInt8) : List UInt8 :=
  if isValidSfnName leaf then
    decodeShortName { encodeSfn .zero leaf with caseInfo := encodeCaseInfo leaf }
  else collectLfnCharacters 256 [] (leaf.map UInt8.toUInt16)

/-- Enough unused slots, one after the other. -/
def HasRoom (needed : Nat) (slots : List (EntryLocation × FatEntry)) : Prop :=
  List.replicate needed DIR_ENTRY_UNUSED <:+: slots.map fun s => s.2.firstByte

instance (needed : Nat) (slots : List (EntryLocation × FatEntry)) :
    Decidable (HasRoom needed slots) :=
  inferInstanceAs (Decidable (_ <:+: _))

/-- Where the free slots at the end of a directory begin: the unused ones directly in front of
the end mark count. -/
def freeTail (slots : List (EntryLocation × FatEntry)) : Nat :=
  ((inFront slots).rdropWhile isUnused).length

/-- What a new name would uncover: the entries behind its slots, when these reach the end mark. -/
def uncovered (leaf : List UInt8) (slots : List (EntryLocation × FatEntry)) :
    List DirectoryEntryInfo :=
  if HasRoom (slotsNeeded leaf) (inFront slots) then []
  else shown (slots.drop (freeTail slots + slotsNeeded leaf))

/-- The names that `list_directory` leaves out. -/
def IsDotName (name : List UInt8) : Prop :=
  name = ['.'.toUInt8] ∨ name = ['.'.toUInt8, '.'.toUInt8]

instance (name : List UInt8) : Decidable (IsDotName name) := inferInstanceAs (Decidable (_ ∨ _))

end VKernel.Fs.Fat32

import VKernel.Lib.LittleEndian
import VKernel.Lib.Program

/-!
# `VKernel.Acpi.Tables`: the table walks of `acpi.cpp`

The firmware's tables lie in physical memory, which is mapped one to one. The code is a program of
loads (`Load`), each with the part of the tables that it is for. Physical addresses have 52 bits,
and a load past them ends the kernel. So a pointer that is followed is far from the end of the
64-bit range, and the sums with it are exact; what the tables state is subtracted and divided in the
widths of the source (`entryCount`).

The messages to the log are left out. `find_configuration_table` is the firmware's answer: the two
pointers are arguments of `init`.
-/

set_option autoImplicit false

namespace VKernel.Acpi

open VKernel.Lib

/-! ### Loads -/

/-- What a load is for. -/
inductive Part
  | rsdp
  /-- The length in the header of a table. -/
  | length
  /-- A byte under a checksum. -/
  | checksum
  /-- An entry of the RSDT or the XSDT. -/
  | entry
  /-- The signature of an indexed table. -/
  | signature
  /-- The header of an entry of the MADT. -/
  | madtEntry
  deriving DecidableEq, Repr

/-- A load of `size` bytes. -/
structure Load where
  part : Part
  addr : Nat
  size : Nat
  deriving DecidableEq, Repr

/-- Programs of loads. The answer is a little-endian number, or `none` past the end of memory. -/
abbrev Reads := Program Load fun _ => Option Nat

def load (part : Part) (addr size : Nat) : Reads Nat :=
  .ask ⟨part, addr, size⟩ fun
    | some v => .done v
    | none => .diverge

/-- Physical addresses are below this one. -/
def PHYSICAL_END : Nat := 2 ^ 52

/-- The number in `n` bytes from `a` on. -/
def value (mem : Nat → UInt8) (a n : Nat) : Option Nat :=
  if a + n ≤ PHYSICAL_END then some (leValue mem a n) else none

/-- How memory answers. -/
def memory (mem : Nat → UInt8) : Program.Handler (fun _ : Load => Option Nat) Unit :=
  fun r w => (value mem r.addr r.size, w)

/-! ### Checksums -/

/-- The loop of `verify_checksum`. -/
def checksumLoop (ptr : Nat) : Nat → UInt8 → Reads UInt8
  | 0, sum => pure sum
  | n + 1, sum => do
    let b ← load .checksum ptr 1
    checksumLoop (ptr + 1) n (sum + UInt8.ofNat b)

/-- `verify_checksum`. -/
def verifyChecksum (ptr length : Nat) : Reads Bool := do
  let sum ← checksumLoop ptr length 0
  return sum == 0

/-! ### The root tables -/

/-- `k_max_tables`. -/
def K_MAX_TABLES : Nat := 64

/-- `sizeof(sdt_header)`. -/
def SDT_HEADER_SIZE : Nat := 36

/-- `table->header.length`. -/
def tableLength (table : Nat) : Reads Nat := load .length (table + 4) 4

/-- `entry_count`: a 64-bit difference, divided and narrowed to 32 bits. -/
def entryCount (length entrySize : Nat) : Nat :=
  (length + 2 ^ 64 - SDT_HEADER_SIZE) % 2 ^ 64 / entrySize % 2 ^ 32

/-- The loop of `index_rsdt` and `index_xsdt`, from entry `i` on, with `left` entries to go.
`tables` are the pointers in `s_tables`. -/
def indexLoop (entrySize entries : Nat) : Nat → Nat → List Nat → Reads (List Nat)
  | 0, _, tables => pure tables
  | left + 1, i, tables =>
    if tables.length < K_MAX_TABLES then do
      let hdr ← load .entry (entries + entrySize * i) entrySize
      let length ← tableLength hdr
      let ok ← verifyChecksum hdr length
      indexLoop entrySize entries left (i + 1) (if ok then tables ++ [hdr] else tables)
    else pure tables

/-- `index_rsdt` for entries of four bytes, `index_xsdt` for entries of eight. -/
def indexTable (entrySize table : Nat) (tables : List Nat) : Reads (List Nat) := do
  let length ← tableLength table
  indexLoop entrySize (table + SDT_HEADER_SIZE) (entryCount length entrySize) 0 tables

/-- `index_rsdt`. -/
def indexRsdt (table : Nat) (tables : List Nat) : Reads (List Nat) := indexTable 4 table tables

/-- `index_xsdt`. -/
def indexXsdt (table : Nat) (tables : List Nat) : Reads (List Nat) := indexTable 8 table tables

/-! ### `init` -/

/-- The static variables. `tables` are the first `s_table_count` of `s_tables`. -/
structure AcpiState where
  rsdp : Option Nat
  useXsdt : Bool
  initialized : Bool
  tables : List Nat
  deriving DecidableEq, Repr

/-- Their values at the start. -/
def AcpiState.boot : AcpiState := ⟨none, false, false, []⟩

/-- `sizeof(rsdp_v1)`. -/
def RSDP_V1_SIZE : Nat := 20

/-- `"RSD PTR "` as a number. -/
def RSD_PTR : Nat := 0x2052545020445352

/-- The part of `init` for an RSDP of version 2. -/
def initXsdt (rsdp : Nat) (s : AcpiState) : Reads AcpiState := do
  let length ← load .rsdp (rsdp + 20) 4
  let extended ← verifyChecksum rsdp length
  if !extended then return s
  let xsdt ← load .rsdp (rsdp + 24) 8
  if xsdt = 0 then return s
  let length ← tableLength xsdt
  let ok ← verifyChecksum xsdt length
  -- A wrong checksum leads back to the RSDT.
  if !ok then return s
  let tables ← indexXsdt xsdt s.tables
  return { s with useXsdt := true, tables := tables }

/-- The part of `init` for the RSDT. -/
def initRsdt (rsdp : Nat) (s : AcpiState) : Reads AcpiState := do
  let rsdt ← load .rsdp (rsdp + 16) 4
  if rsdt = 0 then return s
  let length ← tableLength rsdt
  let ok ← verifyChecksum rsdt length
  if !ok then return s
  let tables ← indexRsdt rsdt s.tables
  return { s with initialized := true, tables := tables }

/-- `init`. `systemTable` says that the pointer is not null; `acpi20` and `acpi10` are the answers
of `find_configuration_table`. -/
def init (systemTable : Bool) (acpi20 acpi10 : Option Nat) (s : AcpiState) : Reads AcpiState :=
  if s.initialized || !systemTable then pure s
  else
    match acpi20.or acpi10 with
    | none => pure s
    | some rsdp => do
      let ok ← verifyChecksum rsdp RSDP_V1_SIZE
      if !ok then return s
      let signature ← load .rsdp rsdp 8
      if signature ≠ RSD_PTR then return s
      let s := { s with rsdp := some rsdp, useXsdt := false }
      let revision ← load .rsdp (rsdp + 15) 1
      let s ← (if revision ≥ 2 ∧ acpi20.isSome then initXsdt rsdp s else pure s : Reads AcpiState)
      if s.useXsdt then return { s with initialized := true }
      initRsdt rsdp s

/-! ### The MADT -/

/-- `find_table`, for a signature as a number. -/
def findTable (sig : Nat) : List Nat → Reads (Option Nat)
  | [] => pure none
  | t :: tables => do
    let signature ← load .signature t 4
    if signature = sig then return some t
    findTable sig tables

/-- `"APIC"` as a number. -/
def APIC : Nat := 0x43495041

/-- `get_madt`. -/
def getMadt (s : AcpiState) : Reads (Option Nat) := findTable APIC s.tables

/-- `sizeof(madt)`. -/
def MADT_SIZE : Nat := 44

/-- `sizeof(madt_entry_hdr)`. -/
def MADT_ENTRY_HDR_SIZE : Nat := 2

/-- The loop of `foreach_madt_entry`, for so many rounds: the entries that the callback was called
for, the first one first. -/
def madtLoop (type stop : Nat) : Nat → Nat → List Nat → Reads (List Nat)
  | 0, _, _ => .diverge
  | rounds + 1, pos, called =>
    if pos + MADT_ENTRY_HDR_SIZE ≤ stop then do
      let length ← load .madtEntry (pos + 1) 1
      if length < MADT_ENTRY_HDR_SIZE ∨ pos + length > stop then return called
      let entryType ← load .madtEntry pos 1
      madtLoop type stop rounds (pos + length)
        (if entryType = type then called ++ [pos] else called)
    else pure called

/-- `foreach_madt_entry`. `cb` says that the callback is not null. -/
def foreachMadtEntry (rounds : Nat) (s : AcpiState) (type : Nat) (cb : Bool) :
    Reads (List Nat) := do
  let madt ← getMadt s
  match madt with
  | none => return []
  | some m =>
    if !cb then return []
    let length ← tableLength m
    madtLoop type (m + length) rounds (m + MADT_SIZE) []

/-! ### What the walks should do -/

/-- The sum of `n` bytes from `a` on, in eight bits. -/
def sumBytes (mem : Nat → UInt8) (a : Nat) : Nat → UInt8
  | 0 => 0
  | n + 1 => mem a + sumBytes mem (a + 1) n

/-- `n` bytes from `a` on pass the checksum test. -/
def Passes (mem : Nat → UInt8) (a n : Nat) : Prop := a + n ≤ PHYSICAL_END ∧ sumBytes mem a n = 0

instance (mem : Nat → UInt8) (a n : Nat) : Decidable (Passes mem a n) :=
  inferInstanceAs (Decidable (_ ∧ _))

/-- A table that states the length `length` passes it. -/
def TablePasses (mem : Nat → UInt8) (table length : Nat) : Prop :=
  value mem (table + 4) 4 = some length ∧ Passes mem table length

/-- The firmware's RSDP and root table pass the checksums. The root table is at `table`, with
entries of `entrySize` bytes and the stated length `length`. It is the XSDT where the RSDP is of
version 2 and names one, and the RSDT otherwise. -/
inductive RootTable (mem : Nat → UInt8) (acpi20 acpi10 : Option Nat) :
    (entrySize table length : Nat) → Prop
  | xsdt {rsdp revision extended table length : Nat} (pointer : acpi20 = some rsdp)
      (checksum : Passes mem rsdp RSDP_V1_SIZE) (signature : value mem rsdp 8 = some RSD_PTR)
      (revisionRead : value mem (rsdp + 15) 1 = some revision) (version : 2 ≤ revision)
      (extendedRead : value mem (rsdp + 20) 4 = some extended)
      (extendedChecksum : Passes mem rsdp extended)
      (address : value mem (rsdp + 24) 8 = some table) (named : table ≠ 0)
      (passes : TablePasses mem table length) : RootTable mem acpi20 acpi10 8 table length
  | rsdt {rsdp revision table length : Nat} (pointer : acpi20.or acpi10 = some rsdp)
      (checksum : Passes mem rsdp RSDP_V1_SIZE) (signature : value mem rsdp 8 = some RSD_PTR)
      (revisionRead : value mem (rsdp + 15) 1 = some revision)
      (version : revision < 2 ∨ acpi20 = none ∨ ∃ extended,
        value mem (rsdp + 20) 4 = some extended ∧ Passes mem rsdp extended ∧
          value mem (rsdp + 24) 8 = some 0)
      (address : value mem (rsdp + 16) 4 = some table) (named : table ≠ 0)
      (passes : TablePasses mem table length) : RootTable mem acpi20 acpi10 4 table length

/-- An entry of the MADT. -/
structure MadtEntry where
  addr : Nat
  type : Nat
  length : Nat
  deriving DecidableEq, Repr

/-- The entries follow each other from `pos` on. Each of them has room for its header and ends at
`stop` at the latest. -/
inductive WellFormed (mem : Nat → UInt8) (stop : Nat) : Nat → List MadtEntry → Prop
  | nil {pos : Nat} : WellFormed mem stop pos []
  | cons {e : MadtEntry} {rest : List MadtEntry} (type : (mem e.addr).toNat = e.type)
      (length : (mem (e.addr + 1)).toNat = e.length) (header : MADT_ENTRY_HDR_SIZE ≤ e.length)
      (inside : e.addr + e.length ≤ stop) (more : WellFormed mem stop (e.addr + e.length) rest) :
      WellFormed mem stop e.addr (e :: rest)

/-- `l` is the longest list of entries that is well formed from `pos` on. -/
structure MaximalEntries (mem : Nat → UInt8) (stop pos : Nat) (l : List MadtEntry) : Prop where
  wellFormed : WellFormed mem stop pos l
  maximal : ∀ l', WellFormed mem stop pos l' → l' <+: l

/-- What `foreach_madt_entry` does on the MADT at `madt`, which states the length `length`. With
enough rounds it returns, after the callback was called for the entries of the type in the longest
well-formed list, in order. It loads the signatures in the search for the table, the length of the
table, and bytes of entries inside the table. -/
def MadtWalked (mem : Nat → UInt8) (s : AcpiState) (madt length type : Nat) : Prop :=
  ∃ l, MaximalEntries mem (madt + length) (madt + MADT_SIZE) l ∧
    ∀ rounds, length < rounds →
      (foreachMadtEntry rounds s type true).run (memory mem) ()
        = some ((l.filter (·.type = type)).map MadtEntry.addr, ()) ∧
      ∀ r ∈ (foreachMadtEntry rounds s type true).requests (memory mem) (),
        r.part = .signature ∧ r.addr ∈ s.tables ∨ r = ⟨.length, madt + 4, 4⟩ ∨
          r.part = .madtEntry ∧ madt ≤ r.addr ∧ r.addr + r.size ≤ madt + length

/-- What the walks over a root table and over the MADT should do:

- `entries`: `init` loads no entry outside of the root table;
- `madt`: in the state that `init` leaves, a walk over the MADT goes right, where there is one. -/
structure WalksInside (mem : Nat → UInt8) (acpi20 acpi10 : Option Nat) (table length : Nat) :
    Prop where
  entries : ∀ r ∈ (init true acpi20 acpi10 AcpiState.boot).requests (memory mem) (),
    r.part = .entry → table ≤ r.addr ∧ r.addr + r.size ≤ table + length
  madt : ∀ s, (init true acpi20 acpi10 AcpiState.boot).run (memory mem) () = some (s, ()) →
    ∀ type,
      (∀ rounds, (foreachMadtEntry rounds s type true).run (memory mem) () = some ([], ())) ∧
          (getMadt s).run (memory mem) () = some (none, ()) ∨
        ∃ madt madtLength, (getMadt s).run (memory mem) () = some (some madt, ()) ∧
          TablePasses mem madt madtLength ∧ MadtWalked mem s madt madtLength type

end VKernel.Acpi

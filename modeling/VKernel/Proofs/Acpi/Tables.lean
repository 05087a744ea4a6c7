import VKernel.Acpi.Tables
import VKernel.Lib.ByteRange

/-!
# `VKernel.Proofs.Acpi.Tables`: the walks stay inside the tables

`Reaches` skips the part of a run that is settled by what is in memory: `init_reaches` leads from
`init` to the loop over the root table. `indexLoop_asks` says where the loop loads its entries, for
any memory. With a stated length of at least the header they lie in the table; below, the count of
the entries wraps around, and the first entry that is loaded lies behind the table
(`entryCount_pos_of_short`).

`madtLoop_reaches` is about the MADT, by induction on the bytes in front of its end. Every round
makes progress by at least the two bytes of a header.
-/

set_option autoImplicit false

namespace VKernel.Acpi

open VKernel.Lib

variable {α β : Type} {mem : Nat → UInt8} {P : Load → Prop}

/-! ### Runs up to a point -/

/-- In this memory `p` comes to `q`, and each load on the way satisfies `P`. -/
structure Reaches (mem : Nat → UInt8) (P : Load → Prop) (q p : Reads α) : Prop where
  run : p.run (memory mem) () = q.run (memory mem) ()
  requests : ∃ before, (∀ r ∈ before, P r) ∧
    p.requests (memory mem) () = before ++ q.requests (memory mem) ()

theorem Reaches.refl (p : Reads α) : Reaches mem P p p := ⟨rfl, [], by simp, rfl⟩

theorem Reaches.trans {p q r : Reads α} (hqr : Reaches mem P r q) (hpq : Reaches mem P q p) :
    Reaches mem P r p := by
  obtain ⟨before, hbefore, hrequests⟩ := hpq.requests
  obtain ⟨between, hbetween, hrest⟩ := hqr.requests
  refine ⟨hpq.run.trans hqr.run, before ++ between, ?_, ?_⟩
  · intro r hr
    rcases List.mem_append.mp hr with hr | hr
    · exact hbefore r hr
    · exact hbetween r hr
  · rw [hrequests, hrest, List.append_assoc]

/-- What comes behind does not matter on the way. -/
theorem Reaches.bind {p q : Reads α} (h : Reaches mem P q p) (f : α → Reads β) :
    Reaches mem P (q >>= f) (p >>= f) := by
  obtain ⟨before, hbefore, hrequests⟩ := h.requests
  refine ⟨?_, before, hbefore, ?_⟩
  · rw [Program.run_bind_eq, Program.run_bind_eq, h.run]
  · rw [Program.requests_bind, Program.requests_bind, h.run, hrequests, List.append_assoc]

/-- A load from memory that is there. -/
theorem reaches_load {part : Part} {a n v : Nat} (h : value mem a n = some v)
    (hP : P ⟨part, a, n⟩) (f : Nat → Reads α) : Reaches mem P (f v) (load part a n >>= f) := by
  have hanswer : (memory mem ⟨part, a, n⟩ ()) = (some v, ()) := Prod.ext h rfl
  refine ⟨?_, [⟨part, a, n⟩], by simpa using hP, ?_⟩
  · show (Program.bind (load part a n) f).run (memory mem) () = _
    simp only [load, Program.bind, Program.run, hanswer]
  · show (Program.bind (load part a n) f).requests (memory mem) () = _
    simp only [load, Program.bind, Program.requests, hanswer]
    rfl

theorem value_of_le {a n : Nat} (h : a + n ≤ PHYSICAL_END) :
    value mem a n = some (leValue mem a n) :=
  if_pos h

/-- The value of one byte. -/
theorem value_byte {a : Nat} (h : a + 1 ≤ PHYSICAL_END) : value mem a 1 = some (mem a).toNat := by
  rw [value_of_le h]
  rfl

/-- What is read is in memory. -/
theorem le_of_value {a n v : Nat} (h : value mem a n = some v) : a + n ≤ PHYSICAL_END := by
  by_contra hend
  rw [value, if_neg hend] at h
  cases h

/-! ### Checksums -/

/-- The loop of the checksum ends with the sum. By induction on the bytes. -/
theorem reaches_checksumLoop (hP : ∀ a, P ⟨.checksum, a, 1⟩) {ptr n : Nat}
    (hend : ptr + n ≤ PHYSICAL_END) (sum : UInt8) (f : UInt8 → Reads α) :
    Reaches mem P (f (sum + sumBytes mem ptr n)) (checksumLoop ptr n sum >>= f) := by
  induction n generalizing ptr sum with
  | zero =>
    rw [sumBytes, UInt8.add_zero]
    exact Reaches.refl _
  | succ n ih =>
    have hbytes : ptr + 1 + n ≤ PHYSICAL_END := by omega
    have hrest := ih hbytes (sum + UInt8.ofNat (mem ptr).toNat)
    rw [UInt8.ofNat_toNat, UInt8.add_assoc] at hrest
    refine Reaches.trans hrest ?_
    have hbyte : value mem ptr 1 = some (mem ptr).toNat := value_byte (by omega)
    have hload := reaches_load hbyte (hP ptr)
      (fun b => checksumLoop (ptr + 1) n (sum + UInt8.ofNat b))
    rw [UInt8.ofNat_toNat] at hload
    exact hload.bind f

/-- The test of bytes that are there. -/
theorem reaches_verifyChecksum (hP : ∀ a, P ⟨.checksum, a, 1⟩) {ptr n : Nat}
    (hend : ptr + n ≤ PHYSICAL_END) (f : Bool → Reads α) :
    Reaches mem P (f (sumBytes mem ptr n == 0)) (verifyChecksum ptr n >>= f) := by
  have hloop : Reaches mem P (pure (0 + sumBytes mem ptr n == 0)) (verifyChecksum ptr n) :=
    reaches_checksumLoop hP hend 0 (fun sum => pure (sum == 0))
  rw [UInt8.zero_add] at hloop
  exact hloop.bind f

/-- A table that passes the check goes on. -/
theorem reaches_passes (hP : ∀ a, P ⟨.checksum, a, 1⟩) {ptr n : Nat} (h : Passes mem ptr n)
    (f : Bool → Reads α) : Reaches mem P (f true) (verifyChecksum ptr n >>= f) := by
  have hreaches : Reaches mem P (f (sumBytes mem ptr n == 0)) (verifyChecksum ptr n >>= f) :=
    reaches_verifyChecksum hP h.1 f
  rwa [h.2, beq_self_eq_true] at hreaches

/-- A load reads memory. -/
theorem run_load {part : Part} {a n v : Nat}
    (hrun : (load part a n).run (memory mem) () = some (v, ())) : value mem a n = some v := by
  have hanswer : memory mem ⟨part, a, n⟩ () = (value mem a n, ()) := rfl
  simp only [load, Program.run, hanswer] at hrun
  cases hvalue : value mem a n with
  | none =>
    rw [hvalue] at hrun
    cases hrun
  | some w =>
    rw [hvalue] at hrun
    cases hrun
    rfl

/-- A loop that came to its end has read bytes that are there. -/
theorem run_checksumLoop {ptr n : Nat} {sum total : UInt8} (hptr : ptr ≤ PHYSICAL_END)
    (hrun : (checksumLoop ptr n sum).run (memory mem) () = some (total, ())) :
    ptr + n ≤ PHYSICAL_END ∧ total = sum + sumBytes mem ptr n := by
  induction n generalizing ptr sum with
  | zero =>
    cases hrun
    exact ⟨hptr, (UInt8.add_zero _).symm⟩
  | succ n ih =>
    obtain ⟨b, _, hload, hrest⟩ := Program.run_bind_eq_some hrun
    have hvalue := run_load hload
    have hfirst := le_of_value hvalue
    rw [value_byte hfirst] at hvalue
    cases hvalue
    obtain ⟨hend, htotal⟩ := ih hfirst hrest
    rw [UInt8.ofNat_toNat] at htotal
    exact ⟨by omega, by rw [htotal, sumBytes, UInt8.add_assoc]⟩

/-- A check that succeeds has summed the table. -/
theorem run_verifyChecksum {ptr n : Nat} (hptr : ptr ≤ PHYSICAL_END)
    (hrun : (verifyChecksum ptr n).run (memory mem) () = some (true, ())) : Passes mem ptr n := by
  obtain ⟨total, _, hloop, hdone⟩ := Program.run_bind_eq_some hrun
  obtain ⟨hend, htotal⟩ := run_checksumLoop hptr hloop
  have hzero : (total == 0) = true := congrArg Prod.fst (Option.some.inj hdone)
  rw [htotal, UInt8.zero_add, beq_iff_eq] at hzero
  exact ⟨hend, hzero⟩

/-! ### From `init` to the root table -/

/-- The loads that are no entries of a root table. -/
def NoEntry (r : Load) : Prop := r.part ≠ .entry

/-- The check reads no entry. -/
theorem noEntry_checksum (a : Nat) : NoEntry ⟨.checksum, a, 1⟩ := fun h => by cases h

/-- The RSDP is no entry. -/
theorem noEntry_rsdp (a n : Nat) : NoEntry ⟨.rsdp, a, n⟩ := fun h => by cases h

/-- A length is no entry. -/
theorem noEntry_length (a n : Nat) : NoEntry ⟨.length, a, n⟩ := fun h => by cases h

/-- The checks of a root table. -/
theorem reaches_tableChecks {table length : Nat} (h : TablePasses mem table length)
    (f : Bool → Reads α) :
    Reaches mem NoEntry (f true)
      (tableLength table >>= fun length => verifyChecksum table length >>= f) :=
  (reaches_passes noEntry_checksum h.2 f).trans
    (reaches_load h.1 (noEntry_length _ _) fun length => verifyChecksum table length >>= f)

/-- The checks of the RSDP. -/
theorem reaches_rsdpChecks {rsdp revision : Nat} (hchecksum : Passes mem rsdp RSDP_V1_SIZE)
    (hsignature : value mem rsdp 8 = some RSD_PTR)
    (hrevision : value mem (rsdp + 15) 1 = some revision) {acpi20 acpi10 : Option Nat}
    (hpointer : acpi20.or acpi10 = some rsdp) :
    Reaches mem NoEntry
      ((if revision ≥ 2 ∧ acpi20.isSome then
          initXsdt rsdp { AcpiState.boot with rsdp := some rsdp, useXsdt := false }
        else pure { AcpiState.boot with rsdp := some rsdp, useXsdt := false }) >>= fun s =>
          if s.useXsdt then pure { s with initialized := true } else initRsdt rsdp s)
      (init true acpi20 acpi10 AcpiState.boot) := by
  unfold init
  rw [show (AcpiState.boot.initialized || !true) = false from rfl, if_neg Bool.false_ne_true,
    hpointer]
  refine Reaches.trans ?_ (reaches_passes noEntry_checksum hchecksum _)
  rw [Bool.not_true, if_neg Bool.false_ne_true]
  refine Reaches.trans ?_ (reaches_load hsignature (noEntry_rsdp _ _) _)
  rw [if_neg (show ¬ RSD_PTR ≠ RSD_PTR from fun h => h rfl)]
  refine Reaches.trans ?_ (reaches_load hrevision (noEntry_rsdp _ _) _)
  exact Reaches.refl _

/-- `init` comes to the loop over the root table. -/
theorem init_reaches {acpi20 acpi10 : Option Nat} {entrySize table length : Nat}
    (h : RootTable mem acpi20 acpi10 entrySize table length) :
    ∃ rsdp useXsdt, Reaches mem NoEntry
      (indexTable entrySize table [] >>= fun tables => pure ⟨rsdp, useXsdt, true, tables⟩)
      (init true acpi20 acpi10 AcpiState.boot) := by
  cases h with
  | @xsdt rsdp revision extended table length hpointer hchecksum hsignature hrevision hversion
      hextended hextendedChecksum haddress hnamed hpasses =>
    refine ⟨some rsdp, true, ?_⟩
    refine Reaches.trans ?_ (reaches_rsdpChecks hchecksum hsignature hrevision
      (by rw [hpointer, Option.some_or]))
    rw [if_pos ⟨hversion, by rw [hpointer]; rfl⟩]
    -- The extended checksum and the address of the XSDT.
    have hxsdt : Reaches mem NoEntry
        (indexXsdt table [] >>= fun tables => pure ⟨some rsdp, true, false, tables⟩)
        (initXsdt rsdp { AcpiState.boot with rsdp := some rsdp, useXsdt := false }) := by
      unfold initXsdt
      refine Reaches.trans ?_ (reaches_load hextended (noEntry_rsdp _ _) _)
      refine Reaches.trans ?_ (reaches_passes noEntry_checksum hextendedChecksum _)
      rw [Bool.not_true, if_neg Bool.false_ne_true]
      refine Reaches.trans ?_ (reaches_load haddress (noEntry_rsdp _ _) _)
      rw [if_neg hnamed]
      refine Reaches.trans ?_ (reaches_tableChecks hpasses _)
      exact Reaches.refl _
    refine Reaches.trans ?_ (hxsdt.bind _)
    rw [Program.bind_assoc]
    exact Reaches.refl _
  | @rsdt rsdp revision table length hpointer hchecksum hsignature hrevision hversion haddress
      hnamed hpasses =>
    refine ⟨some rsdp, false, ?_⟩
    refine Reaches.trans ?_ (reaches_rsdpChecks hchecksum hsignature hrevision hpointer)
    -- No XSDT: the state is as it was.
    have hnone : Reaches mem NoEntry
        (pure { AcpiState.boot with rsdp := some rsdp, useXsdt := false })
        (if revision ≥ 2 ∧ acpi20.isSome then
            initXsdt rsdp { AcpiState.boot with rsdp := some rsdp, useXsdt := false }
          else pure { AcpiState.boot with rsdp := some rsdp, useXsdt := false }) := by
      rcases hversion with hold | hnull | ⟨extended, hextended, hextendedChecksum, hzero⟩
      · rw [if_neg (by omega)]
        exact Reaches.refl _
      · rw [if_neg (by rw [hnull]; exact fun h => Bool.false_ne_true h.2)]
        exact Reaches.refl _
      · split
        · unfold initXsdt
          refine Reaches.trans ?_ (reaches_load hextended (noEntry_rsdp _ _) _)
          refine Reaches.trans ?_ (reaches_passes noEntry_checksum hextendedChecksum _)
          rw [Bool.not_true, if_neg Bool.false_ne_true]
          refine Reaches.trans ?_ (reaches_load hzero (noEntry_rsdp _ _) _)
          exact Reaches.refl _
        · exact Reaches.refl _
    refine Reaches.trans ?_ (hnone.bind _)
    show Reaches mem NoEntry _ (initRsdt rsdp _)
    unfold initRsdt
    refine Reaches.trans ?_ (reaches_load haddress (noEntry_rsdp _ _) _)
    rw [if_neg hnamed]
    refine Reaches.trans ?_ (reaches_tableChecks hpasses _)
    exact Reaches.refl _

/-! ### The loop over a root table -/

/-- A load asks for what it names. -/
theorem asks_load {part : Part} {a n : Nat} (h : P ⟨part, a, n⟩) : (load part a n).Asks P := by
  refine ⟨h, fun x => ?_⟩
  cases x <;> exact trivial

/-- The loop of the checksum asks for bytes. -/
theorem asks_checksumLoop (hP : ∀ a, P ⟨.checksum, a, 1⟩) (ptr n : Nat) (sum : UInt8) :
    (checksumLoop ptr n sum).Asks P := by
  induction n generalizing ptr sum with
  | zero => exact trivial
  | succ n ih => exact (asks_load (hP ptr)).bind fun b => ih (ptr + 1) _

/-- So does the check. -/
theorem asks_verifyChecksum (hP : ∀ a, P ⟨.checksum, a, 1⟩) (ptr n : Nat) :
    (verifyChecksum ptr n).Asks P := (asks_checksumLoop hP ptr n 0).bind fun _ => trivial

/-- Whatever is in memory, the loop loads entries from `i` on only, as many as it has to go. -/
theorem indexLoop_asks (entrySize entries left i : Nat) (tables : List Nat) :
    (indexLoop entrySize entries left i tables).Asks fun r => r.part = .entry →
      ∃ j < i + left, r = ⟨.entry, entries + entrySize * j, entrySize⟩ := by
  induction left generalizing i tables with
  | zero => exact trivial
  | succ left ih =>
    unfold indexLoop
    split
    · refine (asks_load fun _ => ⟨i, by omega, rfl⟩).bind fun hdr => ?_
      refine (asks_load fun h => by cases h).bind fun length => ?_
      refine (asks_verifyChecksum (fun a h => by cases h) hdr length).bind fun ok => ?_
      refine (ih (i + 1) _).mono fun r hr hentry => ?_
      obtain ⟨j, hj, hload⟩ := hr hentry
      exact ⟨j, by omega, hload⟩
    · exact trivial

/-- A table that is indexed has passed its test. -/
theorem indexLoop_passes {entrySize entries left i : Nat} {tables tables' : List Nat}
    (htables : ∀ t ∈ tables, ∃ length, TablePasses mem t length)
    (hrun : (indexLoop entrySize entries left i tables).run (memory mem) () = some (tables', ())) :
    ∀ t ∈ tables', ∃ length, TablePasses mem t length := by
  induction left generalizing i tables with
  | zero =>
    cases hrun
    exact htables
  | succ left ih =>
    unfold indexLoop at hrun
    split at hrun
    · obtain ⟨hdr, _, -, hrun⟩ := Program.run_bind_eq_some hrun
      obtain ⟨length, _, hlength, hrun⟩ := Program.run_bind_eq_some hrun
      obtain ⟨ok, _, hok, hrun⟩ := Program.run_bind_eq_some hrun
      refine ih (i := i + 1) ?_ hrun
      intro t ht
      cases ok with
      | false => exact htables t ht
      | true =>
        rcases List.mem_append.mp ht with ht | ht
        · exact htables t ht
        · rw [List.mem_singleton] at ht
          rw [ht]
          have hvalue := run_load hlength
          have hhdr := le_of_value hvalue
          exact ⟨length, hvalue, run_verifyChecksum (by omega) hok⟩
    · cases hrun
      exact htables

/-! ### How many entries -/

/-- A table with room for its header: the count is what fits behind it. -/
theorem entryCount_of_long {length entrySize : Nat} (hlong : SDT_HEADER_SIZE ≤ length)
    (hlength : length < 2 ^ 32) :
    entryCount length entrySize = (length - SDT_HEADER_SIZE) / entrySize := by
  have hdiff : (length + 2 ^ 64 - SDT_HEADER_SIZE) % 2 ^ 64 = length - SDT_HEADER_SIZE := by
    rw [show length + 2 ^ 64 - SDT_HEADER_SIZE = length - SDT_HEADER_SIZE + 2 ^ 64 by omega,
      Nat.add_mod_right, Nat.mod_eq_of_lt (by omega)]
  rw [entryCount, hdiff]
  exact Nat.mod_eq_of_lt (Nat.lt_of_le_of_lt (Nat.div_le_self _ _) (by omega))

/-- A shorter one: the difference wraps around, and what is left in 32 bits is not 0. -/
theorem entryCount_pos_of_short {length entrySize : Nat} (hshort : length < SDT_HEADER_SIZE)
    (hsize : entrySize = 4 ∨ entrySize = 8) : 0 < entryCount length entrySize := by
  rw [SDT_HEADER_SIZE] at hshort
  unfold entryCount SDT_HEADER_SIZE
  rcases hsize with rfl | rfl <;> omega

/-- `init` loads entries inside the root table exactly when it has room for its header. -/
theorem entries_inside_iff {acpi20 acpi10 : Option Nat} {entrySize table length : Nat}
    (h : RootTable mem acpi20 acpi10 entrySize table length) :
    (∀ r ∈ (init true acpi20 acpi10 AcpiState.boot).requests (memory mem) (),
      r.part = .entry → table ≤ r.addr ∧ r.addr + r.size ≤ table + length) ↔
      SDT_HEADER_SIZE ≤ length := by
  have hpasses : TablePasses mem table length := by cases h <;> assumption
  have hsize : entrySize = 4 ∨ entrySize = 8 := by cases h <;> simp
  have hlength : length < 2 ^ 32 := by
    have hvalue := hpasses.1
    rw [value_of_le (le_of_value hvalue)] at hvalue
    cases hvalue
    exact leValue_lt mem (table + 4) 4
  obtain ⟨rsdp, useXsdt, hreaches⟩ := init_reaches h
  obtain ⟨before, hbefore, hrequests⟩ := hreaches.requests
  rw [hrequests]
  -- The loads of the loop, behind that of the length.
  have hloop : ∀ k : List Nat → Reads AcpiState,
      (indexTable entrySize table [] >>= k).requests (memory mem) ()
        = ⟨.length, table + 4, 4⟩ :: (indexLoop entrySize (table + SDT_HEADER_SIZE)
          (entryCount length entrySize) 0 [] >>= k).requests (memory mem) () := by
    intro k
    have hanswer : memory mem ⟨.length, table + 4, 4⟩ () = (some length, ()) :=
      Prod.ext hpasses.1 rfl
    show (Program.bind (Program.bind (load .length (table + 4) 4) _) k).requests (memory mem) () = _
    simp only [load, Program.bind, Program.requests, hanswer]
    rfl
  rw [hloop]
  constructor
  · intro hinside
    by_contra hshort
    -- The first entry is behind the header, so behind the table.
    have hpos : 0 < entryCount length entrySize :=
      entryCount_pos_of_short (Nat.lt_of_not_le hshort) hsize
    obtain ⟨left, hleft⟩ := Nat.exists_eq_succ_of_ne_zero (Nat.ne_of_gt hpos)
    have hfirst := hinside ⟨.entry, table + SDT_HEADER_SIZE + entrySize * 0, entrySize⟩ (by
      rw [hleft, indexLoop, if_pos (by decide)]
      exact List.mem_append_right _ (List.mem_cons_of_mem _ List.mem_cons_self)) rfl
    have hend := hfirst.2
    dsimp only at hend
    omega
  · intro hlong r hr hentry
    have hasks : (indexLoop entrySize (table + SDT_HEADER_SIZE) (entryCount length entrySize) 0 []
        >>= fun tables => pure ⟨rsdp, useXsdt, true, tables⟩ : Reads AcpiState).Asks fun r =>
          r.part = .entry → ∃ j < 0 + entryCount length entrySize,
            r = ⟨.entry, table + SDT_HEADER_SIZE + entrySize * j, entrySize⟩ :=
      (indexLoop_asks ..).bind fun _ => trivial
    rcases List.mem_append.mp hr with hr | hr
    · exact absurd hentry (hbefore r hr)
    · rcases List.mem_cons.mp hr with rfl | hr
      · cases hentry
      · obtain ⟨j, hj, rfl⟩ := hasks.requests () r hr hentry
        rw [entryCount_of_long hlong hlength, Nat.zero_add] at hj
        have hfit : entrySize * (j + 1) ≤ length - SDT_HEADER_SIZE := by
          rw [Nat.mul_comm]
          exact (Nat.le_div_iff_mul_le (by omega)).mp hj
        rw [Nat.mul_succ] at hfit
        dsimp only
        omega

/-! ### The MADT -/

/-- The header at `pos` is no entry: it does not fit, or the length in it is wrong. -/
def NoMore (mem : Nat → UInt8) (stop pos : Nat) : Prop :=
  stop < pos + MADT_ENTRY_HDR_SIZE ∨ (mem (pos + 1)).toNat < MADT_ENTRY_HDR_SIZE ∨
    stop < pos + (mem (pos + 1)).toNat

/-- Where no entry follows, nothing is well formed but the empty list. -/
theorem NoMore.maximal {stop pos : Nat} (h : NoMore mem stop pos) :
    MaximalEntries mem stop pos [] := by
  refine ⟨.nil, fun l' hl' => ?_⟩
  cases hl' with
  | nil => exact List.prefix_rfl
  | @cons e rest _ hlength hheader hinside _ =>
    unfold NoMore MADT_ENTRY_HDR_SIZE at h
    rw [MADT_ENTRY_HDR_SIZE] at hheader
    omega

/-- An entry in front of a longest list. -/
theorem MaximalEntries.cons {stop pos : Nat} {l : List MadtEntry}
    (hheader : MADT_ENTRY_HDR_SIZE ≤ (mem (pos + 1)).toNat)
    (hinside : pos + (mem (pos + 1)).toNat ≤ stop)
    (h : MaximalEntries mem stop (pos + (mem (pos + 1)).toNat) l) :
    MaximalEntries mem stop pos (⟨pos, (mem pos).toNat, (mem (pos + 1)).toNat⟩ :: l) := by
  refine ⟨WellFormed.cons (e := ⟨pos, (mem pos).toNat, (mem (pos + 1)).toNat⟩) rfl rfl hheader
    hinside h.wellFormed, fun l' hl' => ?_⟩
  cases hl' with
  | nil => exact List.nil_prefix
  | @cons e rest htype hlength _ _ hmore =>
    -- The entry is what the memory says.
    have he : (⟨e.addr, (mem e.addr).toNat, (mem (e.addr + 1)).toNat⟩ : MadtEntry) = e := by
      rw [htype, hlength]
    rw [he]
    rw [hlength] at h
    exact List.cons_prefix_cons.mpr ⟨rfl, h.maximal rest hmore⟩

/-- A load of a byte of an entry between `base` and `stop`. -/
def EntryByte (base stop : Nat) (r : Load) : Prop :=
  r.part = .madtEntry ∧ base ≤ r.addr ∧ r.addr + r.size ≤ stop

/-- The loop over the entries comes to its end, behind the longest well-formed list. -/
theorem madtLoop_reaches {base stop : Nat} (hstop : stop ≤ PHYSICAL_END) (type : Nat) {pos : Nat}
    (hbase : base ≤ pos) :
    ∃ l, MaximalEntries mem stop pos l ∧ ∀ rounds, stop - pos < rounds → ∀ called,
      Reaches mem (EntryByte base stop)
        (pure (called ++ (l.filter (·.type = type)).map MadtEntry.addr))
        (madtLoop type stop rounds pos called) := by
  -- By induction on the bytes that are left: an entry takes at least two of them.
  induction hleft : stop - pos using Nat.strongRecOn generalizing pos with
  | ind left ih =>
    by_cases hroom : pos + MADT_ENTRY_HDR_SIZE ≤ stop
    · have hroom' : pos + 2 ≤ stop := hroom
      have hlength : value mem (pos + 1) 1 = some (mem (pos + 1)).toNat := value_byte (by omega)
      have htype : value mem pos 1 = some (mem pos).toNat := value_byte (by omega)
      have hlengthByte : EntryByte base stop ⟨.madtEntry, pos + 1, 1⟩ :=
        ⟨rfl, show base ≤ pos + 1 by omega, show pos + 1 + 1 ≤ stop by omega⟩
      have htypeByte : EntryByte base stop ⟨.madtEntry, pos, 1⟩ :=
        ⟨rfl, hbase, show pos + 1 ≤ stop by omega⟩
      by_cases hbad : (mem (pos + 1)).toNat < MADT_ENTRY_HDR_SIZE ∨
          pos + (mem (pos + 1)).toNat > stop
      · refine ⟨[], NoMore.maximal (.inr hbad), fun rounds hrounds called => ?_⟩
        obtain ⟨rounds, rfl⟩ := Nat.exists_eq_succ_of_ne_zero
          (Nat.ne_of_gt (Nat.zero_lt_of_lt hrounds))
        unfold madtLoop
        rw [if_pos hroom]
        refine Reaches.trans ?_ (reaches_load hlength hlengthByte _)
        rw [if_pos hbad, List.filter_nil, List.map_nil, List.append_nil]
        exact Reaches.refl _
      · have hheader : 2 ≤ (mem (pos + 1)).toNat := Nat.le_of_not_lt fun h => hbad (.inl h)
        have hinside : pos + (mem (pos + 1)).toNat ≤ stop :=
          Nat.le_of_not_lt fun h => hbad (.inr h)
        have hnext : base ≤ pos + (mem (pos + 1)).toNat := by omega
        obtain ⟨l, hl, hloop⟩ :=
          ih (stop - (pos + (mem (pos + 1)).toNat)) (by omega) hnext rfl
        refine ⟨_, hl.cons hheader hinside, fun rounds hrounds called => ?_⟩
        obtain ⟨rounds, rfl⟩ := Nat.exists_eq_succ_of_ne_zero
          (Nat.ne_of_gt (Nat.zero_lt_of_lt hrounds))
        unfold madtLoop
        rw [if_pos hroom]
        refine Reaches.trans ?_ (reaches_load hlength hlengthByte _)
        rw [if_neg hbad]
        refine Reaches.trans ?_ (reaches_load htype htypeByte _)
        have hrest := hloop rounds (by omega)
          (if (mem pos).toNat = type then called ++ [pos] else called)
        by_cases hmatch : (mem pos).toNat = type
        · rw [if_pos hmatch] at hrest ⊢
          rw [List.filter_cons_of_pos (by simpa using hmatch), List.map_cons]
          rwa [List.append_assoc, List.singleton_append] at hrest
        · rw [if_neg hmatch] at hrest ⊢
          rw [List.filter_cons_of_neg (by simpa using hmatch)]
          exact hrest
    · refine ⟨[], NoMore.maximal (.inl (Nat.lt_of_not_le hroom)), fun rounds hrounds called => ?_⟩
      obtain ⟨rounds, rfl⟩ := Nat.exists_eq_succ_of_ne_zero
        (Nat.ne_of_gt (Nat.zero_lt_of_lt hrounds))
      unfold madtLoop
      rw [if_neg hroom, List.filter_nil, List.map_nil, List.append_nil]
      exact Reaches.refl _

/-- A load of the signature of one of the tables. -/
def SignatureOf (tables : List Nat) (r : Load) : Prop := r.part = .signature ∧ r.addr ∈ tables

/-- The search for a signature reads the beginning of the tables, up to the one that it returns. -/
theorem findTable_reaches (sig : Nat) {tables all : List Nat} (hall : ∀ t ∈ tables, t ∈ all)
    (htables : ∀ t ∈ tables, t + 4 ≤ PHYSICAL_END) :
    ∃ found, Reaches mem (SignatureOf all) (pure found) (findTable sig tables) ∧
      ∀ t ∈ found, t ∈ tables := by
  induction tables with
  | nil => exact ⟨none, Reaches.refl _, fun t ht => by cases ht⟩
  | cons t tables ih =>
    have hvalue : value mem t 4 = some (leValue mem t 4) :=
      value_of_le (htables t List.mem_cons_self)
    have hsignature : SignatureOf all ⟨.signature, t, 4⟩ := ⟨rfl, hall t List.mem_cons_self⟩
    have hload : Reaches mem (SignatureOf all)
        (if leValue mem t 4 = sig then pure (some t) else findTable sig tables)
        (findTable sig (t :: tables)) :=
      reaches_load hvalue hsignature fun signature =>
        if signature = sig then pure (some t) else findTable sig tables
    by_cases hsig : leValue mem t 4 = sig
    · rw [if_pos hsig] at hload
      refine ⟨some t, hload, fun u hu => ?_⟩
      cases hu
      exact List.mem_cons_self
    · rw [if_neg hsig] at hload
      obtain ⟨found, hfound, hmem⟩ := ih (fun u hu => hall u (List.mem_cons_of_mem _ hu))
        (fun u hu => htables u (List.mem_cons_of_mem _ hu))
      exact ⟨found, hfound.trans hload, fun u hu => List.mem_cons_of_mem _ (hmem u hu)⟩

/-- A weaker property of the loads. -/
theorem Reaches.mono {Q : Load → Prop} {p q : Reads α} (h : Reaches mem P q p)
    (hPQ : ∀ r, P r → Q r) : Reaches mem Q q p := by
  obtain ⟨before, hbefore, hrequests⟩ := h.requests
  exact ⟨h.run, before, fun r hr => hPQ r (hbefore r hr), hrequests⟩

/-- A walk that comes to its end. -/
theorem Reaches.end {a : α} {p : Reads α} (h : Reaches mem P (pure a) p) :
    p.run (memory mem) () = some (a, ()) ∧ ∀ r ∈ p.requests (memory mem) (), P r := by
  obtain ⟨before, hbefore, hrequests⟩ := h.requests
  refine ⟨h.run, ?_⟩
  rw [hrequests]
  intro r hr
  rcases List.mem_append.mp hr with hr | hr
  · exact hbefore r hr
  · cases hr

/-- A load of a walk over the MADT. -/
def MadtLoad (tables : List Nat) (madt length : Nat) (r : Load) : Prop :=
  SignatureOf tables r ∨ r = ⟨.length, madt + 4, 4⟩ ∨ EntryByte madt (madt + length) r

/-- In a state whose tables have passed their tests, a walk over the MADT goes right. -/
theorem foreachMadtEntry_walks {s : AcpiState}
    (htables : ∀ t ∈ s.tables, ∃ length, TablePasses mem t length) (type : Nat) :
    (∀ rounds, (foreachMadtEntry rounds s type true).run (memory mem) () = some ([], ())) ∧
        (getMadt s).run (memory mem) () = some (none, ()) ∨
      ∃ madt madtLength, (getMadt s).run (memory mem) () = some (some madt, ()) ∧
        TablePasses mem madt madtLength ∧ MadtWalked mem s madt madtLength type := by
  have hheaders : ∀ t ∈ s.tables, t + 4 ≤ PHYSICAL_END := by
    intro t ht
    obtain ⟨length, hlength, -⟩ := htables t ht
    have hend := le_of_value hlength
    omega
  have hsearch : ∃ found, Reaches mem (SignatureOf s.tables) (pure found)
      (findTable APIC s.tables) ∧ ∀ t ∈ found, t ∈ s.tables :=
    findTable_reaches APIC (fun t (ht : t ∈ s.tables) => ht) hheaders
  obtain ⟨found, hfound, hmem⟩ := hsearch
  cases found with
  | none =>
    refine .inl ⟨fun rounds => ?_, hfound.end.1⟩
    unfold foreachMadtEntry getMadt
    rw [Program.run_bind_eq, hfound.end.1]
    rfl
  | some madt =>
    obtain ⟨madtLength, hpasses⟩ := htables madt (hmem madt rfl)
    refine .inr ⟨madt, madtLength, hfound.end.1, hpasses, ?_⟩
    have hentries : madt ≤ madt + MADT_SIZE := Nat.le_add_right _ _
    obtain ⟨l, hl, hloop⟩ := madtLoop_reaches hpasses.2.1 type hentries
    refine ⟨l, hl, fun rounds hrounds => ?_⟩
    -- The search, then the length, then the entries.
    have hwalk : Reaches mem (MadtLoad s.tables madt madtLength)
        (pure ((l.filter (·.type = type)).map MadtEntry.addr))
        (foreachMadtEntry rounds s type true) := by
      unfold foreachMadtEntry getMadt
      refine Reaches.trans ?_ ((hfound.mono fun r hr => .inl hr).bind _)
      have hentries : Reaches mem (MadtLoad s.tables madt madtLength) _ _ :=
        (hloop rounds (by omega) []).mono fun r hr => Or.inr (Or.inr hr)
      refine Reaches.trans hentries ?_
      have hlengthLoad : MadtLoad s.tables madt madtLength ⟨.length, madt + 4, 4⟩ := .inr (.inl rfl)
      exact reaches_load hpasses.1 hlengthLoad fun length =>
        madtLoop type (madt + length) rounds (madt + MADT_SIZE) []
    exact hwalk.end

/-! ### The walks together -/

/-- The tables that `init` indexes have passed their tests. -/
theorem init_passes {acpi20 acpi10 : Option Nat} {entrySize table length : Nat}
    (h : RootTable mem acpi20 acpi10 entrySize table length) {s : AcpiState}
    (hrun : (init true acpi20 acpi10 AcpiState.boot).run (memory mem) () = some (s, ())) :
    ∀ t ∈ s.tables, ∃ length, TablePasses mem t length := by
  obtain ⟨rsdp, useXsdt, hreaches⟩ := init_reaches h
  rw [hreaches.run] at hrun
  obtain ⟨tables, _, hindex, hdone⟩ := Program.run_bind_eq_some hrun
  cases hdone
  obtain ⟨length, _, -, hloop⟩ := Program.run_bind_eq_some hindex
  exact indexLoop_passes (fun t ht => by cases ht) hloop

/-- The walks of the root table and of the MADT stay inside their tables exactly if the root
table is at least as long as its header. -/
theorem acpi_walks_iff {acpi20 acpi10 : Option Nat} {entrySize table length : Nat}
    (h : RootTable mem acpi20 acpi10 entrySize table length) :
    WalksInside mem acpi20 acpi10 table length ↔ SDT_HEADER_SIZE ≤ length := by
  constructor
  · intro hwalks
    exact (entries_inside_iff h).mp hwalks.entries
  · intro hlong
    exact ⟨(entries_inside_iff h).mpr hlong,
      fun s hrun type => foreachMadtEntry_walks (init_passes h hrun) type⟩

/-- Memory with an RSDP of version 0 at 0x1000 and an RSDT at 0x2000, which states the length
`length`. The rest is 0. -/
def rsdtMemory (length checksum : UInt8) : Nat → UInt8 :=
  writeBytes
    (writeBytes (fun _ => 0) 0x1000
      ([0x52, 0x53, 0x44, 0x20, 0x50, 0x54, 0x52, 0x20, 0xC1] ++ List.replicate 7 0 ++
        [0x00, 0x20, 0x00, 0x00]))
    0x2000 [0x52, 0x53, 0x44, 0x54, length, 0, 0, 0, 1, checksum]

/-- The RSDT of such memory is the root table, where its bytes add up to 0. -/
theorem rootTable_rsdtMemory {length checksum : UInt8}
    (hsignature : value (rsdtMemory length checksum) 0x1000 8 = some RSD_PTR)
    (hrevision : value (rsdtMemory length checksum) (0x1000 + 15) 1 = some 0)
    (hrsdp : Passes (rsdtMemory length checksum) 0x1000 RSDP_V1_SIZE)
    (haddress : value (rsdtMemory length checksum) (0x1000 + 16) 4 = some 0x2000)
    (hpasses : TablePasses (rsdtMemory length checksum) 0x2000 length.toNat) :
    RootTable (rsdtMemory length checksum) none (some 0x1000) 4 0x2000 length.toNat :=
  .rsdt rfl hrsdp hsignature hrevision (.inr (.inl rfl)) haddress (by decide) hpasses

/-- A table header: the signature, the length, the revision and the checksum. -/
def tableHeader (signature : List UInt8) (length checksum : UInt8) : List UInt8 :=
  signature ++ [length, 0, 0, 0, 1, checksum] ++ List.replicate 26 0

/-- Memory with an RSDT that names an FADT and a MADT. The MADT has the entries of two processors
and of an I/O APIC between them. -/
def madtMemory : Nat → UInt8 :=
  let rsdp := writeBytes (fun _ => 0) 0x1000
    ([0x52, 0x53, 0x44, 0x20, 0x50, 0x54, 0x52, 0x20, 0xC1] ++ List.replicate 7 0 ++
      [0x00, 0x20, 0x00, 0x00])
  let rsdt := writeBytes rsdp 0x2000
    (tableHeader [0x52, 0x53, 0x44, 0x54] 44 0x26 ++ [0, 0x30, 0, 0, 0, 0x40, 0, 0])
  let fadt := writeBytes rsdt 0x3000 (tableHeader [0x46, 0x41, 0x43, 0x50] 36 0xC1)
  writeBytes fadt 0x4000
    (tableHeader [0x41, 0x50, 0x49, 0x43] 72 0xDA ++ [0, 0, 0xE0, 0xFE, 1, 0, 0, 0] ++
      [0, 8, 0, 0, 1, 0, 0, 0] ++ [1, 12, 2, 0, 0, 0, 0xC0, 0xFE, 0, 0, 0, 0] ++
      [0, 8, 1, 1, 1, 0, 0, 0])

set_option maxRecDepth 10000 in
/-- A root table with two entries, and a MADT with entries of two types. -/
theorem acpi_walks_two_processors :
    WalksInside madtMemory none (some 0x1000) 0x2000 44 ∧
      ∃ s, (init true none (some 0x1000) AcpiState.boot).run (memory madtMemory) () = some (s, ()) ∧
        s.tables = [0x3000, 0x4000] ∧
        (foreachMadtEntry 100 s 0 true).run (memory madtMemory) () =
          some ([0x402C, 0x4040], ()) ∧
        (foreachMadtEntry 100 s 1 true).run (memory madtMemory) () = some ([0x4034], ()) := by
  have hrevision : value madtMemory (0x1000 + 15) 1 = some 0 := by decide
  have hroot : RootTable madtMemory none (some 0x1000) 4 0x2000 44 :=
    .rsdt rfl (by decide) (by decide) hrevision (.inr (.inl rfl)) (by decide) (by decide)
      ⟨by decide, by decide⟩
  refine ⟨(acpi_walks_iff hroot).mpr (by decide), ?_⟩
  exact ⟨⟨some 0x1000, false, true, [0x3000, 0x4000]⟩, by decide, rfl, by decide, by decide⟩

/-- An RSDT that states 32 bytes: `init` reads entries behind it. -/
theorem short_rsdt_overrun : ¬ WalksInside (rsdtMemory 32 162) none (some 0x1000) 0x2000 32 := by
  intro hwalks
  have hroot : RootTable (rsdtMemory 32 162) none (some 0x1000) 4 0x2000 32 :=
    rootTable_rsdtMemory (by decide) (by decide) (by decide) (by decide) ⟨by decide, by decide⟩
  exact absurd ((entries_inside_iff hroot).mp hwalks.entries) (by decide)

end VKernel.Acpi

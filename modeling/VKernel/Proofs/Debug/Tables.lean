import VKernel.Debug.Tables
import VKernel.Proofs.Debug.LineMap

/-!
# `VKernel.Proofs.Debug.Tables`: when the debug tables are right

The passes are those of one builder: the second one writes the records that it accepts
(`fillPass_eq_ok_iff`), and the first one has counted them (`countPass_eq`). So the writes stay in
the storage exactly if the sizes do not wrap. What an entry refers to is decided by its 32 bits
(`forall₂_refers_iff`); the sort and the search of the library do the rest (`tableCorrect_iff`).

For each of the four builders it is left that its passes accept the same items, and that its lookup
answers for a table that holds the records.
-/

set_option autoImplicit false

namespace VKernel.Debug

open VKernel.Lib

variable {τ ι : Type}

/-! ### Counting -/

@[simp] theorem namesOf_nil : namesOf ([] : List (Record ι)) = [] := rfl

theorem namesOf_cons (r : Record ι) (records : List (Record ι)) :
    namesOf (r :: records) = r.name ++ [0] ++ namesOf records := rfl

/-- The storage of the names, record by record. -/
theorem length_namesOf_cons (r : Record ι) (records : List (Record ι)) :
    (namesOf (r :: records)).length = r.name.length + 1 + (namesOf records).length := by
  rw [namesOf_cons, List.length_append, List.length_append, List.length_singleton]

/-- The counting pass accepts the items of the filling pass, and knows the lengths of the names. -/
def Passes.Agree (p : Passes τ ι) : Prop :=
  ∀ item, p.count item = (p.fill item).map fun r => r.name.length

/-- The counts are those of the records, as `usize`. -/
theorem countPass_eq {p : Passes τ ι} (hagree : p.Agree) (items : List τ) :
    countPass p.count items = ⟨(items.filterMap p.fill).length % U64,
      (namesOf (items.filterMap p.fill)).length % U64⟩ := by
  -- From any counts on.
  have hfold : ∀ a b, items.foldl (countStep p.count) ⟨a % U64, b % U64⟩
      = ⟨(a + (items.filterMap p.fill).length) % U64,
        (b + (namesOf (items.filterMap p.fill)).length) % U64⟩ := by
    induction items with
    | nil => intro a b; rfl
    | cons item items ih =>
      intro a b
      rw [List.foldl_cons, List.filterMap_cons]
      cases hfill : p.fill item with
      | none =>
        have hstep : countStep p.count ⟨a % U64, b % U64⟩ item = ⟨a % U64, b % U64⟩ := by
          rw [countStep, hagree item, hfill]
          rfl
        rw [hstep]
        exact ih a b
      | some r =>
        have hstep : countStep p.count ⟨a % U64, b % U64⟩ item
            = ⟨(a + 1) % U64, (b + (r.name.length + 1)) % U64⟩ := by
          rw [countStep, hagree item, hfill]
          show Counts.mk ((a % U64 + 1) % U64) ((b % U64 + (r.name.length + 1)) % U64) = _
          rw [Nat.mod_add_mod, Nat.mod_add_mod]
        rw [hstep, ih, List.length_cons, length_namesOf_cons]
        congr 2
        · omega
        · omega
  have hzero := hfold 0 0
  rwa [Nat.zero_mod, Nat.zero_add, Nat.zero_add] at hzero

/-! ### Filling -/

/-- The entries of records whose names begin at `place`. -/
def entriesFrom : Nat → List (Record ι) → List (Entry ι)
  | _, [] => []
  | place, r :: records =>
    ⟨r.address, r.info, UInt32.ofNat place⟩ :: entriesFrom (place + (r.name.length + 1)) records

@[simp] theorem length_entriesFrom (place : Nat) (records : List (Record ι)) :
    (entriesFrom place records).length = records.length := by
  induction records generalizing place with
  | nil => rfl
  | cons r records ih => rw [entriesFrom, List.length_cons, List.length_cons, ih]

/-- What `t` has room for in the storage: `n` entries and `b` bytes. -/
def Room (s : Storage) (t : Table ι) (n b : Nat) : Prop :=
  (t.entries.length + n) * ENTRY_SIZE ≤ min s.entriesBytes s.totalBytes ∧
    s.entriesBytes + (t.strings.length + b) ≤ s.totalBytes

/-- A record is written exactly if there is room for it. -/
theorem fillStep_eq_ok_iff {fill : τ → Option (Record ι)} {s : Storage} {t t' : Table ι}
    {item : τ} {r : Record ι} (hfill : fill item = some r) :
    fillStep fill s t item = .ok t' ↔ Room s t 1 (r.name.length + 1) ∧
      t' = ⟨t.entries ++ entriesFrom t.strings.length [r], t.strings ++ (r.name ++ [0])⟩ := by
  unfold fillStep writeEntry writeString Room
  rw [hfill, Nat.add_mul, Nat.one_mul]
  by_cases hentry : t.entries.length * ENTRY_SIZE + ENTRY_SIZE ≤ min s.entriesBytes s.totalBytes
  · simp only [hentry, if_true, bind, Except.bind, true_and]
    by_cases hstring : s.entriesBytes + (t.strings.length + (r.name.length + 1)) ≤ s.totalBytes
    · simp only [hstring, if_true, true_and]
      exact ⟨fun h => (Except.ok.inj h).symm, fun h => congrArg Except.ok h.symm⟩
    · simp only [hstring, if_false, false_and, iff_false]
      intro h
      cases h
  · simp only [hentry, if_false, false_and, iff_false]
    intro h
    cases h

/-- The filling pass writes the records of its items, or it leaves the storage. -/
theorem foldlM_fillStep {fill : τ → Option (Record ι)} {s : Storage} (items : List τ)
    (t t' : Table ι) :
    items.foldlM (fillStep fill s) t = .ok t' ↔
      (items.filterMap fill ≠ [] →
        Room s t (items.filterMap fill).length (namesOf (items.filterMap fill)).length) ∧
      t' = ⟨t.entries ++ entriesFrom t.strings.length (items.filterMap fill),
        t.strings ++ namesOf (items.filterMap fill)⟩ := by
  induction items generalizing t with
  | nil =>
    simp only [List.foldlM_nil, List.filterMap_nil, entriesFrom, namesOf_nil, List.append_nil]
    constructor
    · intro h
      exact ⟨fun hne => absurd rfl hne, (Except.ok.inj h).symm⟩
    · rintro ⟨-, rfl⟩
      rfl
  | cons item items ih =>
    rw [List.foldlM_cons, List.filterMap_cons]
    cases hfill : fill item with
    | none =>
      have hstep : fillStep fill s t item = .ok t := by
        rw [fillStep, hfill]
      rw [hstep]
      exact ih t
    | some r =>
      dsimp only
      cases hstep : fillStep fill s t item with
      | error e =>
        -- No room for this one, so none for it and the others.
        refine iff_of_false (fun h => by cases h) ?_
        rintro ⟨hroom, -⟩
        have hall := hroom (List.cons_ne_nil _ _)
        have hone : Room s t 1 (r.name.length + 1) := by
          unfold Room at hall ⊢
          rw [List.length_cons, length_namesOf_cons] at hall
          refine ⟨Nat.le_trans (Nat.mul_le_mul_right _ (by omega)) hall.1, by omega⟩
        cases hstep.symm.trans ((fillStep_eq_ok_iff hfill).mpr ⟨hone, rfl⟩)
      | ok t₁ =>
        obtain ⟨hone, rfl⟩ := (fillStep_eq_ok_iff hfill).mp hstep
        show items.foldlM (fillStep fill s) _ = .ok t' ↔ _
        rw [ih]
        have htable : (⟨t.entries ++ entriesFrom t.strings.length [r] ++
              entriesFrom (t.strings ++ (r.name ++ [0])).length (items.filterMap fill),
            t.strings ++ (r.name ++ [0]) ++ namesOf (items.filterMap fill)⟩ : Table ι)
            = ⟨t.entries ++ entriesFrom t.strings.length (r :: items.filterMap fill),
              t.strings ++ namesOf (r :: items.filterMap fill)⟩ := by
          rw [namesOf_cons, List.length_append, List.length_append, List.length_singleton,
            List.append_assoc, List.append_assoc]
          rfl
        rw [htable]
        refine and_congr_left fun _ => ?_
        constructor
        · intro hrest _
          by_cases hnil : items.filterMap fill = []
          · rw [hnil, length_namesOf_cons]
            exact hone
          · have hroom := hrest hnil
            unfold Room at hroom ⊢
            simp only [List.length_append, List.length_singleton, length_entriesFrom] at hroom
            rw [List.length_cons, length_namesOf_cons]
            refine ⟨?_, by omega⟩
            rw [Nat.add_comm _ 1, ← Nat.add_assoc]
            exact hroom.1
        · intro hall _
          have hroom := hall (List.cons_ne_nil _ _)
          unfold Room at hroom ⊢
          rw [List.length_cons, length_namesOf_cons] at hroom
          simp only [List.length_append, List.length_singleton, length_entriesFrom]
          refine ⟨?_, by omega⟩
          rw [Nat.add_assoc, Nat.add_comm 1]
          exact hroom.1

/-- The size that the records need is one: the storage has room for them exactly then. -/
theorem room_iff (n b : Nat) :
    Room (Counts.mk (n % U64) (b % U64)).storage (⟨[], []⟩ : Table ι) n b ↔
      n * ENTRY_SIZE + b < U64 := by
  unfold Room Counts.storage add64
  simp only [List.length_nil, Nat.zero_add, ENTRY_SIZE]
  constructor
  · rintro ⟨hentries, hbytes⟩
    have htotal := Nat.mod_lt (n % U64 * 16 % U64 + b % U64) U64_pos
    have hmin := Nat.le_trans hentries (Nat.min_le_left _ _)
    omega
  · intro h
    have hn : n % U64 = n := Nat.mod_eq_of_lt (by omega)
    have hb : b % U64 = b := Nat.mod_eq_of_lt (by omega)
    have hentries : n * 16 % U64 = n * 16 := Nat.mod_eq_of_lt (by omega)
    have htotal : (n * 16 + b) % U64 = n * 16 + b := Nat.mod_eq_of_lt h
    rw [hn, hb, hentries, htotal]
    omega

/-- The filling pass after the counting pass. -/
theorem fillPass_eq_ok_iff {p : Passes τ ι} (hagree : p.Agree) (items : List τ) (filled : Table ι) :
    fillPass p.fill (countPass p.count items).storage items = .ok filled ↔
      (items.filterMap p.fill).length * ENTRY_SIZE + (namesOf (items.filterMap p.fill)).length <
        U64 ∧
      filled = ⟨entriesFrom 0 (items.filterMap p.fill), namesOf (items.filterMap p.fill)⟩ := by
  rw [fillPass, foldlM_fillStep, countPass_eq hagree, room_iff]
  refine and_congr ?_ Iff.rfl
  by_cases hnil : items.filterMap p.fill = []
  · rw [hnil]
    exact iff_of_true (fun h => absurd rfl h) U64_pos
  · exact ⟨fun h => h hnil, fun h _ => h⟩

/-! ### The names -/

/-- Each entry refers to its record exactly if the name stands at the place that is left of its
place in 32 bits. -/
theorem forall₂_refers_iff (strings : List UInt8) (place : Nat) (records : List (Record ι)) :
    (entriesFrom place records).Forall₂ (Refers strings) records ↔
      ∀ (front : List (Record ι)) (r : Record ι) (back : List (Record ι)),
        records = front ++ r :: back →
        r.name ++ [0] <+: strings.drop ((place + (namesOf front).length) % 2 ^ 32) := by
  induction records generalizing place with
  | nil =>
    refine iff_of_true List.Forall₂.nil fun front r back h => ?_
    cases front with
    | nil => cases h
    | cons a front => cases h
  | cons r records ih =>
    rw [entriesFrom, List.forall₂_cons, ih]
    have hplace : (UInt32.ofNat place).toNat = place % 2 ^ 32 := UInt32.toNat_ofNat'
    constructor
    · rintro ⟨hfirst, hrest⟩ front a back h
      cases front with
      | nil =>
        cases h
        have hname := hfirst.name
        rwa [hplace] at hname
      | cons c front =>
        cases h
        have hname := hrest front a back rfl
        rwa [Nat.add_assoc, ← length_namesOf_cons] at hname
    · intro h
      refine ⟨⟨rfl, rfl, ?_⟩, fun front a back hsplit => ?_⟩
      · have hname := h [] r records rfl
        rw [hplace]
        exact hname
      · have hname := h (r :: front) a back (by rw [hsplit]; rfl)
        rwa [length_namesOf_cons, ← Nat.add_assoc] at hname

/-! ### Lookups -/

/-- A table holds records: its entries are theirs, in order. -/
structure Holds (t : Table ι) (records : List (Record ι)) : Prop where
  ordered : KeyedTable.Ordered Entry.key t.entries
  record : ∀ e ∈ t.entries, ∃ r ∈ records, Refers t.strings e r
  entry : ∀ r ∈ records, ∃ e ∈ t.entries, Refers t.strings e r

/-- Entries that refer to records one by one, in any order. -/
theorem Holds.of_perm {t : Table ι} {es : List (Entry ι)} {records : List (Record ι)}
    (hordered : KeyedTable.Ordered Entry.key t.entries) (hperm : t.entries.Perm es)
    (hrefers : es.Forall₂ (Refers t.strings) records) : Holds t records := by
  have hboth : (∀ e ∈ es, ∃ r ∈ records, Refers t.strings e r) ∧
      ∀ r ∈ records, ∃ e ∈ es, Refers t.strings e r := by
    clear hperm
    induction hrefers with
    | nil => exact ⟨fun e he => (List.not_mem_nil he).elim, fun r hr => (List.not_mem_nil hr).elim⟩
    | @cons e r es records hfirst hrest ih =>
      constructor
      · intro a ha
        rcases List.mem_cons.mp ha with rfl | ha
        · exact ⟨r, List.mem_cons_self, hfirst⟩
        · obtain ⟨b, hb, hab⟩ := ih.1 a ha
          exact ⟨b, List.mem_cons_of_mem _ hb, hab⟩
      · intro b hb
        rcases List.mem_cons.mp hb with rfl | hb
        · exact ⟨e, List.mem_cons_self, hfirst⟩
        · obtain ⟨a, ha, hab⟩ := ih.2 b hb
          exact ⟨a, List.mem_cons_of_mem _ ha, hab⟩
  refine ⟨hordered, fun e he => hboth.1 e (hperm.mem_iff.mp he), fun r hr => ?_⟩
  obtain ⟨e, he, hrefer⟩ := hboth.2 r hr
  exact ⟨e, hperm.mem_iff.mpr he, hrefer⟩

/-- The key of an entry is the address of its record. -/
theorem Refers.key_eq {strings : List UInt8} {e : Entry ι} {r : Record ι}
    (h : Refers strings e r) : e.key = r.address.toNat := congrArg UInt64.toNat h.address

/-- The search finds an entry of a record with the greatest address. -/
theorem Holds.of_floorEntry {t : Table ι} {records : List (Record ι)}
    (h : Holds t records) {k : Nat}
    {e : Entry ι} (hfound : KeyedTable.floorEntry Entry.key t.entries k = some e) :
    ∃ r ∈ records, Refers t.strings e r ∧ r.address.toNat ≤ k ∧
      ∀ a ∈ records, a.address.toNat ≤ k → a.address.toNat ≤ r.address.toNat := by
  obtain ⟨hmem, hle, hgreatest⟩ := KeyedTable.floorEntry_eq_some h.ordered hfound
  obtain ⟨r, hr, hrefer⟩ := h.record e hmem
  rw [hrefer.key_eq] at hle hgreatest
  refine ⟨r, hr, hrefer, hle, fun a ha hak => ?_⟩
  obtain ⟨b, hb, hba⟩ := h.entry a ha
  have hgreatest := hgreatest b hb
  rw [hba.key_eq] at hgreatest
  exact hgreatest hak

/-- Without an entry in reach, every record is above the address. -/
theorem Holds.of_floorEntry_none {t : Table ι} {records : List (Record ι)} (h : Holds t records)
    {k : Nat} (hfound : KeyedTable.floorEntry Entry.key t.entries k = none) :
    ∀ r ∈ records, k < r.address.toNat := by
  intro r hr
  obtain ⟨e, he, hrefer⟩ := h.entry r hr
  have hlt := (KeyedTable.floorEntry_eq_none_iff h.ordered).mp hfound e he
  rwa [hrefer.key_eq] at hlt

/-- A lookup gives the answers, for any table that holds any records, and nothing without a
table. -/
structure LooksUp (lookup : Option (Table ι) → UInt64 → Option (Found ι)) (base : Nat) : Prop where
  none : ∀ address, lookup none address = none
  some : ∀ (t : Table ι) (records : List (Record ι)), Holds t records →
    ∀ address, Answers records base address (lookup (some t) address)

/-- The lookup of a process. -/
theorem process_looksUp : LooksUp (ProcessDebug.lookup (ι := ι)) 0 := by
  refine ⟨fun _ => rfl, fun t records h address => ?_⟩
  unfold ProcessDebug.lookup
  dsimp only
  cases hfound : KeyedTable.floorEntry Entry.key t.entries address.toNat with
  | none =>
    refine .none fun r hr => ?_
    rw [Nat.zero_add]
    exact h.of_floorEntry_none hfound r hr
  | some e =>
    obtain ⟨r, hr, hrefer, hle, hgreatest⟩ := h.of_floorEntry hfound
    refine .some r _ hr (by omega) (fun a ha => ?_) ?_ ?_ hrefer.info hrefer.name
    · rw [Nat.zero_add]
      exact hgreatest a ha
    · rw [Nat.zero_add]
      exact congrArg UInt64.toNat hrefer.address
    · show (address - e.address).toNat = _
      rw [hrefer.address, Nat.zero_add]
      exact UInt64.toNat_sub_of_le _ _ (UInt64.le_iff_toNat_le.mpr hle)

/-- The addresses of the records are relative to the image of the kernel. -/
theorem kernel_looksUp (imageBase : UInt64) :
    LooksUp (fun table : Option (Table ι) => KernelDebug.lookup table imageBase)
      imageBase.toNat := by
  refine ⟨fun _ => rfl, fun t records h address => ?_⟩
  unfold KernelDebug.lookup
  dsimp only
  by_cases hbelow : address < imageBase
  · rw [if_pos hbelow]
    refine .none fun r _ => ?_
    have hlt := UInt64.lt_iff_toNat_lt.mp hbelow
    omega
  · rw [if_neg hbelow]
    have hbase : imageBase ≤ address := UInt64.not_lt.mp hbelow
    have hle := UInt64.le_iff_toNat_le.mp hbase
    have hrelative := UInt64.toNat_sub_of_le _ _ hbase
    cases hfound : KeyedTable.floorEntry Entry.key t.entries (address - imageBase).toNat with
    | none =>
      refine .none fun r hr => ?_
      have hlt := h.of_floorEntry_none hfound r hr
      omega
    | some e =>
      obtain ⟨r, hr, hrefer, hler, hgreatest⟩ := h.of_floorEntry hfound
      have hlt := address.toNat_lt
      refine .some r _ hr (by omega) (fun a ha hak => hgreatest a ha (by omega)) ?_ ?_ hrefer.info
        hrefer.name
      · show (imageBase + e.address).toNat = _
        rw [hrefer.address, UInt64.toNat_add]
        exact Nat.mod_eq_of_lt (by omega)
      · show (address - imageBase - e.address).toNat = _
        rw [hrefer.address, UInt64.toNat_sub_of_le _ _ (UInt64.le_iff_toNat_le.mpr hler)]
        omega

/-! ### The builders -/

/-- A builder without records makes no table. -/
theorem buildTable_of_nil {p : Passes τ ι} (hagree : p.Agree) {items : List τ}
    (hnil : items.filterMap p.fill = []) (alloc : Nat → Bool) :
    buildTable alloc p items = .ok none := by
  have hcounts := countPass_eq hagree items
  rw [hnil, List.length_nil, Nat.zero_mod] at hcounts
  unfold buildTable
  rw [hcounts]
  exact if_pos (.inl rfl)

/-- A builder whose storage has a size, where the heap has the storage. -/
theorem buildTable_of_fits {p : Passes τ ι} (hagree : p.Agree) {items : List τ}
    (hne : items.filterMap p.fill ≠ [])
    (hfits : (items.filterMap p.fill).length * ENTRY_SIZE +
      (namesOf (items.filterMap p.fill)).length < U64) {alloc : Nat → Bool}
    (halloc : alloc (countPass p.count items).storage.totalBytes = true) :
    buildTable alloc p items = .ok (some ⟨sortByAddress (entriesFrom 0 (items.filterMap p.fill)),
      namesOf (items.filterMap p.fill)⟩) := by
  have hfill := (fillPass_eq_ok_iff hagree items _).mpr ⟨hfits, rfl⟩
  have hcounts := countPass_eq hagree items
  have hpositive : ¬((countPass p.count items).count = 0 ∨
      (countPass p.count items).bytes = 0) := by
    obtain ⟨r, records, hrecords⟩ := List.exists_cons_of_ne_nil hne
    rw [hcounts, hrecords, length_namesOf_cons, List.length_cons]
    rw [hrecords, length_namesOf_cons, List.length_cons, ENTRY_SIZE] at hfits
    show ¬((records.length + 1) % U64 = 0 ∨
      (r.name.length + 1 + (namesOf records).length) % U64 = 0)
    rw [Nat.mod_eq_of_lt (by omega), Nat.mod_eq_of_lt (by omega)]
    omega
  unfold buildTable
  dsimp only
  rw [if_neg hpositive, if_neg (by rw [halloc]; simp), hfill]
  rfl

/-- What a builder that has made a table has done. -/
theorem of_buildTable_eq_some {p : Passes τ ι} {items : List τ} {alloc : Nat → Bool}
    {table : Table ι} (h : buildTable alloc p items = .ok (some table)) :
    ∃ filled, fillPass p.fill (countPass p.count items).storage items = .ok filled ∧
      table = { filled with entries := sortByAddress filled.entries } := by
  unfold buildTable at h
  dsimp only at h
  split at h
  · cases h
  · split at h
    · cases h
    · cases hfill : fillPass p.fill (countPass p.count items).storage items with
      | error e =>
        rw [hfill] at h
        cases h
      | ok filled =>
        rw [hfill] at h
        cases h
        exact ⟨filled, rfl, rfl⟩

/-- A builder and its lookup are right exactly if the names are in reach. -/
theorem tableCorrect_iff {p : Passes τ ι} (hagree : p.Agree) {items : List τ}
    {build : (Nat → Bool) → Except Outside (Option (Table ι))}
    (hbuild : ∀ alloc, build alloc = buildTable alloc p items)
    {lookup : Option (Table ι) → UInt64 → Option (Found ι)} {base : Nat}
    (hlookup : LooksUp lookup base) :
    TableCorrect p items build lookup base ↔ NamesInReach (items.filterMap p.fill) := by
  constructor
  · rintro ⟨⟨filled, hfill, -, -, hrefers⟩, -, -⟩
    obtain ⟨hfits, rfl⟩ := (fillPass_eq_ok_iff hagree items _).mp hfill
    refine ⟨hfits, fun front r back hsplit => ?_⟩
    have hname := (forall₂_refers_iff _ 0 _).mp hrefers front r back hsplit
    rwa [Nat.zero_add] at hname
  · intro h
    have hfill := (fillPass_eq_ok_iff hagree items _).mpr ⟨h.fits, rfl⟩
    have hrefers : (entriesFrom 0 (items.filterMap p.fill)).Forall₂
        (Refers (namesOf (items.filterMap p.fill))) (items.filterMap p.fill) := by
      refine (forall₂_refers_iff _ 0 _).mpr fun front r back hsplit => ?_
      rw [Nat.zero_add]
      exact h.names front r back hsplit
    refine ⟨⟨_, hfill, ?_, ?_, hrefers⟩, ?_, ?_⟩
    · have hlt : (items.filterMap p.fill).length < U64 := by
        have hfits := h.fits
        rw [ENTRY_SIZE] at hfits
        omega
      rw [countPass_eq hagree, length_entriesFrom]
      exact (Nat.mod_eq_of_lt hlt).symm
    · have hlt : (namesOf (items.filterMap p.fill)).length < U64 :=
        Nat.lt_of_le_of_lt (Nat.le_add_left _ _) h.fits
      rw [countPass_eq hagree]
      exact (Nat.mod_eq_of_lt hlt).symm
    · intro alloc filled table hfilled htable
      rw [hbuild] at htable
      obtain ⟨filled', hfilled', rfl⟩ := of_buildTable_eq_some htable
      cases hfilled.symm.trans hfilled'
      exact ⟨KeyedTable.sortByKey_perm _, KeyedTable.sortByKey_ordered _, rfl⟩
    · intro alloc halloc
      by_cases hnil : items.filterMap p.fill = []
      · refine ⟨none, by rw [hbuild, buildTable_of_nil hagree hnil], fun address => ?_⟩
        rw [hlookup.none, hnil]
        exact .none fun r hr => (List.not_mem_nil hr).elim
      · refine ⟨_, by rw [hbuild, buildTable_of_fits hagree hnil h.fits halloc], ?_⟩
        exact hlookup.some _ _
          (Holds.of_perm (KeyedTable.sortByKey_ordered _) (KeyedTable.sortByKey_perm _) hrefers)

/-- A number of hexadecimal digits is one. -/
theorem kernel_parseHexU64_of_digits {s : List UInt8} (hne : s ≠ [])
    (hdigits : ∀ ch ∈ s, KernelDebug.isHexDigit ch = true) :
    ∃ address, KernelDebug.parseHexU64 s = some address := by
  unfold KernelDebug.parseHexU64 parseHexU64
  rw [if_neg hne]
  clear hne
  generalize (0 : UInt64) = value
  induction s generalizing value with
  | nil => exact ⟨value, rfl⟩
  | cons ch s ih =>
    rw [List.foldlM_cons]
    dsimp only
    rw [if_pos (hdigits ch List.mem_cons_self)]
    exact ih (fun c hc => hdigits c (List.mem_cons_of_mem _ hc)) _

/-- The passes over a symbol map: the one looks for a digit, the other one reads the number. -/
theorem symbolPasses_agree : KernelDebug.symbolPasses.Agree := by
  intro line
  show KernelDebug.countSymbol line = (KernelDebug.fillSymbol line).map fun r => r.name.length
  unfold KernelDebug.countSymbol KernelDebug.fillSymbol
  dsimp only
  by_cases hnil : (line.dropWhile KernelDebug.isSpace).takeWhile KernelDebug.isHexDigit = []
  · rw [if_pos hnil, hnil]
    rfl
  · have hdigits : ∀ ch ∈ (line.dropWhile KernelDebug.isSpace).takeWhile KernelDebug.isHexDigit,
        KernelDebug.isHexDigit ch = true := fun ch hch => List.mem_takeWhile_imp hch
    obtain ⟨address, haddress⟩ := kernel_parseHexU64_of_digits hnil hdigits
    rw [if_neg hnil, haddress, Option.map_map]
    rfl

/-- The two passes over the lines accept the same. -/
theorem linePasses_agree : KernelDebug.linePasses.Agree := by
  intro line
  show _ = (KernelDebug.fillLine line).map fun r => r.name.length
  rw [KernelDebug.fillLine, Option.map_map]
  rfl

/-- So do the passes over a symbol table, -/
theorem filePasses_agree (ctx : ProcessDebug.ProcessTaskContext) (file : List UInt8) :
    (ProcessDebug.filePasses ctx file).Agree := by
  intro sym
  simp only [ProcessDebug.filePasses, ProcessDebug.symPasses]
  unfold ProcessDebug.countSym ProcessDebug.fillSym
  split_ifs
  · rfl
  · rfl
  · rw [Option.map_map]
    rfl
  · rfl

/-- and those over a line map of a program. -/
theorem mapPasses_agree (ctx : ProcessDebug.ProcessTaskContext) (file : List UInt8) :
    (ProcessDebug.mapPasses ctx file).Agree := by
  intro line
  simp only [ProcessDebug.mapPasses, ProcessDebug.mapLinePasses]
  unfold ProcessDebug.countMapLine ProcessDebug.fillMapLine
  cases ProcessDebug.acceptLine line with
  | none => rfl
  | some r =>
    dsimp only
    split_ifs <;> rfl

/-- Without items there is no table. -/
theorem buildTable_nil (alloc : Nat → Bool) (p : Passes τ ι) :
    buildTable alloc p [] = .ok none := by
  have hzero : (countPass p.count []).count = 0 := rfl
  unfold buildTable
  exact if_pos (.inl hzero)

/-- The builder of the kernel's symbols. -/
theorem buildSymbolTableFromMap_eq (text : List UInt8) (alloc : Nat → Bool) :
    KernelDebug.buildSymbolTableFromMap alloc text
      = buildTable alloc KernelDebug.symbolPasses (lines text) := by
  unfold KernelDebug.buildSymbolTableFromMap
  by_cases hnil : text = []
  · rw [if_pos hnil, lines, dif_pos hnil, buildTable_nil]
  · rw [if_neg hnil]

/-- The builder of the kernel's lines. -/
theorem buildLineTableFromMap_eq (text : List UInt8) (alloc : Nat → Bool) :
    KernelDebug.buildLineTableFromMap alloc text
      = buildTable alloc KernelDebug.linePasses (KernelDebug.lineItems text) := by
  unfold KernelDebug.buildLineTableFromMap KernelDebug.lineItems
  cases KernelDebug.mapLines text with
  | none => exact (buildTable_nil _ _).symm
  | some body => rfl

/-- The builder of a program's symbols. -/
theorem attachSymbolsFromElf_eq (ctx : ProcessDebug.ProcessTaskContext) (file : List UInt8)
    (alloc : Nat → Bool) :
    ProcessDebug.attachSymbolsFromElf alloc ctx file
      = buildTable alloc (ProcessDebug.filePasses ctx file) (ProcessDebug.symItems ctx file) := by
  unfold ProcessDebug.attachSymbolsFromElf ProcessDebug.filePasses ProcessDebug.symItems
  cases ProcessDebug.computeElfLoadBias ctx file with
  | none => exact (buildTable_nil _ _).symm
  | some loadBias =>
    cases ProcessDebug.symtab file with
    | none => exact (buildTable_nil _ _).symm
    | some found => rfl

/-- The builder of a program's lines. -/
theorem attachLinesFromMap_eq (loadFile : List UInt8 → Option (List UInt8))
    (ctx : ProcessDebug.ProcessTaskContext) (programPath file : List UInt8) (alloc : Nat → Bool) :
    ProcessDebug.attachLinesFromMap alloc loadFile ctx programPath file
      = buildTable alloc (ProcessDebug.mapPasses ctx file)
          (ProcessDebug.lineItems loadFile ctx programPath file) := by
  unfold ProcessDebug.attachLinesFromMap ProcessDebug.lineItems
  cases hmap : ProcessDebug.lineMap loadFile ctx programPath file with
  | none => exact (buildTable_nil _ _).symm
  | some m =>
    -- The bias is the one of the file.
    have hbias : ProcessDebug.computeElfLoadBias ctx file = some m.1 := by
      unfold ProcessDebug.lineMap at hmap
      split at hmap
      · cases hmap
      · simp only [Option.bind_eq_bind, Option.bind_eq_some_iff, Option.pure_def,
          Option.some.injEq] at hmap
        obtain ⟨loadBias, hbias, path, -, text, -, rfl⟩ := hmap
        exact hbias
    unfold ProcessDebug.mapPasses
    rw [hbias, Option.bind_some]
    dsimp only
    cases ProcessDebug.mapLines m.2 with
    | none => exact (buildTable_nil _ _).symm
    | some body => rfl

/-- A program's symbols are looked up right exactly if their names are in reach. -/
theorem process_symbolTableCorrect_iff (ctx : ProcessDebug.ProcessTaskContext)
    (file : List UInt8) : ProcessDebug.SymbolTableCorrect ctx file ↔
      NamesInReach (ProcessDebug.acceptedSymbols ctx file) :=
  tableCorrect_iff (filePasses_agree ctx file) (attachSymbolsFromElf_eq ctx file) process_looksUp

/-- Each of the debug tables is right exactly if the names of the accepted records are in reach. -/
theorem debug_tables_correct_iff (imageBase : UInt64) (symbolMap lineMap : List UInt8)
    (loadFile : List UInt8 → Option (List UInt8)) (ctx : ProcessDebug.ProcessTaskContext)
    (programPath file : List UInt8) :
    (KernelDebug.SymbolTableCorrect imageBase symbolMap ↔
        NamesInReach (KernelDebug.acceptedSymbols symbolMap)) ∧
      (KernelDebug.LineTableCorrect imageBase lineMap ↔
        NamesInReach (KernelDebug.acceptedLines lineMap)) ∧
      (ProcessDebug.SymbolTableCorrect ctx file ↔
        NamesInReach (ProcessDebug.acceptedSymbols ctx file)) ∧
      (ProcessDebug.LineTableCorrect loadFile ctx programPath file ↔
        NamesInReach (ProcessDebug.acceptedLines loadFile ctx programPath file)) := by
  refine ⟨?_, ?_, ?_, ?_⟩
  · exact tableCorrect_iff symbolPasses_agree (buildSymbolTableFromMap_eq symbolMap)
      (kernel_looksUp imageBase)
  · exact tableCorrect_iff linePasses_agree (buildLineTableFromMap_eq lineMap)
      (kernel_looksUp imageBase)
  · exact process_symbolTableCorrect_iff ctx file
  · exact tableCorrect_iff (mapPasses_agree ctx file)
      (attachLinesFromMap_eq loadFile ctx programPath file) process_looksUp

/-! ### Parts of a file -/

section Parts

open VKernel.Loader VKernel.ProcessDebug

/-- A number in the middle of a file. -/
theorem leValue_middle (front back : List UInt8) {middle : List UInt8} {a k : Nat}
    (h : a + k ≤ middle.length) :
    leValue (fileByte (front ++ (middle ++ back))) (front.length + a) k
      = leValue (fileByte middle) a k := by
  refine leValue_congr fun i hi => ?_
  unfold fileByte
  rw [List.getD_append_right _ _ _ _ (by omega),
    show front.length + a + i - front.length = a + i from by omega]
  exact List.getD_append _ _ _ _ (by omega)

/-- A program header in the middle of a file. -/
theorem parsePhdr_middle (front back : List UInt8) {middle : List UInt8}
    (h : PHDR_SIZE ≤ middle.length) :
    parsePhdr (front ++ (middle ++ back)) front.length = parsePhdr middle 0 := by
  rw [PHDR_SIZE] at h
  unfold parsePhdr
  simp only [Nat.zero_add]
  rw [leValue_middle front back (by omega), leValue_middle front back (by omega),
    leValue_middle front back (by omega), leValue_middle front back (by omega),
    leValue_middle front back (by omega)]
  have htype := leValue_middle front back (show 0 + 4 ≤ middle.length from by omega)
  rw [Nat.add_zero] at htype
  rw [htype]

/-- A section header in the middle of a file. -/
theorem parseShdr_middle (front back : List UInt8) {middle : List UInt8}
    (h : SHDR_SIZE ≤ middle.length) :
    parseShdr (front ++ (middle ++ back)) front.length = parseShdr middle 0 := by
  rw [SHDR_SIZE] at h
  unfold parseShdr
  simp only [Nat.zero_add]
  rw [leValue_middle front back (by omega), leValue_middle front back (by omega),
    leValue_middle front back (by omega), leValue_middle front back (by omega),
    leValue_middle front back (by omega)]

/-- A symbol in the middle of a file. -/
theorem parseSym_middle (front back : List UInt8) {middle : List UInt8}
    (h : SYM_SIZE ≤ middle.length) :
    parseSym (front ++ (middle ++ back)) front.length = parseSym middle 0 := by
  rw [SYM_SIZE] at h
  unfold parseSym
  simp only [Nat.zero_add]
  rw [leValue_middle front back (by omega), leValue_middle front back (by omega),
    leValue_middle front back (by omega), leValue_middle front back (by omega)]
  have hname := leValue_middle front back (show 0 + 4 ≤ middle.length from by omega)
  rw [Nat.add_zero] at hname
  rw [hname]

end Parts

/-! ### A name that many symbols share -/

/-- The names of equal records are in a row. -/
theorem length_namesOf_replicate (n : Nat) (r : Record ι) :
    (namesOf (List.replicate n r)).length = n * (r.name.length + 1) := by
  induction n with
  | zero => rw [List.replicate_zero, namesOf_nil, List.length_nil, Nat.zero_mul]
  | succ n ih => rw [List.replicate_succ, length_namesOf_cons, ih, Nat.succ_mul, Nat.add_comm]

/-- Equal records, of which the last one has the end of the first name at its place in 32 bits. -/
theorem not_namesInReach_replicate {k n : Nat} (hk : k = n + 1) {r : Record ι}
    (hne : 0 < r.name.length) (hbytes : ∀ c ∈ r.name, c ≠ 0)
    (hplace : n * (r.name.length + 1) % 2 ^ 32 = r.name.length) :
    ¬ NamesInReach (List.replicate k r) := by
  intro h
  subst hk
  have hlast := h.names (List.replicate n r) r [] List.replicate_succ'
  rw [length_namesOf_replicate, hplace, List.replicate_succ, namesOf_cons, List.append_assoc,
    List.drop_left] at hlast
  obtain ⟨c, name, hname⟩ := List.exists_cons_of_length_pos hne
  rw [hname] at hlast hbytes
  exact hbytes c List.mem_cons_self (List.cons_prefix_cons.mp hlast).1

section SharedName

open VKernel.Loader VKernel.ProcessDebug

/-- The header of the file: a segment behind it, and three sections. -/
def sharedNameEhdr : List UInt8 :=
  ELF_MAGIC ++ [2, 1, 1] ++ List.replicate 9 0 ++
  leBytes 2 ET_EXEC ++ leBytes 2 EM_X86_64 ++ leBytes 4 1 ++ leBytes 8 0 ++
  leBytes 8 64 ++ leBytes 8 120 ++ leBytes 4 0 ++ leBytes 2 64 ++
  leBytes 2 56 ++ leBytes 2 1 ++ leBytes 2 64 ++ leBytes 2 3 ++ leBytes 2 0

/-- A segment at address 0. -/
def sharedNamePhdr : List UInt8 :=
  leBytes 4 PT_LOAD ++ leBytes 4 5 ++ leBytes 8 0 ++ leBytes 8 0 ++ leBytes 8 0 ++
  leBytes 8 312 ++ leBytes 8 4096 ++ leBytes 8 4096

/-- The header of a section. -/
def sharedNameShdr (type offset size link entsize : Nat) : List UInt8 :=
  leBytes 4 0 ++ leBytes 4 type ++ leBytes 8 0 ++ leBytes 8 0 ++ leBytes 8 offset ++
  leBytes 8 size ++ leBytes 4 link ++ leBytes 4 0 ++ leBytes 8 1 ++ leBytes 8 entsize

/-- The headers of the sections: none, the symbols, and the names. -/
def sharedNameShdrs : List UInt8 :=
  sharedNameShdr 0 0 0 0 0 ++ (sharedNameShdr SHT_SYMTAB 65850 1572888 2 24 ++
    sharedNameShdr SHT_STRTAB 312 65538 0 0)

/-- A function at address 0, with the name at place 1. -/
def sharedNameSym : List UInt8 :=
  leBytes 4 1 ++ leBytes 1 STT_FUNC ++ leBytes 1 0 ++ leBytes 2 1 ++ leBytes 8 0 ++ leBytes 8 16

/-- One name of `m` bytes. -/
def sharedNameStrtab (m : Nat) : List UInt8 := 0 :: (List.replicate m 0x61 ++ [0])

/-- The file with a name of `m` bytes and `n` symbols. -/
def sharedNameFile (m n : Nat) : List UInt8 :=
  sharedNameEhdr ++ (sharedNamePhdr ++ (sharedNameShdrs ++ (sharedNameStrtab m ++
    (List.replicate n sharedNameSym).flatten)))

/-- The image of the program. -/
def sharedNameImage : ProcessTaskContext := ⟨0x400000, 0x1000⟩

/-- The record of each symbol. -/
def sharedNameRecord (m : Nat) : Record UInt32 := ⟨0x400000, 16, List.replicate m 0x61⟩

theorem length_sharedNameStrtab (m : Nat) : (sharedNameStrtab m).length = m + 2 := by
  simp [sharedNameStrtab]

theorem length_sharedNameSyms (n : Nat) :
    ((List.replicate n sharedNameSym).flatten).length = n * 24 := by
  have hsym : sharedNameSym.length = 24 := by decide
  simp [hsym]

theorem length_sharedNameFile (m n : Nat) :
    (sharedNameFile m n).length = 312 + (m + 2) + n * 24 := by
  have hehdr : sharedNameEhdr.length = 64 := by decide
  have hphdr : sharedNamePhdr.length = 56 := by decide
  have hshdrs : sharedNameShdrs.length = 192 := rfl
  simp only [sharedNameFile, List.length_append, length_sharedNameStrtab, length_sharedNameSyms,
    hehdr, hphdr, hshdrs]
  omega

/-- What the header says. -/
theorem parseEhdr_sharedNameFile (m n : Nat) :
    parseEhdr (sharedNameFile m n)
        = ⟨ELF_MAGIC ++ [2, 1, 1], ET_EXEC, EM_X86_64, 0, 64, 56, 1⟩ ∧
      shoff (sharedNameFile m n) = 120 ∧ shentsize (sharedNameFile m n) = 64 ∧
      shnum (sharedNameFile m n) = 3 := by
  have hlength : sharedNameEhdr.length = 64 := by decide
  have hfield : ∀ a k, a + k ≤ 64 → leValue (fileByte (sharedNameFile m n)) a k
      = leValue (fileByte sharedNameEhdr) a k := by
    intro a k hk
    have hmiddle := leValue_middle [] (sharedNamePhdr ++ (sharedNameShdrs ++
      (sharedNameStrtab m ++ (List.replicate n sharedNameSym).flatten))) (hk.trans_eq hlength.symm)
    rwa [List.length_nil, Nat.zero_add] at hmiddle
  have hident : (sharedNameFile m n).take 7 = sharedNameEhdr.take 7 :=
    List.take_append_of_le_length (by omega)
  unfold parseEhdr shoff shentsize shnum
  rw [hident, hfield 16 2 (by decide), hfield 18 2 (by decide), hfield 24 8 (by decide),
    hfield 32 8 (by decide), hfield 54 2 (by decide), hfield 56 2 (by decide),
    hfield 40 8 (by decide), hfield 58 2 (by decide), hfield 60 2 (by decide)]
  decide

theorem parsePhdr_sharedNameFile (m n : Nat) :
    parsePhdr (sharedNameFile m n) 64 = ⟨PT_LOAD, 0, 0, 312, 4096, 4096⟩ := by
  have hmiddle := parsePhdr_middle sharedNameEhdr (sharedNameShdrs ++
    (sharedNameStrtab m ++ (List.replicate n sharedNameSym).flatten))
    (show PHDR_SIZE ≤ sharedNamePhdr.length from by decide)
  have hlength : sharedNameEhdr.length = 64 := by decide
  rw [hlength] at hmiddle
  refine hmiddle.trans ?_
  decide

/-- A section header between what is in front of it and what is behind it. -/
theorem parseShdr_between (type offset size link entsize : Nat) (front back : List UInt8)
    {file : List UInt8}
    (hfile : file = front ++ (sharedNameShdr type offset size link entsize ++ back))
    {base : Nat} (hbase : front.length = base) :
    parseShdr file base = parseShdr (sharedNameShdr type offset size link entsize) 0 := by
  have hlength : (sharedNameShdr type offset size link entsize).length = 64 := rfl
  rw [hfile, ← hbase]
  exact parseShdr_middle front back (Nat.le_of_eq hlength.symm)

/-- The sections of the file. -/
theorem sections_sharedNameFile (m n : Nat) :
    sections (sharedNameFile m n) = some [⟨0, 0, 0, 0, 0⟩,
      ⟨SHT_SYMTAB, 65850, 1572888, 2, 24⟩, ⟨SHT_STRTAB, 312, 65538, 0, 0⟩] := by
  obtain ⟨-, hshoff, hshentsize, hshnum⟩ := parseEhdr_sharedNameFile m n
  have hrange : rangeOk (sharedNameFile m n).length 120 (3 * SHDR_SIZE) = true := by
    rw [rangeOk, length_sharedNameFile, SHDR_SIZE]
    exact decide_eq_true (by omega)
  -- The file, cut behind each header.
  have hfile : sharedNameFile m n = (sharedNameEhdr ++ sharedNamePhdr) ++
      (sharedNameShdr 0 0 0 0 0 ++ (sharedNameShdr SHT_SYMTAB 65850 1572888 2 24 ++
        (sharedNameShdr SHT_STRTAB 312 65538 0 0 ++
          (sharedNameStrtab m ++ (List.replicate n sharedNameSym).flatten)))) := by
    simp only [sharedNameFile, sharedNameShdrs, List.append_assoc]
  have hheaders : (sharedNameEhdr ++ sharedNamePhdr).length = 120 := by decide
  have hfirst : parseShdr (sharedNameFile m n) 120 = _ :=
    parseShdr_between 0 0 0 0 0 _ _ hfile hheaders
  rw [← List.append_assoc] at hfile
  have hsymtab : parseShdr (sharedNameFile m n) 184 = _ :=
    parseShdr_between SHT_SYMTAB 65850 1572888 2 24 _ _ hfile
      (by rw [List.length_append, hheaders]; rfl)
  rw [← List.append_assoc] at hfile
  have hstrtab : parseShdr (sharedNameFile m n) 248 = _ :=
    parseShdr_between SHT_STRTAB 312 65538 0 0 _ _ hfile
      (by rw [List.length_append, List.length_append, hheaders]; rfl)
  unfold sections
  rw [hshoff, hshentsize, hshnum, if_neg (by decide), if_neg (by rw [hrange]; decide)]
  show some [parseShdr (sharedNameFile m n) 120, parseShdr (sharedNameFile m n) 184,
    parseShdr (sharedNameFile m n) 248] = _
  rw [hfirst, hsymtab, hstrtab]
  decide

/-- A symbol of the file, between those in front of it and those behind it. -/
theorem parseSym_sharedNameFile {m n i : Nat} (hi : i < n) :
    parseSym (sharedNameFile m n) (312 + (m + 2) + i * SYM_SIZE) = parseSym sharedNameSym 0 := by
  obtain ⟨k, rfl⟩ := Nat.exists_eq_add_of_lt hi
  have hsyms : (List.replicate (i + k + 1) sharedNameSym).flatten
      = (List.replicate i sharedNameSym).flatten ++
        (sharedNameSym ++ (List.replicate k sharedNameSym).flatten) := by
    rw [Nat.add_assoc, ← List.replicate_append_replicate, List.flatten_append, List.replicate_succ,
      List.flatten_cons]
  have hfile : sharedNameFile m (i + k + 1) = (sharedNameEhdr ++ (sharedNamePhdr ++
      (sharedNameShdrs ++ (sharedNameStrtab m ++ (List.replicate i sharedNameSym).flatten)))) ++
      (sharedNameSym ++ (List.replicate k sharedNameSym).flatten) := by
    rw [sharedNameFile, hsyms]
    simp only [List.append_assoc]
  have hfront := length_sharedNameFile m i
  rw [sharedNameFile] at hfront
  have hmiddle := parseSym_middle (sharedNameEhdr ++ (sharedNamePhdr ++ (sharedNameShdrs ++
      (sharedNameStrtab m ++ (List.replicate i sharedNameSym).flatten))))
    ((List.replicate k sharedNameSym).flatten)
    (show SYM_SIZE ≤ sharedNameSym.length from by decide)
  rw [← hfile, hfront] at hmiddle
  exact hmiddle

/-- The names of the file. -/
theorem strtab_sharedNameFile (m n : Nat) :
    ((sharedNameFile m n).drop 312).take (m + 2) = sharedNameStrtab m := by
  have hfile : sharedNameFile m n = (sharedNameEhdr ++ (sharedNamePhdr ++ sharedNameShdrs)) ++
      (sharedNameStrtab m ++ (List.replicate n sharedNameSym).flatten) := by
    simp only [sharedNameFile, List.append_assoc]
  have hehdr : sharedNameEhdr.length = 64 := by decide
  have hphdr : sharedNamePhdr.length = 56 := by decide
  have hshdrs : sharedNameShdrs.length = 192 := rfl
  have hheaders : (sharedNameEhdr ++ (sharedNamePhdr ++ sharedNameShdrs)).length = 312 := by
    rw [List.length_append, List.length_append, hehdr, hphdr, hshdrs]
  rw [hfile, List.drop_left' hheaders, List.take_left' (length_sharedNameStrtab m)]

/-- Its symbols and their names. -/
theorem symtab_sharedNameFile {m n : Nat} (hm : m = 65536) (hn : n = 65537) :
    symtab (sharedNameFile m n)
      = some (List.replicate n (parseSym sharedNameSym 0), sharedNameStrtab m) := by
  have hrange : ∀ offset size, offset + size ≤ 1638738 →
      rangeOk (sharedNameFile m n).length offset size = true := by
    intro offset size h
    rw [rangeOk, length_sharedNameFile]
    exact decide_eq_true (by omega)
  have hfound : symtabWithNames (sharedNameFile m n) [⟨0, 0, 0, 0, 0⟩,
      ⟨SHT_SYMTAB, 65850, 1572888, 2, 24⟩, ⟨SHT_STRTAB, 312, 65538, 0, 0⟩]
      ⟨SHT_SYMTAB, 65850, 1572888, 2, 24⟩ =
        some (⟨SHT_SYMTAB, 65850, 1572888, 2, 24⟩, ⟨SHT_STRTAB, 312, 65538, 0, 0⟩) := by
    unfold symtabWithNames
    rw [if_neg (by decide), if_neg (by decide)]
    show (if _ then _ else if _ then _ else _) = _
    rw [if_neg (by decide), if_neg]
    rw [hrange 65850 1572888 (by decide), hrange 312 65538 (by decide)]
    decide
  have hsearch : [⟨0, 0, 0, 0, 0⟩, ⟨SHT_SYMTAB, 65850, 1572888, 2, 24⟩,
      ⟨SHT_STRTAB, 312, 65538, 0, 0⟩].findSome? (symtabWithNames (sharedNameFile m n)
        [⟨0, 0, 0, 0, 0⟩, ⟨SHT_SYMTAB, 65850, 1572888, 2, 24⟩, ⟨SHT_STRTAB, 312, 65538, 0, 0⟩]) =
        some (⟨SHT_SYMTAB, 65850, 1572888, 2, 24⟩, ⟨SHT_STRTAB, 312, 65538, 0, 0⟩) := by
    have hnone : symtabWithNames (sharedNameFile m n) [⟨0, 0, 0, 0, 0⟩,
        ⟨SHT_SYMTAB, 65850, 1572888, 2, 24⟩, ⟨SHT_STRTAB, 312, 65538, 0, 0⟩] ⟨0, 0, 0, 0, 0⟩
        = none := if_pos (by decide)
    rw [List.findSome?_cons, hnone, List.findSome?_cons, hfound]
  have hsyms : (List.range (1572888 / SYM_SIZE)).map
      (fun i => parseSym (sharedNameFile m n) (65850 + i * SYM_SIZE))
      = List.replicate n (parseSym sharedNameSym 0) := by
    rw [show 1572888 / SYM_SIZE = n from hn.symm ▸ by decide]
    refine List.eq_replicate_iff.mpr ⟨by rw [List.length_map, List.length_range], ?_⟩
    intro sym hsym
    obtain ⟨i, hi, rfl⟩ := List.mem_map.mp hsym
    have hplace : 65850 = 312 + (m + 2) := by omega
    rw [hplace]
    exact parseSym_sharedNameFile (List.mem_range.mp hi)
  have hnames := strtab_sharedNameFile m n
  rw [show m + 2 = 65538 from by omega] at hnames
  unfold symtab
  rw [sections_sharedNameFile]
  simp only [Option.bind_eq_bind, Option.bind_some, hsearch]
  rw [if_neg (by decide), hsyms, hnames]
  rfl

/-- The program is linked for address 0. -/
theorem computeElfLoadBias_sharedNameFile (m n : Nat) :
    computeElfLoadBias sharedNameImage (sharedNameFile m n) = some 0x400000 := by
  obtain ⟨hehdr, -⟩ := parseEhdr_sharedNameFile m n
  have hlength := length_sharedNameFile m n
  have hrange : rangeOk (sharedNameFile m n).length 64 (1 * PHDR_SIZE) = true := by
    rw [rangeOk, hlength, PHDR_SIZE]
    exact decide_eq_true (by omega)
  have hphdrs : parsePhdrs (sharedNameFile m n)
      ⟨ELF_MAGIC ++ [2, 1, 1], ET_EXEC, EM_X86_64, 0, 64, 56, 1⟩
        = [⟨PT_LOAD, 0, 0, 312, 4096, 4096⟩] := by
    show [parsePhdr (sharedNameFile m n) 64] = _
    rw [parsePhdr_sharedNameFile]
  have hleast : loadSegmentMin (sharedNameFile m n) = some 0 := by
    unfold loadSegmentMin
    dsimp only
    rw [hehdr, hphdrs, if_pos ⟨by decide, by decide, rfl, hrange⟩]
    rfl
  unfold computeElfLoadBias
  rw [if_neg, if_neg, hleast]
  · rfl
  · rw [hehdr]
    decide
  · rw [hlength, EHDR_SIZE]
    intro h
    rcases h with h | h
    · exact absurd h (by decide)
    · omega

/-- The symbols of the file are accepted, with the name that they share. -/
theorem acceptedSymbols_sharedNameFile {m n : Nat} (hm : m = 65536) (hn : n = 65537) :
    acceptedSymbols sharedNameImage (sharedNameFile m n)
      = List.replicate n (sharedNameRecord m) := by
  have hsym : parseSym sharedNameSym 0 = ⟨1, 2, 1, 0, 16⟩ := by decide
  have hname : symName (sharedNameStrtab m) 1 = some (List.replicate m 0x61) := by
    have htake : (List.replicate m (0x61 : UInt8) ++ [0]).takeWhile (· != 0)
        = List.replicate m 0x61 := by
      rw [List.takeWhile_append_of_pos (fun x hx => by rw [List.eq_of_mem_replicate hx]; decide)]
      rw [List.takeWhile_cons_of_neg (by decide), List.append_nil]
    unfold symName sharedNameStrtab
    simp only [List.drop_succ_cons, List.drop_zero, htake, List.length_append,
      List.length_replicate, List.length_singleton]
    rw [if_neg]
    rintro (h | h)
    · omega
    · have hzero := congrArg List.length h
      rw [List.length_replicate, List.length_nil] at hzero
      omega
  have hfill : fillSym sharedNameImage 0x400000 (sharedNameStrtab m) ⟨1, 2, 1, 0, 16⟩
      = some (sharedNameRecord m) := by
    unfold fillSym
    rw [if_neg (by decide), if_neg, if_neg (by decide), hname]
    · rfl
    · rw [length_sharedNameStrtab]
      intro h
      rcases h with h | h
      · exact absurd h (by decide)
      · change m + 2 ≤ 1 at h
        omega
  unfold acceptedSymbols symItems filePasses symPasses
  rw [computeElfLoadBias_sharedNameFile, symtab_sharedNameFile hm hn, hsym]
  exact List.filterMap_replicate_of_some hfill

/-- The name of the last symbol begins 65536 bytes behind place `2 ^ 32`, at the end of the first
name. -/
theorem not_symbolTableCorrect_sharedNameFile {m n : Nat} (hm : m = 65536) (hn : n = 65537) :
    ¬ ProcessDebug.SymbolTableCorrect sharedNameImage (sharedNameFile m n) := by
  intro h
  have hreach := (process_symbolTableCorrect_iff _ _).mp h
  rw [acceptedSymbols_sharedNameFile hm hn] at hreach
  have hlength : (sharedNameRecord m).name.length = m := List.length_replicate
  have hpositive : 0 < (sharedNameRecord m).name.length := by omega
  have hbytes : ∀ c ∈ (sharedNameRecord m).name, c ≠ 0 := by
    intro c hc
    rw [List.eq_of_mem_replicate hc]
    decide
  have hplace : m * ((sharedNameRecord m).name.length + 1) % 2 ^ 32
      = (sharedNameRecord m).name.length := by
    rw [hlength, hm]
    decide
  have hsucc : n = m + 1 := by omega
  exact not_namesInReach_replicate hsucc hpositive hbytes hplace hreach

/-- 65537 functions with one name of 65536 bytes: the last one has no name in the table. -/
theorem shared_name_out_of_reach :
    ¬ ProcessDebug.SymbolTableCorrect sharedNameImage (sharedNameFile 65536 65537) :=
  not_symbolTableCorrect_sharedNameFile rfl rfl

end SharedName

end VKernel.Debug

import VKernel.Proofs.Fs.Fat32.FatWords

/-!
# `VKernel.Proofs.Fs.Fat32.FatTable`: the FAT as a table

`read_fat_value` and `write_fat_value` work on a window of the first FAT and on all its copies.
`fat_calls_refine` says that a sequence of calls behaves like one table of 28-bit values, with
the upper four bits of every word as they were, and that the copies of a written entry hold the
same value. They are equal words when their upper bits were: `written_copies_differ` is a disk
on which these are not.
-/

set_option autoImplicit false

namespace VKernel.Proofs.Fs

open VKernel.Lib VKernel.Fs VKernel.Fs.Fat32

/-- The fields of a mounted volume are those of its boot sector. -/
structure FieldBounds (g : MountState) : Prop where
  bytes : g.bytesPerSector = 512
  copies : 0 < g.fatCount
  fatCount : g.fatCount < 256
  sectors : 0 < g.sectorsPerFat
  sectorsPerFat : g.sectorsPerFat < 2 ^ 32
  reserved : g.reservedSectorCount < 2 ^ 16
  fsInfo : g.fsInfoSector < 2 ^ 16
  clusters : FAT32_MIN_CLUSTER_COUNT ≤ g.totalClusters
  totalClusters : g.totalClusters < 2 ^ 32

theorem BootSector_bounds (sector : Buffer) {writable : Bool} {startLba : Nat} {valid : Bool}
    (haccepted : (BootSector.ofBytes sector).Accepted) :
    FieldBounds ((BootSector.ofBytes sector).mount writable startLba valid) := by
  obtain ⟨-, hbytes, -, -, -, hcopies, hsectors, -, -, hclusters, -⟩ := haccepted
  have hspf : (BootSector.ofBytes sector).sectorsPerFat < 2 ^ 32 := by
    have h16 := leValue_lt sector 22 2
    have h32 := leValue_lt sector 36 4
    unfold BootSector.sectorsPerFat
    split
    · exact Nat.lt_trans h16 (by decide)
    · exact h32
  have htotal : (BootSector.ofBytes sector).totalSectors < 2 ^ 32 := by
    have h16 := leValue_lt sector 19 2
    have h32 := leValue_lt sector 32 4
    unfold BootSector.totalSectors
    split
    · exact Nat.lt_trans h16 (by decide)
    · exact h32
  refine ⟨hbytes, Nat.pos_of_ne_zero hcopies, leValue_lt sector 16 1, Nat.pos_of_ne_zero hsectors,
    hspf, leValue_lt sector 14 2, leValue_lt sector 48 2, hclusters, ?_⟩
  exact Nat.lt_of_le_of_lt (Nat.le_trans (Nat.div_le_self _ _) (Nat.sub_le _ _)) htotal

theorem fieldBounds_of_probed {g : MountState} (h : Probed g) : FieldBounds g := by
  obtain ⟨blockCount, disk, writable, startLba, w₀, free, hrun, -⟩ := h
  cases hread : (World.unmounted blockCount disk).readBlocks startLba 1 with
  | none =>
    have hstep : (readSectors startLba 1).run (deviceHandler g) (.unmounted blockCount disk) =
        some (none, .unmounted blockCount disk) := congrArg (fun sector => some (sector, _)) hread
    unfold probeVolume at hrun
    rw [Program.run_bind hstep] at hrun
    cases hrun
  | some sector =>
    obtain ⟨haccepted, valid, rfl⟩ := probed_boot hread hrun
    exact BootSector_bounds sector haccepted

section Table

variable {g : MountState} {w : World}

/-- Copies whose sizes do not wrap lie one behind the other. -/
theorem copiesApart_of_lt (hcount : g.fatCount < 256) (hentries : g.sectorsPerFat * 128 < 2 ^ 30) :
    CopiesApart g := by
  have hmod : ∀ k < g.fatCount, k * g.sectorsPerFat % 2 ^ 32 = k * g.sectorsPerFat := by
    intro k hk
    have hmul : k * g.sectorsPerFat ≤ 256 * g.sectorsPerFat := Nat.mul_le_mul_right _ (by omega)
    exact Nat.mod_eq_of_lt (by omega)
  intro j hj k hk
  rw [hmod j hj, hmod k hk]
  rcases Nat.lt_trichotomy j k with hlt | heq | hgt
  · have hmul : (j + 1) * g.sectorsPerFat ≤ k * g.sectorsPerFat := Nat.mul_le_mul_right _ hlt
    rw [Nat.add_mul, Nat.one_mul] at hmul
    exact .inr (.inl hmul)
  · exact .inl (by rw [heq])
  · have hmul : (k + 1) * g.sectorsPerFat ≤ j * g.sectorsPerFat := Nat.mul_le_mul_right _ hgt
    rw [Nat.add_mul, Nat.one_mul] at hmul
    exact .inr (.inr hmul)

/-- The entries after a write. -/
theorem EntryWritten.entry {e value : Nat} {w' : World} (h : EntryWritten g e value w w')
    (hspf : g.sectorsPerFat < 2 ^ 32) (hcopies : CopiesApart g) (he : HasEntry g e) {k e' : Nat}
    (hk : k < g.fatCount) (he' : HasEntry g e') :
    word w'.disk (entryWord g k e') =
      if e' = e then mergeFatValue (word w.disk (entryWord g k e')) value
      else word w.disk (entryWord g k e') := by
  rw [h.words]
  by_cases heq : e' = e
  · rw [if_pos ⟨k, hk, by rw [heq]⟩, if_pos heq]
  · rw [if_neg heq, if_neg]
    rintro ⟨j, hj, hword⟩
    exact heq (entryWord_inj_of_apart hspf hcopies hk hj he' he hword)

/-- Upper bits stay. -/
theorem EntryWritten.upper {e value : Nat} {w' : World} (h : EntryWritten g e value w w')
    (n : Nat) :
    word w'.disk n / 2 ^ 28 = word w.disk n / 2 ^ 28 := by
  rw [h.words]
  split
  · exact mergeFatValue_div _ _
  · rfl

theorem writes_cons_read (c x : Nat) (calls : List FatCall) :
    Writes (.read x :: calls) c ↔ Writes calls c := by
  unfold Writes
  simp

theorem writes_cons_write (c x v : Nat) (calls : List FatCall) :
    Writes (.write x v :: calls) c ↔ c = x ∨ Writes calls c := by
  unfold Writes
  constructor
  · rintro ⟨v', hmem⟩
    rcases List.mem_cons.mp hmem with heq | hmem
    · cases heq
      exact .inl rfl
    · exact .inr ⟨v', hmem⟩
  · rintro (rfl | ⟨v', hmem⟩)
    · exact ⟨v, List.mem_cons_self⟩
    · exact ⟨v', List.mem_cons_of_mem _ hmem⟩

/-- What a sequence of calls has done to the words: every copy of a written entry has the value
of the table, and so has a copy that had it before. -/
structure TableRun (g : MountState) (t : FatTable) (calls : List FatCall) (w w' : World) :
    Prop where
  entries : ∀ c, HasEntry g c → ∀ k < g.fatCount,
    Writes calls c ∨ word w.disk (entryWord g k c) % 2 ^ 28 = t c →
      word w'.disk (entryWord g k c) % 2 ^ 28 = (t.calls calls).2 c
  upper : ∀ n, word w'.disk n / 2 ^ 28 = word w.disk n / 2 ^ 28
  rest : ∀ n, (∀ c, Writes calls c → ∀ k < g.fatCount, n ≠ entryWord g k c) →
    word w'.disk n = word w.disk n

theorem not_writes_nil (c : Nat) : ¬ Writes [] c := by
  rintro ⟨v, hmem⟩
  cases hmem

/-- A read changes nothing. -/
theorem TableRun.read {t : FatTable} {calls : List FatCall} {w₁ w' : World} {x : Nat}
    (hsame : SameDisk w w₁) (h : TableRun g t calls w₁ w') :
    TableRun g t (.read x :: calls) w w' := by
  obtain ⟨hentries, hupper, hrest⟩ := h
  rw [hsame.disk] at hentries hupper hrest
  refine ⟨?_, hupper, ?_⟩
  · intro c hc k hk hor
    rw [writes_cons_read] at hor
    exact hentries c hc k hk hor
  · intro n hn
    apply hrest
    intro c hwrites
    exact hn c ((writes_cons_read c x calls).mpr hwrites)

/-- A write sets one value of the table. -/
theorem TableRun.write {t : FatTable} {calls : List FatCall} {w₁ w' : World} {x v : Nat}
    (hspf : g.sectorsPerFat < 2 ^ 32) (hcopies : CopiesApart g) (hx : HasEntry g x)
    (hstep : EntryWritten g x v w w₁)
    (h : TableRun g (Function.update t x (v % 2 ^ 28)) calls w₁ w') :
    TableRun g t (.write x v :: calls) w w' := by
  refine ⟨?_, ?_, ?_⟩
  · intro c hc k hk hor
    apply h.entries c hc k hk
    rw [writes_cons_write] at hor
    rw [hstep.entry hspf hcopies hx hk hc]
    by_cases heq : c = x
    · -- every copy of the entry has just been written
      rw [if_pos heq, heq, Function.update_self, mergeFatValue_mod]
      exact .inr rfl
    · rw [if_neg heq, Function.update_of_ne heq]
      rcases hor with (heq' | hwrites) | hvalue
      · exact absurd heq' heq
      · exact .inl hwrites
      · exact .inr hvalue
  · intro n
    rw [h.upper, hstep.upper]
  · intro n hn
    rw [h.rest n fun c hwrites => hn c ((writes_cons_write c x v calls).mpr (.inr hwrites)),
      hstep.words, if_neg]
    rintro ⟨k, hk, heq⟩
    exact hn x ((writes_cons_write x x v calls).mpr (.inl rfl)) k hk heq

/-- The table decides what a sequence of calls returns. -/
theorem wp_fatCalls (hbounds : FieldBounds g) (hentries : g.sectorsPerFat * 128 < 2 ^ 30)
    (calls : List FatCall) {t : FatTable} (hdevice : FatOnDevice g w.blockCount)
    (hfresh : Fresh g w) (hrange : ∀ call ∈ calls, HasEntry g call.cluster)
    (ht : ∀ c, HasEntry g c → fatTable g w c = t c) :
    (fatCalls g calls).wp (deviceHandler g)
      (fun answers w' => answers = (t.calls calls).1 ∧ TableRun g t calls w w') w := by
  have hcopies := copiesApart_of_lt hbounds.fatCount hentries
  have hself : ∀ c, HasEntry g c → entryOf c = c := by
    intro c hc
    unfold HasEntry at hc
    exact Nat.mod_eq_of_lt (by omega)
  induction calls generalizing t w with
  | nil =>
    refine ⟨rfl, ?_, fun _ => rfl, fun _ _ => rfl⟩
    rintro c hc k hk (hwrites | hvalue)
    · exact absurd hwrites (not_writes_nil c)
    · exact hvalue
  | cons call calls ih =>
    obtain ⟨hhead, htail⟩ := List.forall_mem_cons.mp hrange
    unfold fatCalls
    rw [Program.wp_bind]
    cases call with
    | read x =>
      have hx : HasEntry g x := hhead
      unfold FatCall.run
      rw [Program.wp_bind]
      apply wp_readFatValue_words hdevice hbounds.copies hbounds.bytes hfresh
      intro w₁ hsame hfresh₁ _
      have ht₁ : ∀ c, HasEntry g c → fatTable g w₁ c = t c := by
        intro c hc
        rw [← ht c hc]
        unfold fatTable
        rw [hsame.disk]
      rw [hself x hx, if_pos hx, Program.wp_pure, Program.wp_bind]
      refine Program.wp_mono (ih (hsame.blockCount ▸ hdevice) hfresh₁ htail ht₁) ?_
      rintro answers w' ⟨hanswers, hrun⟩
      refine ⟨?_, hrun.read hsame⟩
      rw [hanswers, ht x hx]
      rfl
    | write x v =>
      have hx : HasEntry g x := hhead
      unfold FatCall.run
      rw [Program.wp_bind]
      apply wp_writeFatValue_words hdevice hbounds.bytes hbounds.sectorsPerFat
        ((hself x hx).symm ▸ hx)
      intro w₁ hkeeps hstep
      have hfresh₁ := hkeeps hcopies hfresh
      rw [hself x hx] at hstep
      have ht₁ : ∀ c, HasEntry g c →
          fatTable g w₁ c = Function.update t x (v % 2 ^ 28) c := by
        intro c hc
        have hword := hstep.entry hbounds.sectorsPerFat hcopies hx hbounds.copies hc
        have hold := ht c hc
        unfold fatTable at hold ⊢
        rw [hself c hc] at hold ⊢
        rw [hword]
        by_cases heq : c = x
        · rw [if_pos heq, heq, Function.update_self, mergeFatValue_mod]
        · rw [if_neg heq, Function.update_of_ne heq, hold]
      rw [Program.wp_pure, Program.wp_bind]
      refine Program.wp_mono (ih (hstep.blockCount ▸ hdevice) hfresh₁ htail ht₁) ?_
      rintro answers w' ⟨hanswers, hrun⟩
      refine ⟨?_, hrun.write hbounds.sectorsPerFat hcopies hx hstep⟩
      rw [hanswers]
      rfl

end Table

/-- On a device whose requests succeed, calls of `read_fat_value` and `write_fat_value` on
clusters of a FAT of fewer than `2 ^ 30` entries behave like calls on the table of the first
FAT: reads return the low 28 bits of what was written last, or of what was there. No word of the
disk changes its upper four bits, only the entries of written clusters change, and their copies
hold the same value; they are equal when their upper bits were. -/
theorem fat_calls_refine {g : MountState} {w : World} (hprobed : Probed g)
    (hentries : g.sectorsPerFat * 128 < 2 ^ 30) (hdevice : FatOnDevice g w.blockCount)
    (hfresh : Fresh g w) {calls : List FatCall}
    (hrange : ∀ call ∈ calls, HasEntry g call.cluster) :
    ∃ w', (fatCalls g calls).run (deviceHandler g) w =
        some (((fatTable g w).calls calls).1, w') ∧
      (∀ c, HasEntry g c → fatTable g w' c = ((fatTable g w).calls calls).2 c) ∧
      (∀ n, word w'.disk n / 2 ^ 28 = word w.disk n / 2 ^ 28) ∧
      (∀ n, (∀ c, Writes calls c → ∀ k < g.fatCount, n ≠ entryWord g k c) →
        word w'.disk n = word w.disk n) ∧
      ∀ c, Writes calls c → ∀ j < g.fatCount, ∀ k < g.fatCount,
        word w'.disk (entryWord g j c) % 2 ^ 28 = word w'.disk (entryWord g k c) % 2 ^ 28 ∧
        (word w.disk (entryWord g j c) / 2 ^ 28 = word w.disk (entryWord g k c) / 2 ^ 28 →
          word w'.disk (entryWord g j c) = word w'.disk (entryWord g k c)) := by
  have hbounds := fieldBounds_of_probed hprobed
  -- `htable`: the entries of all copies follow the table, and no other word changes.
  obtain ⟨answers, w', hrun, rfl, htable⟩ := Program.wp_iff_run.mp
    (wp_fatCalls hbounds hentries calls hdevice hfresh hrange fun _ _ => rfl)
  refine ⟨w', hrun, ?_, htable.upper, htable.rest, ?_⟩
  · intro c hc
    have hself : entryOf c = c := by
      unfold HasEntry at hc
      exact Nat.mod_eq_of_lt (by omega)
    have hvalue := htable.entries c hc 0 hbounds.copies (.inr (by unfold fatTable; rw [hself]))
    unfold fatTable at hvalue ⊢
    rwa [hself]
  · -- Both copies have the table's lower bits; the upper ones are those from before.
    intro c hwrites j hj k hk
    have hc : HasEntry g c := by
      obtain ⟨v, hmem⟩ := hwrites
      exact hrange _ hmem
    have hlow := (htable.entries c hc j hj (.inl hwrites)).trans
      (htable.entries c hc k hk (.inl hwrites)).symm
    refine ⟨hlow, fun hupper => ?_⟩
    have hj' := htable.upper (entryWord g j c)
    have hk' := htable.upper (entryWord g k c)
    omega

/-- A boot sector: one sector per cluster, one reserved sector, two FATs of 512 sectors and 65525
clusters. -/
def twinSector : Buffer := fun i =>
  if i = 12 ∨ i = 16 ∨ i = 37 ∨ i = 44 then 2
  else if i = 13 ∨ i = 14 ∨ i = 34 then 1
  else if i = 32 then 0xF6
  else if i = 33 then 3
  else if i = 66 then 0x29
  else if i = 510 then 0x55
  else if i = 511 then 0xAA
  else 0

/-- The volume with two FATs. -/
def twinVolume : MountState := (BootSector.ofBytes twinSector).mount true 0 false

theorem readBlocks_twin :
    (World.unmounted 100000 twinSector).readBlocks 0 1 = some twinSector := by
  apply readBlocks_first
  intro i hi
  unfold twinSector
  simp only [show i ≠ 12 ∧ i ≠ 16 ∧ i ≠ 37 ∧ i ≠ 44 ∧ i ≠ 13 ∧ i ≠ 14 ∧ i ≠ 34 ∧ i ≠ 32 ∧ i ≠ 33 ∧
    i ≠ 66 ∧ i ≠ 510 ∧ i ≠ 511 by omega, or_self, if_false]

theorem probed_twinVolume : Probed twinVolume :=
  ⟨100000, twinSector, true, 0, _, _,
    run_probeVolume readBlocks_twin (by decide) (by decide), rfl⟩

/-- A device that is as large as the copies of the FAT together, and holds the FSInfo sector. -/
theorem requestsSucceed_of_le {g : MountState} {blockCount : Nat} (hwide : blockCount < U64)
    (hfat : g.partitionStartLba + g.reservedSectorCount + g.fatCount * g.sectorsPerFat ≤ blockCount)
    (hfsInfo : HasFsInfo g → g.partitionStartLba + g.fsInfoSector < blockCount) :
    RequestsSucceed g blockCount := by
  refine ⟨⟨fun k hk s hs => ?_, hwide⟩, fun h => Nat.lt_of_le_of_lt (Nat.mod_le _ _) (hfsInfo h)⟩
  have hcopy : (k + 1) * g.sectorsPerFat ≤ g.fatCount * g.sectorsPerFat := Nat.mul_le_mul_right _ hk
  rw [Nat.succ_mul] at hcopy
  have hword := Nat.mod_le (k * g.sectorsPerFat) (2 ^ 32)
  refine Nat.lt_of_le_of_lt (Nat.mod_le _ _) ?_
  omega

theorem requestsSucceed_twinVolume : RequestsSucceed twinVolume 100000 :=
  requestsSucceed_of_le (by rw [U64_eq]; decide) (by decide) (by decide)

/-- Before a mount, the cache is empty. -/
theorem fresh_unmounted (g : MountState) (blockCount : Nat) (disk : Buffer) :
    Fresh g (.unmounted blockCount disk) := fun hvalid => by cases hvalid

/-- A write to a volume whose FATs are empty, and a read. -/
theorem fat_calls_refine_twin :
    ∃ w', (fatCalls twinVolume [.write 2 5, .read 2]).run (deviceHandler twinVolume)
        (.unmounted 100000 twinSector) = some ([.written true, .value (some 5)], w') ∧
      word w'.disk (entryWord twinVolume 0 2) % 2 ^ 28 =
        word w'.disk (entryWord twinVolume 1 2) % 2 ^ 28 := by
  have hrange : ∀ call ∈ [FatCall.write 2 5, .read 2], HasEntry twinVolume call.cluster := by
    decide
  obtain ⟨w', hrun, -, -, -, hcopies⟩ := fat_calls_refine probed_twinVolume (by decide)
    requestsSucceed_twinVolume.toFatOnDevice (fresh_unmounted _ 100000 twinSector) hrange
  exact ⟨w', hrun, (hcopies 2 ⟨5, List.mem_cons_self⟩ 0 (by decide) 1 (by decide)).1⟩

/-- The same volume with the upper four bits of the entry of cluster 2 set in the second FAT. -/
def reservedBitsDisk : Buffer := fun i => if i = 513 * 512 + 11 then 0xF0 else twinSector i

/-- Writing an entry keeps the upper four bits of each copy, so that copies with different ones
do not become equal. -/
theorem written_copies_differ :
    FatOnDevice twinVolume 100000 ∧ twinVolume.sectorsPerFat * 128 < 2 ^ 30 ∧
      ∃ w', (fatCalls twinVolume [.write 2 5]).run (deviceHandler twinVolume)
          (.unmounted 100000 reservedBitsDisk) = some ([.written true], w') ∧
        Writes [.write 2 5] 2 ∧
        word w'.disk (entryWord twinVolume 0 2) ≠ word w'.disk (entryWord twinVolume 1 2) := by
  have hdevice := requestsSucceed_twinVolume.toFatOnDevice
  have hentries : twinVolume.sectorsPerFat * 128 < 2 ^ 30 := by decide
  obtain ⟨answers, w', hrun, rfl, htable⟩ := Program.wp_iff_run.mp
    (wp_fatCalls (fieldBounds_of_probed probed_twinVolume) hentries [.write 2 5]
      hdevice (fresh_unmounted _ 100000 reservedBitsDisk) (by decide) fun _ _ => rfl)
  refine ⟨hdevice, hentries, w', hrun, ⟨5, List.mem_cons_self⟩, ?_⟩
  have hfirst : word reservedBitsDisk (entryWord twinVolume 0 2) / 2 ^ 28 = 0 := by
    with_unfolding_all decide
  have hsecond : word reservedBitsDisk (entryWord twinVolume 1 2) / 2 ^ 28 = 15 := by
    with_unfolding_all decide
  intro heq
  have hupper := htable.upper (entryWord twinVolume 0 2)
  rw [heq, htable.upper (entryWord twinVolume 1 2)] at hupper
  exact absurd (hsecond.symm.trans (hupper.trans hfirst)) (by decide)

end VKernel.Proofs.Fs

import VKernel.Fs.Fat32.Walks

/-!
# `VKernel.Proofs.Fs.Fat32.FreshReads`: what reading a volume gives

Reading keeps the disk and keeps a fresh cache fresh, and what is read then depends on the
disk alone (`run_same`). Nothing is asked of the disk here: it may hold anything, and any
request may leave the device.
-/

set_option autoImplicit false

namespace VKernel.Fs.Fat32

variable {g : MountState} {w w' : World}

theorem SameDisk.refl (w : World) : SameDisk w w := ⟨rfl, rfl⟩

theorem SameDisk.symm (h : SameDisk w w') : SameDisk w' w := ⟨h.disk.symm, h.blockCount.symm⟩

theorem SameDisk.trans {w'' : World} (h : SameDisk w w') (h' : SameDisk w' w'') :
    SameDisk w w'' := ⟨h'.disk.trans h.disk, h'.blockCount.trans h.blockCount⟩

section SameDisk

variable (h : SameDisk w w')

include h

/-- The same disk, the same blocks. -/
theorem SameDisk.readBlocks (lba count : Nat) :
    w'.readBlocks lba count = w.readBlocks lba count := by
  have hrange : w'.inRange lba count ↔ w.inRange lba count := by
    unfold World.inRange
    rw [h.blockCount]
  simp only [World.readBlocks, hrange, h.disk]

/-- The same disk, the same sectors of the FAT. -/
theorem SameDisk.fatSectorOf (s : Nat) : fatSectorOf g w' s = fatSectorOf g w s := by
  unfold Fat32.fatSectorOf readCacheLine
  rw [h.readBlocks]

/-- The same disk, the same values. -/
theorem SameDisk.fatValueOf (c : Nat) : fatValueOf g w' c = fatValueOf g w c := by
  unfold Fat32.fatValueOf
  rw [h.fatSectorOf]

/-- The same disk, the same links. -/
theorem SameDisk.goes {c next : Nat} (hgoes : Goes g w c next) : Goes g w' c next := by
  refine ⟨fun i hi => ?_, h.fatValueOf c ▸ hgoes.link, hgoes.data⟩
  obtain ⟨sector, hread, hslots⟩ := hgoes.passed i hi
  exact ⟨sector, h.readBlocks _ _ ▸ hread, hslots⟩

end SameDisk

end VKernel.Fs.Fat32

namespace VKernel.Proofs.Fs

open VKernel.Lib VKernel.Fs VKernel.Fs.Fat32

variable {g : MountState} {w w' : World}

/-! ### Requests -/

/-- With a fresh cache, the FAT sector is the one on the disk. -/
theorem cachedFatSector_fresh (hw : Fresh g w) (s : Nat) :
    (w.cachedFatSector g s).1 = fatSectorOf g w s ∧ SameDisk w (w.cachedFatSector g s).2 ∧
      Fresh g (w.cachedFatSector g s).2 := by
  unfold World.cachedFatSector Fat32.fatSectorOf
  by_cases hs : s ≥ g.sectorsPerFat
  · rw [if_pos hs, if_pos hs]
    exact ⟨rfl, SameDisk.refl w, hw⟩
  rw [if_neg hs, if_neg hs]
  by_cases hhit : w.cache.hit s
  · -- The sector is in the group that the cache holds, and that is the one it would be read in.
    rw [if_pos hhit]
    obtain ⟨hvalid, hfirst, hlast⟩ := hhit
    obtain ⟨haligned, hcount, hdata⟩ := hw hvalid
    have hline : cacheLine s = w.cache.firstSector := by
      unfold cacheLine
      unfold FAT_CACHE_SECTOR_COUNT at *
      omega
    rw [hline, hdata]
    exact ⟨rfl, SameDisk.refl w, hw⟩
  rw [if_neg hhit]
  have hfill : w.readBlocks ((g.partitionStartLba + g.reservedSectorCount +
      s / FAT_CACHE_SECTOR_COUNT * FAT_CACHE_SECTOR_COUNT) % U64)
      (min (g.sectorsPerFat - s / FAT_CACHE_SECTOR_COUNT * FAT_CACHE_SECTOR_COUNT)
        FAT_CACHE_SECTOR_COUNT) = readCacheLine g w (cacheLine s) := rfl
  simp only [hfill]
  cases hline : readCacheLine g w (cacheLine s) with
  | none => exact ⟨rfl, SameDisk.refl w, hw⟩
  | some data =>
    refine ⟨rfl, ⟨rfl, rfl⟩, fun _ => ⟨?_, rfl, hline⟩⟩
    exact Nat.mul_mod_left _ _

/-- The requests that read. -/
def IsRead : Request → Prop
  | .readBlocks _ _ => True
  | .cachedFatSector _ => True
  | _ => False

/-- A read gives the same on two fresh states with the same disk. -/
theorem handler_same (hw : Fresh g w) (hw' : Fresh g w') (hsame : SameDisk w w') {r : Request}
    (hr : IsRead r) :
    (deviceHandler g r w').1 = (deviceHandler g r w).1 ∧ SameDisk w (deviceHandler g r w).2 ∧
      Fresh g (deviceHandler g r w).2 := by
  cases r with
  | readBlocks lba count => exact ⟨hsame.readBlocks lba count, SameDisk.refl w, hw⟩
  | cachedFatSector s =>
    obtain ⟨hsector, hdisk, hfresh⟩ := cachedFatSector_fresh hw s
    refine ⟨?_, hdisk, hfresh⟩
    show (w'.cachedFatSector g s).1 = (w.cachedFatSector g s).1
    rw [hsector, (cachedFatSector_fresh hw' s).1, hsame.fatSectorOf]
  | writeBlocks _ _ _ _ => cases hr
  | refreshFatCache _ _ => cases hr
  | freeInfo => cases hr
  | setFreeInfo _ => cases hr

/-- A program that only reads ends in the same way on two fresh states with the same disk. It
keeps the disk, and a fresh cache. -/
theorem run_same {α : Type} {p : Fat α} (hp : p.Asks IsRead) (hw : Fresh g w) (hw' : Fresh g w')
    (hsame : SameDisk w w') :
    (p.run (deviceHandler g) w').map Prod.fst = (p.run (deviceHandler g) w).map Prod.fst ∧
      ∀ a w₁, p.run (deviceHandler g) w = some (a, w₁) → SameDisk w w₁ ∧ Fresh g w₁ := by
  induction p generalizing w w' with
  | done a =>
    refine ⟨rfl, fun b w₁ hrun => ?_⟩
    cases hrun
    exact ⟨SameDisk.refl w, hw⟩
  | diverge => exact ⟨rfl, fun _ _ hrun => by cases hrun⟩
  | ask r k ih =>
    obtain ⟨hanswer, hdisk, hfresh⟩ := handler_same hw hw' hsame hp.1
    obtain ⟨-, hdisk', hfresh'⟩ := handler_same hw' hw hsame.symm hp.1
    have hnext : SameDisk (deviceHandler g r w).2 (deviceHandler g r w').2 :=
      hdisk.symm.trans (hsame.trans hdisk')
    obtain ⟨hresult, hstate⟩ := ih _ (hp.2 _) hfresh hfresh' hnext
    refine ⟨?_, fun a w₁ hrun => ?_⟩
    · show ((k (deviceHandler g r w').1).run _ _).map Prod.fst = _
      rw [hanswer]
      exact hresult
    · obtain ⟨hdisk₁, hfresh₁⟩ := hstate a w₁ hrun
      exact ⟨hdisk.trans hdisk₁, hfresh₁⟩

/-- A program that only reads keeps the disk and a fresh cache also when it settles. -/
theorem settles_reads {α : Type} {p : Nat → Fat α} (hp : ∀ n, (p n).Asks IsRead)
    (hw : Fresh g w) {Q : α → World → Prop} (hsettles : Program.Settles (deviceHandler g) p w Q) :
    Program.Settles (deviceHandler g) p w fun a w' => Q a w' ∧ SameDisk w w' ∧ Fresh g w' := by
  obtain ⟨a, w₁, ⟨n₀, hrun⟩, hQ⟩ := hsettles
  have hkeeps := (run_same (hp n₀) hw hw (SameDisk.refl w)).2 a w₁ (hrun n₀ (Nat.le_refl _))
  exact ⟨a, w₁, ⟨n₀, hrun⟩, hQ, hkeeps⟩

/-- Where it has settled with a result, it has this result on every fresh state with the same
disk. -/
theorem run_of_settles {α : Type} {p : Nat → Fat α} (hp : ∀ n, (p n).Asks IsRead)
    (hw : Fresh g w) {a : α}
    (hsettles : Program.Settles (deviceHandler g) p w fun b _ => b = a) :
    ∃ n₀, ∀ n, n₀ ≤ n → ∀ w', SameDisk w w' → Fresh g w' →
      ∃ w₁, (p n).run (deviceHandler g) w' = some (a, w₁) ∧ SameDisk w' w₁ ∧ Fresh g w₁ := by
  obtain ⟨b, w₁, ⟨n₀, hrun⟩, rfl⟩ := hsettles
  refine ⟨n₀, fun n hn w' hsame hw' => ?_⟩
  have hfst := (run_same (hp n) hw hw' hsame).1
  rw [hrun n hn, Option.map_some] at hfst
  obtain ⟨⟨c, w₂⟩, hrun', rfl⟩ := Option.map_eq_some_iff.mp hfst
  exact ⟨w₂, hrun', (run_same (hp n) hw' hw hsame.symm).2 _ _ hrun'⟩

/-! ### Sectors and FAT values -/

theorem wp_readSectors_iff {lba count : Nat} {Q : Option Buffer → World → Prop} :
    (readSectors lba count).wp (deviceHandler g) Q w ↔ Q (w.readBlocks lba count) w := Iff.rfl

/-- `read_fat_value` reads the FAT of the disk. -/
theorem wp_readFatValue_fresh (hw : Fresh g w) {c : Nat} {Q : Option Nat → World → Prop}
    (hQ : ∀ w', SameDisk w w' → Fresh g w' → Q (fatValueOf g w c) w') :
    (readFatValue g c).wp (deviceHandler g) Q w := by
  obtain ⟨hsector, hdisk, hfresh⟩ := cachedFatSector_fresh hw (c * 4 % 2 ^ 32 / g.bytesPerSector)
  have hnext := hQ _ hdisk hfresh
  unfold readFatValue readCachedFatSector
  rw [Program.wp_bind, Program.wp_request]
  rw [show (deviceHandler g (.cachedFatSector (c * 4 % 2 ^ 32 / g.bytesPerSector)) w).1 =
    fatSectorOf g w (c * 4 % 2 ^ 32 / g.bytesPerSector) from hsector]
  unfold Fat32.fatValueOf at hnext
  cases hcase : fatSectorOf g w (c * 4 % 2 ^ 32 / g.bytesPerSector) with
  | none =>
    rw [hcase] at hnext
    exact hnext
  | some sector =>
    rw [hcase] at hnext
    exact hnext

theorem asks_readSectors (lba count : Nat) : (readSectors lba count).Asks IsRead :=
  Program.asks_request.mpr trivial

theorem asks_readFatValue (c : Nat) : (readFatValue g c).Asks IsRead := by
  unfold readFatValue
  refine .bind (Program.asks_request.mpr trivial) fun sector => ?_
  cases sector with
  | none => exact trivial
  | some sector => exact trivial

end VKernel.Proofs.Fs

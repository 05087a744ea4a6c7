import VKernel.Loader.ElfImage
import Mathlib.Tactic.Linarith

/-!
# `VKernel.Proofs.Loader.ElfSteps`: the steps of the loader, by link addresses

A load is `Safe` when it does not stop at an access outside of the file or the image.
`safe_bind` takes a step apart, and each step of the loader has an equivalence here that
says what makes it safe, and what it leaves in the image. `Shows` relates the memory to the
image of `ElfImage`: byte `o` of the image is at the address `writeBase + o`.
-/

set_option autoImplicit false

namespace VKernel.Proofs.Loader

open VKernel VKernel.Lib VKernel.Loader

/-! ### Safety -/

section Safe

variable {α β : Type}

/-- The computation does not stop at an access that leaves its range. -/
def Safe (x : Except Stop α) : Prop := ∀ access, x ≠ .error (.outside access)

@[simp]
theorem safe_ok (v : α) : Safe (Except.ok v : Except Stop α) := fun _ => by simp

@[simp]
theorem safe_rejected (e : ElfError) : Safe (.error (.rejected e) : Except Stop α) :=
  fun _ => by simp

@[simp]
theorem not_safe_outside (a : Access) : ¬ Safe (.error (.outside a) : Except Stop α) :=
  fun h => h a rfl

/-- A sequence is safe when its first part is, and the rest is with every value of it. -/
theorem safe_bind (x : Except Stop α) (f : α → Except Stop β) :
    Safe (x >>= f) ↔ Safe x ∧ ∀ v, x = .ok v → Safe (f v) := by
  cases x with
  | error e =>
    constructor
    · intro h
      refine ⟨fun access => ?_, fun v hv => by cases hv⟩
      have := h access
      simpa [bind, Except.bind] using this
    · rintro ⟨h, -⟩ access
      have := h access
      simpa [bind, Except.bind] using this
  | ok v =>
    constructor
    · intro h
      refine ⟨safe_ok v, fun v' hv => ?_⟩
      cases hv
      exact h
    · rintro ⟨-, h⟩
      exact h v rfl

theorem ok_bind (v : α) (f : α → Except Stop β) : (Except.ok v >>= f) = f v := rfl

end Safe

/-! ### Addresses -/

/-- The place is a range of addresses: its bytes do not run over the end of the lower half of
the address space. -/
def Sound (place : Place) : Prop := place.writeBase + place.limit ≤ 2 ^ 63

/-- The memory shows the image. -/
def Shows (place : Place) (mem : Mem) (image : Image) : Prop :=
  ∀ o < place.limit, mem (place.writeBase + o) = image o

section Addresses

variable {place : Place} {lo : Nat}

/-- The address of a link address is its offset from the base, modulo `2 ^ 64`. -/
theorem address_eq (hp : Sound place) {v : Nat} (hlo : lo < U64) (hv : v < U64) :
    add64 v (sub64 place.writeBase lo) = (place.writeBase + offsetOf lo v) % U64 := by
  have hU := U64_eq
  unfold Sound at hp
  unfold add64 offsetOf sub64
  split <;> split
  · congr 1
    omega
  · rw [show place.writeBase + (U64 - (lo - v)) = v + (place.writeBase - lo) + U64 by omega,
      Nat.add_mod_right]
  · rw [show v + (U64 - (lo - place.writeBase)) = place.writeBase + (v - lo) + U64 by omega,
      Nat.add_mod_right]
  · congr 1
    omega

/-- The offset of a link address is below `2 ^ 64`. -/
theorem offsetOf_lt (lo : Nat) {v : Nat} (hv : v < U64) : offsetOf lo v < U64 := sub64_lt lo hv

/-- Advancing a link address advances its offset, modulo `2 ^ 64`. -/
theorem offsetOf_add64 {v : Nat} (hlo : lo < U64) (k : Nat) :
    offsetOf lo (add64 v k) = (offsetOf lo v + k) % U64 := by
  have hsum := add64_lt v k
  have hmod := Nat.div_add_mod (v + k) U64
  unfold offsetOf sub64
  unfold add64 at hsum ⊢
  generalize hq : (v + k) / U64 = q at hmod
  generalize (v + k) % U64 = r at *
  split <;> split
  · rw [show v - lo + k = r - lo + U64 * q by omega, Nat.add_mul_mod_self_left,
      Nat.mod_eq_of_lt (by omega)]
  · rw [show U64 - (lo - v) + k = r - lo + U64 * (q + 1) by rw [Nat.mul_add]; omega,
      Nat.add_mul_mod_self_left, Nat.mod_eq_of_lt (by omega)]
  · have hq1 : 1 ≤ q := by
      by_contra hlt
      have : q = 0 := by omega
      subst this
      omega
    rw [show v - lo + k = U64 - (lo - r) + U64 * (q - 1) by
        rw [Nat.mul_sub, Nat.mul_one]
        have := Nat.mul_le_mul_left U64 hq1
        omega,
      Nat.add_mul_mod_self_left, Nat.mod_eq_of_lt (by omega)]
  · rw [show U64 - (lo - v) + k = U64 - (lo - r) + U64 * q by omega,
      Nat.add_mul_mod_self_left, Nat.mod_eq_of_lt (by omega)]

/-- Addresses advance as link addresses do. -/
theorem address_add (v bias k : Nat) : add64 (add64 v bias) k = add64 (add64 v k) bias := by
  unfold add64
  rw [Nat.mod_add_mod, Nat.mod_add_mod, Nat.add_right_comm]

/-- An access by link address is checked by its offset. -/
theorem check_eq (hp : Sound place) {v length : Nat} (hlo : lo < U64) (hv : v < U64)
    (hlength : 0 < length) :
    place.check (add64 v (sub64 place.writeBase lo)) length =
      if Inside lo place.limit v length then .ok ()
      else .error (.outside (.image (add64 v (sub64 place.writeBase lo)) length)) := by
  have hoff := offsetOf_lt lo hv
  have hU := U64_eq
  unfold Sound at hp
  have hiff : Inside lo place.limit v length ↔ offsetOf lo v + length ≤ place.limit := Iff.rfl
  unfold Place.check
  rw [address_eq hp hlo hv]
  rcases Nat.lt_or_ge (place.writeBase + offsetOf lo v) U64 with hlt | hge
  · rw [Nat.mod_eq_of_lt hlt]
    by_cases hin : Inside lo place.limit v length
    · have hle := hiff.mp hin
      rw [if_pos hin, if_pos ⟨by omega, by omega⟩]
    · have hgt := hiff.not.mp hin
      rw [if_neg hin, if_neg (by omega)]
  · -- a sum that wraps is below the base
    have hout : ¬ Inside lo place.limit v length := by
      rw [hiff]
      omega
    rw [Nat.mod_eq_sub_mod hge, Nat.mod_eq_of_lt (by omega), if_neg hout, if_neg (by omega)]

/-- A check and what follows it. -/
theorem safe_check_bind (hp : Sound place) {v length : Nat} (hlo : lo < U64) (hv : v < U64)
    (hlength : 0 < length) {β : Type} (f : Unit → Except Stop β) :
    Safe (place.check (add64 v (sub64 place.writeBase lo)) length >>= f) ↔
      Inside lo place.limit v length ∧ Safe (f ()) := by
  rw [check_eq hp hlo hv hlength]
  by_cases hin : Inside lo place.limit v length
  · rw [if_pos hin]
    simp only [hin, true_and]
    rfl
  · simp [hin, safe_bind]

/-- A check that passes does nothing. -/
theorem check_bind (hp : Sound place) {v length : Nat} (hlo : lo < U64) (hv : v < U64)
    (hlength : 0 < length) (hin : Inside lo place.limit v length) {β : Type}
    (f : Unit → Except Stop β) :
    place.check (add64 v (sub64 place.writeBase lo)) length >>= f = f () := by
  rw [check_eq hp hlo hv hlength, if_pos hin]
  rfl

/-- The address of an access in the image. -/
theorem address_of_inside (hp : Sound place) {v length : Nat} (hlo : lo < U64) (hv : v < U64)
    (hlength : 0 < length) (hin : Inside lo place.limit v length) :
    add64 v (sub64 place.writeBase lo) = place.writeBase + offsetOf lo v := by
  have hU := U64_eq
  unfold Sound at hp
  unfold Inside at hin
  rw [address_eq hp hlo hv, Nat.mod_eq_of_lt (by omega)]

/-- A word of the memory is the word of the image. -/
theorem word_eq (hp : Sound place) {mem : Mem} {image : Image} (hshows : Shows place mem image)
    {v : Nat} (hlo : lo < U64) (hv : v < U64) (hin : Inside lo place.limit v 8) :
    leValue mem (add64 v (sub64 place.writeBase lo)) 8 = image.word lo v := by
  rw [address_of_inside hp hlo hv (by decide) hin]
  apply leValue_congr
  intro i hi
  rw [Nat.add_assoc]
  unfold Inside at hin
  exact hshows _ (by omega)

/-- A word fits in 64 bits. -/
theorem word_lt (image : Image) (lo v : Nat) : image.word lo v < U64 := by
  have h := leValue_lt image (offsetOf lo v) 8
  rw [U64_eq]
  exact h

end Addresses

/-! ### The dynamic table -/

section Dynamic

variable {place : Place} {lo : Nat} {mem : Mem} {image : Image} {v : Nat}

/-- One entry after another. -/
theorem entryAt_succ (v size k : Nat) : add64 (entryAt v size k) size = entryAt v size (k + 1) := by
  unfold entryAt add64
  rw [Nat.mod_add_mod]
  congr 1
  ring

theorem entryAt_lt (v size k : Nat) : entryAt v size k < U64 := add64_lt _ _

theorem entryAt_zero {v : Nat} (hv : v < U64) (size : Nat) : entryAt v size 0 = v := by
  unfold entryAt
  rw [Nat.zero_mul, add64_eq (by omega), Nat.add_zero]

/-- The rest of the scan, from entry `k` on, succeeds when the table ends at entry `n` and
there is fuel for the entries between. By induction on the fuel. -/
theorem scanDynamic_eq (hp : Sound place) (hlo : lo < U64) (hshows : Shows place mem image)
    {n : Nat} (h : DynamicEnds lo place.limit image v n) :
    ∀ fuel k, k ≤ n → n - k < fuel →
      scanDynamic place mem fuel (add64 (entryAt v DYN_SIZE k) (sub64 place.writeBase lo))
        (relaTable image lo v k).1 (relaTable image lo v k).2 = .ok (relaTable image lo v n) := by
  intro fuel
  induction fuel with
  | zero =>
    intro k _ hk
    omega
  | succ fuel ih =>
    intro k hkn hfuel
    have hlt := entryAt_lt v DYN_SIZE k
    unfold scanDynamic
    rcases Nat.lt_or_ge k n with hk | hk
    · obtain ⟨hin, hne, hvalue⟩ := h.passed k hk
      have hnext := ih (k + 1) hk (by omega)
      rw [← entryAt_succ, ← address_add] at hnext
      rw [check_bind hp hlo hlt (by decide) hin]
      simp only [word_eq hp hshows hlo hlt hin, if_neg hne, address_add _ _ 8]
      simp only [relaTable, relaEntry] at hnext
      by_cases hrela : image.word lo (entryAt v DYN_SIZE k) = DT_RELA
      · have hval := hvalue (.inl hrela)
        simp only [if_pos hrela] at hnext ⊢
        rw [check_bind hp hlo (add64_lt _ _) (by decide) hval,
          word_eq hp hshows hlo (add64_lt _ _) hval]
        exact hnext
      · by_cases hsz : image.word lo (entryAt v DYN_SIZE k) = DT_RELASZ
        · have hval := hvalue (.inr hsz)
          simp only [if_neg hrela, if_pos hsz] at hnext ⊢
          rw [check_bind hp hlo (add64_lt _ _) (by decide) hval,
            word_eq hp hshows hlo (add64_lt _ _) hval]
          exact hnext
        · simp only [if_neg hrela, if_neg hsz] at hnext ⊢
          exact hnext
    · have hk' : k = n := by omega
      subst hk'
      rw [check_bind hp hlo hlt (by decide) h.last]
      simp only [word_eq hp hshows hlo hlt h.last, if_pos h.null]
      rfl

/-- A scan from entry `k` on that does not leave the image has found the end of the table. -/
theorem dynamicEnds_of_safe (hp : Sound place) (hlo : lo < U64) (hshows : Shows place mem image) :
    ∀ fuel k a b, Safe (scanDynamic place mem fuel
        (add64 (entryAt v DYN_SIZE k) (sub64 place.writeBase lo)) a b) →
      (∀ j < k, EntryPassed lo place.limit image (entryAt v DYN_SIZE j)) →
      ∃ n, DynamicEnds lo place.limit image v n := by
  intro fuel
  induction fuel with
  | zero =>
    intro k a b hsafe _
    exact absurd hsafe (not_safe_outside _)
  | succ fuel ih =>
    intro k a b hsafe hbefore
    have hlt := entryAt_lt v DYN_SIZE k
    unfold scanDynamic at hsafe
    rw [safe_check_bind hp hlo hlt (by decide)] at hsafe
    obtain ⟨hin, hsafe⟩ := hsafe
    simp only [word_eq hp hshows hlo hlt hin, address_add _ _ 8,
      address_add _ _ DYN_SIZE, entryAt_succ] at hsafe
    by_cases hnull : image.word lo (entryAt v DYN_SIZE k) = DT_NULL
    · exact ⟨k, hbefore, hin, hnull⟩
    · rw [if_neg hnull] at hsafe
      -- the entries before the next one, once the value of this one is settled
      have hextend : (image.word lo (entryAt v DYN_SIZE k) = DT_RELA ∨
            image.word lo (entryAt v DYN_SIZE k) = DT_RELASZ →
          Inside lo place.limit (add64 (entryAt v DYN_SIZE k) 8) 8) →
          ∀ j < k + 1, EntryPassed lo place.limit image (entryAt v DYN_SIZE j) := by
        intro hvalue j hj
        rcases Nat.lt_succ_iff_lt_or_eq.mp hj with hj | rfl
        · exact hbefore j hj
        · exact ⟨hin, hnull, hvalue⟩
      by_cases hrela : image.word lo (entryAt v DYN_SIZE k) = DT_RELA
      · rw [if_pos hrela, safe_check_bind hp hlo (add64_lt _ _) (by decide)] at hsafe
        exact ih (k + 1) _ _ hsafe.2 (hextend fun _ => hsafe.1)
      · rw [if_neg hrela] at hsafe
        by_cases hsz : image.word lo (entryAt v DYN_SIZE k) = DT_RELASZ
        · rw [if_pos hsz, safe_check_bind hp hlo (add64_lt _ _) (by decide)] at hsafe
          exact ih (k + 1) _ _ hsafe.2 (hextend fun _ => hsafe.1)
        · rw [if_neg hsz] at hsafe
          exact ih (k + 1) _ _ hsafe (hextend fun h => absurd h (by simp [hrela, hsz]))

/-- Entries in the image follow each other without wrapping. -/
theorem offsetOf_entryAt (hp : Sound place) (hlo : lo < U64) (hv : v < U64) {n : Nat}
    (hin : ∀ k ≤ n, Inside lo place.limit (entryAt v DYN_SIZE k) 8) :
    offsetOf lo (entryAt v DYN_SIZE n) = offsetOf lo v + n * DYN_SIZE := by
  have hU := U64_eq
  unfold Sound at hp
  induction n with
  | zero => rw [entryAt_zero hv, Nat.zero_mul, Nat.add_zero]
  | succ n ih =>
    have hprev := ih fun k hk => hin k (by omega)
    have hn := hin n (by omega)
    unfold Inside at hn
    rw [← entryAt_succ, offsetOf_add64 hlo, Nat.mod_eq_of_lt, hprev, Nat.add_mul, Nat.one_mul,
      Nat.add_assoc]
    unfold DYN_SIZE at *
    omega

/-- The fuel of the scan is enough for a table that ends in the image. -/
theorem lt_fuel_of_dynamicEnds (hp : Sound place) (hlo : lo < U64) (hv : v < U64) {n : Nat}
    (h : DynamicEnds lo place.limit image v n) : n < place.limit / DYN_SIZE + 1 := by
  have hin : ∀ k ≤ n, Inside lo place.limit (entryAt v DYN_SIZE k) 8 := by
    intro k hk
    rcases Nat.lt_or_ge k n with hlt | hge
    · exact (h.passed k hlt).tag
    · rw [show k = n by omega]
      exact h.last
  have hoff := offsetOf_entryAt hp hlo hv hin
  have hlast := h.last
  unfold Inside at hlast
  rw [hoff] at hlast
  unfold DYN_SIZE at *
  omega

/-- The scan stays in the image exactly when the table ends there. -/
theorem safe_scanDynamic (hp : Sound place) (hlo : lo < U64) (hshows : Shows place mem image)
    (hv : v < U64) :
    Safe (scanDynamic place mem (place.limit / DYN_SIZE + 1)
        (add64 v (sub64 place.writeBase lo)) 0 0) ↔
      ∃ n, DynamicEnds lo place.limit image v n := by
  constructor
  · intro hsafe
    rw [← entryAt_zero hv DYN_SIZE] at hsafe
    exact dynamicEnds_of_safe hp hlo hshows _ 0 _ _ hsafe fun j hj => absurd hj (by omega)
  · rintro ⟨n, hn⟩
    have heq := scanDynamic_eq hp hlo hshows hn _ 0 (by omega)
      (lt_fuel_of_dynamicEnds hp hlo hv hn)
    rw [entryAt_zero hv] at heq
    rw [show scanDynamic _ _ _ _ 0 0 = _ from heq]
    exact safe_ok _

/-- The table that the scan finds. -/
theorem scanDynamic_result (hp : Sound place) (hlo : lo < U64) (hshows : Shows place mem image)
    (hv : v < U64) {n : Nat} (hn : DynamicEnds lo place.limit image v n) :
    scanDynamic place mem (place.limit / DYN_SIZE + 1) (add64 v (sub64 place.writeBase lo)) 0 0 =
      .ok (relaTable image lo v n) := by
  have heq := scanDynamic_eq hp hlo hshows hn _ 0 (by omega)
    (lt_fuel_of_dynamicEnds hp hlo hv hn)
  rwa [entryAt_zero hv] at heq

end Dynamic

/-! ### Relocations -/

section Relocations

variable {place : Place} {lo : Nat}

/-- A store to a word of the image. -/
theorem Shows.stored (hp : Sound place) {mem : Mem} {image : Image}
    (hshows : Shows place mem image) {v : Nat} (hlo : lo < U64) (hv : v < U64)
    (hin : Inside lo place.limit v 8) (w : Nat) :
    Shows place (leStore mem (add64 v (sub64 place.writeBase lo)) 8 w)
      (leStore image (offsetOf lo v) 8 w) := by
  intro o ho
  rw [address_of_inside hp hlo hv (by decide) hin]
  unfold leStore
  rw [hshows o ho]
  by_cases hword : offsetOf lo v ≤ o ∧ o < offsetOf lo v + 8
  · rw [if_pos hword, if_pos ⟨by omega, by omega⟩]
    congr 1
    omega
  · rw [if_neg hword, if_neg (by omega)]

/-- The relocation loop stays in the image exactly when all that it touches lies there, and
then it leaves the relocated image. By induction on the number of entries. -/
theorem applyRelocations_spec (hp : Sound place) (hlo : lo < U64) (loadBias : Nat) :
    ∀ count entry mem image, entry < U64 → Shows place mem image →
      (Safe (applyRelocations place (sub64 place.writeBase lo) loadBias count
          (add64 entry (sub64 place.writeBase lo)) mem) ↔
        RelocationsFit lo place.limit loadBias count entry image) ∧
      (RelocationsFit lo place.limit loadBias count entry image →
        ∃ mem', applyRelocations place (sub64 place.writeBase lo) loadBias count
            (add64 entry (sub64 place.writeBase lo)) mem = .ok mem' ∧
          Shows place mem' (relocatedImage lo loadBias count entry image)) := by
  intro count
  induction count with
  | zero =>
    intro entry mem image _ hshows
    exact ⟨by simp [applyRelocations, RelocationsFit], fun _ => ⟨mem, rfl, hshows⟩⟩
  | succ count ih =>
    intro entry mem image hentry hshows
    have hinfo : add64 entry 8 < U64 := add64_lt _ _
    have haddend : add64 entry 16 < U64 := add64_lt _ _
    have hnext : add64 entry RELA_SIZE < U64 := add64_lt _ _
    unfold applyRelocations
    simp only [address_add _ _ 8, address_add _ _ 16, address_add _ _ RELA_SIZE, RelocationsFit,
      relocatedImage]
    rw [safe_check_bind hp hlo hinfo (by decide)]
    by_cases hin : Inside lo place.limit (add64 entry 8) 8
    · rw [word_eq hp hshows hlo hinfo hin, check_bind hp hlo hinfo (by decide) hin]
      by_cases hrel : IsRelative image lo entry
      · -- the entry is applied
        have hrel' : relaType (image.word lo (add64 entry 8)) = R_X86_64_RELATIVE := hrel
        have himage : image.relocated lo loadBias entry =
            leStore image (offsetOf lo (image.word lo entry)) 8
              (add64 loadBias (image.word lo (add64 entry 16))) := if_pos hrel
        have htarget : image.word lo entry < U64 := word_lt image lo entry
        simp only [ne_eq, hrel', not_true_eq_false, if_false, hin, true_and]
        rw [safe_check_bind hp hlo hentry (by decide)]
        by_cases hoffset : Inside lo place.limit entry 8
        · rw [word_eq hp hshows hlo hentry hoffset, check_bind hp hlo hentry (by decide) hoffset,
            safe_check_bind hp hlo haddend (by decide)]
          by_cases hadd : Inside lo place.limit (add64 entry 16) 8
          · rw [word_eq hp hshows hlo haddend hadd, check_bind hp hlo haddend (by decide) hadd,
              safe_check_bind hp hlo htarget (by decide)]
            by_cases hloc : Inside lo place.limit (image.word lo entry) 8
            · have hfits : EntryFits lo place.limit image entry :=
                ⟨hin, fun _ => hoffset, fun _ => hadd, fun _ => hloc⟩
              rw [check_bind hp hlo htarget (by decide) hloc]
              obtain ⟨hiff, hok⟩ := ih _ _ _ hnext (hshows.stored hp hlo htarget hloc
                (add64 loadBias (image.word lo (add64 entry 16))))
              simp only [hoffset, hadd, hloc, hfits, himage, true_and]
              exact ⟨hiff, hok⟩
            · have hnot : ¬ EntryFits lo place.limit image entry := fun h => hloc (h.target hrel)
              simp [hloc, hnot]
          · have hnot : ¬ EntryFits lo place.limit image entry := fun h => hadd (h.addend hrel)
            simp [hadd, hnot]
        · have hnot : ¬ EntryFits lo place.limit image entry := fun h => hoffset (h.offset hrel)
          simp [hoffset, hnot]
      · have hrel' : relaType (image.word lo (add64 entry 8)) ≠ R_X86_64_RELATIVE := hrel
        have himage : image.relocated lo loadBias entry = image := if_neg hrel
        have hfits : EntryFits lo place.limit image entry :=
          ⟨hin, fun h => absurd h hrel, fun h => absurd h hrel, fun h => absurd h hrel⟩
        obtain ⟨hiff, hok⟩ := ih _ mem image hnext hshows
        simp only [if_pos hrel', himage, hin, hfits, true_and]
        exact ⟨hiff, hok⟩
    · have hnot : ¬ EntryFits lo place.limit image entry := fun h => hin h.info
      simp [hin, hnot]

/-- Step 9 on a file with a dynamic table: the scan, and the loop over the table it finds. -/
theorem relocate_eq {span : Span} {phdrs : List Phdr} {mem : Mem} {ph : Phdr}
    (hfind : phdrs.find? (fun ph => ph.type = PT_DYNAMIC) = some ph) :
    relocate place span phdrs mem =
      scanDynamic place mem (place.limit / DYN_SIZE + 1)
          (add64 ph.vaddr (sub64 place.writeBase span.vaddrMin)) 0 0 >>= fun table =>
        applyRelocations place (sub64 place.writeBase span.vaddrMin) (place.loadBias span)
          (relaCount table) (add64 table.1 (sub64 place.writeBase span.vaddrMin)) mem := by
  unfold relocate
  simp only [hfind]
  congr 1
  funext table
  unfold relaCount Place.writeBias
  split
  · rfl
  · rfl

/-- The address of a relocation table is a `u64`. -/
theorem relaTable_lt (image : Image) (lo v n : Nat) : (relaTable image lo v n).1 < U64 := by
  induction n with
  | zero => exact U64_pos
  | succ n ih =>
    unfold relaTable relaEntry
    split
    · exact word_lt _ _ _
    · split
      · exact ih
      · exact ih

/-- Step 9 stays in the image exactly when the first dynamic table ends there and all that
its relocations touch lies there. -/
theorem safe_relocate (hp : Sound place) {span : Span} (hlo : span.vaddrMin < U64)
    {phdrs : List Phdr} (hphdrs : ∀ ph ∈ phdrs, ph.vaddr < U64) {mem : Mem} {image : Image}
    (hshows : Shows place mem image) :
    Safe (relocate place span phdrs mem) ↔
      ∀ ph, phdrs.find? (fun ph => ph.type = PT_DYNAMIC) = some ph →
        ∃ n, DynamicEnds span.vaddrMin place.limit image ph.vaddr n ∧
          RelocationsFit span.vaddrMin place.limit (place.loadBias span)
            (relaCount (relaTable image span.vaddrMin ph.vaddr n))
            (relaTable image span.vaddrMin ph.vaddr n).1 image := by
  cases hfind : phdrs.find? (fun ph => decide (ph.type = PT_DYNAMIC)) with
  | none =>
    simp only [relocate, hfind]
    simp [bind, Except.bind, pure, Except.pure]
  | some ph =>
    have hv : ph.vaddr < U64 := hphdrs ph (List.mem_of_find?_eq_some hfind)
    rw [relocate_eq hfind, safe_bind, safe_scanDynamic hp hlo hshows hv]
    constructor
    · rintro ⟨⟨n, hn⟩, hrest⟩ ph' hph'
      cases hph'
      have hsafe := hrest _ (scanDynamic_result hp hlo hshows hv hn)
      rw [(applyRelocations_spec hp hlo _ _ _ _ _ (relaTable_lt ..) hshows).1] at hsafe
      exact ⟨n, hn, hsafe⟩
    · intro h
      obtain ⟨n, hn, hfits⟩ := h ph rfl
      refine ⟨⟨n, hn⟩, fun table htable => ?_⟩
      rw [scanDynamic_result hp hlo hshows hv hn] at htable
      cases htable
      rw [(applyRelocations_spec hp hlo _ _ _ _ _ (relaTable_lt ..) hshows).1]
      exact hfits

/-- What step 9 leaves in the image. -/
theorem relocate_result (hp : Sound place) {span : Span} (hlo : span.vaddrMin < U64)
    {phdrs : List Phdr} (hphdrs : ∀ ph ∈ phdrs, ph.vaddr < U64) {mem : Mem} {image : Image}
    (hshows : Shows place mem image) {ph : Phdr} {n : Nat}
    (hfind : phdrs.find? (fun ph => ph.type = PT_DYNAMIC) = some ph)
    (hn : DynamicEnds span.vaddrMin place.limit image ph.vaddr n)
    (hfits : RelocationsFit span.vaddrMin place.limit (place.loadBias span)
      (relaCount (relaTable image span.vaddrMin ph.vaddr n))
      (relaTable image span.vaddrMin ph.vaddr n).1 image) :
    ∃ mem', relocate place span phdrs mem = .ok mem' ∧
      Shows place mem' (relocatedImage span.vaddrMin (place.loadBias span)
        (relaCount (relaTable image span.vaddrMin ph.vaddr n))
        (relaTable image span.vaddrMin ph.vaddr n).1 image) := by
  have hv : ph.vaddr < U64 := hphdrs ph (List.mem_of_find?_eq_some hfind)
  obtain ⟨mem', hmem, hshows'⟩ :=
    (applyRelocations_spec hp hlo _ _ _ _ _ (relaTable_lt ..) hshows).2 hfits
  refine ⟨mem', ?_, hshows'⟩
  rw [relocate_eq hfind, scanDynamic_result hp hlo hshows hv hn]
  exact hmem

end Relocations

/-! ### Segments -/

section Segments

variable {place : Place} {lo : Nat} {file : List UInt8}

/-- A read in the file. -/
theorem checkFile_bind {offset length : Nat} (h : offset + length ≤ file.length) {β : Type}
    (f : Unit → Except Stop β) : checkFile file offset length >>= f = f () := by
  unfold checkFile
  rw [if_pos h]
  rfl

/-- The bytes of the file stay in the image exactly when they fit. -/
theorem copyFilePart_spec (hp : Sound place) (hlo : lo < U64) {ph : Phdr} (hv : ph.vaddr < U64)
    (hfile : ph.offset + ph.filesz ≤ file.length) {mem : Mem} {image : Image}
    (hshows : Shows place mem image) :
    (Safe (copyFilePart file place (add64 ph.vaddr (sub64 place.writeBase lo)) mem ph) ↔
      (0 < ph.filesz → Inside lo place.limit ph.vaddr ph.filesz)) ∧
    ((0 < ph.filesz → Inside lo place.limit ph.vaddr ph.filesz) →
      ∃ mem', copyFilePart file place (add64 ph.vaddr (sub64 place.writeBase lo)) mem ph =
          .ok mem' ∧
        Shows place mem' fun o =>
          if offsetOf lo ph.vaddr ≤ o ∧ o < offsetOf lo ph.vaddr + ph.filesz then
            fileByte file (ph.offset + (o - offsetOf lo ph.vaddr))
          else image o) := by
  unfold copyFilePart
  by_cases hpos : 0 < ph.filesz
  · rw [if_pos hpos, checkFile_bind hfile, safe_check_bind hp hlo hv hpos]
    simp only [hpos, true_implies]
    refine ⟨⟨fun h => h.1, fun h => ⟨h, safe_ok _⟩⟩, fun hin => ?_⟩
    rw [check_bind hp hlo hv hpos hin, address_of_inside hp hlo hv hpos hin]
    refine ⟨_, rfl, fun o ho => ?_⟩
    simp only []
    rw [hshows o ho]
    by_cases hpart : offsetOf lo ph.vaddr ≤ o ∧ o < offsetOf lo ph.vaddr + ph.filesz
    · rw [if_pos hpart, if_pos ⟨by omega, by omega⟩]
      congr 2
      omega
    · rw [if_neg hpart, if_neg (by omega)]
  · rw [if_neg hpos]
    refine ⟨⟨fun _ h => absurd h hpos, fun _ => safe_ok _⟩, fun _ => ⟨mem, rfl, fun o ho => ?_⟩⟩
    rw [hshows o ho]
    exact (if_neg (by omega)).symm

/-- The zeros stay in the image exactly when they fit. -/
theorem clearBss_spec (hp : Sound place) (hlo : lo < U64) {ph : Phdr} {mem : Mem}
    {image : Image} (hshows : Shows place mem image) :
    (Safe (clearBss place (add64 ph.vaddr (sub64 place.writeBase lo)) mem ph) ↔
      (ph.filesz < ph.memsz →
        Inside lo place.limit (add64 ph.vaddr ph.filesz) (ph.memsz - ph.filesz))) ∧
    ((ph.filesz < ph.memsz →
        Inside lo place.limit (add64 ph.vaddr ph.filesz) (ph.memsz - ph.filesz)) →
      ∃ mem', clearBss place (add64 ph.vaddr (sub64 place.writeBase lo)) mem ph = .ok mem' ∧
        Shows place mem' fun o =>
          if offsetOf lo (add64 ph.vaddr ph.filesz) ≤ o ∧
              o < offsetOf lo (add64 ph.vaddr ph.filesz) + (ph.memsz - ph.filesz) then 0
          else image o) := by
  unfold clearBss
  by_cases hbss : ph.filesz < ph.memsz
  · have hlength : 0 < ph.memsz - ph.filesz := by omega
    have hv := add64_lt ph.vaddr ph.filesz
    simp only [address_add, gt_iff_lt, hbss, if_true, true_implies]
    rw [safe_check_bind hp hlo hv hlength]
    refine ⟨⟨fun h => h.1, fun h => ⟨h, safe_ok _⟩⟩, fun hin => ?_⟩
    rw [check_bind hp hlo hv hlength hin, address_of_inside hp hlo hv hlength hin]
    refine ⟨_, rfl, fun o ho => ?_⟩
    simp only []
    rw [hshows o ho]
    generalize offsetOf lo (add64 ph.vaddr ph.filesz) = start at *
    by_cases hpart : start ≤ o ∧ o < start + (ph.memsz - ph.filesz)
    · rw [if_pos hpart, if_pos ⟨by omega, by omega⟩]
    · rw [if_neg hpart, if_neg (by omega)]
  · rw [if_neg (by omega)]
    refine ⟨⟨fun _ h => absurd h hbss, fun _ => safe_ok _⟩, fun _ => ⟨mem, rfl, fun o ho => ?_⟩⟩
    rw [hshows o ho]
    exact (if_neg (by omega)).symm

/-- The two parts of a segment fit exactly when the larger of its sizes does. -/
theorem inside_parts (hp : Sound place) (hlo : lo < U64) {ph : Phdr} (hv : ph.vaddr < U64) :
    ((0 < ph.filesz → Inside lo place.limit ph.vaddr ph.filesz) ∧
      (ph.filesz < ph.memsz →
        Inside lo place.limit (add64 ph.vaddr ph.filesz) (ph.memsz - ph.filesz))) ↔
      (0 < max ph.filesz ph.memsz → Inside lo place.limit ph.vaddr (max ph.filesz ph.memsz)) := by
  have hU := U64_eq
  have hoff := offsetOf_lt lo hv
  have hbss := offsetOf_add64 (v := ph.vaddr) hlo ph.filesz
  unfold Sound at hp
  unfold Inside
  rw [hbss]
  constructor
  · rintro ⟨hfile, hzero⟩ hpos
    rcases Nat.lt_or_ge ph.filesz ph.memsz with hlt | hge
    · have hz := hzero hlt
      rw [Nat.mod_eq_of_lt] at hz
      · omega
      · rcases Nat.eq_zero_or_pos ph.filesz with h0 | h0
        · omega
        · have := hfile h0
          omega
    · have := hfile (by omega)
      omega
  · intro h
    refine ⟨fun hpos => ?_, fun hlt => ?_⟩
    · have := h (by omega)
      omega
    · have := h (by omega)
      rw [Nat.mod_eq_of_lt (by omega)]
      omega

/-- One segment stays in the image exactly when the larger of its sizes fits, and then it is
laid over the image. -/
theorem copySegment_spec (hp : Sound place) (hlo : lo < U64) {ph : Phdr} (hv : ph.vaddr < U64)
    (hfile : ph.type = PT_LOAD → ph.offset + ph.filesz ≤ file.length) {mem : Mem} {image : Image}
    (hshows : Shows place mem image) :
    (Safe (copySegment file place (sub64 place.writeBase lo) mem ph) ↔
      (ph.type = PT_LOAD → 0 < max ph.filesz ph.memsz →
        Inside lo place.limit ph.vaddr (max ph.filesz ph.memsz))) ∧
    ((ph.type = PT_LOAD → 0 < max ph.filesz ph.memsz →
        Inside lo place.limit ph.vaddr (max ph.filesz ph.memsz)) →
      ∃ mem', copySegment file place (sub64 place.writeBase lo) mem ph = .ok mem' ∧
        Shows place mem' (image.addSegment file lo ph)) := by
  unfold copySegment Image.addSegment
  by_cases htype : ph.type ≠ PT_LOAD
  · rw [if_pos htype, if_pos htype]
    refine ⟨⟨fun _ h => absurd h htype, fun _ => safe_ok _⟩, fun _ => ⟨mem, rfl, hshows⟩⟩
  · rw [if_neg htype, if_neg htype]
    have hload : ph.type = PT_LOAD := by
      by_contra h
      exact htype h
    simp only [hload, true_implies]
    rw [← inside_parts hp hlo hv]
    obtain ⟨hcopy, hcopied⟩ := copyFilePart_spec hp hlo hv (hfile hload) hshows
    constructor
    · rw [safe_bind, hcopy]
      constructor
      · rintro ⟨hin, hrest⟩
        obtain ⟨mem', heq, hshows'⟩ := hcopied hin
        exact ⟨hin, (clearBss_spec hp hlo hshows').1.mp (hrest _ heq)⟩
      · rintro ⟨hin, hzero⟩
        obtain ⟨mem', heq, hshows'⟩ := hcopied hin
        refine ⟨hin, fun v hval => ?_⟩
        rw [heq] at hval
        cases hval
        exact (clearBss_spec hp hlo hshows').1.mpr hzero
    · rintro ⟨hin, hzero⟩
      obtain ⟨mem', heq, hshows'⟩ := hcopied hin
      obtain ⟨mem'', heq', hshows''⟩ := (clearBss_spec hp hlo hshows').2 hzero
      refine ⟨mem'', by rw [heq]; exact heq', fun o ho => ?_⟩
      rw [hshows'' o ho]
      have hfits := (inside_parts hp hlo hv).mp ⟨hin, hzero⟩
      have hbss := offsetOf_add64 (v := ph.vaddr) hlo ph.filesz
      have hU := U64_eq
      unfold Sound at hp
      unfold Inside at hfits
      simp only []
      generalize offsetOf lo ph.vaddr = start at *
      by_cases hz : ph.filesz < ph.memsz
      · -- the zeros start where the bytes of the file end
        have := hfits (by omega)
        rw [Nat.mod_eq_of_lt (by omega)] at hbss
        rw [hbss]
        by_cases hbyte : start ≤ o ∧ o < start + ph.filesz
        · rw [if_neg (by omega), if_pos hbyte, if_pos hbyte]
        · rw [if_neg hbyte, if_neg hbyte]
          by_cases hmem : start ≤ o ∧ o < start + ph.memsz
          · rw [if_pos hmem, if_pos ⟨by omega, by omega⟩]
          · rw [if_neg hmem, if_neg (by omega)]
      · rw [if_neg (by omega)]
        by_cases hbyte : start ≤ o ∧ o < start + ph.filesz
        · rw [if_pos hbyte, if_pos hbyte]
        · rw [if_neg hbyte, if_neg hbyte, if_neg (by omega)]

/-- All segments, by induction on the program headers. -/
theorem copySegments_spec (hp : Sound place) (hlo : lo < U64) :
    ∀ (phdrs : List Phdr) (mem : Mem) (image : Image), (∀ ph ∈ phdrs, ph.vaddr < U64) →
      (∀ ph ∈ phdrs, ph.type = PT_LOAD → ph.offset + ph.filesz ≤ file.length) →
      Shows place mem image →
      (Safe (phdrs.foldlM (copySegment file place (sub64 place.writeBase lo)) mem) ↔
        ∀ ph ∈ phdrs, ph.type = PT_LOAD → 0 < max ph.filesz ph.memsz →
          Inside lo place.limit ph.vaddr (max ph.filesz ph.memsz)) ∧
      ((∀ ph ∈ phdrs, ph.type = PT_LOAD → 0 < max ph.filesz ph.memsz →
          Inside lo place.limit ph.vaddr (max ph.filesz ph.memsz)) →
        ∃ mem', phdrs.foldlM (copySegment file place (sub64 place.writeBase lo)) mem = .ok mem' ∧
          Shows place mem' (phdrs.foldl (Image.addSegment file lo) image)) := by
  intro phdrs
  induction phdrs with
  | nil =>
    intro mem image _ _ hshows
    exact ⟨⟨fun _ _ h => by simp at h, fun _ => safe_ok _⟩, fun _ => ⟨mem, rfl, hshows⟩⟩
  | cons ph phdrs ih =>
    intro mem image hv hfile hshows
    simp only [List.forall_mem_cons] at hv hfile ⊢
    obtain ⟨hsafe, hok⟩ := copySegment_spec hp hlo hv.1 hfile.1 hshows
    rw [List.foldlM_cons, List.foldl_cons, safe_bind, hsafe]
    constructor
    · constructor
      · rintro ⟨hph, hrest⟩
        obtain ⟨mem', heq, hshows'⟩ := hok hph
        exact ⟨hph, (ih mem' _ hv.2 hfile.2 hshows').1.mp (hrest mem' heq)⟩
      · rintro ⟨hph, hrest⟩
        obtain ⟨mem', heq, hshows'⟩ := hok hph
        refine ⟨hph, fun v hval => ?_⟩
        rw [heq] at hval
        cases hval
        exact (ih mem' _ hv.2 hfile.2 hshows').1.mpr hrest
    · rintro ⟨hph, hrest⟩
      obtain ⟨mem', heq, hshows'⟩ := hok hph
      rw [heq]
      exact (ih mem' _ hv.2 hfile.2 hshows').2 hrest

end Segments

end VKernel.Proofs.Loader

import VKernel.Lib.EndAroundCarry
import VKernel.Proofs.Net.Ipv4RoundTrip

/-!
# `VKernel.Proofs.Net.Checksum`: the internet checksum

The loop of `internet_checksum` is the sum of the big-endian words with end-around carry
(`toNat_checksumFrom`), so its result is the complement of that sum for every length
(`toNat_internetChecksum`). From there on a checksum is arithmetic on the sum of the words.

`observe_frame` clears the field, computes the checksum and compares. The test that
`icmp::observe_packet` makes, that the checksum over everything is 0, is the same one except where
zero has two forms: a field of 0xFFFF in a header whose other words sum up to 0xFFFF.
-/

set_option autoImplicit false

namespace VKernel.Proofs.Net

open VKernel.Lib VKernel.Net

/-! ### The loop -/

theorem toNat_addWord {sum : UInt32} (hsum : sum.toNat ≤ 65535) (word : UInt16) :
    (addWord sum word).toNat = carryAdd 65535 sum.toNat word.toNat := by
  have hword := word.toNat_lt
  have hadd : (sum + word.toUInt32).toNat = sum.toNat + word.toNat := by
    rw [UInt32.toNat_add, UInt16.toNat_toUInt32, Nat.mod_eq_of_lt (by omega)]
  have htest : sum + word.toUInt32 > 0xFFFF ↔ ¬ sum.toNat + word.toNat ≤ 65535 := by
    rw [gt_iff_lt, UInt32.lt_iff_toNat_lt, hadd]
    exact not_le.symm
  rw [addWord, carryAdd]
  by_cases hcarry : sum.toNat + word.toNat ≤ 65535
  · rw [if_pos hcarry, if_neg (by rw [htest]; exact not_not.mpr hcarry), hadd]
  · have hlow : ((sum + word.toUInt32) &&& 0xFFFF).toNat = (sum.toNat + word.toNat) % 2 ^ 16 := by
      rw [UInt32.toNat_and, hadd]
      exact Nat.and_two_pow_sub_one_eq_mod _ 16
    rw [if_neg hcarry, if_pos (htest.mpr hcarry), UInt32.toNat_add, hlow]
    show ((sum.toNat + word.toNat) % 2 ^ 16 + 1) % 2 ^ 32 = _
    omega

theorem carryAdd_le {x y : Nat} (hx : x ≤ 65535) (hy : y ≤ 65535) : carryAdd 65535 x y ≤ 65535 := by
  rw [carryAdd_eq hx hy]
  exact carryFold_le (by omega) _

/-- The loop adds up the words of the rest. -/
theorem toNat_checksumFrom {sum : UInt32} (hsum : sum.toNat ≤ 65535) (bytes : List UInt8) :
    (checksumFrom sum bytes).toNat = (bigEndianWords bytes).foldl (carryAdd 65535) sum.toNat := by
  induction bytes using bigEndianWords.induct generalizing sum with
  | case1 => rfl
  | case2 a =>
    have hword : (a.toUInt16 <<< 8).toNat = a.toNat * 256 := by
      have hzero : (0 : UInt8).toUInt16 ||| (a.toUInt16 <<< 8) = a.toUInt16 <<< 8 :=
        UInt16.zero_or
      rw [← hzero, toNat_load16]
      exact Nat.add_zero _
    rw [checksumFrom, toNat_addWord hsum, hword]
    rfl
  | case3 a b rest ih =>
    have hword : ((a.toUInt16 <<< 8) ||| b.toUInt16).toNat = a.toNat * 256 + b.toNat := by
      rw [UInt16.or_comm, toNat_load16]
    rw [checksumFrom, bigEndianWords, List.foldl_cons, ← hword, ← toNat_addWord hsum]
    refine ih ?_
    rw [toNat_addWord hsum]
    exact carryAdd_le hsum (Nat.le_of_lt_succ (UInt16.toNat_lt _))

/-- The checksum is the complement of the sum of the words. -/
theorem toNat_internetChecksum (bytes : List UInt8) :
    (internetChecksum bytes).toNat = 65535 - carrySum 65535 (bigEndianWords bytes) := by
  have hsum : (checksumFrom 0 bytes).toNat = carrySum 65535 (bigEndianWords bytes) :=
    toNat_checksumFrom (Nat.zero_le _) bytes
  have hle := carrySum_le (by omega : 0 < 65535) (le_of_mem_bigEndianWords bytes)
  have hsize : UInt32.size = 65536 * 65536 := rfl
  rw [internetChecksum, UInt32.toNat_toUInt16, UInt32.toNat_not, hsum, hsize]
  omega

/-! ### Splitting a packet at its checksum field -/

/-- Behind an even offset the words do not depend on what is in front. -/
theorem bigEndianWords_append {front : List UInt8} (heven : front.length % 2 = 0)
    (rest : List UInt8) :
    bigEndianWords (front ++ rest) = bigEndianWords front ++ bigEndianWords rest := by
  induction front using bigEndianWords.induct with
  | case1 => rfl
  | case2 a => cases heven
  | case3 a b tail ih =>
    rw [List.length_cons, List.length_cons] at heven
    rw [List.cons_append, List.cons_append, bigEndianWords, bigEndianWords, ih (by omega)]
    rfl

theorem bigEndianWords_store16 (value : UInt16) (rest : List UInt8) :
    bigEndianWords (store16 (bswap16 value) ++ rest) = value.toNat :: bigEndianWords rest := by
  have hswap := toNat_bswap16 (bswap16 value)
  have hlt := (bswap16 value).toNat_lt
  have hshift : UInt16.toNat 8 % 16 = 8 := rfl
  have hhigh : (bswap16 value >>> 8).toNat = (bswap16 value).toNat / 256 := by
    rw [UInt16.toNat_shiftRight, hshift, Nat.shiftRight_eq_div_pow]
  -- In memory the swapped value has its high byte first.
  have hword : (bswap16 value).toUInt8.toNat * 256 + (bswap16 value >>> 8).toUInt8.toNat =
      value.toNat := by
    rw [UInt16.toNat_toUInt8, UInt16.toNat_toUInt8, hhigh]
    rw [bswap16_bswap16] at hswap
    omega
  rw [← hword]
  rfl

/-- The number that the words of a packet sum up to, with the word of the field apart. -/
theorem carrySum_field {front rest : List UInt8} (heven : front.length % 2 = 0) (value : UInt16) :
    carrySum 65535 (bigEndianWords (front ++ store16 (bswap16 value) ++ rest)) =
      carryFold 65535
        ((bigEndianWords front).sum + (bigEndianWords rest).sum + value.toNat) := by
  rw [carrySum_eq (by omega) (le_of_mem_bigEndianWords _), List.append_assoc,
    bigEndianWords_append heven, bigEndianWords_store16, List.sum_append, List.sum_cons]
  congr 1
  omega

/-- A packet whose checksum was put into the cleared field has the checksum 0. -/
theorem internetChecksum_insert {front rest : List UInt8} (heven : front.length % 2 = 0) :
    internetChecksum (front ++ store16 (bswap16 (internetChecksum (front ++ [0, 0] ++ rest))) ++
      rest) = 0 := by
  have hcleared : carrySum 65535 (bigEndianWords (front ++ [0, 0] ++ rest)) =
      carryFold 65535 ((bigEndianWords front).sum + (bigEndianWords rest).sum) :=
    carrySum_field heven 0
  rw [← UInt16.toNat_inj, toNat_internetChecksum, carrySum_field heven, toNat_internetChecksum,
    hcleared, carryFold_add_complement (by omega)]
  rfl

/-! ### The test of `observe_frame` -/

/-- The two bytes of a loaded value are stored back. -/
theorem store16_load16 (hi lo : UInt8) :
    store16 (lo.toUInt16 ||| (hi.toUInt16 <<< 8)) = [lo, hi] := by
  have hlo := lo.toNat_lt
  have hhi := hi.toNat_lt
  have hshift : UInt16.toNat 8 % 16 = 8 := rfl
  have hvalue := toNat_load16 hi lo
  have hlow : (lo.toUInt16 ||| (hi.toUInt16 <<< 8)).toUInt8 = lo := by
    rw [← UInt8.toNat_inj, UInt16.toNat_toUInt8, hvalue]
    omega
  have hhigh : ((lo.toUInt16 ||| (hi.toUInt16 <<< 8)) >>> 8).toUInt8 = hi := by
    rw [← UInt8.toNat_inj, UInt16.toNat_toUInt8, UInt16.toNat_shiftRight, hshift, hvalue,
      Nat.shiftRight_eq_div_pow]
    omega
  rw [store16, hlow, hhigh]

theorem byteAt_getElem {bytes : List UInt8} {i : Nat} (hi : i < bytes.length) :
    byteAt bytes i = bytes[i] := by
  rw [byteAt, List.getD_eq_getElem?_getD, List.getElem?_eq_getElem hi]
  rfl

/-- A header taken apart at its checksum field. -/
theorem header_split {header : List UInt8} (hlength : IPV4_HEADER_BYTES ≤ header.length) :
    header = header.take 10 ++ store16 (bswap16 (checksumField header)) ++ header.drop 12 ∧
      clearChecksum header = header.take 10 ++ [0, 0] ++ header.drop 12 := by
  have hbytes : IPV4_HEADER_BYTES = 20 := rfl
  rw [hbytes] at hlength
  have hfront : (header.take 10).length = 10 := by
    rw [List.length_take]
    omega
  have hcut : header = header.take 10 ++ [header[10], header[11]] ++ header.drop 12 := by
    rw [List.append_assoc, List.cons_append, List.singleton_append,
      ← List.drop_eq_getElem_cons (by omega : 11 < header.length),
      ← List.drop_eq_getElem_cons (by omega : 10 < header.length), List.take_append_drop]
  constructor
  · have hfield : store16 (bswap16 (checksumField header)) = [header[10], header[11]] := by
      rw [checksumField, bswap16_bswap16, load16, byteAt_getElem, byteAt_getElem, store16_load16]
    rw [hfield]
    exact hcut
  · -- The two assignments hit the two bytes behind the front.
    have hset : ∀ a b : UInt8, ∀ rest,
        clearChecksum (header.take 10 ++ [a, b] ++ rest) = header.take 10 ++ [0, 0] ++ rest := by
      intro a b rest
      rw [clearChecksum, List.append_assoc, List.set_append_right _ _ (by omega),
        List.set_append_right _ _ (by omega), hfront, List.append_assoc]
      rfl
    have hclear := hset header[10] header[11] (header.drop 12)
    rwa [← hcut] at hclear

/-- Cleared and compared, or summed up as it is: what both tests say about a header. -/
theorem checksum_tests {header : List UInt8} (hlength : IPV4_HEADER_BYTES ≤ header.length) :
    ((internetChecksum (clearChecksum header) = checksumField header ↔
      internetChecksum header = 0) ↔
    ¬ (checksumField header = 0xFFFF ∧
      carrySum 0xFFFF (bigEndianWords (clearChecksum header)) = 0xFFFF)) := by
  obtain ⟨hheader, hclear⟩ := header_split hlength
  have heven : (header.take 10).length % 2 = 0 := by
    have hbytes : IPV4_HEADER_BYTES = 20 := rfl
    rw [List.length_take]
    omega
  have hfield := (checksumField header).toNat_lt
  have hcleared : carrySum 65535 (bigEndianWords (clearChecksum header)) =
      carryFold 65535
        ((bigEndianWords (header.take 10)).sum + (bigEndianWords (header.drop 12)).sum) := by
    rw [hclear]
    exact carrySum_field heven 0
  -- The sum over the header as it is adds the field to the sum of the cleared header.
  have hwhole : carrySum 65535 (bigEndianWords header) =
      carryAdd 65535 (carrySum 65535 (bigEndianWords (clearChecksum header)))
        (checksumField header).toNat := by
    rw [hcleared, carryAdd_eq (carryFold_le (by omega) _) (by omega), carryFold_add,
      ← carrySum_field heven, ← hheader]
  have hle := carrySum_le (by omega : 0 < 65535) (le_of_mem_bigEndianWords (clearChecksum header))
  have hle' := carrySum_le (by omega : 0 < 65535) (le_of_mem_bigEndianWords header)
  have htop := carryAdd_eq_top_iff hle (by omega : (checksumField header).toNat ≤ 65535)
  have hzero : (0 : UInt16).toNat = 0 := rfl
  have hones : (0xFFFF : UInt16).toNat = 65535 := rfl
  rw [← UInt16.toNat_inj, ← UInt16.toNat_inj, ← UInt16.toNat_inj, toNat_internetChecksum,
    toNat_internetChecksum, hzero, hones]
  rw [← hwhole] at htop
  omega

theorem byteAt_receivedHeader {frame : List UInt8} {i : Nat}
    (hi : i < (byteAt frame ETHERNET_HEADER_BYTES &&& 0x0F).toNat * 4) :
    byteAt (receivedHeader frame) i = byteAt frame (ETHERNET_HEADER_BYTES + i) := by
  rw [byteAt, byteAt, receivedHeader, List.getD_eq_getElem?_getD, List.getD_eq_getElem?_getD,
    List.getElem?_take, if_pos hi, List.getElem?_drop]

/-- A chain of tests that does not end in the first branch. -/
theorem not_of_ite_ne {α : Type} {p : Prop} [Decidable p] {a b : α}
    (h : (if p then a else b) ≠ a) : ¬ p ∧ b ≠ a := by
  by_cases hp : p
  · exact absurd (if_pos hp) h
  · rw [if_neg hp] at h
    exact ⟨hp, h⟩

/-- A frame that gets as far as the checksum test has the whole header. -/
theorem observeFrame_test {s : Ipv4State} {devId : Nat} {frame : List UInt8}
    (h : observeFrame s devId frame ≠ .ignored) :
    IPV4_HEADER_BYTES ≤ (receivedHeader frame).length ∧
      ((∃ packet handled, observeFrame s devId frame = .accepted packet handled) ↔
        internetChecksum (clearChecksum (receivedHeader frame)) =
          checksumField (receivedHeader frame)) := by
  rw [observeFrame] at h ⊢
  obtain ⟨hshort, h⟩ := not_of_ite_ne h
  obtain ⟨htype, h⟩ := not_of_ite_ne h
  obtain ⟨hversion, h⟩ := not_of_ite_ne h
  obtain ⟨hmax, h⟩ := not_of_ite_ne h
  obtain ⟨hlengths, h⟩ := not_of_ite_ne h
  obtain ⟨hown, -⟩ := not_of_ite_ne h
  rw [if_neg hshort, if_neg htype, if_neg hversion, if_neg hmax, if_neg hlengths, if_neg hown]
  have hbytes : IPV4_HEADER_BYTES = 20 := rfl
  have hwords : 5 ≤ (byteAt frame ETHERNET_HEADER_BYTES &&& 0x0F).toNat :=
    UInt8.le_iff_toNat_le.mp (UInt8.not_lt.mp (not_or.mp hversion).2)
  have hfield : checksumField (receivedHeader frame) =
      bswap16 (ipv4HeaderAt frame ETHERNET_HEADER_BYTES).headerChecksumBe := by
    show checksumField (receivedHeader frame) =
      bswap16 (load16 frame (ETHERNET_HEADER_BYTES + 10))
    rw [checksumField, load16, load16, byteAt_receivedHeader (by omega),
      byteAt_receivedHeader (by omega)]
  constructor
  · rw [receivedHeader, List.length_take, List.length_drop]
    omega
  · rw [hfield]
    split
    · rename_i hsum
      refine ⟨?_, fun heq => absurd heq hsum⟩
      rintro ⟨_, _, heq⟩
      cases heq
    · rename_i hsum
      exact ⟨fun _ => not_not.mp hsum, fun _ => ⟨_, _, rfl⟩⟩

/-- The checksum is the complement of the one's-complement sum of the big-endian words; put into
the cleared field it makes the checksum of the packet 0; and `observe_frame` takes a header for
intact exactly if the checksum over the header as received is 0, if and only if the field and the
sum of the other words are not both 0xFFFF. -/
theorem internet_checksum_exact (s : Ipv4State) (devId : Nat) :
    (∀ bytes, (internetChecksum bytes).toNat =
      0xFFFF - carrySum 0xFFFF (bigEndianWords bytes)) ∧
    (∀ front rest, front.length % 2 = 0 →
      internetChecksum (front ++
        store16 (bswap16 (internetChecksum (front ++ [0, 0] ++ rest))) ++ rest) = 0) ∧
    ∀ frame, observeFrame s devId frame ≠ .ignored →
      (((∃ packet handled, observeFrame s devId frame = .accepted packet handled) ↔
        internetChecksum (receivedHeader frame) = 0) ↔
      ¬ (checksumField (receivedHeader frame) = 0xFFFF ∧
        carrySum 0xFFFF (bigEndianWords (clearChecksum (receivedHeader frame))) = 0xFFFF)) := by
  refine ⟨toNat_internetChecksum, fun front rest heven => internetChecksum_insert heven, ?_⟩
  intro frame h
  obtain ⟨hlength, haccepted⟩ := observeFrame_test h
  rw [haccepted]
  exact checksum_tests hlength

/-- A header from 10.0.0.1 to 10.0.0.2 with the field 0xFFFF, whose other words sum up to
0xFFFF. -/
def twoZerosFrame : List UInt8 :=
  List.replicate 12 0 ++ [0x08, 0x00] ++
    [0x45, 0x00, 0x00, 0x14, 0x66, 0xE7, 0x00, 0x00, 0x40, 0x01, 0xFF, 0xFF,
     10, 0, 0, 1, 10, 0, 0, 2]

/-- The checksum over the header is 0, and the frame is dropped for its checksum. -/
theorem observeFrame_twoZeros :
    ∃ s, Ipv4State.initial.configureDevice 0 (makeIpv4 10 0 0 2) = some s ∧
      internetChecksum (receivedHeader twoZerosFrame) = 0 ∧
      observeFrame s 0 twoZerosFrame = .badChecksum :=
  ⟨⟨1, ⟨0, true, makeIpv4 10 0 0 2⟩ :: List.replicate 7 ⟨0, false, zeroIpv4⟩⟩, by
    decide⟩

end VKernel.Proofs.Net

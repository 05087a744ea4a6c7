import VKernel.Input.Readers

/-!
# `VKernel.Proofs.Input.Readers`: when the readers of the keyboard agree

`runReads_keys` reduces a run to its labels: each keyboard byte goes to one of the two readers, and
the state at the end is the fold of `Reader.step`. `steps_eq` leaves the prefix bytes out, so what
remains is a list of codes with readers. On such a list each modifier is looked at alone. The fold
of Ctrl, for one, is what the last of its codes with `ps2_try_read_raw` says.

The readers agree on a sequence if all labellings end alike. For one direction of
`reader_independence_iff` it is enough to compare the labelling that gives everything to
`ps2_try_read` with those that give one code to the other reader.
-/

set_option autoImplicit false

namespace VKernel.Input

open VKernel.Lib

/-! ### One byte -/

namespace Reader

/-- The keyboard state behind a code. Both readers see plain codes of Shift and Caps Lock, and only
`ps2_try_read_raw` sees the rest. -/
def afterCode (r : Reader) (k : KeyState) (c : KeyCode) : KeyState where
  shift := if c.isShift && (r == .tryReadRaw || !c.extended) then c.pressed else k.shift
  caps := if c.isCaps && c.pressed && (r == .tryReadRaw || !c.extended) then !k.caps else k.caps
  ext := false
  ctrl := if c.isCtrl && r == .tryReadRaw then c.pressed else k.ctrl
  alt := if c.isAlt && r == .tryReadRaw then c.pressed else k.alt

/-- The prefix byte sets a flag. -/
theorem step_e0 (r : Reader) (k : KeyState) : r.step k 0xE0 = { k with ext := true } := by
  cases r <;> rfl

/-- A byte without bit 7 is its own make code. -/
theorem and_7f_of_pressed {b : UInt8} (h : b &&& 0x80 = 0) : b &&& 0x7F = b := by
  have hbits : b.toNat &&& 0x80 = 0 := by simpa using congrArg UInt8.toNat h
  -- Bit 7 is clear, so the byte is below 2 ^ 7.
  have hlt : b.toNat < 2 ^ 7 := by
    by_contra hge
    have htest := Nat.testBit_of_two_pow_le_and_two_pow_add_one_gt (by omega) b.toNat_lt
    have hzero := congrArg (Nat.testBit · 7) hbits
    simp only [Nat.testBit_and, htest, Bool.true_and, Nat.zero_testBit] at hzero
    exact absurd hzero (by decide)
  refine UInt8.toNat_inj.mp ?_
  show b.toNat &&& (2 ^ 7 - 1) = b.toNat
  rw [Nat.and_two_pow_sub_one_eq_mod, Nat.mod_eq_of_lt hlt]

/-- Any other byte is a code. -/
theorem step_code (r : Reader) (k : KeyState) {b : UInt8} (hb : b ≠ 0xE0) :
    r.step k b = r.afterCode k ⟨k.ext, b⟩ := by
  cases r with
  | tryReadRaw =>
    have hsteps : (k.readRaw b).1
        = KeyState.track { k with ext := false } (b &&& 0x7F) (b &&& 0x80 ≠ 0) := by
      rw [KeyState.readRaw, if_neg hb]
    show (k.readRaw b).1 = _
    rw [hsteps]
    simp only [KeyState.track, afterCode, KeyCode.isShift, KeyCode.isCaps, KeyCode.isCtrl,
      KeyCode.isAlt, KeyCode.make, KeyCode.pressed]
    -- The make code is at most one of the four keys.
    by_cases hshift : b &&& 0x7F = 0x2A ∨ b &&& 0x7F = 0x36
    · rcases hshift with h | h <;> simp [h]
    · by_cases hctrl : b &&& 0x7F = 0x1D
      · simp [hctrl]
      · by_cases halt : b &&& 0x7F = 0x38
        · simp [halt]
        · by_cases hcaps : b &&& 0x7F = 0x3A
          · by_cases hpressed : b &&& 0x80 = 0 <;> simp [hcaps, hpressed]
          · simp_all
  | tryRead =>
    show (k.read b).1 = _
    simp only [KeyState.read, if_neg hb, afterCode, KeyCode.isShift, KeyCode.isCaps,
      KeyCode.make, KeyCode.pressed]
    by_cases hext : k.ext = true
    · simp [hext]
    · by_cases hpressed : b &&& 0x80 = 0
      · -- A make code is compared as it is, without the mask.
        simp only [and_7f_of_pressed hpressed, hpressed, ne_eq, not_true_eq_false, if_false,
          hext, Bool.false_eq_true]
        by_cases hshift : b = 0x2A ∨ b = 0x36
        · rcases hshift with h | h <;> simp [h]
        · by_cases hcaps : b = 0x3A
          · simp [hcaps]
          · rw [if_neg hshift, if_neg hcaps]
            simp only [not_or] at hshift
            split
            · simp [hshift, hcaps]
            · split
              · simp [hshift, hcaps]
              · split <;> simp [hshift, hcaps]
      · by_cases hshift : b &&& 0x7F = 0x2A ∨ b &&& 0x7F = 0x36
        · rcases hshift with h | h <;> simp [hext, h, hpressed]
        · simp_all

end Reader

/-! ### Bytes with readers -/

/-- The keyboard state behind bytes that go to different readers. -/
def steps (k : KeyState) (l : List (Reader × UInt8)) : KeyState :=
  l.foldl (fun k x => x.1.step k x.2) k

section
variable {Q : Type → Nat → Type} [DroppingQueue Q]

/-- Mouse bytes leave the keys alone. -/
theorem keys_ps2PumpMouseByte (s : Ps2 Q) (byte : UInt8) :
    (ps2PumpMouseByte s byte).keys = s.keys := by
  unfold ps2PumpMouseByte
  split <;> rfl

/-- A call takes a front part of the port and gives its keyboard bytes to its reader. -/
theorem drainPort_keys {ρ : Type} {body : KeyState → UInt8 → KeyState × Option ρ} {r : Reader}
    (hbody : ∀ k sc, (body k sc).1 = r.step k sc) (s : Ps2 Q) (port : List PortEntry) :
    ∃ taken, port = taken ++ (drainPort body s port).2.port ∧
      (drainPort body s port).2.keys
        = steps s.keys ((keyboardBytes taken).map fun b => (r, b)) := by
  induction port generalizing s with
  | nil => exact ⟨[], rfl, rfl⟩
  | cons e port ih =>
    unfold drainPort
    by_cases haux : e.aux = true
    · rw [if_pos haux]
      obtain ⟨taken, hport, hkeys⟩ := ih (ps2PumpMouseByte s e.data)
      refine ⟨e :: taken, congrArg (e :: ·) hport, ?_⟩
      rw [hkeys, keys_ps2PumpMouseByte]
      simp [keyboardBytes, haux]
    · rw [if_neg haux]
      -- The byte is the first one for this reader, whether it returns or not.
      have hfirst : ∀ taken, steps s.keys ((keyboardBytes (e :: taken)).map fun b => (r, b))
          = steps (body s.keys e.data).1 ((keyboardBytes taken).map fun b => (r, b)) := by
        intro taken
        simp [keyboardBytes, haux, steps, hbody]
      rcases hread : body s.keys e.data with ⟨k, _ | out⟩
      · obtain ⟨taken, hport, hkeys⟩ := ih { s with keys := k }
        refine ⟨e :: taken, congrArg (e :: ·) hport, ?_⟩
        rw [hfirst, hread]
        exact hkeys
      · refine ⟨[e], rfl, ?_⟩
        rw [hfirst, hread]
        rfl

/-- What a call returns depends on the keyboard state and on the port. -/
theorem drainPort_result {ρ : Type} (body : KeyState → UInt8 → KeyState × Option ρ)
    {s₁ s₂ : Ps2 Q} (h : s₁.keys = s₂.keys) (port : List PortEntry) :
    (drainPort body s₁ port).1 = (drainPort body s₂ port).1 := by
  induction port generalizing s₁ s₂ with
  | nil => rfl
  | cons e port ih =>
    unfold drainPort
    by_cases haux : e.aux = true
    · rw [if_pos haux, if_pos haux]
      exact ih (by rw [keys_ps2PumpMouseByte, keys_ps2PumpMouseByte, h])
    · rw [if_neg haux, if_neg haux, h]
      rcases body s₂.keys e.data with ⟨k, _ | out⟩
      · exact ih rfl
      · rfl

/-- The keyboard bytes of two parts. -/
theorem keyboardBytes_append (p₁ p₂ : List PortEntry) :
    keyboardBytes (p₁ ++ p₂) = keyboardBytes p₁ ++ keyboardBytes p₂ := by
  simp [keyboardBytes]

/-- A call takes keyboard bytes from the front, each for its reader. -/
theorem ReadCall.run_keys (s : Ps2 Q) (c : ReadCall) :
    ∃ taken, s.port ++ c.arrived = taken ++ (c.run s).port ∧
      (c.run s).keys = steps s.keys ((keyboardBytes taken).map fun b => (c.reader, b)) := by
  rcases c with ⟨arrived, _ | _⟩
  · exact drainPort_keys (r := .tryRead) (fun _ _ => rfl)
      { s with port := s.port ++ arrived } (s.port ++ arrived)
  · exact drainPort_keys (r := .tryReadRaw) (fun _ _ => rfl)
      { s with port := s.port ++ arrived } (s.port ++ arrived)

/-- A run gives each keyboard byte that it reads to one of the readers, in order. -/
theorem runReads_keys (s : Ps2 Q) (calls : List ReadCall) :
    ∃ l : List (Reader × UInt8),
      keyboardBytes (s.port ++ arrivals calls)
        = l.map Prod.snd ++ keyboardBytes (runReads s calls).port ∧
      (runReads s calls).keys = steps s.keys l := by
  induction calls generalizing s with
  | nil => exact ⟨[], by simp [arrivals, runReads], rfl⟩
  | cons c calls ih =>
    obtain ⟨taken, hport, hkeys⟩ := ReadCall.run_keys s c
    obtain ⟨l, hbytes, hrest⟩ := ih (c.run s)
    refine ⟨(keyboardBytes taken).map (fun b => (c.reader, b)) ++ l, ?_, ?_⟩
    · show keyboardBytes (s.port ++ (c.arrived ++ arrivals calls)) = _
      rw [← List.append_assoc, hport, List.append_assoc, keyboardBytes_append, hbytes]
      simp [runReads, Function.comp_def]
    · show (runReads (c.run s) calls).keys = _
      rw [hrest, hkeys]
      exact (List.foldl_append ..).symm

/-- The calls that read one byte each. -/
def singleReads (l : List (Reader × UInt8)) : List ReadCall :=
  l.map fun x => ⟨[⟨false, x.2⟩], x.1⟩

/-- The bytes of one call for each of them. -/
theorem keyboardBytes_singleReads (l : List (Reader × UInt8)) :
    keyboardBytes (arrivals (singleReads l)) = l.map Prod.snd := by
  induction l with
  | nil => rfl
  | cons x l ih =>
    show keyboardBytes ([⟨false, x.2⟩] ++ arrivals (singleReads l)) = _
    rw [keyboardBytes_append, ih]
    rfl

/-- Every way to give the bytes to the readers is a run. -/
theorem runReads_singleReads (l : List (Reader × UInt8)) {s : Ps2 Q} (hport : s.port = []) :
    (runReads s (singleReads l)).port = [] ∧
      (runReads s (singleReads l)).keys = steps s.keys l := by
  induction l generalizing s with
  | nil => exact ⟨hport, rfl⟩
  | cons x l ih =>
    -- The port is empty behind the byte: nothing is left to drain.
    have hcall : (ReadCall.run s ⟨[⟨false, x.2⟩], x.1⟩).port = [] ∧
        (ReadCall.run s ⟨[⟨false, x.2⟩], x.1⟩).keys = x.1.step s.keys x.2 := by
      rcases x with ⟨_ | _, b⟩
      · simp only [ReadCall.run, ps2TryRead, hport, List.nil_append, drainPort,
          Bool.false_eq_true, if_false, Reader.step]
        rcases s.keys.read b with ⟨k, _ | out⟩ <;> exact ⟨rfl, rfl⟩
      · simp only [ReadCall.run, ps2TryReadRaw, hport, List.nil_append, drainPort,
          Bool.false_eq_true, if_false, Reader.step]
        rcases s.keys.readRaw b with ⟨k, _ | out⟩ <;> exact ⟨rfl, rfl⟩
    have hrest := ih hcall.1
    rw [hcall.2] at hrest
    exact hrest

end

/-! ### Codes with readers -/

/-- `codes`, with the readers kept. -/
def labelledCodes : Bool → List (Reader × UInt8) → List (Reader × KeyCode)
  | _, [] => []
  | ext, x :: l =>
    if x.2 = 0xE0 then labelledCodes true l else (x.1, ⟨ext, x.2⟩) :: labelledCodes false l

/-- Whether the prefix is the last byte. -/
def prefixAfter (ext : Bool) (bytes : List UInt8) : Bool := bytes.foldl (fun _ b => b = 0xE0) ext

/-- Labels do not change the codes. -/
theorem map_snd_labelledCodes (ext : Bool) (l : List (Reader × UInt8)) :
    (labelledCodes ext l).map Prod.snd = codes ext (l.map Prod.snd) := by
  induction l generalizing ext with
  | nil => rfl
  | cons x l ih =>
    rw [List.map_cons, labelledCodes, codes]
    split
    · exact ih true
    · rw [List.map_cons, ih false]

/-- Every way to give the codes to the readers comes from one to give them the bytes. -/
theorem exists_labelledCodes (bytes : List UInt8) (ext : Bool) (lc : List (Reader × KeyCode))
    (h : lc.map Prod.snd = codes ext bytes) :
    ∃ l : List (Reader × UInt8), l.map Prod.snd = bytes ∧ labelledCodes ext l = lc := by
  induction bytes generalizing ext lc with
  | nil =>
    rw [codes, List.map_eq_nil_iff] at h
    exact ⟨[], rfl, h.symm⟩
  | cons b bytes ih =>
    rw [codes] at h
    by_cases hb : b = 0xE0
    · rw [if_pos hb] at h
      obtain ⟨l, hl, hlc⟩ := ih true lc h
      -- Who gets the prefix does not matter.
      refine ⟨(.tryRead, b) :: l, by rw [List.map_cons, hl], ?_⟩
      rw [labelledCodes, if_pos hb, hlc]
    · rw [if_neg hb] at h
      obtain ⟨x, rest, rfl, hx, hrest⟩ := List.map_eq_cons_iff.mp h
      obtain ⟨l, hl, hlc⟩ := ih false rest hrest
      refine ⟨(x.1, b) :: l, by rw [List.map_cons, hl], ?_⟩
      rw [labelledCodes, if_neg hb, hlc, ← hx]

/-- A modifier behind codes: it is what the last code that `sets` it says. -/
def lastSet (sets : Reader × KeyCode → Bool) (v : Bool) (l : List (Reader × KeyCode)) : Bool :=
  l.foldl (fun v x => if sets x then x.2.pressed else v) v

def setsShift (x : Reader × KeyCode) : Bool :=
  x.2.isShift && (x.1 == .tryReadRaw || !x.2.extended)

def setsCtrl (x : Reader × KeyCode) : Bool := x.2.isCtrl && x.1 == .tryReadRaw

def setsAlt (x : Reader × KeyCode) : Bool := x.2.isAlt && x.1 == .tryReadRaw

def togglesCaps (x : Reader × KeyCode) : Bool :=
  x.2.isCaps && x.2.pressed && (x.1 == .tryReadRaw || !x.2.extended)

/-- Caps Lock behind codes. -/
def capsAfter (v : Bool) (l : List (Reader × KeyCode)) : Bool :=
  l.foldl (fun v x => if togglesCaps x then !v else v) v

/-- Behind a list of bytes each modifier is a fold over the codes. -/
theorem steps_eq (k : KeyState) (l : List (Reader × UInt8)) :
    steps k l =
      { shift := lastSet setsShift k.shift (labelledCodes k.ext l)
        caps := capsAfter k.caps (labelledCodes k.ext l)
        ext := prefixAfter k.ext (l.map Prod.snd)
        ctrl := lastSet setsCtrl k.ctrl (labelledCodes k.ext l)
        alt := lastSet setsAlt k.alt (labelledCodes k.ext l) } := by
  induction l generalizing k with
  | nil => rfl
  | cons x l ih =>
    show steps (x.1.step k x.2) l = _
    rw [ih, labelledCodes]
    by_cases hx : x.2 = 0xE0
    · rw [if_pos hx, hx, Reader.step_e0]
      simp [prefixAfter, hx]
    · rw [if_neg hx, Reader.step_code x.1 k hx]
      simp [Reader.afterCode, lastSet, capsAfter, prefixAfter, setsShift, setsCtrl, setsAlt,
        togglesCaps, hx]

/-- A modifier after two parts. -/
theorem lastSet_append (sets : Reader × KeyCode → Bool) (v : Bool)
    (l₁ l₂ : List (Reader × KeyCode)) :
    lastSet sets v (l₁ ++ l₂) = lastSet sets (lastSet sets v l₁) l₂ := List.foldl_append ..

/-- Codes that set a modifier to what it is. -/
theorem lastSet_of_forall {sets : Reader × KeyCode → Bool} {v : Bool}
    {l : List (Reader × KeyCode)} (h : ∀ x ∈ l, sets x → x.2.pressed = v) :
    lastSet sets v l = v := by
  induction l with
  | nil => rfl
  | cons x l ih =>
    have hx : (if sets x then x.2.pressed else v) = v := by
      split
      · exact h x List.mem_cons_self (by assumption)
      · rfl
    show lastSet sets (if sets x then x.2.pressed else v) l = v
    rw [hx]
    exact ih fun y hy => h y (List.mem_cons_of_mem _ hy)

/-- Caps Lock after two parts. -/
theorem capsAfter_append (v : Bool) (l₁ l₂ : List (Reader × KeyCode)) :
    capsAfter v (l₁ ++ l₂) = capsAfter (capsAfter v l₁) l₂ := List.foldl_append ..

/-- Caps Lock toggles from any state. -/
theorem capsAfter_not (v : Bool) (l : List (Reader × KeyCode)) :
    capsAfter (!v) l = !capsAfter v l := by
  induction l generalizing v with
  | nil => rfl
  | cons x l ih =>
    show capsAfter (if togglesCaps x then !!v else !v) l
      = !capsAfter (if togglesCaps x then !v else v) l
    split <;> exact ih _

/-! ### The condition is enough -/

/-- A plain code of Shift forgets what was there in front of it. -/
theorem plainShift_congr (v w : Bool) {cs : List KeyCode}
    (h : ∃ d ∈ cs, d.isShift = true ∧ d.extended = false) : plainShift v cs = plainShift w cs := by
  induction cs generalizing v w with
  | nil =>
    obtain ⟨d, hd, -⟩ := h
    cases hd
  | cons c cs ih =>
    show plainShift (if c.isShift && !c.extended then c.pressed else v) cs
      = plainShift (if c.isShift && !c.extended then c.pressed else w) cs
    by_cases hc : (c.isShift && !c.extended) = true
    · rw [if_pos hc, if_pos hc]
    · rw [if_neg hc, if_neg hc]
      refine ih v w ?_
      obtain ⟨d, hd, hdShift, hdPlain⟩ := h
      rcases List.mem_cons.mp hd with rfl | hd
      · exact absurd (by simp [hdShift, hdPlain]) hc
      · exact ⟨d, hd, hdShift, hdPlain⟩

/-- Shift does not depend on the readers where each extended code leaves it as it is or is
followed by a plain one. -/
theorem lastSet_setsShift {v : Bool} {l : List (Reader × KeyCode)}
    (h : ∀ before c after, l.map Prod.snd = before ++ c :: after → c.isShift → c.extended →
      (∀ d ∈ after, d.isShift → d.extended) → c.pressed = plainShift v before) :
    lastSet setsShift v l = plainShift v (l.map Prod.snd) := by
  induction l generalizing v with
  | nil => rfl
  | cons x l ih =>
    show lastSet setsShift (if setsShift x then x.2.pressed else v) l
      = plainShift (if x.2.isShift && !x.2.extended then x.2.pressed else v) (l.map Prod.snd)
    -- The condition for the rest, with what the plain codes leave in `v` as the start.
    have htail := ih (v := if x.2.isShift && !x.2.extended then x.2.pressed else v) (by
      intro before c after hsplit
      exact h (x.2 :: before) c after (by rw [List.map_cons, hsplit, List.cons_append]))
    by_cases hshift : x.2.isShift = true ∧ x.2.extended = true
    · have hplain : (x.2.isShift && !x.2.extended) = false := by simp [hshift.2]
      rw [hplain] at htail ⊢
      by_cases hlast : ∀ d ∈ l.map Prod.snd, d.isShift → d.extended
      · -- No plain code follows, so the code sets what is there.
        have hsame : x.2.pressed = v := h [] x.2 (l.map Prod.snd) rfl hshift.1 hshift.2 hlast
        rw [hsame, ite_self]
        exact htail
      · -- A plain code follows: it sets shift whatever it was.
        have hother := ih (v := if setsShift x then x.2.pressed else v) (by
          intro before c after hsplit hc hext hafter
          have hv := h (x.2 :: before) c after (by rw [List.map_cons, hsplit, List.cons_append])
            hc hext hafter
          rw [hv]
          show plainShift (if x.2.isShift && !x.2.extended then x.2.pressed else v) before = _
          refine plainShift_congr _ _ ?_
          by_contra hnone
          refine hlast fun d hd hdShift => ?_
          rw [hsplit] at hd
          rcases List.mem_append.mp hd with hd | hd
          · by_contra hdPlain
            exact hnone ⟨d, hd, hdShift, by simpa using hdPlain⟩
          · rcases List.mem_cons.mp hd with rfl | hd
            · exact hext
            · exact hafter d hd hdShift)
        rw [hother]
        refine plainShift_congr _ _ ?_
        simp only [not_forall] at hlast
        obtain ⟨d, hd, hdShift, hdPlain⟩ := hlast
        exact ⟨d, hd, hdShift, by simpa using hdPlain⟩
    · -- A plain code, or no code of Shift: both sides do the same.
      have hsets : setsShift x = (x.2.isShift && !x.2.extended) := by
        unfold setsShift
        cases hs : x.2.isShift <;> cases he : x.2.extended <;> simp_all
      rw [hsets]
      exact htail

/-- Caps Lock behind the plain codes. -/
def plainCaps (caps : Bool) (cs : List KeyCode) : Bool :=
  cs.foldl (fun v c => if c.isCaps && c.pressed && !c.extended then !v else v) caps

/-- Without a prefix, the codes that toggle are the same. -/
theorem capsAfter_eq (v : Bool) {l : List (Reader × KeyCode)}
    (h : ∀ c ∈ l.map Prod.snd, c.isCaps → c.extended → c.pressed = false) :
    capsAfter v l = plainCaps v (l.map Prod.snd) := by
  unfold capsAfter plainCaps
  rw [List.foldl_map]
  refine List.foldl_ext _ _ v fun v x hx => ?_
  have hx' := h x.2 (List.mem_map_of_mem hx)
  unfold togglesCaps
  cases hc : x.2.isCaps <;> cases he : x.2.extended <;> simp_all

/-- Under the condition every labelling leads to one state. -/
theorem steps_of_same {k : KeyState} {l : List (Reader × UInt8)}
    (h : SameForBothReaders k (l.map Prod.snd)) :
    steps k l =
      { shift := plainShift k.shift (codes k.ext (l.map Prod.snd))
        caps := plainCaps k.caps (codes k.ext (l.map Prod.snd))
        ext := prefixAfter k.ext (l.map Prod.snd)
        ctrl := k.ctrl
        alt := k.alt } := by
  have hcodes := map_snd_labelledCodes k.ext l
  have hmem : ∀ x ∈ labelledCodes k.ext l, x.2 ∈ codes k.ext (l.map Prod.snd) :=
    fun x hx => hcodes ▸ List.mem_map_of_mem hx
  have hshift := lastSet_setsShift (v := k.shift) (l := labelledCodes k.ext l)
    (by rw [hcodes]; exact h.shift)
  have hcaps := capsAfter_eq k.caps (l := labelledCodes k.ext l) (by rw [hcodes]; exact h.caps)
  have hctrl : lastSet setsCtrl k.ctrl (labelledCodes k.ext l) = k.ctrl :=
    lastSet_of_forall fun x hx hsets =>
      h.ctrl x.2 (hmem x hx) (Bool.and_eq_true_iff.mp hsets).1
  have halt : lastSet setsAlt k.alt (labelledCodes k.ext l) = k.alt :=
    lastSet_of_forall fun x hx hsets =>
      h.alt x.2 (hmem x hx) (Bool.and_eq_true_iff.mp hsets).1
  rw [steps_eq, hshift, hcaps, hctrl, halt, hcodes]

/-! ### The condition is needed -/

/-- Everything goes to `ps2_try_read`, with one code for `r`. -/
def oneFor (r : Reader) (before : List KeyCode) (c : KeyCode) (after : List KeyCode) :
    List (Reader × KeyCode) :=
  before.map (fun d => (.tryRead, d)) ++ (r, c) :: after.map fun d => (.tryRead, d)

/-- One code for a reader, among the others. -/
theorem map_snd_oneFor (r : Reader) (before : List KeyCode) (c : KeyCode)
    (after : List KeyCode) : (oneFor r before c after).map Prod.snd = before ++ c :: after := by
  simp [oneFor, Function.comp_def]

/-- A modifier behind such a sequence, where `ps2_try_read` sees none of its codes in the parts
around. -/
theorem lastSet_oneFor {sets : Reader × KeyCode → Bool} (v : Bool) (r : Reader)
    {before : List KeyCode} (c : KeyCode) {after : List KeyCode}
    (hafter : ∀ d ∈ after, sets (.tryRead, d) = false) :
    lastSet sets v (oneFor r before c after)
      = if sets (r, c) then c.pressed
        else lastSet sets v (before.map fun d => (.tryRead, d)) := by
  have hrest : ∀ w, lastSet sets w (after.map fun d => (Reader.tryRead, d)) = w := by
    intro w
    refine lastSet_of_forall fun x hx hsets => ?_
    obtain ⟨d, hd, rfl⟩ := List.mem_map.mp hx
    rw [hafter d hd] at hsets
    cases hsets
  rw [oneFor, lastSet_append]
  exact hrest _

/-- If all labellings end alike, the condition holds. -/
theorem same_of_steps {k : KeyState} {bytes : List UInt8}
    (h : ∀ l₁ l₂ : List (Reader × UInt8), l₁.map Prod.snd = bytes → l₂.map Prod.snd = bytes →
      steps k l₁ = steps k l₂) : SameForBothReaders k bytes := by
  -- Whichever reader gets one of the codes, the state at the end is the same.
  have hone : ∀ before c after, codes k.ext bytes = before ++ c :: after →
      lastSet setsShift k.shift (oneFor .tryReadRaw before c after)
          = lastSet setsShift k.shift (oneFor .tryRead before c after) ∧
        capsAfter k.caps (oneFor .tryReadRaw before c after)
          = capsAfter k.caps (oneFor .tryRead before c after) ∧
        lastSet setsCtrl k.ctrl (oneFor .tryReadRaw before c after)
          = lastSet setsCtrl k.ctrl (oneFor .tryRead before c after) ∧
        lastSet setsAlt k.alt (oneFor .tryReadRaw before c after)
          = lastSet setsAlt k.alt (oneFor .tryRead before c after) := by
    intro before c after hsplit
    obtain ⟨l₁, hl₁, hlc₁⟩ := exists_labelledCodes bytes k.ext (oneFor .tryReadRaw before c after)
      (by rw [map_snd_oneFor, hsplit])
    obtain ⟨l₂, hl₂, hlc₂⟩ := exists_labelledCodes bytes k.ext (oneFor .tryRead before c after)
      (by rw [map_snd_oneFor, hsplit])
    have hsteps := h l₁ l₂ hl₁ hl₂
    rw [steps_eq, steps_eq, hlc₁, hlc₂, hl₁, hl₂] at hsteps
    exact ⟨congrArg KeyState.shift hsteps, congrArg KeyState.caps hsteps,
      congrArg KeyState.ctrl hsteps, congrArg KeyState.alt hsteps⟩
  -- `ps2_try_read` sees no code of Ctrl or Alt at all.
  have hctrlNone : ∀ d : KeyCode, setsCtrl (.tryRead, d) = false := by simp [setsCtrl]
  have haltNone : ∀ d : KeyCode, setsAlt (.tryRead, d) = false := by simp [setsAlt]
  refine ⟨fun c hc hctrl => ?_, fun c hc halt => ?_, fun c hc hcaps hext => ?_,
    fun before c after hsplit hshift hext hafter => ?_⟩
  · obtain ⟨before, after, hsplit⟩ := List.append_of_mem hc
    have heq := (hone before c after hsplit).2.2.1
    rw [lastSet_oneFor _ _ _ fun d _ => hctrlNone d, lastSet_oneFor _ _ _ fun d _ => hctrlNone d,
      if_pos (by simp [setsCtrl, hctrl]), hctrlNone, if_neg Bool.false_ne_true] at heq
    rw [heq]
    refine lastSet_of_forall fun x hx hsets => ?_
    obtain ⟨d, -, rfl⟩ := List.mem_map.mp hx
    rw [hctrlNone] at hsets
    cases hsets
  · obtain ⟨before, after, hsplit⟩ := List.append_of_mem hc
    have heq := (hone before c after hsplit).2.2.2
    rw [lastSet_oneFor _ _ _ fun d _ => haltNone d, lastSet_oneFor _ _ _ fun d _ => haltNone d,
      if_pos (by simp [setsAlt, halt]), haltNone, if_neg Bool.false_ne_true] at heq
    rw [heq]
    refine lastSet_of_forall fun x hx hsets => ?_
    obtain ⟨d, -, rfl⟩ := List.mem_map.mp hx
    rw [haltNone] at hsets
    cases hsets
  · -- A toggle that only one of the readers makes stays a difference up to the end.
    obtain ⟨before, after, hsplit⟩ := List.append_of_mem hc
    have heq := (hone before c after hsplit).2.1
    cases hpressed : c.pressed with
    | false => rfl
    | true =>
      have hraw : togglesCaps (.tryReadRaw, c) = true := by simp [togglesCaps, hcaps, hpressed]
      have hread : togglesCaps (.tryRead, c) = false := by simp [togglesCaps, hext]
      rw [oneFor, oneFor, capsAfter_append, capsAfter_append] at heq
      generalize capsAfter k.caps (before.map fun d => (Reader.tryRead, d)) = w at heq
      replace heq : capsAfter (if togglesCaps (.tryReadRaw, c) then !w else w)
            (after.map fun d => (Reader.tryRead, d))
          = capsAfter (if togglesCaps (.tryRead, c) then !w else w)
            (after.map fun d => (Reader.tryRead, d)) := heq
      rw [if_pos hraw, hread, if_neg Bool.false_ne_true, capsAfter_not] at heq
      exact absurd heq (by simp)
  · have heq := (hone before c after hsplit).1
    have hnone : ∀ d ∈ after, setsShift (.tryRead, d) = false := by
      intro d hd
      cases hd' : d.isShift with
      | false => simp [setsShift, hd']
      | true => simp [setsShift, hafter d hd hd']
    rw [lastSet_oneFor _ _ _ hnone, lastSet_oneFor _ _ _ hnone,
      if_pos (by simp [setsShift, hshift]), if_neg (by simp [setsShift, hext])] at heq
    rw [heq]
    unfold lastSet plainShift
    rw [List.foldl_map]
    rfl

/-! ### The readers -/

/-- It does not matter which reader took which byte exactly if the codes of the sequence are the
same for both. -/
theorem reader_independence_iff (k : KeyState) (bytes : List UInt8) :
    ReaderIndependent k bytes ↔ SameForBothReaders k bytes := by
  constructor
  · intro h
    refine same_of_steps fun l₁ l₂ hl₁ hl₂ => ?_
    have hrun₁ := runReads_singleReads l₁ (s := { Ps2.boot with keys := k }) rfl
    have hrun₂ := runReads_singleReads l₂ (s := { Ps2.boot with keys := k }) rfl
    have hsame := (h { Ps2.boot with keys := k } { Ps2.boot with keys := k } rfl rfl rfl rfl
      (singleReads l₁) (singleReads l₂) (by rw [keyboardBytes_singleReads, hl₁])
      (by rw [keyboardBytes_singleReads, hl₂]) hrun₁.1 hrun₂.1).keys
    rwa [hrun₁.2, hrun₂.2] at hsame
  · -- Any reads amount to one labelled list of the bytes that were taken.
    intro h s₁ s₂ hk₁ hk₂ hport₁ hport₂ calls₁ calls₂ hbytes₁ hbytes₂ hend₁ hend₂
    obtain ⟨l₁, hl₁, hsteps₁⟩ := runReads_keys s₁ calls₁
    obtain ⟨l₂, hl₂, hsteps₂⟩ := runReads_keys s₂ calls₂
    rw [hport₁, hend₁, List.nil_append, hbytes₁, show keyboardBytes [] = [] from rfl,
      List.append_nil] at hl₁
    rw [hport₂, hend₂, List.nil_append, hbytes₂, show keyboardBytes [] = [] from rfl,
      List.append_nil] at hl₂
    rw [hk₁] at hsteps₁
    rw [hk₂] at hsteps₂
    have hkeys : (runReads s₁ calls₁).keys = (runReads s₂ calls₂).keys := by
      rw [hsteps₁, hsteps₂, steps_of_same (hl₁ ▸ h), steps_of_same (hl₂ ▸ h), ← hl₁, ← hl₂]
    refine ⟨hkeys, fun port => ?_, fun port => ?_⟩
    · have hchar : (drainPort KeyState.read { runReads s₁ calls₁ with port := port } port).1
          = (drainPort KeyState.read { runReads s₂ calls₂ with port := port } port).1 :=
        drainPort_result KeyState.read (by exact hkeys) port
      exact congrArg (fun c => c.getD 0) hchar
    · show (drainPort KeyState.readRaw { runReads s₁ calls₁ with port := port } port).1
        = (drainPort KeyState.readRaw { runReads s₂ calls₂ with port := port } port).1
      exact drainPort_result KeyState.readRaw (by exact hkeys) port

/-- The code of Ctrl, pressed: `ps2_try_read` forgets it. -/
theorem ctrl_depends_on_reader : ¬ ReaderIndependent KeyState.boot [0x1D] := by
  intro h
  have hsame := (h Ps2.boot Ps2.boot rfl rfl rfl rfl [⟨[⟨false, 0x1D⟩], .tryRead⟩]
    [⟨[⟨false, 0x1D⟩], .tryReadRaw⟩] rfl rfl rfl rfl).keys
  exact absurd hsame (by decide)

end VKernel.Input

import VKernel.Kobj.Rpc

/-!
# `VKernel.Kobj.JsonText`: flat JSON objects as texts

A `JsonObject` is an object whose members are all strings, as a text has it: the decoded keys and
values in order, and the blanks between the tokens. `JsonObject.text` writes it down with the
escapes of `append_json_escaped`.

`ExtractsMember` says what `json_extract_string_buffer` is for. It looks for the key between two
quotes wherever they stand, and `mistakenTexts` are the values it may take for the one it looks
for: a quote can be one that is escaped in a key, and the text between two quotes can be the blanks
and the colon or comma between two strings.
-/

set_option autoImplicit false

namespace VKernel.Kobj

/-- Spaces, tabs and newlines. -/
structure Blanks where
  chars : List UInt8
  blank : ∀ ch ∈ chars, isJsonSpace ch = true
  deriving DecidableEq

/-- A member of an object, with the blanks around its key and its value. -/
structure JsonMember where
  beforeKey : Blanks
  key : CString
  afterKey : Blanks
  beforeValue : Blanks
  value : CString
  afterValue : Blanks
  deriving DecidableEq

/-- An object with the blanks around its braces. `inner` are blanks behind the first one. -/
structure JsonObject where
  before : Blanks
  inner : Blanks
  members : List JsonMember
  after : Blanks
  deriving DecidableEq

/-- The inside of a string. -/
def escaped (s : List UInt8) : List UInt8 := s.flatMap jsonEscape

/-- A string in quotes. -/
def quoted (s : List UInt8) : List UInt8 := quote :: (escaped s ++ [quote])

/-- What stands between a key and its value. -/
def JsonMember.keyGap (m : JsonMember) : List UInt8 :=
  m.afterKey.chars ++ colon :: m.beforeValue.chars

def JsonMember.text (m : JsonMember) : List UInt8 :=
  m.beforeKey.chars ++
    (quoted m.key.chars ++ (m.keyGap ++ (quoted m.value.chars ++ m.afterValue.chars)))

/-- The members with the commas between them, in front of `close`. -/
def membersText (close : List UInt8) : List JsonMember → List UInt8
  | [] => close
  | [m] => m.text ++ close
  | m :: next :: rest => m.text ++ comma :: membersText close (next :: rest)

/-- The text behind the last member. -/
def JsonObject.close (o : JsonObject) : List UInt8 := '}'.toUInt8 :: o.after.chars

def JsonObject.text (o : JsonObject) : List UInt8 :=
  o.before.chars ++ '{'.toUInt8 :: (o.inner.chars ++ membersText o.close o.members)

theorem jsonEscape_noNul {ch : UInt8} (h : ch ≠ 0) : 0 ∉ jsonEscape ch := by
  have hspecial : ∀ esc : UInt8, esc ≠ 0 → (0 : UInt8) ∉ [backslash, esc] := by
    intro esc hesc hmem
    rcases List.mem_cons.mp hmem with h0 | h0
    · exact absurd h0 (by decide)
    · exact hesc (List.mem_singleton.mp h0).symm
  unfold jsonEscape
  split
  · exact hspecial _ (by decide)
  · split
    · exact hspecial _ (by decide)
    · split
      · exact hspecial _ (by decide)
      · split
        · exact hspecial _ (by decide)
        · split
          · exact hspecial _ (by decide)
          · exact fun hmem => h (List.mem_singleton.mp hmem).symm

theorem quoted_noNul (s : CString) : 0 ∉ quoted s.chars := by
  intro hmem
  rcases List.mem_cons.mp hmem with h | h
  · exact absurd h (by decide)
  · rcases List.mem_append.mp h with h | h
    · obtain ⟨ch, hch, hin⟩ := List.mem_flatMap.mp h
      have hne : ch ≠ 0 := fun h0 => s.noNul (h0 ▸ hch)
      exact jsonEscape_noNul hne hin
    · exact absurd (List.mem_singleton.mp h) (by decide)

theorem Blanks.noNul (b : Blanks) : 0 ∉ b.chars := fun h => absurd (b.blank 0 h) (by decide)

theorem JsonMember.text_noNul (m : JsonMember) : 0 ∉ m.text := by
  have hcolon : (0 : UInt8) ≠ colon := by decide
  simp [JsonMember.text, JsonMember.keyGap, Blanks.noNul, quoted_noNul, hcolon]

theorem membersText_noNul {close : List UInt8} (hclose : 0 ∉ close) (members : List JsonMember) :
    0 ∉ membersText close members := by
  induction members with
  | nil => exact hclose
  | cons m rest ih =>
    have hcomma : (0 : UInt8) ≠ comma := by decide
    cases rest with
    | nil => simp [membersText, m.text_noNul, hclose]
    | cons next rest => simp [membersText, m.text_noNul, ih, hcomma]

/-- The text as a request gets it. -/
def JsonObject.request (o : JsonObject) : CString where
  chars := o.text
  noNul := by
    have hclose : 0 ∉ o.close := by
      intro hmem
      rcases List.mem_cons.mp hmem with h | h
      · exact absurd h (by decide)
      · exact o.after.noNul h
    have hopen : (0 : UInt8) ≠ '{'.toUInt8 := by decide
    simp [JsonObject.text, Blanks.noNul, membersText_noNul hclose, hopen]

/-- A key of at most 28 characters that are written as they are. -/
structure PlainKey where
  chars : List UInt8
  short : chars.length ≤ 28
  plain : ∀ ch ∈ chars, ch ≠ 0 ∧ jsonEscape ch = [ch]

def PlainKey.cString (key : PlainKey) : CString := ⟨key.chars, fun h => (key.plain 0 h).1 rfl⟩

/-- The value of the first member with a key. -/
def JsonObject.lookup (o : JsonObject) (key : List UInt8) : Option (List UInt8) :=
  (o.members.find? fun m => m.key.chars == key).map fun m => m.value.chars

/-- The value of the first member with the key is extracted, cut to the buffer with its terminator,
or nothing if no member has the key. -/
def ExtractsMember (o : JsonObject) (key : PlainKey) (outCap : Nat) : Prop :=
  jsonExtractStringBuffer o.request key.cString outCap =
    (o.lookup key.chars).map (List.take (outCap - 1))

instance (o : JsonObject) (key : PlainKey) (outCap : Nat) :
    Decidable (ExtractsMember o key outCap) :=
  inferInstanceAs (Decidable (_ = _))

/-! ### What can be mistaken for a member -/

/-- The text is a colon with spaces around it. -/
def isColonText (s : List UInt8) : Bool :=
  match s.dropWhile (· == ' '.toUInt8) with
  | [] => false
  | ch :: rest => ch == colon && rest.all (· == ' '.toUInt8)

/-- What stands between a value and the next quote. -/
def JsonMember.valueGap (m : JsonMember) (close : List UInt8) : List JsonMember → List UInt8
  | [] => m.afterValue.chars ++ close
  | next :: _ => m.afterValue.chars ++ comma :: next.beforeKey.chars

/-- A member whose key ends with a quote and the key that is looked for. -/
def mistakenKey (key : List UInt8) (m : JsonMember) : List (List UInt8) :=
  if quote :: key <:+ m.key.chars then [m.value.chars] else []

/-- A value of one colon, behind a gap that reads as the key. -/
def mistakenValue (key close : List UInt8) (m : JsonMember) (rest : List JsonMember) :
    List (List UInt8) :=
  if m.keyGap = key ∧ isColonText m.value.chars then [m.valueGap close rest] else []

/-- A key of one colon, behind a gap that reads as the key that is looked for. -/
def mistakenNext (key : List UInt8) (m : JsonMember) : List JsonMember → List (List UInt8)
  | [] => []
  | next :: rest =>
    if m.valueGap [] (next :: rest) = key ∧ isColonText next.key.chars then [next.keyGap] else []

/-- The texts that can be mistaken for the value, in front of the first member with the key. -/
def mistakenTexts (key close : List UInt8) : List JsonMember → List (List UInt8)
  | [] => []
  | m :: rest =>
    if m.key.chars = key then []
    else
      mistakenKey key m ++ (mistakenValue key close m rest ++
        (mistakenNext key m rest ++ mistakenTexts key close rest))

/-- There is a buffer for the value, and the first text that can be mistaken for it reads the same
in this buffer. -/
structure NotMistaken (o : JsonObject) (key : PlainKey) (outCap : Nat) : Prop where
  buffer : outCap = 0 → o.lookup key.chars = none
  same : 0 < outCap → ∀ text ∈ (mistakenTexts key.chars o.close o.members).head?,
    (o.lookup key.chars).map (List.take (outCap - 1)) = some (text.take (outCap - 1))

end VKernel.Kobj

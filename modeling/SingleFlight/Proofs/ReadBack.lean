/-
  SingleFlight.Proofs.ReadBack — what is written in JSON is read back.

  A text is written character by character and read octet by octet, so the two
  meet in the octets of a character: those of a character that stands as it is
  are copied one by one, and an escape is read as the character it was written
  for.  `Spells` says so of any octets, and adds up.

  Main results:
    * `spells_escape` — an escaped character is read as the character.
    * `readString_quoted` — a text in its JSON form is read back.
    * `readFront_written` — so is a record with one field.
-/
import SingleFlight.Json.Quoted
import SingleFlight.Json.Record

namespace SingleFlight.Json

/-! ## §1. Octets. -/

/-- The octets of some characters. -/
def octets (cs : List Char) : Octets := cs.flatMap String.utf8EncodeChar

@[simp] theorem octets_nil : octets [] = [] := rfl

@[simp] theorem octets_cons (c : Char) (cs : List Char) :
    octets (c :: cs) = String.utf8EncodeChar c ++ octets cs := List.flatMap_cons

@[simp] theorem octets_append (cs cs' : List Char) : octets (cs ++ cs') = octets cs ++ octets cs' :=
  List.flatMap_append

/-- The octets of a text are read as that text. -/
theorem fromUTF8?_octets (s : String) : String.fromUTF8? ⟨(octets s.toList).toArray⟩ = some s := by
  have same : (⟨(octets s.toList).toArray⟩ : ByteArray) = s.toByteArray := by
    rw [← String.utf8Encode_toList, ByteArray.ext_iff, List.utf8Encode, List.data_toByteArray]
    rfl
  rw [same, String.fromUTF8?, dif_pos s.isValidUTF8]
  rfl

/-! ## §2. Texts. -/

/-- Whether an octet stands for itself within a text. -/
def IsPlain (b : UInt8) : Prop := glyph b ≠ '"' ∧ glyph b ≠ '\\' ∧ ¬ b < 0x20

/-- The octets `bs` are read as the octets `content` of a text, in no more pieces than there are octets. -/
def Spells (bs content : Octets) : Prop :=
  ∃ pieces ≤ bs.length, ∀ fuel more, readContent (pieces + fuel) (bs ++ more)
    = (readContent fuel more).map fun (later, rest) => (content ++ later, rest)

theorem Spells.nil : Spells [] [] :=
  ⟨0, Nat.le_refl _, fun fuel more => by simp⟩

theorem Spells.append {bs bs' content content' : Octets} (h : Spells bs content) (h' : Spells bs' content') :
    Spells (bs ++ bs') (content ++ content') := by
  obtain ⟨pieces, le, reads⟩ := h
  obtain ⟨pieces', le', reads'⟩ := h'
  refine ⟨pieces + pieces', by rw [List.length_append]; omega, fun fuel more => ?_⟩
  rw [List.append_assoc, Nat.add_assoc, reads, reads', Option.map_map]
  simp [Function.comp_def]

/-- An octet that stands for itself is copied. -/
theorem spells_plain {b : UInt8} (plain : IsPlain b) : Spells [b] [b] := by
  obtain ⟨unclosed, unescaped, uncontrolled⟩ := plain
  refine ⟨1, Nat.le_refl _, fun fuel more => ?_⟩
  rw [Nat.add_comm, List.singleton_append, readContent, if_neg unclosed, if_neg unescaped, if_neg uncontrolled]
  cases readContent fuel more <;> rfl

theorem spells_plains {bs : Octets} (plain : ∀ b ∈ bs, IsPlain b) : Spells bs bs := by
  induction bs with
  | nil => exact .nil
  | cons b bs ih =>
      exact (spells_plain (plain b List.mem_cons_self)).append
        (ih fun b' later => plain b' (List.mem_cons_of_mem b later))

theorem glyph_toNat (b : UInt8) : (glyph b).toNat = b.toNat := by
  have valid : b.toNat.isValidChar := Or.inl (Nat.lt_trans b.toNat_lt (by decide))
  unfold glyph Char.ofNat
  rw [dif_pos valid]
  rfl

/-- An octet stands for itself unless it is a quote, a backslash or a control character. -/
theorem isPlain_iff {b : UInt8} : IsPlain b ↔ b.toNat ≠ 34 ∧ b.toNat ≠ 92 ∧ 32 ≤ b.toNat := by
  have same (c : Char) : glyph b = c ↔ b.toNat = c.toNat := by
    rw [← glyph_toNat]
    exact ⟨congrArg Char.toNat, fun toNat => Char.ext (UInt32.toNat_inj.mp toNat)⟩
  exact and_congr (not_congr (same '"')) (and_congr (not_congr (same '\\')) Nat.not_lt)

/-- The octets of a character beyond ASCII are beyond ASCII, too. -/
theorem high_octets {c : Char} (high : 127 < c.toNat) : ∀ b ∈ String.utf8EncodeChar c, 128 ≤ b.toNat := by
  have high : 127 < c.val.toNat := high
  unfold String.utf8EncodeChar
  dsimp only
  rw [if_neg (by omega)]
  split
  · simp; omega
  · split <;> simp <;> omega

/-- The octet of an ASCII character is its code point. -/
theorem ascii_octet {c : Char} (low : c.toNat ≤ 127) : String.utf8EncodeChar c = [UInt8.ofNat c.toNat] := by
  have low : c.val.toNat ≤ 127 := low
  simp only [String.utf8EncodeChar, if_pos low]
  rfl

/-- A character that stands as it is is copied. -/
theorem spells_char {c : Char} (unclosed : c ≠ '"') (unescaped : c ≠ '\\') (uncontrolled : 32 ≤ c.toNat) :
    Spells (octets [c]) (octets [c]) := by
  refine spells_plains fun b hb => isPlain_iff.mpr ?_
  have other {c' : Char} (differ : c ≠ c') : c.toNat ≠ c'.toNat :=
    fun toNat => differ (Char.ext (UInt32.toNat_inj.mp toNat))
  have quote : c.toNat ≠ 34 := other unclosed
  have backslash : c.toNat ≠ 92 := other unescaped
  rw [octets_cons, octets_nil, List.append_nil] at hb
  by_cases low : c.toNat ≤ 127
  · rw [ascii_octet low, List.mem_singleton] at hb
    have toNat : b.toNat = c.toNat := by
      rw [hb, UInt8.toNat_ofNat']
      exact Nat.mod_eq_of_lt (by omega)
    omega
  · have high := high_octets (Nat.not_le.mp low) b hb
    omega

/-- An escape is read as the character that it stands for. -/
theorem spells_of_escape {bs : Octets} {c : Char}
    (escapes : ∀ more, readEscape (bs ++ more) = some (c, more)) : Spells (92 :: bs) (octets [c]) := by
  refine ⟨1, Nat.le_add_left 1 _, fun fuel more => ?_⟩
  have backslash : glyph 92 ≠ '"' ∧ glyph 92 = '\\' := by decide
  rw [Nat.add_comm, List.cons_append, readContent, if_neg backslash.1, if_pos backslash.2, escapes]
  simp only [Option.bind_eq_bind, Option.bind_some, octets_cons, octets_nil, List.append_nil]
  cases readContent fuel more <;> rfl

/-- The digits of a hexadecimal number have its value. -/
theorem hexValue?_hexDigit : ∀ n < 16,
    String.utf8EncodeChar (Text.hexDigit n) = [UInt8.ofNat (Text.hexDigit n).toNat]
      ∧ hexValue? (UInt8.ofNat (Text.hexDigit n).toNat) = some n := by
  decide

/-- A control character is read from its four digits. -/
theorem readEscape_control {c : Char} (control : c.toNat < 32) (more : Octets) :
    readEscape (octets (controlEscape c).tail ++ more) = some (c, more) := by
  obtain ⟨highOctet, highValue⟩ := hexValue?_hexDigit (c.toNat / 16) (by omega)
  obtain ⟨lowOctet, lowValue⟩ := hexValue?_hexDigit (c.toNat % 16) (by omega)
  generalize UInt8.ofNat (Text.hexDigit (c.toNat / 16)).toNat = high at highOctet highValue
  generalize UInt8.ofNat (Text.hexDigit (c.toNat % 16)).toNat = low at lowOctet lowValue
  have written : octets (controlEscape c).tail ++ more = 117 :: 48 :: 48 :: high :: low :: more := by
    simp only [controlEscape, List.tail_cons, octets_cons, octets_nil, highOctet, lowOctet]
    rfl
  have zero : hexValue? 48 = some 0 := by decide
  have value : ((0 * 16 + 0) * 16 + c.toNat / 16) * 16 + c.toNat % 16 = c.toNat := by omega
  have read : readUnit (48 :: 48 :: high :: low :: more) = some (c.toNat, more) := by
    simp only [readUnit, zero, highValue, lowValue, Option.bind_eq_bind, Option.bind_some, value]
    rfl
  -- the code point is no half of a pair, so the reader does not wait for another four digits
  have whole : isLowHalf c.toNat = false ∧ isHighHalf c.toNat = false := by
    simp only [isLowHalf, isHighHalf, Bool.and_eq_false_iff, decide_eq_false_iff_not]
    omega
  rw [written, readEscape, if_pos (by decide), readUnits, read]
  simp only [Option.bind_eq_bind, Option.bind_some, whole.1, whole.2, Bool.false_eq_true, if_false,
    Char.ofNat_toNat]
  rfl

/-- **An escaped character is read as the character.** -/
theorem spells_escape (c : Char) : Spells (octets (escape c)) (octets [c]) := by
  have letter {c' : Char} (same : c = c') {bs : Octets}
      (escapes : ∀ more, readEscape (bs ++ more) = some (c', more)) : Spells (92 :: bs) (octets [c]) :=
    same ▸ spells_of_escape escapes
  have numbered {n : Nat} (same : c.toNat = n) : c = Char.ofNat n := by rw [← same, Char.ofNat_toNat]
  unfold escape
  split
  next quote => exact letter quote fun more => rfl
  split
  next backslash => exact letter backslash fun more => rfl
  split
  next newline => exact letter newline fun more => rfl
  split
  next back => exact letter back fun more => rfl
  split
  next tab => exact letter tab fun more => rfl
  split
  next backspace => exact letter (numbered backspace) fun more => rfl
  split
  next feed => exact letter (numbered feed) fun more => rfl
  split
  next control => exact spells_of_escape (readEscape_control control)
  next unclosed unescaped _ _ _ _ _ uncontrolled =>
    exact spells_char unclosed unescaped (Nat.not_lt.mp uncontrolled)

/-- The octets of a text in its JSON form are read as those of the text. -/
theorem spells_escaped (cs : List Char) : Spells (octets (cs.flatMap escape)) (octets cs) := by
  induction cs with
  | nil => exact .nil
  | cons c cs ih =>
      have both := (spells_escape c).append ih
      rw [← octets_append, ← octets_append] at both
      exact both

/-- An escaped text has at least an octet for each character. -/
theorem length_le_octets_escaped (cs : List Char) : cs.length ≤ (octets (cs.flatMap escape)).length := by
  have written (c : Char) : escape c ≠ [] := by
    unfold escape
    repeat' split
    all_goals exact List.cons_ne_nil _ _
  induction cs with
  | nil => exact Nat.le_refl 0
  | cons c cs ih =>
      obtain ⟨first, more, escaped⟩ := List.exists_cons_of_ne_nil (written c)
      have octet : 0 < (String.utf8EncodeChar first).length :=
        List.length_pos_iff.mpr String.utf8EncodeChar_ne_nil
      simp only [List.flatMap_cons, escaped, octets_append, octets_cons, List.length_append, List.length_cons]
      omega

/-- A text up to its closing quote. -/
theorem readText_escaped (s : String) (more : Octets) :
    readText (octets (s.toList.flatMap escape ++ ['"']) ++ more) = some (s, more) := by
  obtain ⟨pieces, le, reads⟩ := spells_escaped s.toList
  have closes (fuel : Nat) : readContent (fuel + 1) (octets ['"'] ++ more) = some ([], more) := rfl
  -- the reader is given a piece for each octet, which is more than it takes
  have length : (octets (s.toList.flatMap escape ++ ['"']) ++ more).length
      = pieces + ((octets (s.toList.flatMap escape)).length - pieces + more.length + 1) := by
    have quote : (octets ['"']).length = 1 := rfl
    rw [octets_append, List.length_append, List.length_append, quote]
    omega
  have content : readContent (octets (s.toList.flatMap escape ++ ['"']) ++ more).length
      (octets (s.toList.flatMap escape ++ ['"']) ++ more) = some (octets s.toList, more) := by
    rw [length, octets_append, List.append_assoc, reads, closes]
    simp
  rw [readText, content]
  simp only [Option.bind_eq_bind, Option.bind_some, fromUTF8?_octets]
  rfl

/-- The characters of a text in its JSON form. -/
theorem toList_quoted (s : String) : (quoted s).toList = '"' :: (s.toList.flatMap escape ++ ['"']) := by
  rw [quoted, String.toList_ofList]
  rfl

/-- No space stands before a text. -/
theorem unspaced (bs : Octets) : skipSpace (34 :: bs) = 34 :: bs := rfl

/-- **A text in its JSON form is read back.** -/
theorem readString_quoted (s : String) (more : Octets) :
    readString (octets (quoted s).toList ++ more) = .ok (s, more) := by
  have starts (cs : List Char) : octets ('"' :: cs) ++ more = 34 :: (octets cs ++ more) := rfl
  rw [toList_quoted, starts, readString, unspaced]
  dsimp only
  rw [if_pos (by decide), readText_escaped]
  rfl

/-! ## §3. Records. -/

/-- A record with one field, written as an object: the name of the field, and its value in JSON. -/
def written (name value : String) : List Char :=
  '\x7b' :: ((quoted name).toList ++ ':' :: (value.toList ++ ['\x7d']))

/-- **A record with one field is read back**, if its value is. -/
theorem readFront_written {α : Type} {f : Field α} {value : String} {a : α}
    (reads : ∀ more, f.read (octets value.toList ++ more) = .ok (a, more)) :
    f.readFront (octets (written f.name value)) = .ok a := by
  -- what is left after the name, after the colon and after the value
  let inside := octets (f.name.toList.flatMap escape ++ ['"']) ++ 58 :: (octets value.toList ++ [125])
  have starts : octets (written f.name value) = 123 :: 34 :: inside := by
    rw [written, toList_quoted]
    simp only [octets_cons, octets_append, List.cons_append, List.append_assoc, inside]
    rfl
  have named : Field.readName true (34 :: inside) = .ok (f.name, 58 :: (octets value.toList ++ [125])) := by
    have opened (bs : Octets) : Field.readName true (34 :: bs) = orMalformed (readText bs) := rfl
    rw [opened, readText_escaped]
    rfl
  have valued : (Field.skipColon (58 :: (octets value.toList ++ [125])) >>= f.read) = .ok (a, [125]) :=
    reads [125]
  have closed (fuel : Nat) : f.readMembers (fuel + 1) false (some a) [125] = .ok (a, []) := rfl
  have members : f.readMembers (inside.length + 2) true none (34 :: inside) = .ok (a, []) := by
    rw [Field.readMembers, unspaced inside]
    dsimp only
    rw [if_neg (by decide), named]
    dsimp only
    rw [if_pos rfl, valued]
    exact closed inside.length
  have opens : skipSpace (123 :: 34 :: inside) = 123 :: 34 :: inside := rfl
  rw [starts, Field.readFront, Field.readRecord, opens]
  dsimp only
  rw [if_pos (by decide), List.length_cons, List.length_cons, members]
  rfl

end SingleFlight.Json

import DiceExpr.Json.Forms
import DiceExpr.Proofs.Lexing

/-!
# JSON forms are read back

An object that is written is read back part by part: a string through its escapes, a number through its
digits, and a member up to the comma or the brace after it. So a formula is read back whatever its name
and its expression are, and limits are if their bounds are numbers of at most 64 bits.

## Main definitions

* `Json.ReadsAs`: a text that is read as a value wherever a member of an object may end after it.
* `Json.Field`: a name and a value, with the text that the value is written as and read from.

## Main statements

* `Json.readText_escape`: a string is read back.
* `Json.read?_renderObject`: an object is read as its fields, in order.
* `Limits.ofJson?_toJson_iff`, `Formula.ofJson?_toJson`: the two forms are read back.
-/

namespace DiceExpr

namespace Json

/-! ### Strings -/

theorem hexDigit?_digitChar : ∀ n < 16, hexDigit? (Nat.digitChar n) = some n := by decide

section

variable {c d : Char} {n : Nat} (text : List Char)

theorem readString_escaped (h : escaped? c = some d) :
    readString ('\\' :: c :: text) =
      (readString text).map fun (codes, rest) => (d.toNat :: codes, rest) := by
  have hcode : c ≠ 'u' := by
    rintro rfl
    cases h
  rw [readString, h]
  · cases readString text <;> rfl
  · exact fun _ _ _ _ _ hc => absurd hc hcode

theorem readString_code (h : n < 256) :
    readString ('\\' :: 'u' :: '0' :: '0' :: Nat.digitChar (n / 16) :: Nat.digitChar (n % 16) :: text) =
      (readString text).map fun (codes, rest) => (n :: codes, rest) := by
  have hzero : hexDigit? '0' = some 0 := by decide
  have hhigh := hexDigit?_digitChar (n / 16) (by omega)
  have hlow := hexDigit?_digitChar (n % 16) (by omega)
  have hcode : 0 * 4096 + 0 * 256 + n / 16 * 16 + n % 16 = n := by omega
  simp only [readString, hzero, hhigh, hlow, Option.bind_eq_bind, Option.bind_some, hcode]
  cases readString text <;> rfl

theorem readString_plain (hquote : c ≠ '"') (hbackslash : c ≠ '\\') (h : 0x20 ≤ c.toNat) :
    readString (c :: text) = (readString text).map fun (codes, rest) => (c.toNat :: codes, rest) := by
  rw [readString, if_neg]
  · rintro (hcontrol | hc)
    · omega
    · exact hbackslash hc
  · exact hquote
  · exact fun _ _ _ _ _ hc => absurd hc hbackslash
  · exact fun _ _ hc => absurd hc hbackslash

variable (c) in
/-- A character is read back from its written form. -/
theorem readString_escape :
    readString (escape c ++ text) =
      (readString text).map fun (codes, rest) => (c.toNat :: codes, rest) := by
  unfold escape
  split
  -- The characters with an escape of their own come first, then those that are written by their code.
  · exact readString_escaped text rfl
  · exact readString_escaped text rfl
  · exact readString_escaped text rfl
  · exact readString_escaped text rfl
  · exact readString_escaped text rfl
  · exact readString_escaped text rfl
  · exact readString_escaped text rfl
  · next hquote hbackslash _ _ _ _ _ =>
    split
    · exact readString_code text (by omega)
    · exact readString_plain text hquote hbackslash (by omega)

end

theorem readString_flatMap_escape (text rest : List Char) :
    readString (text.flatMap escape ++ '"' :: rest) = some (text.map Char.toNat, rest) := by
  induction text with
  | nil => rfl
  | cons c text ih =>
    rw [List.flatMap_cons, List.append_assoc, readString_escape, ih]
    rfl

theorem not_surrogate (c : Char) : isLeading c.toNat = false ∧ isTrailing c.toNat = false := by
  have hvalid : c.toNat < 0xD800 ∨ 0xDFFF < c.toNat ∧ c.toNat < 0x110000 := c.valid
  simp only [isLeading, isTrailing, Bool.and_eq_false_iff, decide_eq_false_iff_not]
  omega

/-- The codes of characters have no halves of surrogate pairs among them. -/
theorem joinPairs_map_toNat (text : List Char) : joinPairs (text.map Char.toNat) = some text := by
  induction text with
  | nil => rfl
  | cons c text ih =>
    obtain ⟨hleading, htrailing⟩ := not_surrogate c
    cases text with
    | nil => simp [joinPairs, hleading, htrailing]
    | cons d text =>
      rw [List.map_cons] at ih
      simp [joinPairs, hleading, htrailing, ih]

theorem readText_escape (text rest : List Char) :
    readText (text.flatMap escape ++ '"' :: rest) = some (some (String.ofList text), rest) := by
  simp only [readText, readString_flatMap_escape, Option.map_some, joinPairs_map_toNat]

theorem toList_renderString (text : String) :
    (renderString text).toList = '"' :: (text.toList.flatMap escape ++ ['"']) := by
  simp [renderString]

/-! ### Numbers -/

/-- What may stand after the value of a member: the end of the member, or of the text. -/
def EndsMember (rest : List Char) : Prop :=
  ∀ c, rest.head? = some c → c = ',' ∨ c = '\x7d'

theorem EndsMember.cons {c : Char} (h : c = ',' ∨ c = '\x7d') (rest : List Char) :
    EndsMember (c :: rest) := by
  intro d hd
  cases hd
  exact h

theorem EndsMember.not_digit {rest : List Char} (h : EndsMember rest) :
    ∀ c, rest.head? = some c → c.isDigit = false := by
  intro c hc
  rcases h c hc with rfl | rfl <;> rfl

theorem EndsMember.skip {rest : List Char} (h : EndsMember rest) :
    skipFraction rest = some rest ∧ skipExponent rest = some rest := by
  cases rest with
  | nil => exact ⟨rfl, rfl⟩
  | cons c rest => rcases h c rfl with rfl | rfl <;> exact ⟨rfl, rfl⟩

theorem exists_toDigits_eq_cons {n : Nat} (h : n ≠ 0) :
    ∃ c cs, Nat.toDigits 10 n = c :: cs ∧ c ≠ '0' := by
  induction n using Nat.strongRecOn with
  | _ n ih =>
    rcases Nat.lt_or_ge n 10 with hlt | hge
    · refine ⟨n.digitChar, [], Nat.toDigits_of_lt_base hlt, ?_⟩
      rwa [ne_eq, Nat.digitChar_eq_zero]
    · obtain ⟨c, cs, hcons, hc⟩ := ih (n / 10) (by omega) (by omega)
      rw [Nat.toDigits_of_base_le (by decide) hge, hcons]
      exact ⟨c, _, rfl, hc⟩

theorem readDigits_append {run rest : List Char} (hrun : ∀ c ∈ run, c.isDigit = true)
    (hne : run ≠ []) (hrest : ∀ c, rest.head? = some c → c.isDigit = false) :
    readDigits (run ++ rest) = some (run, rest) := by
  obtain ⟨htake, hdrop⟩ := Lexeme.span_append rest hrun hrest
  obtain ⟨c, cs, rfl⟩ := List.exists_cons_of_ne_nil hne
  simp only [readDigits, htake, hdrop]

theorem forall_isDigit_toDigits (n : Nat) : ∀ c ∈ Nat.toDigits 10 n, c.isDigit = true :=
  fun _ => Nat.isDigit_of_mem_toDigits (by decide) (by decide)

theorem exists_digit_cons (n : Nat) : ∃ c cs, Nat.toDigits 10 n = c :: cs ∧ c.isDigit = true := by
  obtain ⟨c, cs, hcons⟩ := List.exists_cons_of_ne_nil (Nat.toDigits_ne_nil (n := n) (b := 10))
  have hdigit := forall_isDigit_toDigits n
  rw [hcons] at hdigit
  exact ⟨c, cs, hcons, hdigit c List.mem_cons_self⟩

theorem readWhole_toDigits (n : Nat) {rest : List Char}
    (hrest : ∀ c, rest.head? = some c → c.isDigit = false) :
    readWhole (Nat.toDigits 10 n ++ rest) = some (Nat.toDigits 10 n, rest) := by
  -- A zero ends the digits by itself, so the digits of other numbers must not start with one.
  rcases eq_or_ne n 0 with rfl | hn
  · rfl
  · have hdigits := readDigits_append (forall_isDigit_toDigits n) Nat.toDigits_ne_nil hrest
    obtain ⟨c, cs, hcons, hc⟩ := exists_toDigits_eq_cons hn
    rw [hcons, List.cons_append] at hdigits ⊢
    rw [readWhole, hdigits]
    exact fun _ hzero => absurd (List.cons.inj hzero).1 hc

theorem readNumber_toDigits (n : Nat) {rest : List Char} (hrest : EndsMember rest) :
    readNumber (Nat.toDigits 10 n ++ rest) = some (.number (some n), rest) := by
  have hwhole := readWhole_toDigits n hrest.not_digit
  obtain ⟨hfraction, hexponent⟩ := hrest.skip
  have hvalue : (Nat.toDigits 10 n).foldl (fun n c => 10 * n + (c.toNat - '0'.toNat)) 0 = n :=
    Nat.ofDigitChars_ten_toDigits
  obtain ⟨c, cs, hcons, hdigit⟩ := exists_digit_cons n
  rw [readNumber]
  · simp only [hwhole, hfraction, hexponent, hvalue, Option.bind_eq_bind, Option.bind_some]
    simp
  · rw [hcons]
    rintro text htext
    cases htext
    cases hdigit

/-! ### Values -/

theorem skipBlanks_cons {c : Char} (h : isBlank c = false) (text : List Char) :
    skipBlanks (c :: text) = c :: text := by
  simp [skipBlanks, h]

/-- A text that is read as a value, and to its end, wherever a member of an object may end after it. -/
def ReadsAs (text : List Char) (value : Value) : Prop :=
  ∀ (fuel : Nat) (rest : List Char), EndsMember rest →
    readValue (fuel + 1) (text ++ rest) = some (value, rest)

theorem readsAs_string (text : String) :
    ReadsAs (renderString text).toList (.string (some text)) := by
  intro fuel rest _
  have hread := readText_escape text.toList rest
  rw [String.ofList_toList] at hread
  simp only [toList_renderString, List.cons_append, List.append_assoc, List.nil_append]
  rw [readValue, skipBlanks_cons rfl]
  simp only [hread, Option.map_some]

theorem isBlank_of_isDigit {c : Char} (h : c.isDigit = true) : isBlank c = false := by
  simp only [isBlank, Bool.or_eq_false_iff, decide_eq_false_iff_not]
  refine ⟨⟨⟨?_, ?_⟩, ?_⟩, ?_⟩
  all_goals
    rintro rfl
    cases h

theorem readValue_digit {c : Char} (h : c.isDigit = true) (fuel : Nat) (text : List Char) :
    readValue (fuel + 1) (c :: text) = readNumber (c :: text) := by
  have hne {d : Char} {rest : List Char} (hd : d.isDigit = false) : c :: text ≠ d :: rest := by
    rintro heq
    rw [(List.cons.inj heq).1, hd] at h
    cases h
  rw [readValue, skipBlanks_cons (isBlank_of_isDigit h)]
  split
  · next heq => exact absurd heq (hne rfl)
  · next heq => exact absurd heq (hne rfl)
  · next heq => exact absurd heq (hne rfl)
  · next heq => exact absurd heq (hne rfl)
  · next heq => exact absurd heq (hne rfl)
  · next heq => exact absurd heq (hne rfl)
  · rfl

theorem readsAs_number (n : Nat) : ReadsAs (toString n).toList (.number (some n)) := by
  intro fuel rest hrest
  have hread := readNumber_toDigits n hrest
  have htext : (toString n).toList = Nat.toDigits 10 n := by simp
  obtain ⟨c, cs, hcons, hdigit⟩ := exists_digit_cons n
  rw [htext]
  rw [hcons, List.cons_append] at hread ⊢
  rw [readValue_digit hdigit, hread]

theorem Value.word?_number_eq_some_iff {n m : Nat} :
    (Value.number (some n)).word? = some m ↔ n ≤ 0xFFFFFFFFFFFFFFFF ∧ n = m := by
  simp [word?]

/-! ### Objects -/

/-- A name and a value, with the text that the value is written as and read from. -/
structure Field where
  name : String
  text : String
  value : Value
  reads : ReadsAs text.toList value

namespace Field

def written (f : Field) : String × String := (f.name, f.text)

def member (f : Field) : Option String × Value := (some f.name, f.value)

/-- The characters of a field inside an object. -/
def source (f : Field) : List Char := (renderString f.name).toList ++ ':' :: f.text.toList

end Field

/-- The fields of an object, as they are written between its braces. -/
def sources (fields : List Field) : List Char := [','].intercalate (fields.map Field.source)

theorem sources_singleton (f : Field) : sources [f] = f.source := List.intercalate_singleton

theorem sources_cons_cons (f g : Field) (fields : List Field) :
    sources (f :: g :: fields) = f.source ++ ',' :: sources (g :: fields) := by
  simp [sources, List.intercalate_cons_cons]

theorem toList_renderObject (fields : List Field) :
    (renderObject (fields.map Field.written)).toList = '\x7b' :: (sources fields ++ ['\x7d']) := by
  have hsource (f : Field) : (renderString f.name ++ ":" ++ f.text).toList = f.source := by
    simp [Field.source]
  simp only [renderObject, String.toList_append, String.toList_intercalate, List.map_map, sources]
  simp only [Function.comp_def, Field.written, hsource]
  rfl

/-- A member is read up to the comma or the brace after it. -/
theorem readMembers_source (f : Field) (fuel : Nat) {c : Char} (hc : c = ',' ∨ c = '\x7d')
    (rest : List Char) :
    readMembers (fuel + 2) (f.source ++ c :: rest) =
      if c = ',' then
        (readMembers (fuel + 1) rest).map fun (members, rest) => (f.member :: members, rest)
      else some ([f.member], rest) := by
  have hname := readText_escape f.name.toList (':' :: (f.text.toList ++ c :: rest))
  rw [String.ofList_toList] at hname
  have hvalue := f.reads fuel (c :: rest) (.cons hc rest)
  have hcolon := skipBlanks_cons (c := ':') rfl (f.text.toList ++ c :: rest)
  simp only [Field.source, toList_renderString, List.cons_append, List.append_assoc, List.nil_append]
  rw [readMembers, skipBlanks_cons rfl]
  simp only [hname, hcolon, hvalue, Option.bind_eq_bind, Option.bind_some]
  rcases hc with rfl | rfl
  · rw [skipBlanks_cons rfl, if_pos rfl, Option.map_eq_bind]
    rfl
  · rw [skipBlanks_cons rfl]
    rfl

theorem exists_sources_eq_cons (f : Field) (fields : List Field) :
    ∃ text, sources (f :: fields) = '"' :: text := by
  cases fields with
  | nil => simp [sources_singleton, Field.source, toList_renderString]
  | cons g fields => simp [sources_cons_cons, Field.source, toList_renderString]

theorem readMembers_sources (f : Field) (fields : List Field) {fuel : Nat} (rest : List Char)
    (hfuel : (sources (f :: fields)).length < fuel) :
    readMembers fuel (sources (f :: fields) ++ '\x7d' :: rest) =
      some ((f :: fields).map Field.member, rest) := by
  -- A field uses up one level of fuel for itself and one for its value, and has more characters.
  induction fields generalizing f fuel with
  | nil =>
    obtain ⟨text, htext⟩ := exists_sources_eq_cons f []
    rw [htext, List.length_cons] at hfuel
    obtain ⟨fuel, rfl⟩ : ∃ left, fuel = left + 2 := ⟨fuel - 2, by omega⟩
    rw [sources_singleton, readMembers_source f fuel (.inr rfl)]
    rfl
  | cons g fields ih =>
    rw [sources_cons_cons, List.length_append, List.length_cons] at hfuel
    obtain ⟨fuel, rfl⟩ : ∃ left, fuel = left + 2 := ⟨fuel - 2, by omega⟩
    rw [sources_cons_cons, List.append_assoc, List.cons_append, readMembers_source f fuel (.inl rfl),
      if_pos rfl, ih g (by omega)]
    rfl

theorem readValue_sources (fields : List Field) {fuel : Nat} (hfuel : (sources fields).length < fuel)
    (rest : List Char) :
    readValue (fuel + 1) ('\x7b' :: (sources fields ++ '\x7d' :: rest)) =
      some (.object (fields.map Field.member), rest) := by
  rw [readValue, skipBlanks_cons rfl]
  cases fields with
  | nil => rfl
  | cons f fields =>
    have hmembers := readMembers_sources f fields rest hfuel
    obtain ⟨text, htext⟩ := exists_sources_eq_cons f fields
    rw [htext, List.cons_append] at hmembers ⊢
    exact congrArg (Option.map fun (members, rest) => (Value.object members, rest)) hmembers

/-- An object is read as the fields that it was written with. -/
theorem read?_renderObject (fields : List Field) :
    read? (renderObject (fields.map Field.written)) = some (.object (fields.map Field.member)) := by
  have htext := toList_renderObject fields
  have hlength := congrArg List.length htext
  rw [String.length_toList, List.length_cons, List.length_append] at hlength
  rw [read?, htext, readValue_sources fields (by omega)]
  rfl

end Json

/-! ### Limits and formulas -/

open Json

namespace Limits

def fields (limits : Limits) : List Field :=
  [⟨"max_dice", toString limits.maxDice, .number limits.maxDice, readsAs_number limits.maxDice⟩,
    ⟨"max_sides", toString limits.maxSides, .number limits.maxSides, readsAs_number limits.maxSides⟩,
    ⟨"max_depth", toString limits.maxDepth, .number limits.maxDepth, readsAs_number limits.maxDepth⟩]

theorem read?_toJson (limits : Limits) :
    Json.read? limits.toJson = some (.object (limits.fields.map Field.member)) :=
  read?_renderObject limits.fields

theorem ofJson?_fields (limits : Limits) :
    ofJson? (.object (limits.fields.map Field.member)) = do
      return {
        maxDice := ← (Value.number limits.maxDice).word?
        maxSides := ← (Value.number limits.maxSides).word?
        maxDepth := ← (Value.number limits.maxDepth).word? } := rfl

/-- Limits are read back if, and only if, their bounds are numbers of at most 64 bits. -/
theorem ofJson?_toJson_iff (limits : Limits) :
    (Json.read? limits.toJson).bind ofJson? = some limits ↔
      limits.maxDice ≤ 0xFFFFFFFFFFFFFFFF ∧ limits.maxSides ≤ 0xFFFFFFFFFFFFFFFF ∧
        limits.maxDepth ≤ 0xFFFFFFFFFFFFFFFF := by
  rw [read?_toJson, Option.bind_some, ofJson?_fields]
  simp only [Option.bind_eq_bind, Option.bind_eq_some_iff, Value.word?_number_eq_some_iff]
  constructor
  · rintro ⟨_, ⟨hdice, rfl⟩, _, ⟨hsides, rfl⟩, _, ⟨hdepth, rfl⟩, -⟩
    exact ⟨hdice, hsides, hdepth⟩
  · rintro ⟨hdice, hsides, hdepth⟩
    exact ⟨_, ⟨hdice, rfl⟩, _, ⟨hsides, rfl⟩, _, ⟨hdepth, rfl⟩, rfl⟩

end Limits

namespace Formula

def fields (f : Formula) : List Field :=
  [⟨"name", renderString f.name, .string f.name, readsAs_string f.name⟩,
    ⟨"expression", renderString f.expression, .string f.expression, readsAs_string f.expression⟩]

/-- A formula is read back, whatever characters are in its name and its expression. -/
theorem ofJson?_toJson (f : Formula) : (Json.read? f.toJson).bind ofJson? = some f := by
  have hread : Json.read? f.toJson = some (.object (f.fields.map Field.member)) :=
    read?_renderObject f.fields
  rw [hread, Option.bind_some]
  rfl

end Formula

end DiceExpr

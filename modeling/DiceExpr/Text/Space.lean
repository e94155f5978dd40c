/-!
# White space

The white space characters of Unicode (the property White_Space), and texts without it at their
ends.

## Main statements

* `isTrimmed_trim`: a text that is trimmed has no white space at its ends.
* `IsTrimmed.trim_eq`: a text without white space at its ends is left as it is.
-/

namespace DiceExpr.Text

def isSpace (c : Char) : Bool :=
  let n := c.toNat
  (0x9 ≤ n && n ≤ 0xD) || n = 0x20 || n = 0x85 || n = 0xA0 || n = 0x1680 ||
    (0x2000 ≤ n && n ≤ 0x200A) || n = 0x2028 || n = 0x2029 || n = 0x202F || n = 0x205F || n = 0x3000

def trimStart (text : List Char) : List Char :=
  text.dropWhile isSpace

def trimEnd (text : List Char) : List Char :=
  (text.reverse.dropWhile isSpace).reverse

def trim (text : List Char) : List Char :=
  trimEnd (trimStart text)

/-- A text that is trimmed at its start does not start with white space. -/
theorem isSpace_eq_false_of_trimStart {c : Char} {cs text : List Char}
    (h : trimStart text = c :: cs) : isSpace c = false := by
  induction text with
  | nil => simp [trimStart] at h
  | cons d rest ih =>
    simp only [trimStart, List.dropWhile_cons] at h
    split at h
    · exact ih h
    · next hd =>
      obtain ⟨rfl, rfl⟩ := List.cons.inj h
      simpa using hd

/-- A text without white space at its ends. -/
structure IsTrimmed (text : List Char) : Prop where
  head : ∀ c, text.head? = some c → isSpace c = false
  last : ∀ c, text.getLast? = some c → isSpace c = false

theorem trimStart_eq_self {text : List Char} (h : ∀ c, text.head? = some c → isSpace c = false) :
    trimStart text = text := by
  cases text with
  | nil => rfl
  | cons c cs => simp [trimStart, h c rfl]

theorem trimEnd_eq_reverse (text : List Char) : trimEnd text = (trimStart text.reverse).reverse := rfl

theorem trimEnd_eq_self {text : List Char} (h : ∀ c, text.getLast? = some c → isSpace c = false) :
    trimEnd text = text := by
  have hstart : trimStart text.reverse = text.reverse := by
    apply trimStart_eq_self
    rwa [List.head?_reverse]
  rw [trimEnd_eq_reverse, hstart, List.reverse_reverse]

theorem IsTrimmed.trim_eq {text : List Char} (h : IsTrimmed text) : trim text = text := by
  rw [trim, trimStart_eq_self h.head, trimEnd_eq_self h.last]

theorem isPrefix_trimEnd (text : List Char) : trimEnd text <+: text := by
  have hsuffix := List.reverse_prefix.2 (List.dropWhile_suffix (l := text.reverse) isSpace)
  rwa [List.reverse_reverse] at hsuffix

theorem isTrimmed_trim (text : List Char) : IsTrimmed (trim text) := by
  constructor
  · intro c hc
    obtain ⟨cs, hcs⟩ := List.head?_eq_some_iff.1 hc
    obtain ⟨blanks, hwhole⟩ := isPrefix_trimEnd (trimStart text)
    rw [← trim, hcs] at hwhole
    exact isSpace_eq_false_of_trimStart hwhole.symm
  · intro c hc
    rw [trim, trimEnd_eq_reverse, List.getLast?_reverse] at hc
    obtain ⟨cs, hcs⟩ := List.head?_eq_some_iff.1 hc
    exact isSpace_eq_false_of_trimStart hcs

theorem mem_of_mem_trim {c : Char} {text : List Char} (h : c ∈ trim text) : c ∈ text :=
  (List.dropWhile_suffix isSpace).subset ((isPrefix_trimEnd _).subset h)

/-- White space at the end is looked for after the last character that is none. -/
theorem trimEnd_append_cons {c : Char} (before after : List Char) (h : isSpace c = false) :
    trimEnd (before ++ c :: after) = before ++ c :: trimEnd after := by
  simp only [trimEnd, List.reverse_append, List.reverse_cons, List.append_assoc,
    List.singleton_append, List.dropWhile_append]
  split
  · next hnone =>
    simp [List.isEmpty_iff.1 hnone, h]
  · simp

theorem trim_space_cons {c : Char} (text : List Char) (h : isSpace c = true) :
    trim (c :: text) = trim text := by
  simp [trim, trimStart, h]

end DiceExpr.Text

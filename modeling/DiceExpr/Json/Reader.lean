import DiceExpr.Json.Value

/-!
# Reading JSON

A reader of JSON texts, strict about their grammar: blanks are the space, the tab and the ends of
lines, control characters need an escape inside strings, and nothing but blanks may follow the value.
Values may nest to any depth. There is no limit on the levels, such as the 128 at which some readers
stop.
-/

namespace DiceExpr.Json

def isBlank (c : Char) : Bool := c = ' ' || c = '\n' || c = '\t' || c = '\r'

def skipBlanks (text : List Char) : List Char := text.dropWhile isBlank

/-! ### Strings -/

def hexDigit? (c : Char) : Option Nat :=
  if c.isDigit then some (c.toNat - '0'.toNat)
  else if 'a' ≤ c ∧ c ≤ 'f' then some (c.toNat - 'a'.toNat + 10)
  else if 'A' ≤ c ∧ c ≤ 'F' then some (c.toNat - 'A'.toNat + 10)
  else none

def escaped? : Char → Option Char
  | '"' => some '"'
  | '\\' => some '\\'
  | '/' => some '/'
  | 'b' => some '\x08'
  | 'f' => some '\x0c'
  | 'n' => some '\n'
  | 'r' => some '\r'
  | 't' => some '\t'
  | _ => none

/-- The code points of a string up to its closing quote, and the text after it. An escape with a code
may be half of a surrogate pair. -/
def readString : List Char → Option (List Nat × List Char)
  | [] => none
  | '"' :: rest => some ([], rest)
  | '\\' :: 'u' :: a :: b :: c :: d :: rest => do
    let code := (← hexDigit? a) * 4096 + (← hexDigit? b) * 256 + (← hexDigit? c) * 16 + (← hexDigit? d)
    let (codes, rest) ← readString rest
    return (code :: codes, rest)
  | '\\' :: c :: rest => do
    let escaped ← escaped? c
    let (codes, rest) ← readString rest
    return (escaped.toNat :: codes, rest)
  | c :: rest =>
    if c.toNat < 0x20 ∨ c = '\\' then none
    else (readString rest).map fun (codes, rest) => (c.toNat :: codes, rest)

def isLeading (code : Nat) : Bool := 0xD800 ≤ code && code < 0xDC00

def isTrailing (code : Nat) : Bool := 0xDC00 ≤ code && code < 0xE000

/-- The characters of codes, where two halves of a surrogate pair make up one character. -/
def joinPairs : List Nat → Option (List Char)
  | [] => some []
  | [code] => if isLeading code || isTrailing code then none else some [Char.ofNat code]
  | code :: next :: rest =>
    if isLeading code then
      if isTrailing next then
        let joined := 0x10000 + (code - 0xD800) * 0x400 + (next - 0xDC00)
        (joinPairs rest).map (Char.ofNat joined :: ·)
      else none
    else if isTrailing code then none
    else (joinPairs (next :: rest)).map (Char.ofNat code :: ·)

/-- The text of a string up to its closing quote, and what is left after it. -/
def readText (text : List Char) : Option (Option String × List Char) :=
  (readString text).map fun (codes, rest) => ((joinPairs codes).map String.ofList, rest)

/-! ### Numbers -/

/-- At least one digit, and what is left after the digits. -/
def readDigits (text : List Char) : Option (List Char × List Char) :=
  match text.takeWhile Char.isDigit with
  | [] => none
  | digits => some (digits, text.dropWhile Char.isDigit)

/-- The digits before the point of a number: a zero, or digits that start with none. -/
def readWhole : List Char → Option (List Char × List Char)
  | '0' :: rest => some (['0'], rest)
  | text => readDigits text

/-- What is left after the places behind a point, if there are any. -/
def skipFraction : List Char → Option (List Char)
  | '.' :: rest => (readDigits rest).map (·.2)
  | text => some text

def skipExponent : List Char → Option (List Char)
  | 'e' :: rest | 'E' :: rest =>
    match rest with
    | '+' :: rest | '-' :: rest => (readDigits rest).map (·.2)
    | rest => (readDigits rest).map (·.2)
  | text => some text

/-- A number, and what is left after it. It has a natural value if it is digits only. -/
def readNumber (text : List Char) : Option (Value × List Char) := do
  let (negative, text) := match text with
    | '-' :: rest => (true, rest)
    | text => (false, text)
  let (digits, afterWhole) ← readWhole text
  let afterFraction ← skipFraction afterWhole
  let rest ← skipExponent afterFraction
  let natural :=
    if negative || rest.length < afterWhole.length then none
    else some (digits.foldl (fun n c => 10 * n + (c.toNat - '0'.toNat)) 0)
  return (.number natural, rest)

/-! ### Values -/

mutual

/-- A value, and what is left after it. At most `fuel` values and lists may start inside. -/
def readValue : (fuel : Nat) → List Char → Option (Value × List Char)
  | 0, _ => none
  | fuel + 1, text =>
    match skipBlanks text with
    | 'n' :: 'u' :: 'l' :: 'l' :: rest => some (.null, rest)
    | 't' :: 'r' :: 'u' :: 'e' :: rest => some (.bool true, rest)
    | 'f' :: 'a' :: 'l' :: 's' :: 'e' :: rest => some (.bool false, rest)
    | '"' :: rest => (readText rest).map fun (text, rest) => (.string text, rest)
    | '[' :: rest =>
      match skipBlanks rest with
      | ']' :: rest => some (.array [], rest)
      | rest => (readElements fuel rest).map fun (elements, rest) => (.array elements, rest)
    | '{' :: rest =>
      match skipBlanks rest with
      | '}' :: rest => some (.object [], rest)
      | rest => (readMembers fuel rest).map fun (members, rest) => (.object members, rest)
    | text => readNumber text

/-- The elements of an array up to its end, and what is left after it. -/
def readElements : (fuel : Nat) → List Char → Option (List Value × List Char)
  | 0, _ => none
  | fuel + 1, text => do
    let (value, rest) ← readValue fuel text
    match skipBlanks rest with
    | ',' :: rest =>
      let (values, rest) ← readElements fuel rest
      return (value :: values, rest)
    | ']' :: rest => return ([value], rest)
    | _ => none

/-- The members of an object up to its end, and what is left after it. -/
def readMembers : (fuel : Nat) → List Char → Option (List (Option String × Value) × List Char)
  | 0, _ => none
  | fuel + 1, text =>
    match skipBlanks text with
    | '"' :: rest => do
      let (name, rest) ← readText rest
      match skipBlanks rest with
      | ':' :: rest =>
        let (value, rest) ← readValue fuel rest
        match skipBlanks rest with
        | ',' :: rest =>
          let (members, rest) ← readMembers fuel rest
          return ((name, value) :: members, rest)
        | '}' :: rest => return ([(name, value)], rest)
        | _ => none
      | _ => none
    | _ => none

end

/-- The value of a JSON text. Each value and each list inside takes up a character, so twice the
length of the text bounds how many can start. -/
def read? (text : String) : Option Value :=
  match readValue (2 * text.length + 2) text.toList with
  | some (value, rest) => if (skipBlanks rest).isEmpty then some value else none
  | none => none

end DiceExpr.Json

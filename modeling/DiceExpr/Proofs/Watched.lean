import DiceExpr.Proofs.Cursors
import DiceExpr.Proofs.Outcome

/-!
# Watched steps

A watched step is a step that may also come to a lapse, where something happened that must not happen. To
follow a step is to have no lapse and to do the same. A cursor reads the numbers, the names and the keep
rules of a text as watched steps: each is taken out of the text by places, a number must be a run of
digits, and a number of dice that the limits allow must fit into a machine word.

## Main statements

* `Follows.bind`: what is put together from steps that follow others follows them put together.
* `Cursor.IsAt.readNumber_eq`, `Cursor.IsAt.readName_eq`: what a cursor reads off a lexeme.
* `Cursor.reads_readKeep`: a cursor reads the keep rule that the lexemes ahead are read as.
-/

namespace DiceExpr

open Lexeme

/-! ### Watched steps -/

/-- A step that is watched: it may come to a lapse instead of a result and a state. -/
abbrev Watched (ε τ : Type) := ExceptT ε (StateT τ (Except Lapse))

namespace Watched

variable {ε τ α : Type}

def lapse (why : Lapse) : Watched ε τ α := ExceptT.mk fun _ => .error why

/-- A step at which nothing is to be watched. -/
def ofStep (step : ExceptT ε (StateM τ) α) : Watched ε τ α :=
  ExceptT.mk fun s => .ok (step.run.run s)

def ofExcept (r : Except ε α) : Watched ε τ α := ExceptT.mk fun s => .ok (r, s)

def ofCursor (r : ExceptT ε (Except Lapse) α) : Watched ε τ α :=
  ExceptT.mk fun s => r.run.map fun a => (a, s)

end Watched

section

variable {ε τ α β : Type}

/-- A watched step that has no lapse and does what a step does. -/
def Follows (watched : Watched ε τ α) (step : ExceptT ε (StateM τ) α) : Prop :=
  ∀ s, watched.run.run s = .ok (step.run.run s)

namespace Follows

theorem pure (a : α) : Follows (pure a : Watched ε τ α) (pure a) := fun _ => rfl

theorem throw (e : ε) : Follows (throw e : Watched ε τ α) (throw e) := fun _ => rfl

theorem lift (r : Except ε α) : Follows (Watched.ofExcept r : Watched ε τ α) (liftM r) :=
  fun _ => rfl

theorem ofStep (step : ExceptT ε (StateM τ) α) : Follows (Watched.ofStep step) step := fun _ => rfl

theorem ofCursor (r : Except ε α) (f : α → β) :
    Follows (Watched.ofCursor do
      let a ← r
      return f a : Watched ε τ β)
    (do
      let a ← r
      return f a) := by
  cases r with
  | ok a => exact .pure (f a)
  | error e => exact .throw e

/-- What comes after a watched step need follow only for results that the step comes to. -/
theorem bind_map {γ : Type} {watched : Watched ε τ β} {step : ExceptT ε (StateM τ) α} {f : α → β}
    {later : β → Watched ε τ γ} {next : α → ExceptT ε (StateM τ) γ}
    (h : Follows watched do
      let a ← step
      return f a)
    (hnext : ∀ s a after, step.run.run s = (.ok a, after) → Follows (later (f a)) (next a)) :
    Follows (watched >>= later) (step >>= next) := by
  intro s
  have hrun : (watched >>= later).run.run s =
      (watched.run.run s >>= fun r => (ExceptT.bindCont later r.1).run r.2) := rfl
  rw [hrun, h s, run_bind, run_bind]
  cases hstep : step.run.run s with
  | mk r after =>
    cases r with
    | ok a => exact hnext s a after hstep after
    | error e => rfl

theorem bind {watched : Watched ε τ α} {step : ExceptT ε (StateM τ) α} {later : α → Watched ε τ β}
    {next : α → ExceptT ε (StateM τ) β} (h : Follows watched step)
    (hnext : ∀ a, Follows (later a) (next a)) : Follows (watched >>= later) (step >>= next) := by
  have hsame : Follows watched (step >>= fun a => Pure.pure (id a)) := by
    simp only [id, bind_pure]
    exact h
  exact hsame.bind_map fun _ a _ _ => hnext a

end Follows

end

/-! ### Reading with a cursor -/

/-- A number of dice, as a machine word. -/
def diceWord (n : Nat) : Except Lapse Nat :=
  if n < 0x10000000000000000 then .ok n else .error .countTooWide

theorem diceWord_eq {limits : Limits} {n : Nat} (hword : limits.maxDice < 0x10000000000000000)
    (h : n ≤ limits.maxDice) : diceWord n = .ok n :=
  if_pos (Nat.lt_of_le_of_lt h hword)

/-- The number that a run of digits stands for. No other text stands for one. -/
def Text.number? (digits : List Char) : Option Nat :=
  if digits ≠ [] ∧ digits.all Char.isDigit then
    some (digits.foldl (fun n c => 10 * n + (c.toNat - '0'.toNat)) 0)
  else none

namespace Cursor

def hasNext (cur : Cursor) : Bool := !cur.ahead.isEmpty

/-- The kind of the next lexeme. -/
def peek (cur : Cursor) : Option Kind := cur.ahead.head?.map Placed.kind

/-- The kind of the next lexeme, if it starts where the one before ends. -/
def peekTouching (cur : Cursor) : Option Kind :=
  match cur.ahead with
  | [] => none
  | p :: _ => if some p.extent.start = cur.lastEnd then some p.kind else none

/-- The text of the next lexeme. -/
def peekText (cur : Cursor) : Except Lapse (Option (List Char)) :=
  match cur.ahead with
  | [] => return none
  | p :: _ => return some (← cur.slice p.extent)

/-- Goes past the next lexeme, if there is one, and gives its kind and its text. -/
def read (cur : Cursor) : Except Lapse (Option (Kind × List Char) × Cursor) :=
  match cur.ahead with
  | [] => return (none, cur)
  | p :: ps => do
    let text ← cur.slice p.extent
    return (some (p.kind, text), { cur with ahead := ps, lastEnd := some p.extent.stop })

def skip (cur : Cursor) : Except Lapse Cursor := do
  let (_, next) ← cur.read
  return next

/-- The number of a run of digits, which must come next. -/
def readNumber (cur : Cursor) : Except Lapse (Nat × Cursor) := do
  match ← cur.read with
  | (some (.integer, digits), next) =>
    match Text.number? digits with
    | some n => return (n, next)
    | none => throw .noDigits
  | _ => throw .noDigits

/-- The number of a run of digits, if one comes next. -/
def readNumber? (cur : Cursor) : Except Lapse (Option Nat × Cursor) := do
  match cur.peek with
  | some .integer =>
    match ← cur.read with
    | (some (_, digits), next) =>
      match Text.number? digits with
      | some n => return (some n, next)
      | none => throw .lostDigits
    | (none, _) => throw .lostDigits
  | _ => return (none, cur)

/-- The number of a run of digits, if one comes next that starts where the lexeme before ends. -/
def readTouchingNumber? (cur : Cursor) : Except Lapse (Option Nat × Cursor) :=
  match cur.peekTouching with
  | some .integer => cur.readNumber?
  | _ => return (none, cur)

/-- The name between brackets, which must come next. It is what is left of the lexeme without its first
and its last byte. -/
def readName (cur : Cursor) : Except Lapse (String × Cursor) := do
  match ← cur.read with
  | (some (.formula, text), next) =>
    let stop ← oneLess .misplacedSlice (Text.byteCount text)
    match Text.slice? text ⟨1, stop⟩ with
    | some name => return (String.ofList name, next)
    | none => throw .misplacedSlice
  | _ => throw .noName

/-- The first character of the next lexeme. -/
def peekSymbol (cur : Cursor) : Except Lapse Char := do
  match ← cur.peekText with
  | some (c :: _) => return c
  | _ => throw .noCharacter

section

variable {cur : Cursor} {before ls : List Lexeme} {l : Lexeme}

theorem IsAt.slice_eq (h : cur.IsAt before (l :: ls)) :
    cur.slice (l.place (endOf before)).extent = .ok l.text := by
  rw [slice, slice?_place h.lexed]

theorem IsAt.matches {kind : Kind} (h : cur.IsAt before (l :: ls)) (hk : l.kind = kind) :
    kind.Matches l.text := by
  rw [← hk]
  obtain ⟨rest, -, hrest⟩ := exists_rest_of_lex h.lexed
  obtain ⟨after, hn, -⟩ := lex_eq_cons_iff.1 hrest
  exact (next?_eq_some_iff.1 hn).2.2.1

theorem IsAt.peek_eq (h : cur.IsAt before ls) : cur.peek = ls.head?.map Lexeme.kind := by
  cases ls with
  | nil =>
    rw [peek, h.ahead]
    rfl
  | cons l ls =>
    rw [peek, h.ahead_eq_cons]
    rfl

theorem IsAt.read_eq (h : cur.IsAt before (l :: ls)) :
    cur.read = .ok (some (l.kind, l.text), cur.past (before ++ [l]) ls) := by
  have hstop : (l.place (endOf before)).extent.stop = endOf (before ++ [l]) := by
    simp [endOf, Lexeme.place, Lexeme.byteCount]
  simp only [read, h.ahead_eq_cons, h.slice_eq, hstop]
  rfl

theorem IsAt.skip_eq (h : cur.IsAt before (l :: ls)) :
    cur.skip = .ok (cur.past (before ++ [l]) ls) := by
  rw [skip, h.read_eq]
  rfl

theorem number?_text {l : Lexeme} (h : Kind.integer.Matches l.text) :
    Text.number? l.text = some l.value := by
  have hall : l.text.all Char.isDigit = true := List.all_eq_true.2 h.2
  simp only [Text.number?, ne_eq, h.1, not_false_eq_true, hall, and_self, ↓reduceIte]
  rfl

theorem IsAt.readNumber_eq (h : cur.IsAt before (l :: ls)) (hk : l.kind = .integer) :
    cur.readNumber = .ok (l.value, cur.past (before ++ [l]) ls) := by
  rw [readNumber, h.read_eq, hk]
  simp only [bind, Except.bind, number?_text (h.matches hk)]
  rfl

theorem IsAt.readNumber?_eq (h : cur.IsAt before (l :: ls)) (hk : l.kind = .integer) :
    cur.readNumber? = .ok (some l.value, cur.past (before ++ [l]) ls) := by
  rw [readNumber?, h.peek_eq, h.read_eq]
  simp only [List.head?_cons, Option.map_some, hk, bind, Except.bind, number?_text (h.matches hk)]
  rfl

theorem IsAt.readName_eq (h : cur.IsAt before (l :: ls)) (hk : l.kind = .formula) :
    cur.readName = .ok (l.name, cur.past (before ++ [l]) ls) := by
  obtain ⟨name, htext, -⟩ := h.matches hk
  have hname : l.name = String.ofList name := by
    have htail : l.tail = name ++ [']'] := (List.cons.inj htext).2
    rw [Lexeme.name, htail, List.dropLast_concat]
  have hone : ('['.utf8Size, ']'.utf8Size) = (1, 1) := by decide
  obtain ⟨hopen, hclose⟩ := Prod.mk.inj hone
  have hcount : Text.byteCount l.text = 1 + Text.byteCount name + 1 := by
    rw [htext]
    simp [hopen, hclose, Nat.add_assoc]
  have hslice : Text.slice? l.text ⟨1, 1 + Text.byteCount name⟩ = some name := by
    have hwhole := Text.slice?_append ['['] name [']']
    rw [htext]
    simpa [hopen] using hwhole
  rw [readName, h.read_eq, hk]
  simp only [bind, Except.bind, hcount, oneLess, hslice, hname]
  rfl

theorem IsAt.peekText_eq (h : cur.IsAt before (l :: ls)) : cur.peekText = .ok (some l.text) := by
  simp only [peekText, h.ahead_eq_cons, h.slice_eq]
  rfl

theorem IsAt.peekSymbol_eq (h : cur.IsAt before (l :: ls)) : cur.peekSymbol = .ok l.head := by
  rw [peekSymbol, h.peekText_eq]
  rfl

/-! ### Lexemes that touch -/

theorem isAt_past (h : lex cur.text = before ++ ls) : (cur.past before ls).IsAt before ls := ⟨h, rfl⟩

theorem peekTouching_past (h : lex cur.text = before ++ l :: ls) :
    (cur.past before (l :: ls)).peekTouching = if l.isAdjacent then some l.kind else none := by
  have htouch :
      some (endOf before + Text.byteCount l.gap) = some (endOf before) ↔ l.isAdjacent = true := by
    rw [Option.some_inj, Lexeme.isAdjacent, List.isEmpty_iff, ← Text.byteCount_eq_zero_iff]
    omega
  have hlast : (cur.past before (l :: ls)).lastEnd = some (endOf before) := rfl
  simp only [peekTouching, (isAt_past h).ahead_eq_cons, hlast, Lexeme.place, htouch]

theorem readTouchingNumber?_of_number (h : lex cur.text = before ++ l :: ls)
    (hl : l.isAdjacent = true ∧ l.kind = .integer) :
    (cur.past before (l :: ls)).readTouchingNumber? =
      .ok (some l.value, cur.past (before ++ [l]) ls) := by
  rw [readTouchingNumber?, peekTouching_past h, if_pos hl.1, hl.2]
  exact (isAt_past h).readNumber?_eq hl.2

theorem readTouchingNumber?_of_other (h : lex cur.text = before ++ ls)
    (hls : ∀ l, ls.head? = some l → ¬(l.isAdjacent = true ∧ l.kind = .integer)) :
    (cur.past before ls).readTouchingNumber? = .ok (none, cur.past before ls) := by
  cases ls with
  | nil => rfl
  | cons l ls =>
    rw [readTouchingNumber?, peekTouching_past h]
    by_cases hl : l.isAdjacent = true
    · have hk : l.kind ≠ .integer := fun hk => hls l rfl ⟨hl, hk⟩
      simp only [hl, ↓reduceIte]
      split
      · next heq => exact absurd (Option.some.inj heq) hk
      · rfl
    · simp only [hl, Bool.false_eq_true, ↓reduceIte]
      rfl

end

/-! ### Dice -/

section

variable (limits : Limits)

/-- The number of faces of a die, right after its letter. -/
def readSides (cur : Cursor) : Step (Nat × Cursor) := do
  match ← cur.readTouchingNumber? with
  | (some sides, next) =>
    if sides ≤ limits.maxSides then return (sides, next) else throw (.tooManySides sides)
  | (none, _) => throw .missingDieType

/-- The number of dice that a keep letter names. -/
def readKeepCount (cur : Cursor) : Step (Nat × Cursor) := do
  match ← cur.readTouchingNumber? with
  | (some n, next) =>
    if n ≤ limits.maxDice then return (← diceWord n, next) else throw (.tooManyDice n)
  | (none, next) => return (1, next)

def readCounted (rule : Nat → Keep) (cur : Cursor) : Step (Keep × Cursor) := do
  let (n, next) ← readKeepCount limits (← cur.skip)
  return (rule n, next)

/-- The keep rule after a die's number of faces. -/
def readKeep (cur : Cursor) : Step (Keep × Cursor) :=
  match cur.peekTouching with
  | some .highest => cur.readCounted limits .highest
  | some .lowest => cur.readCounted limits .lowest
  | some .unknown => do
    let c ← cur.peekSymbol
    if Text.isAlphabetic c then throw (.invalidDieExtension c.toLower) else return (.all, cur)
  | _ => return (.all, cur)

end

/-- A cursor that has read the lexemes `before` of its text and has `ls` ahead comes to what reading
these lexemes comes to, and goes past those that were used up. -/
structure Reads {α : Type} (cur : Cursor) (before ls : List Lexeme) (step : Step (α × Cursor))
    (outcome : Except ParseError (α × List Lexeme)) : Prop where
  ok : ∀ a rest, outcome = .ok (a, rest) →
    ∃ used, ls = used ++ rest ∧ step = return (a, cur.past (before ++ used) rest)
  error : ∀ e, outcome = .error e → step = throw e

section

variable {limits : Limits} {cur : Cursor} {before ls : List Lexeme} {l : Lexeme}

theorem Reads.result {α : Type} {step : Step (α × Cursor)} {a : α} {rest : List Lexeme}
    (used : List Lexeme) (hls : ls = used ++ rest)
    (h : step = return (a, cur.past (before ++ used) rest)) :
    cur.Reads before ls step (.ok (a, rest)) := by
  constructor
  · rintro _ _ ⟨⟩
    exact ⟨used, hls, h⟩
  · nofun

theorem Reads.unread {α : Type} {step : Step (α × Cursor)} {a : α}
    (h : step = return (a, cur.past before ls)) : cur.Reads before ls step (.ok (a, ls)) := by
  refine .result [] rfl ?_
  rw [List.append_nil]
  exact h

theorem Reads.refused {α : Type} {step : Step (α × Cursor)} {e : ParseError} (h : step = throw e) :
    cur.Reads before ls step (.error e) := by
  constructor
  · nofun
  · rintro _ ⟨⟩
    exact h

theorem readSides_of_number (h : lex cur.text = before ++ l :: ls)
    (hl : l.isAdjacent = true ∧ l.kind = .integer) :
    (cur.past before (l :: ls)).readSides limits =
      if l.value ≤ limits.maxSides then return (l.value, cur.past (before ++ [l]) ls)
      else throw (.tooManySides l.value) := by
  rw [readSides, readTouchingNumber?_of_number h hl]
  rfl

theorem readSides_of_other (h : lex cur.text = before ++ ls)
    (hls : ∀ l, ls.head? = some l → ¬(l.isAdjacent = true ∧ l.kind = .integer)) :
    (cur.past before ls).readSides limits = throw .missingDieType := by
  rw [readSides, readTouchingNumber?_of_other h hls]
  rfl

theorem readKeepCount_of_number (h : lex cur.text = before ++ l :: ls)
    (hl : l.isAdjacent = true ∧ l.kind = .integer) :
    (cur.past before (l :: ls)).readKeepCount limits =
      if l.value ≤ limits.maxDice then do
        let n ← diceWord l.value
        return (n, cur.past (before ++ [l]) ls)
      else throw (.tooManyDice l.value) := by
  rw [readKeepCount, readTouchingNumber?_of_number h hl]
  rfl

theorem readKeepCount_of_other (h : lex cur.text = before ++ ls)
    (hls : ∀ l, ls.head? = some l → ¬(l.isAdjacent = true ∧ l.kind = .integer)) :
    (cur.past before ls).readKeepCount limits = return (1, cur.past before ls) := by
  rw [readKeepCount, readTouchingNumber?_of_other h hls]
  rfl

theorem reads_readKeepCount (hword : limits.maxDice < 0x10000000000000000)
    (h : lex cur.text = before ++ ls) :
    cur.Reads before ls ((cur.past before ls).readKeepCount limits) (Item.readKeepCount limits ls) := by
  cases ls with
  | nil => exact .unread (readKeepCount_of_other h nofun)
  | cons l ls =>
    simp only [Item.readKeepCount]
    by_cases hl : l.isAdjacent = true ∧ l.kind = .integer
    · rw [if_pos hl, readKeepCount_of_number h hl]
      by_cases hle : l.value ≤ limits.maxDice
      · rw [if_pos hle, if_pos hle, diceWord_eq hword hle]
        exact .result [l] rfl rfl
      · rw [if_neg hle, if_neg hle]
        exact .refused rfl
    · rw [if_neg hl]
      refine .unread (readKeepCount_of_other h ?_)
      rintro _ ⟨⟩
      exact hl

theorem reads_readCounted (rule : Nat → Keep) (hword : limits.maxDice < 0x10000000000000000)
    (h : lex cur.text = before ++ l :: ls) :
    cur.Reads before (l :: ls) ((cur.past before (l :: ls)).readCounted limits rule)
      ((Item.readKeepCount limits ls).map fun (n, rest) => (rule n, rest)) := by
  have hskip : (cur.past before (l :: ls)).skip = .ok (cur.past (before ++ [l]) ls) :=
    (isAt_past h).skip_eq
  have hreads := reads_readKeepCount hword (h.trans (List.append_cons before l ls))
  rw [readCounted, hskip]
  cases hcount : Item.readKeepCount limits ls with
  | ok r =>
    obtain ⟨n, rest⟩ := r
    obtain ⟨used, hls, hstep⟩ := hreads.ok n rest hcount
    refine .result (l :: used) (congrArg (l :: ·) hls) ?_
    rw [List.append_cons before l used]
    exact congrArg (· >>= _) hstep
  | error e => exact .refused (congrArg (· >>= _) (hreads.error e hcount))

theorem reads_readKeep (hword : limits.maxDice < 0x10000000000000000)
    (h : lex cur.text = before ++ ls) :
    cur.Reads before ls ((cur.past before ls).readKeep limits) (Item.readKeep limits ls) := by
  cases ls with
  | nil => exact .unread rfl
  | cons l ls =>
    simp only [Item.readKeep]
    rw [readKeep, peekTouching_past h]
    by_cases hl : l.isAdjacent = true
    · rw [if_pos hl, if_pos hl]
      cases hk : l.kind with
      | highest => exact reads_readCounted .highest hword h
      | lowest => exact reads_readCounted .lowest hword h
      | unknown =>
        simp only [(isAt_past h).peekSymbol_eq]
        by_cases hletter : Text.isAlphabetic l.head = true
        · simp only [hletter, ↓reduceIte]
          exact .refused (if_pos hletter)
        · simp only [hletter, Bool.false_eq_true, ↓reduceIte]
          exact .unread (if_neg hletter)
      | _ => exact .unread rfl
    · rw [if_neg hl, if_neg hl]
      exact .unread rfl

end

end Cursor

end DiceExpr

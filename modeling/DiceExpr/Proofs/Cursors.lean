import DiceExpr.Proofs.Grouping

/-!
# Cursors

A cursor goes over the lexemes of a text by their places, which count the bytes before them. What a
lexeme says is taken out of the text between its two places, and so is the text of a group, whose end is
found by counting parentheses among the lexemes. Some things must not happen on the way: a place could
be past the end of the text or within a character, and a counter could fall below zero. They are lapses,
and a cursor stops there.

## Main statements

* `Text.slice?_append`: what stands between two places.
* `slice?_place`: the places of a lexeme are those of its text.
* `openAfter_eq_some_iff`: counting open groups is comparing numbers of parentheses.
* `extractGroup_exact`: which text a cursor takes out as a group, and that its lexemes stay the same.
-/

namespace DiceExpr

open Lexeme Item

/-! ### Places -/

/-- Two places in a text, as the numbers of bytes before them. -/
structure Extent where
  start : Nat
  stop : Nat
  deriving DecidableEq

/-- The same two places in a text that has some more bytes in front. -/
def Extent.shift (front : Nat) (s : Extent) : Extent := ⟨front + s.start, front + s.stop⟩

namespace Text

/-- The number of bytes that a text takes up. -/
def byteCount : List Char → Nat
  | [] => 0
  | c :: text => c.utf8Size + byteCount text

/-- A text in two parts, the first of which takes up some bytes. There are none if this is past the end
of the text or within a character. -/
def divide? : List Char → Nat → Option (List Char × List Char)
  | text, 0 => some ([], text)
  | [], _ + 1 => none
  | c :: text, n + 1 =>
    if c.utf8Size ≤ n + 1 then
      (divide? text (n + 1 - c.utf8Size)).map fun (front, rest) => (c :: front, rest)
    else none

/-- What stands between two places of a text. Places that are out of order, past the end of the text or
within a character have nothing between them. -/
def slice? (text : List Char) (extent : Extent) : Option (List Char) :=
  if extent.start ≤ extent.stop then
    (divide? text extent.start).bind fun (_, rest) =>
      (divide? rest (extent.stop - extent.start)).map fun (part, _) => part
  else none

@[simp]
theorem byteCount_nil : byteCount [] = 0 := rfl

@[simp]
theorem byteCount_cons (c : Char) (text : List Char) :
    byteCount (c :: text) = c.utf8Size + byteCount text := rfl

@[simp]
theorem byteCount_append (text more : List Char) :
    byteCount (text ++ more) = byteCount text + byteCount more := by
  induction text with
  | nil => simp
  | cons c text ih => simp [ih, Nat.add_assoc]

theorem byteCount_eq_zero_iff {text : List Char} : byteCount text = 0 ↔ text = [] := by
  cases text with
  | nil => simp
  | cons c text =>
    have hpos := c.utf8Size_pos
    simp only [byteCount_cons, List.cons_ne_nil, iff_false]
    omega

theorem divide?_append (front rest : List Char) :
    divide? (front ++ rest) (byteCount front) = some (front, rest) := by
  induction front with
  | nil => cases rest <;> rfl
  | cons c front ih =>
    have hpos := c.utf8Size_pos
    obtain ⟨n, hn⟩ : ∃ n, byteCount (c :: front) = n + 1 := by
      refine ⟨byteCount (c :: front) - 1, ?_⟩
      rw [byteCount_cons]
      omega
    have hfits : c.utf8Size ≤ n + 1 := by
      rw [← hn, byteCount_cons]
      omega
    have hrest : n + 1 - c.utf8Size = byteCount front := by
      rw [← hn, byteCount_cons]
      omega
    simp [hn, divide?, hfits, hrest, ih]

theorem slice?_append (before part after : List Char) :
    slice? (before ++ (part ++ after)) ⟨byteCount before, byteCount before + byteCount part⟩ =
      some part := by
  have hlength : byteCount before + byteCount part - byteCount before = byteCount part := by omega
  simp [slice?, divide?_append, hlength]

end Text

/-- A lexeme by its kind and its places. -/
structure Placed where
  kind : Kind
  extent : Extent
  deriving DecidableEq

def Placed.shift (front : Nat) (p : Placed) : Placed := ⟨p.kind, p.extent.shift front⟩

namespace Lexeme

def byteCount (l : Lexeme) : Nat := Text.byteCount l.source

/-- A lexeme whose blanks start at a place. -/
def place (start : Nat) (l : Lexeme) : Placed :=
  ⟨l.kind, ⟨start + Text.byteCount l.gap, start + l.byteCount⟩⟩

end Lexeme

/-- Lexemes one after the other, the blanks of the first of which start at a place. -/
def placed (start : Nat) : List Lexeme → List Placed
  | [] => []
  | l :: ls => l.place start :: placed (start + l.byteCount) ls

/-- The place where lexemes end that a text starts with. -/
def endOf (ls : List Lexeme) : Nat := Text.byteCount (ls.flatMap source)

theorem placed_append (start : Nat) (ls more : List Lexeme) :
    placed start (ls ++ more) = placed start ls ++ placed (start + endOf ls) more := by
  induction ls generalizing start with
  | nil => simp [placed, endOf]
  | cons l ls ih => simp [placed, endOf, ih, Lexeme.byteCount, Nat.add_assoc]

theorem map_shift_placed (front start : Nat) (ls : List Lexeme) :
    (placed start ls).map (Placed.shift front) = placed (front + start) ls := by
  induction ls generalizing start with
  | nil => rfl
  | cons l ls ih => simp [placed, ih, Lexeme.place, Placed.shift, Extent.shift, Nat.add_assoc]

theorem length_placed (start : Nat) (ls : List Lexeme) : (placed start ls).length = ls.length := by
  induction ls generalizing start with
  | nil => rfl
  | cons l ls ih => simp [placed, ih]

theorem exists_of_mem_placed {start : Nat} {ls : List Lexeme} {p : Placed} (h : p ∈ placed start ls) :
    ∃ front l rest, ls = front ++ l :: rest ∧ p = l.place (start + endOf front) := by
  induction ls generalizing start with
  | nil => cases h
  | cons l ls ih =>
    rcases List.mem_cons.1 h with rfl | h
    · exact ⟨[], l, ls, rfl, rfl⟩
    · obtain ⟨front, m, rest, rfl, rfl⟩ := ih h
      refine ⟨l :: front, m, rest, rfl, ?_⟩
      simp [endOf, Lexeme.byteCount, Nat.add_assoc]

/-- What stands between the places of a lexeme is its text. -/
theorem slice?_place {text : List Char} {ls more : List Lexeme} {l : Lexeme}
    (h : lex text = ls ++ l :: more) : Text.slice? text (l.place (endOf ls)).extent = some l.text := by
  obtain ⟨after, rfl, hafter⟩ := exists_rest_of_lex h
  obtain ⟨rest, hn, -⟩ := lex_eq_cons_iff.1 hafter
  have hslice := Text.slice?_append (ls.flatMap source ++ l.gap) l.text rest
  rw [← source_next? hn]
  simpa [source, Lexeme.place, Lexeme.byteCount, endOf, Nat.add_assoc] using hslice

/-- What stands between two lexemes, with the blanks before the second. -/
theorem slice?_between {text : List Char} {ls inner more : List Lexeme} {l close : Lexeme}
    (h : lex text = ls ++ l :: (inner ++ close :: more)) :
    Text.slice? text ⟨(l.place (endOf ls)).extent.stop,
        (close.place (endOf (ls ++ l :: inner))).extent.start⟩ =
      some (inner.flatMap source ++ close.gap) := by
  have hsplit : ls ++ l :: (inner ++ close :: more) = (ls ++ l :: (inner ++ [close])) ++ more := by simp
  rw [hsplit] at h
  obtain ⟨after, rfl, -⟩ := exists_rest_of_lex h
  have hslice := Text.slice?_append ((ls ++ [l]).flatMap source) (inner.flatMap source ++ close.gap)
    (close.text ++ after)
  simpa [source, Lexeme.place, Lexeme.byteCount, endOf, Nat.add_assoc] using hslice

/-! ### Counting parentheses -/

/-- How many of some lexemes open a group. -/
def openings (ls : List Lexeme) : Nat := ls.countP fun l => l.kind = .openParen

/-- How many of some lexemes close a group. -/
def closings (ls : List Lexeme) : Nat := ls.countP fun l => l.kind = .closeParen

theorem openings_cons (l : Lexeme) (ls : List Lexeme) :
    openings (l :: ls) = openings ls + if l.kind = .openParen then 1 else 0 := by
  simp [openings, List.countP_cons]

theorem closings_cons (l : Lexeme) (ls : List Lexeme) :
    closings (l :: ls) = closings ls + if l.kind = .closeParen then 1 else 0 := by
  simp [closings, List.countP_cons]

theorem Lexeme.Kind.opens_eq {kind : Kind} {opened after : Nat} (h : kind.opens opened = some after) :
    after + (if kind = .closeParen then 1 else 0) = opened + if kind = .openParen then 1 else 0 := by
  cases kind with
  | closeParen =>
    cases opened with
    | zero => cases h
    | succ n =>
      cases h
      rfl
  | _ =>
    cases h
    rfl

/-- Lexemes that no group is closed in too early, by the numbers of parentheses in front parts. -/
theorem openAfter_eq_some_iff {opened after : Nat} {ls : List Lexeme} :
    openAfter opened ls = some after ↔
      after + closings ls = opened + openings ls ∧
        ∀ front, front <+: ls → closings front ≤ opened + openings front := by
  induction ls generalizing opened with
  | nil => simp [openAfter, openings, closings, eq_comm]
  | cons l ls ih =>
    simp only [openAfter]
    cases hk : l.kind.opens opened with
    | none =>
      obtain ⟨hclose, rfl⟩ := closeParen_of_opens hk
      simp only [Option.bind_none, false_iff, reduceCtorEq]
      rintro ⟨-, hfront⟩
      have htoo := hfront [l] (by simp)
      simp [hclose, closings, openings] at htoo
    | some n =>
      have hn := Kind.opens_eq hk
      simp only [Option.bind_some, ih, closings_cons, openings_cons]
      constructor
      · rintro ⟨hcount, hfront⟩
        refine ⟨by omega, fun front hprefix => ?_⟩
        rcases List.prefix_cons_iff.1 hprefix with rfl | ⟨inner, rfl, hinner⟩
        · simp [closings]
        · have hle := hfront inner hinner
          rw [closings_cons, openings_cons]
          omega
      · rintro ⟨hcount, hfront⟩
        refine ⟨by omega, fun front hprefix => ?_⟩
        have hle := hfront (l :: front) (by simpa using hprefix)
        rw [closings_cons, openings_cons] at hle
        omega

/-- Where some parenthesis closes as many groups as were opened, there is a first one that does. -/
theorem exists_first_close {inner rest : List Lexeme} {close : Lexeme}
    (hclose : close.kind = .closeParen) (heven : closings inner = openings inner) :
    ∃ first last later, inner ++ close :: rest = first ++ last :: later ∧ last.kind = .closeParen ∧
      openAfter 0 first = some 0 := by
  have hnone : openAfter 0 (inner ++ [close]) = none := by
    cases h : openAfter 0 (inner ++ [close]) with
    | none => rfl
    | some after =>
      have hcount := (openAfter_eq_some_iff.1 h).1
      simp only [openings, closings, List.countP_append] at hcount heven
      simp [hclose] at hcount
      omega
  obtain ⟨first, last, later, hsplit, hlast, hfirst⟩ := exists_close_of_openAfter hnone
  refine ⟨first, last, later ++ rest, ?_, hlast, hfirst⟩
  rw [List.append_cons, hsplit, List.append_assoc, List.cons_append]

theorem readGroup_eq_none {opened after : Nat} {ls : List Lexeme}
    (h : openAfter opened ls = some after) : readGroup opened ls = none := by
  have hread := readGroup_append h []
  rwa [List.append_nil] at hread

/-! ### Cursors -/

/-- Something that must not happen while an expression is read or rolled. -/
inductive Lapse where
  /-- A place is past the end of a text or within a character, or two places are out of order. -/
  | misplacedSlice
  /-- A number is read off a lexeme that is no run of digits. -/
  | noDigits
  /-- A run of digits is used up but gives no number. -/
  | lostDigits
  /-- A name is read off a lexeme that is none in brackets. -/
  | noName
  /-- A character is asked for where there is none. -/
  | noCharacter
  /-- A value that stands before a die or a group is not there. -/
  | missingCount
  /-- An operator stands in the place of a count. -/
  | operatorAsCount
  /-- A text with lexemes in it is read as an empty one. -/
  | emptyWithLexemes
  /-- A round of reading uses up no lexeme. -/
  | standstill
  /-- The number of open groups falls below zero. -/
  | groupsBelowZero
  /-- The number of bodies around a reader falls below zero. -/
  | depthBelowZero
  /-- One less than the number of faces of a die falls below zero. -/
  | facesBelowZero
  /-- A number of dice that the limits allow does not fit into a machine word. -/
  | countTooWide
  deriving DecidableEq

/-- One less than a number. -/
def oneLess (lapse : Lapse) : Nat → Except Lapse Nat
  | 0 => .error lapse
  | n + 1 => .ok n

/-- A place in a text from which its lexemes are read. -/
structure Cursor where
  text : List Char
  /-- The lexemes that are not read yet. -/
  ahead : List Placed
  /-- The place where the lexeme that was read last ends. -/
  lastEnd : Option Nat := none

namespace Cursor

def ofText (text : List Char) : Cursor := { text, ahead := placed 0 (lex text) }

/-- What a cursor comes to: a lapse, an error or a result. -/
abbrev Step (α : Type) := ExceptT ParseError (Except Lapse) α

def slice (cur : Cursor) (extent : Extent) : Except Lapse (List Char) :=
  match Text.slice? cur.text extent with
  | some part => .ok part
  | none => .error .misplacedSlice

/-- The parenthesis that closes the innermost of some open groups, and what comes after it. -/
def closeGroup : Nat → List Placed → Step (Placed × List Placed)
  | _, [] => throw .mismatchedParentheses
  | opened, p :: ps =>
    match p.kind with
    | .openParen => closeGroup (opened + 1) ps
    | .closeParen =>
      if opened = 1 then return (p, ps)
      else do
        let opened ← oneLess .groupsBelowZero opened
        closeGroup opened ps
    | _ => closeGroup opened ps

/-- Takes out the text of a group. -/
def extractGroup (cur : Cursor) : Step (List Char × Cursor) :=
  match cur.ahead with
  | [] => throw .mismatchedParentheses
  | p :: ps => do
    if p.kind ≠ .openParen then throw .mismatchedParentheses
    let (close, later) ← closeGroup 1 ps
    let body ← cur.slice ⟨p.extent.stop, close.extent.start⟩
    return (body, { cur with ahead := later, lastEnd := some close.extent.stop })

/-- A cursor that has read the lexemes `before` of its text and has `ls` ahead. -/
structure IsAt (cur : Cursor) (before ls : List Lexeme) : Prop where
  lexed : lex cur.text = before ++ ls
  ahead : cur.ahead = placed (endOf before) ls

theorem isAt_ofText (text : List Char) : (ofText text).IsAt [] (lex text) := ⟨rfl, rfl⟩

theorem IsAt.ahead_eq_cons {cur : Cursor} {before ls : List Lexeme} {l : Lexeme}
    (h : cur.IsAt before (l :: ls)) :
    cur.ahead = l.place (endOf before) :: placed (endOf (before ++ [l])) ls := by
  rw [h.ahead]
  simp [placed, endOf, Lexeme.byteCount]

/-! ### Taking out a group -/

theorem closeGroup_of_opens {p : Placed} {ps : List Placed} {opened n : Nat}
    (h : p.kind.opens opened = some n) : closeGroup (opened + 1) (p :: ps) = closeGroup (n + 1) ps := by
  simp only [closeGroup]
  cases hk : p.kind with
  | closeParen =>
    rw [hk] at h
    cases opened with
    | zero => cases h
    | succ m =>
      cases h
      rfl
  | _ =>
    rw [hk] at h
    cases h
    rfl

theorem closeGroup_of_closes {p : Placed} (h : p.kind = .closeParen) (ps : List Placed) :
    closeGroup 1 (p :: ps) = return (p, ps) := by
  simp only [closeGroup, h, ↓reduceIte]

theorem closeGroup_placed {opened start : Nat} {inner rest : List Lexeme} {close : Lexeme}
    (h : openAfter opened inner = some 0) (hclose : close.kind = .closeParen) :
    closeGroup (opened + 1) (placed start (inner ++ close :: rest)) =
      return (close.place (start + endOf inner), placed (start + endOf (inner ++ [close])) rest) := by
  induction inner generalizing opened start with
  | nil =>
    cases h
    have hplace : (close.place start).kind = .closeParen := hclose
    simp [placed, closeGroup_of_closes hplace, endOf, Lexeme.byteCount]
  | cons l inner ih =>
    simp only [openAfter] at h
    cases hk : l.kind.opens opened with
    | none => simp [hk] at h
    | some n =>
      rw [hk] at h
      have hplace : (l.place start).kind.opens opened = some n := hk
      rw [List.cons_append, placed, closeGroup_of_opens hplace, ih h]
      simp [endOf, Lexeme.byteCount, Nat.add_assoc]

theorem closeGroup_unclosed {opened start after : Nat} {ls : List Lexeme}
    (h : openAfter opened ls = some after) :
    closeGroup (opened + 1) (placed start ls) = throw .mismatchedParentheses := by
  induction ls generalizing opened start with
  | nil => rfl
  | cons l ls ih =>
    simp only [openAfter] at h
    cases hk : l.kind.opens opened with
    | none => simp [hk] at h
    | some n =>
      rw [hk] at h
      have hplace : (l.place start).kind.opens opened = some n := hk
      rw [placed, closeGroup_of_opens hplace, ih h]

section

variable {cur : Cursor} {before after inner rest : List Lexeme} {l close : Lexeme}

/-- A cursor that went on past the lexemes `before`, with `rest` ahead. -/
def past (cur : Cursor) (before rest : List Lexeme) : Cursor :=
  { cur with ahead := placed (endOf before) rest, lastEnd := some (endOf before) }

theorem IsAt.past {used : List Lexeme} (h : cur.IsAt before (used ++ rest)) :
    (cur.past (before ++ used) rest).IsAt (before ++ used) rest :=
  ⟨by rw [List.append_assoc]; exact h.lexed, rfl⟩

theorem extractGroup_of_close (h : cur.IsAt before (l :: (inner ++ close :: rest)))
    (hl : l.kind = .openParen) (hclose : close.kind = .closeParen) (hopen : openAfter 0 inner = some 0) :
    cur.extractGroup =
      return (inner.flatMap source ++ close.gap, cur.past (before ++ l :: (inner ++ [close])) rest) := by
  have hkind : (l.place (endOf before)).kind = .openParen := hl
  have hbody : cur.slice ⟨(l.place (endOf before)).extent.stop,
      (close.place (endOf (before ++ l :: inner))).extent.start⟩ =
        .ok (inner.flatMap source ++ close.gap) := by
    rw [slice, slice?_between h.lexed]
  have hend : endOf (before ++ [l]) + endOf inner = endOf (before ++ l :: inner) := by
    simp [endOf, Nat.add_assoc]
  have hstop : endOf (before ++ [l]) + endOf (inner ++ [close]) =
      endOf (before ++ l :: (inner ++ [close])) := by
    simp [endOf, Nat.add_assoc]
  have hlast : (close.place (endOf (before ++ l :: inner))).extent.stop =
      endOf (before ++ l :: (inner ++ [close])) := by
    simp [endOf, Lexeme.place, Lexeme.byteCount, Nat.add_assoc]
  simp only [extractGroup, h.ahead_eq_cons, hkind]
  rw [closeGroup_placed hopen hclose, hend, hstop]
  simp only [pure_bind, hbody, hlast]
  rfl

theorem extractGroup_of_unclosed {opened : Nat} (h : cur.IsAt before (l :: after))
    (hl : l.kind = .openParen) (hopen : openAfter 0 after = some opened) :
    cur.extractGroup = throw .mismatchedParentheses := by
  have hkind : (l.place (endOf before)).kind = .openParen := hl
  simp only [extractGroup, h.ahead_eq_cons, hkind]
  rw [closeGroup_unclosed hopen]
  rfl

/-- A parenthesis that closes a group after as many others were closed as opened. -/
structure Closes (after inner : List Lexeme) (close : Lexeme) (rest : List Lexeme) : Prop where
  split : after = inner ++ close :: rest
  kind : close.kind = .closeParen
  even : closings inner = openings inner

/-- What a cursor takes out between two parentheses: a text of its own, in which the lexemes `inner`
have the places that they have between the parentheses, counted from the first, and the same texts. -/
structure TakesOut (cur : Cursor) (first : Placed) (inner : List Lexeme) (last : Placed)
    (body : List Char) (next : Cursor) : Prop where
  result : cur.extractGroup.run = .ok (.ok (body, next))
  between : Text.slice? cur.text ⟨first.extent.stop, last.extent.start⟩ = some body
  lexemes : lex body = inner
  places : cur.ahead =
    first :: ((ofText body).ahead.map (Placed.shift first.extent.stop) ++ last :: next.ahead)
  texts : ∀ p ∈ (ofText body).ahead, ∃ text, Text.slice? body p.extent = some text ∧
    Text.slice? cur.text (p.extent.shift first.extent.stop) = some text
  text : next.text = cur.text
  lastEnd : next.lastEnd = some last.extent.stop

theorem takesOut_of_close (h : cur.IsAt before (l :: (inner ++ close :: rest)))
    (hl : l.kind = .openParen) (hclose : close.kind = .closeParen) (hopen : openAfter 0 inner = some 0) :
    cur.TakesOut (l.place (endOf before)) inner (close.place (endOf (before ++ l :: inner)))
      (inner.flatMap source ++ close.gap) (cur.past (before ++ l :: (inner ++ [close])) rest) := by
  have hlexed : lex cur.text = (before ++ [l]) ++ (inner ++ close :: rest) := by
    rw [h.lexed, List.append_assoc]
    rfl
  have hinner : lex (inner.flatMap source ++ close.gap) = inner :=
    (IsLexed.of_append ⟨cur.text, [], hlexed⟩).lex_before
  have hend : endOf (before ++ [l]) = (l.place (endOf before)).extent.stop := by
    simp [endOf, Lexeme.place, Lexeme.byteCount]
  refine ⟨?_, slice?_between h.lexed, hinner, ?_, ?_, rfl, ?_⟩
  · rw [extractGroup_of_close h hl hclose hopen]
    rfl
  · rw [h.ahead_eq_cons, placed_append, ofText, hinner, map_shift_placed, ← hend]
    simp [placed, Cursor.past, endOf, Lexeme.byteCount, Nat.add_assoc]
  · intro p hp
    rw [ofText, hinner] at hp
    obtain ⟨front, m, later, rfl, rfl⟩ := exists_of_mem_placed hp
    have hplace : (m.place (0 + endOf front)).extent.shift (l.place (endOf before)).extent.stop =
        (m.place (endOf (before ++ l :: front))).extent := by
      rw [← hend]
      simp [endOf, Extent.shift, Lexeme.place, Nat.add_assoc]
    have houter : lex cur.text = (before ++ l :: front) ++ m :: (later ++ close :: rest) := by
      rw [h.lexed]
      simp
    refine ⟨m.text, ?_, ?_⟩
    · rw [Nat.zero_add]
      exact slice?_place hinner
    · rw [hplace]
      exact slice?_place houter
  · simp [Cursor.past, endOf, Lexeme.place, Lexeme.byteCount, Nat.add_assoc]

/-- A cursor at a parenthesis that opens a group takes out the text up to the first parenthesis that
closes as many as are opened, and goes on right after that one. The text has just the lexemes that stand
between the two. Where no parenthesis does, the group is refused. -/
theorem extractGroup_exact (h : cur.IsAt before (l :: after)) (hl : l.kind = .openParen) :
    ((∃ inner close rest, Closes after inner close rest) →
      ∃ inner close rest body next, Closes after inner close rest ∧
        (∀ front, front <+: inner → closings front ≤ openings front) ∧
        cur.TakesOut (l.place (endOf before)) inner (close.place (endOf (before ++ l :: inner))) body
          next ∧
        next.IsAt (before ++ l :: (inner ++ [close])) rest ∧
        readGroup 0 after = some (body, rest)) ∧
    ((¬∃ inner close rest, Closes after inner close rest) →
      cur.extractGroup.run = .ok (.error .mismatchedParentheses) ∧ readGroup 0 after = none) := by
  constructor
  · rintro ⟨_, _, _, rfl, hclose, heven⟩
    obtain ⟨inner, close, rest, hsplit, hlast, hopen⟩ := exists_first_close hclose heven
    rw [hsplit] at h ⊢
    obtain ⟨hcount, hfront⟩ := openAfter_eq_some_iff.1 hopen
    simp only [Nat.zero_add] at hcount hfront
    have hused : cur.IsAt before ((l :: (inner ++ [close])) ++ rest) := by simpa using h
    have htakes := takesOut_of_close h hl hlast hopen
    refine ⟨inner, close, rest, _, _, ⟨rfl, hlast, hcount⟩, hfront, htakes, hused.past, ?_⟩
    exact readGroup_eq_some_iff.2 ⟨inner, close, rfl, hlast, hopen, rfl⟩
  · intro hnone
    cases hopen : openAfter 0 after with
    | none =>
      obtain ⟨inner, close, rest, hsplit, hclose, hinner⟩ := exists_close_of_openAfter hopen
      have hcount := (openAfter_eq_some_iff.1 hinner).1
      rw [Nat.zero_add, Nat.zero_add] at hcount
      exact absurd ⟨inner, close, rest, hsplit, hclose, hcount⟩ hnone
    | some opened =>
      refine ⟨?_, readGroup_eq_none hopen⟩
      rw [extractGroup_of_unclosed h hl hopen]
      rfl

/-- The parenthesis between brackets closes no group, and those of the group inside leave this one
open. -/
theorem extractGroup_exact_bracketed :
    ∃ (cur : Cursor) (before after : List Lexeme) (l : Lexeme),
      cur.text = "2(é[)](1) )d6".toList ∧ cur.IsAt before (l :: after) ∧ l.kind = .openParen ∧
        (∃ inner close rest, Closes after inner close rest) ∧
        ∃ next, cur.extractGroup.run = .ok (.ok ("é[)](1) ".toList, next)) := by
  let two : Lexeme := ⟨[], .integer, '2', []⟩
  let l : Lexeme := ⟨[], .openParen, '(', []⟩
  let inner : List Lexeme := [⟨[], .unknown, 'é', []⟩, ⟨[], .formula, '[', [')', ']']⟩, l,
    ⟨[], .integer, '1', []⟩, ⟨[], .closeParen, ')', []⟩]
  let rest : List Lexeme := [⟨[], .die, 'd', []⟩, ⟨[], .integer, '6', []⟩]
  let after := inner ++ ⟨[' '], .closeParen, ')', []⟩ :: rest
  let cur := (ofText "2(é[)](1) )d6".toList).past [two] (l :: after)
  have hat : cur.IsAt [two] (l :: after) := ⟨by decide +kernel, rfl⟩
  have hcloses : ∃ inner close rest, Closes after inner close rest :=
    ⟨inner, _, rest, rfl, rfl, rfl⟩
  have hread : readGroup 0 after = some ("é[)](1) ".toList, rest) := by decide +kernel
  obtain ⟨_, _, _, body, next, -, -, htakes, -, hbody⟩ := (extractGroup_exact hat rfl).1 hcloses
  obtain ⟨rfl, -⟩ := Prod.mk.inj (Option.some.inj (hbody.symm.trans hread))
  exact ⟨cur, [two], after, l, rfl, hat, rfl, hcloses, next, htakes.result⟩

end

end Cursor

end DiceExpr

import DiceExpr.Proofs.Items
import DiceExpr.Proofs.Passes

/-!
# Rounds

A pass is sound if its cursor is at the lexemes that are still to come and its output ends in a value
wherever the last item was one. Each round of a sound pass has no lapse, does what the conversion of an
item does, and leaves the pass sound. So a whole pass has no lapse, and neither has reading.

## Main statements

* `Pass.hasRound`: a round of a sound pass does what the conversion of an item does.
* `Pass.isSound_of_round`: and it leaves the pass sound.
* `Pass.follows_run`: a sound pass comes to what the conversion of the items ahead comes to.
* `watchedParse_eq`: the same of reading a whole text.
-/

namespace DiceExpr

open Lexeme

section

variable {S : Type} [FormulaStore S] {formulas : S} {limits : Limits}
  {inner : List Char → ParseM Postfix} {c : Conversion} {l m : Lexeme} {ls : List Lexeme}

/-! ### What is converted first -/

theorem Item.exists_lead (limits : Limits) (l : Lexeme) (ls : List Lexeme) :
    ∃ item items, Item.read limits (l :: ls) = item :: items ∧ item.lead = l.kind := by
  cases hk : l.kind with
  | die =>
    rw [Item.read_die hk]
    split
    · exact ⟨_, _, rfl, rfl⟩
    · exact ⟨_, _, rfl, rfl⟩
  | openParen =>
    rw [Item.read_openParen hk]
    split
    · exact ⟨_, _, rfl, rfl⟩
    · exact ⟨_, _, rfl, rfl⟩
  | _ =>
    rw [Item.read]
    simp only [hk]
    exact ⟨_, _, rfl, rfl⟩

theorem convertItems_binary {op : Operator} {items : List Item} (hc : c.afterValue = true) :
    convertItems formulas limits inner (.operator op :: items) c = (do
      report (.lexeme (.operator op))
      convertItems formulas limits inner items (c.pushOperator op)) := by
  conv => lhs; unfold convertItems
  simp only [hc, ↓reduceIte]
  rfl

theorem convertItems_minus_integer {n : Nat} {items : List Item} (hc : c.afterValue = false) :
    convertItems formulas limits inner (.operator .sub :: .integer n :: items) c = (do
      report (.lexeme (.operator .sub))
      convertItems formulas limits inner items (c.pushValue (.literal (-n)))) := by
  conv => lhs; unfold convertItems
  simp only [hc, Bool.false_eq_true, ↓reduceIte]
  rfl

theorem convertItems_minus {item : Item} {items : List Item} (hc : c.afterValue = false)
    (hlead : item.lead ≠ .integer) :
    convertItems formulas limits inner (.operator .sub :: item :: items) c = (do
      report (.lexeme (.operator .sub))
      if item.lead.isNegatable then
        convertItems formulas limits inner (item :: items) (c.pushValue (.literal (-1)))
      else throw (.misplacedOperator .sub)) := by
  cases item with
  | integer n => exact absurd rfl hlead
  | _ =>
    conv => lhs; unfold convertItems
    simp only [hc, Bool.false_eq_true, ↓reduceIte]
    rfl

theorem convertItems_misplaced {op : Operator} {items : List Item} (hc : c.afterValue = false)
    (h : op ≠ .sub ∨ items = []) :
    convertItems formulas limits inner (.operator op :: items) c = (do
      report (.lexeme (.operator op))
      throw (.misplacedOperator op)) := by
  unfold convertItems
  simp only [hc, Bool.false_eq_true, ↓reduceIte]
  rcases h with hop | rfl
  · cases op with
    | sub => exact absurd rfl hop
    | _ => rfl
  · cases op <;> rfl

/-! ### Sound passes -/

namespace Pass

variable {p : Pass} {cur : Cursor} {before : List Lexeme}

/-- A pass that has taken in the lexemes `before` of its text and has `ls` ahead. -/
structure IsSound (p : Pass) (before ls : List Lexeme) : Prop where
  isAt : p.cursor.IsAt before ls
  endsInValue : p.conversion.EndsInValue
  started : before ≠ [] → p.conversion.IsStarted

theorem isSound_ofText (text : List Char) : (ofText text).IsSound [] (lex text) :=
  ⟨Cursor.isAt_ofText text, Conversion.endsInValue_init, fun h => absurd rfl h⟩

/-! ### Rounds -/

variable (formulas limits inner) in
/-- What a round of a pass does: it takes in a lexeme and those in `used` by a step of the conversion of
items, and leaves the items to come as they are. -/
structure Round (body : List Char → WatchedM Postfix) (p : Pass) (before : List Lexeme) (l : Lexeme)
    (ls : List Lexeme) (step : ParseM Conversion) (used rest : List Lexeme) : Prop where
  split : ls = used ++ rest
  follows : Follows (p.take formulas limits body l.kind) do
    let c ← step
    return ⟨p.cursor.past (before ++ l :: used) rest, c⟩
  started : ∀ s c after, step.run.run s = (.ok c, after) → c.IsStarted
  items : convertItems formulas limits inner (Item.read limits (l :: ls)) p.conversion = do
    report (.lexeme l.kind)
    let c ← step
    convertItems formulas limits inner (Item.read limits rest) c

variable (formulas limits inner) in
def HasRound (body : List Char → WatchedM Postfix) (p : Pass) (before : List Lexeme) (l : Lexeme)
    (ls : List Lexeme) : Prop :=
  ∃ step used rest, p.Round formulas limits inner body before l ls step used rest

variable {body : List Char → WatchedM Postfix} {rest : List Lexeme}

theorem hasRound_of_ok (used : List Lexeme) (hsplit : ls = used ++ rest) (hc : c.IsStarted)
    (htake : p.take formulas limits body l.kind =
      return ⟨p.cursor.past (before ++ l :: used) rest, c⟩)
    (hitems : convertItems formulas limits inner (Item.read limits (l :: ls)) p.conversion = do
      report (.lexeme l.kind)
      convertItems formulas limits inner (Item.read limits rest) c) :
    p.HasRound formulas limits inner body before l ls := by
  refine ⟨pure c, used, rest, hsplit, ?_, ?_, hitems⟩
  · rw [htake]
    exact .pure _
  · rintro _ _ _ ⟨⟩
    exact hc

theorem hasRound_of_error {e : ParseError} (htake : p.take formulas limits body l.kind = throw e)
    (hitems : convertItems formulas limits inner (Item.read limits (l :: ls)) p.conversion = do
      report (.lexeme l.kind)
      throw e) :
    p.HasRound formulas limits inner body before l ls := by
  refine ⟨throw e, [], ls, rfl, ?_, nofun, hitems⟩
  rw [htake]
  exact .throw e

/-! ### Operators and integers -/

theorem takeNegated_of_integer (h : cur.IsAt before (l :: ls)) (hk : l.kind = .integer) :
    takeNegated cur c = return ⟨cur.past (before ++ [l]) ls, c.pushValue (.literal (-l.value))⟩ := by
  rw [takeNegated, h.peek_eq, h.readNumber_eq hk]
  simp only [List.head?_cons, Option.map_some, hk]
  rfl

theorem takeNegated_of_ne_integer (h : cur.IsAt before (l :: ls)) (hk : l.kind ≠ .integer) :
    takeNegated cur c =
      if l.kind.isNegatable then return ⟨cur, c.pushValue (.literal (-1))⟩
      else throw (.misplacedOperator .sub) := by
  rw [takeNegated, h.peek_eq]
  cases hkind : l.kind with
  | integer => exact absurd hkind hk
  | _ => simp only [List.head?_cons, Option.map_some, hkind]

theorem takeOperator_eq (op : Operator) (h : p.cursor.IsAt before (l :: ls)) :
    p.takeOperator op =
      if p.conversion.afterValue then
        return ⟨p.cursor.past (before ++ [l]) ls, p.conversion.pushOperator op⟩
      else if op = .sub ∧ ls ≠ [] then takeNegated (p.cursor.past (before ++ [l]) ls) p.conversion
      else throw (.misplacedOperator op) := by
  have hnext : (p.cursor.past (before ++ [l]) ls).hasNext = true ↔ ls ≠ [] := by
    cases ls <;> simp [Cursor.hasNext, Cursor.past, placed]
  rw [takeOperator, h.skip_eq]
  show (if _ then _ else if _ ∧ _ then _ else _) = _
  simp only [hnext]

theorem hasRound_minus (h : p.cursor.IsAt before (l :: m :: ls)) (hk : l.kind = .operator .sub)
    (hc : p.conversion.afterValue = false) :
    p.HasRound formulas limits inner body before l (m :: ls) := by
  have hat : p.cursor.IsAt before ([l] ++ m :: ls) := h
  -- An integer right after the minus is taken in with it, and is not reported.
  have htake : p.take formulas limits body l.kind =
      .ofCursor (takeNegated (p.cursor.past (before ++ [l]) (m :: ls)) p.conversion) := by
    rw [hk]
    simp only [take, takeOperator_eq .sub h, hc, Bool.false_eq_true, ↓reduceIte]
    rfl
  by_cases hm : m.kind = .integer
  · rw [takeNegated_of_integer hat.past hm, List.append_assoc] at htake
    refine hasRound_of_ok [m] rfl (Conversion.isStarted_pushValue rfl) htake ?_
    rw [Item.read_operator hk, Item.read_integer hm, hk, convertItems_minus_integer hc]
  · obtain ⟨item, items, hitems, hlead⟩ := Item.exists_lead limits m ls
    have hminus :
        convertItems formulas limits inner (.operator .sub :: item :: items) p.conversion = _ :=
      convertItems_minus hc (hlead ▸ hm)
    rw [hlead, ← hitems] at hminus
    rw [takeNegated_of_ne_integer hat.past hm] at htake
    by_cases hneg : m.kind.isNegatable = true
    · rw [if_pos hneg] at htake hminus
      refine hasRound_of_ok [] rfl (Conversion.isStarted_pushValue rfl) htake ?_
      rw [Item.read_operator hk, hk, hminus]
    · rw [if_neg hneg] at htake hminus
      refine hasRound_of_error htake ?_
      rw [Item.read_operator hk, hk, hminus]

theorem hasRound_operator {op : Operator} (h : p.cursor.IsAt before (l :: ls))
    (hk : l.kind = .operator op) :
    p.HasRound formulas limits inner body before l ls := by
  have htake : p.take formulas limits body l.kind = .ofCursor (p.takeOperator op) := by
    rw [hk]
    rfl
  rw [takeOperator_eq op h] at htake
  cases hc : p.conversion.afterValue with
  | true =>
    rw [hc, if_pos rfl] at htake
    refine hasRound_of_ok [] rfl (Conversion.isStarted_pushOperator op) htake ?_
    rw [Item.read_operator hk, hk, convertItems_binary hc]
  | false =>
    rw [hc, if_neg Bool.false_ne_true] at htake
    by_cases hop : op = .sub ∧ ls ≠ []
    · obtain ⟨rfl, hls⟩ := hop
      obtain ⟨m, ls, rfl⟩ := List.exists_cons_of_ne_nil hls
      exact hasRound_minus h hk hc
    · have hmisplaced : op ≠ .sub ∨ Item.read limits ls = [] := by
        rw [Item.read_eq_nil_iff]
        exact (Decidable.not_and_iff_not_or_not.1 hop).imp_right Decidable.not_not.1
      rw [if_neg hop] at htake
      refine hasRound_of_error htake ?_
      rw [Item.read_operator hk, hk, convertItems_misplaced hc hmisplaced]

theorem hasRound_integer (h : p.cursor.IsAt before (l :: ls)) (hk : l.kind = .integer) :
    p.HasRound formulas limits inner body before l ls := by
  have htake : p.take formulas limits body l.kind =
      return ⟨p.cursor.past (before ++ [l]) ls, p.conversion.pushValue (.literal l.value)⟩ := by
    rw [hk]
    simp only [take, takeInteger, h.readNumber_eq hk]
    rfl
  refine hasRound_of_ok [] rfl (Conversion.isStarted_pushValue rfl) htake ?_
  rw [Item.read_integer hk, hk]
  rfl

theorem hasRound_fault {e : ParseError} (hread : Item.read limits (l :: ls) = [.fault l.kind e])
    (htake : p.take formulas limits body l.kind = throw e) :
    p.HasRound formulas limits inner body before l ls := by
  refine hasRound_of_error htake ?_
  rw [hread]
  rfl

/-! ### Dice -/

theorem reads_readDie (hword : limits.maxDice < 0x10000000000000000) (h : lex cur.text = before ++ ls)
    (hc : c.EndsInValue) :
    cur.Reads before ls ((cur.past before ls).readDie limits c)
      ((Item.readDie limits ls).map fun (sides, keep, rest) =>
        ((.dice c.takeCount.1 sides keep, c.takeCount.2), rest)) := by
  have hmissing (hls : ∀ l, ls.head? = some l → ¬(l.isAdjacent = true ∧ l.kind = .integer)) :
      (cur.past before ls).readDie limits c = throw .missingDieType := by
    rw [Cursor.readDie, Cursor.readSides_of_other h hls]
    rfl
  cases ls with
  | nil => exact .refused (hmissing nofun)
  | cons m ls =>
    simp only [Item.readDie]
    by_cases hm : m.isAdjacent = true ∧ m.kind = .integer
    · rw [if_pos hm, Cursor.readDie, Cursor.readSides_of_number h hm]
      by_cases hle : m.value ≤ limits.maxSides
      · have hreads := Cursor.reads_readKeep hword (h.trans (List.append_cons before m ls))
        rw [if_pos hle, if_pos hle, pure_bind, Conversion.watchedCount_eq_ok_iff.2 hc]
        cases hkeep : Item.readKeep limits ls with
        | ok r =>
          obtain ⟨keep, rest⟩ := r
          obtain ⟨used, hls, hstep⟩ := hreads.ok keep rest hkeep
          refine .result (m :: used) (congrArg (m :: ·) hls) ?_
          rw [List.append_cons before m used]
          simp only [hstep]
          rfl
        | error e =>
          refine .refused ?_
          simp only [hreads.error e hkeep]
          rfl
      · rw [if_neg hle, if_neg hle]
        exact .refused rfl
    · rw [if_neg hm]
      refine .refused (hmissing ?_)
      rintro _ ⟨⟩
      exact hm

theorem takeDie_eq (h : p.cursor.IsAt before (l :: ls)) :
    p.takeDie limits = do
      let ((die, c), next) ← (p.cursor.past (before ++ [l]) ls).readDie limits p.conversion
      let c ← c.pushNested limits die
      return ⟨next, c⟩ := by
  rw [takeDie, h.skip_eq]
  rfl

theorem hasRound_die (hword : limits.maxDice < 0x10000000000000000)
    (h : p.cursor.IsAt before (l :: ls)) (hc : p.conversion.EndsInValue) (hk : l.kind = .die) :
    p.HasRound formulas limits inner body before l ls := by
  have htake : p.take formulas limits body l.kind = .ofCursor (p.takeDie limits) := by
    rw [hk]
    rfl
  have hread : Item.read limits (l :: ls) = _ := Item.read_die hk
  have hreads := reads_readDie hword (h.lexed.trans (List.append_cons before l ls)) hc
  rw [takeDie_eq h] at htake
  cases hdie : Item.readDie limits ls with
  | error e =>
    rw [hdie] at hread hreads
    rw [hreads.error e rfl] at htake
    exact hasRound_fault (hk ▸ hread) htake
  | ok r =>
    obtain ⟨sides, keep, rest⟩ := r
    rw [hdie] at hread hreads
    obtain ⟨used, hsplit, hstep⟩ := hreads.ok _ rest rfl
    rw [hstep, List.append_assoc] at htake
    refine ⟨p.conversion.takeCount.2.pushNested limits (.dice p.conversion.takeCount.1 sides keep), used,
      rest, hsplit, ?_, ?_, ?_⟩
    · rw [htake, pure_bind]
      exact .ofCursor _ _
    · intro s c after hrun
      exact Conversion.isStarted_of_pushNested rfl (Prod.mk.inj hrun).1
    · rw [hread, hk]
      rfl

/-! ### Groups and references -/

theorem follows_pushNested {watched : WatchedM Postfix} {step : ParseM Postfix} (event : Event)
    (t : Postfix → Token) (h : Follows watched step) :
    Follows (do
      .ofStep (report event)
      let inside ← watched
      let c ← .ofExcept (c.pushNested limits (t inside))
      return (⟨cur, c⟩ : Pass))
    (do
      let c ← (do
        report event
        let inside ← step
        c.pushNested limits (t inside) : ParseM Conversion)
      return ⟨cur, c⟩) := by
  simp only [bind_assoc]
  exact .bind (.ofStep _) fun _ => .bind h fun inside => .bind (.lift _) fun d => .pure _

theorem isStarted_of_run {step : ParseM Postfix} (event : Event) {t : Postfix → Token}
    (ht : ∀ inside, (t inside).isOperator = false) {s after : ParseState} {d : Conversion}
    (h : (do
      report event
      let inside ← step
      c.pushNested limits (t inside) : ParseM Conversion).run.run s = (.ok d, after)) :
    d.IsStarted := by
  obtain ⟨_, reported, -, h⟩ := run_bind_eq_ok_iff.1 h
  obtain ⟨inside, s', -, hpush⟩ := run_bind_eq_ok_iff.1 h
  exact Conversion.isStarted_of_pushNested (ht inside) (Prod.mk.inj hpush).1

theorem takeGroup_eq {text : List Char} {next : Cursor}
    (hgroup : p.cursor.extractGroup = return (text, next)) (hc : p.conversion.EndsInValue) :
    p.takeGroup limits body = do
      .ofStep (report (.group text))
      let inside ← body text
      let c ← .ofExcept (p.conversion.takeCount.2.pushNested limits
        (.group p.conversion.takeCount.1 inside))
      return ⟨next, c⟩ := by
  rw [takeGroup, hgroup, Conversion.watchedCount_eq_ok_iff.2 hc]
  rfl

theorem hasRound_group (hbody : ∀ text, Follows (body text) (inner text))
    (h : p.cursor.IsAt before (l :: ls)) (hc : p.conversion.EndsInValue) (hk : l.kind = .openParen) :
    p.HasRound formulas limits inner body before l ls := by
  have htake : p.take formulas limits body l.kind = p.takeGroup limits body := by
    rw [hk]
    rfl
  have hread : Item.read limits (l :: ls) = _ := Item.read_openParen hk
  cases hopen : openAfter 0 ls with
  | some opened =>
    have hthrow : p.takeGroup limits body = throw .mismatchedParentheses := by
      rw [takeGroup, Cursor.extractGroup_of_unclosed h hk hopen]
      rfl
    rw [readGroup_eq_none hopen] at hread
    exact hasRound_fault (hk ▸ hread) (htake.trans hthrow)
  | none =>
    obtain ⟨inside, close, rest, rfl, hclose, hinside⟩ := exists_close_of_openAfter hopen
    have hgroup := Cursor.extractGroup_of_close h hk hclose hinside
    rw [readGroup_eq_some_iff.2 ⟨inside, close, rfl, hclose, hinside, rfl⟩] at hread
    refine ⟨convertGroup limits inner (inside.flatMap source ++ close.gap) p.conversion,
      inside ++ [close], rest, by simp, ?_, ?_, ?_⟩
    · rw [htake, takeGroup_eq hgroup hc]
      exact follows_pushNested _ _ (hbody _)
    · intro s d after hrun
      exact isStarted_of_run (.group _) (fun _ => rfl) hrun
    · rw [hread, hk]
      rfl

theorem takeReference_eq (h : p.cursor.IsAt before (l :: ls)) (hk : l.kind = .formula)
    (hc : p.conversion.EndsInValue) :
    p.takeReference formulas limits body =
      match FormulaStore.find? formulas l.name with
      | none => throw (.unknownFormula l.name)
      | some formula => do
        .ofStep (report (.formula formula.name formula.expression))
        let inside ← watchedExpanding formula.name (body formula.expression.toList)
        let c ← .ofExcept (p.conversion.takeCount.2.pushNested limits
          (.group p.conversion.takeCount.1 inside))
        return ⟨p.cursor.past (before ++ [l]) ls, c⟩ := by
  rw [takeReference, h.readName_eq hk, Conversion.watchedCount_eq_ok_iff.2 hc]
  rfl

theorem hasRound_reference (hbody : ∀ text, Follows (body text) (inner text))
    (h : p.cursor.IsAt before (l :: ls)) (hc : p.conversion.EndsInValue) (hk : l.kind = .formula) :
    p.HasRound formulas limits inner body before l ls := by
  have htake : p.take formulas limits body l.kind = p.takeReference formulas limits body := by
    rw [hk]
    rfl
  rw [takeReference_eq h hk hc] at htake
  have hitems : convertItems formulas limits inner (Item.read limits (l :: ls)) p.conversion = (do
      report (.lexeme .formula)
      let c ← convertReference formulas limits inner l.name p.conversion
      convertItems formulas limits inner (Item.read limits ls) c) := by
    rw [Item.read_formula hk]
    rfl
  cases hfind : FormulaStore.find? formulas l.name with
  | none =>
    simp only [convertReference, hfind] at htake hitems
    exact hasRound_of_error htake (hk ▸ hitems)
  | some formula =>
    simp only [convertReference, hfind] at htake hitems
    refine ⟨_, [], ls, rfl, ?_, ?_, hk ▸ hitems⟩
    · rw [htake]
      exact follows_pushNested _ _ ((hbody _).expanding formula.name)
    · intro s d after hrun
      exact isStarted_of_run (.formula formula.name formula.expression) (fun _ => rfl) hrun

/-! ### Runs -/

variable (formulas) in
theorem hasRound (hword : limits.maxDice < 0x10000000000000000)
    (hbody : ∀ text, Follows (body text) (inner text)) (h : p.IsSound before (l :: ls)) :
    p.HasRound formulas limits inner body before l ls := by
  cases hk : l.kind with
  | operator op => exact hasRound_operator h.isAt hk
  | integer => exact hasRound_integer h.isAt hk
  | die => exact hasRound_die hword h.isAt h.endsInValue hk
  | openParen => exact hasRound_group hbody h.isAt h.endsInValue hk
  | formula => exact hasRound_reference hbody h.isAt h.endsInValue hk
  | closeParen =>
    refine hasRound_fault (e := .mismatchedParentheses) ?_ ?_
    · rw [Item.read]
      simp only [hk]
    · rw [hk]
      rfl
  | unclosedBracket =>
    refine hasRound_fault (e := .mismatchedBrackets) ?_ ?_
    · rw [Item.read]
      simp only [hk]
    · rw [hk]
      rfl
  | highest | lowest | unknown =>
    refine hasRound_fault (e := .invalidSymbol l.head) ?_ ?_
    · rw [Item.read]
      simp only [hk]
    · rw [hk]
      simp only [take, h.isAt.peekSymbol_eq]
      rfl

theorem finish_eq (h : p.IsSound before []) : p.finish = liftM p.conversion.finish := by
  rw [finish]
  cases hfinish : p.conversion.finish with
  | ok result => rfl
  | error e =>
    cases e with
    | empty =>
      have hbefore : before = [] := by
        by_contra hne
        exact Conversion.finish_ne_empty (h.started hne) hfinish
      have hlexed : lex p.cursor.text = [] := by rw [h.isAt.lexed, hbefore, List.append_nil]
      simp only [hlexed, ↓reduceIte]
      rfl
    | _ => rfl

theorem isSound_of_round {step : ParseM Conversion} {used : List Lexeme} (h : p.IsSound before (l :: ls))
    (hround : p.Round formulas limits inner body before l ls step used rest) {s after : ParseState}
    (hrun : step.run.run s = (.ok c, after)) :
    IsSound ⟨p.cursor.past (before ++ l :: used) rest, c⟩ (before ++ l :: used) rest := by
  have hat : p.cursor.IsAt before ((l :: used) ++ rest) := by
    rw [List.cons_append, ← hround.split]
    exact h.isAt
  have hstarted := hround.started s c after hrun
  exact ⟨hat.past, hstarted.endsInValue, fun _ => hstarted⟩

/-- A sound pass comes to what the conversion of the items ahead comes to. -/
theorem follows_run {p : Pass} {before ls : List Lexeme} (hword : limits.maxDice < 0x10000000000000000)
    (hbody : ∀ text, Follows (body text) (inner text)) (h : p.IsSound before ls) :
    Follows (p.run formulas limits body)
      (convertItems formulas limits inner (Item.read limits ls) p.conversion) := by
  rw [run, h.isAt.peek_eq]
  cases ls with
  | nil =>
    have hitems : convertItems formulas limits inner (Item.read limits []) p.conversion =
        liftM p.conversion.finish := by
      rw [Item.read]
      rfl
    rw [hitems]
    simp only [List.head?_nil, Option.map_none, finish_eq h]
    exact .lift _
  | cons l ls =>
    obtain ⟨step, used, rest, hround⟩ := hasRound formulas hword hbody h
    rw [hround.items]
    refine .bind (.ofStep _) fun _ => .bind_map hround.follows fun s c after hrun => ?_
    have hshorter : rest.length < (l :: ls).length := by
      rw [hround.split, List.length_cons, List.length_append]
      omega
    have hprogress :
        (p.cursor.past (before ++ l :: used) rest).ahead.length < p.cursor.ahead.length := by
      rw [h.isAt.ahead, length_placed, Cursor.past, length_placed]
      exact hshorter
    rw [if_pos hprogress]
    have hsound := isSound_of_round h hround hrun
    exact follows_run hword hbody hsound
termination_by ls.length

end Pass

/-! ### Texts -/

variable (formulas limits)

theorem follows_watchedText {body : List Char → WatchedM Postfix}
    (hword : limits.maxDice < 0x10000000000000000) (hbody : ∀ text, Follows (body text) (inner text))
    (text : List Char) :
    Follows (watchedText formulas limits body text) (convertText formulas limits inner text) := by
  refine .bind (Pass.follows_run hword hbody (Pass.isSound_ofText text)) fun result => ?_
  exact .bind (.ofStep _) fun _ => .pure result

theorem follows_watchedWithin (hword : limits.maxDice < 0x10000000000000000) (levels : Nat)
    (text : List Char) :
    Follows (watchedWithin formulas limits levels text) (convertWithin formulas limits levels text) := by
  induction levels generalizing text with
  | zero => exact .throw _
  | succ levels ih =>
    exact follows_watchedText formulas limits hword
      (fun body => (ih body).nested (keeps_convertWithin formulas limits levels body)) text

/-- Reading a text has no lapse. -/
theorem watchedParse_eq (hword : limits.maxDice < 0x10000000000000000) (text : String) :
    watchedParse formulas limits text = .ok (runParse formulas limits text) := by
  rw [watchedParse, runParse, run_convert, Nat.sub_zero]
  exact follows_watchedWithin formulas limits hword _ text.toList {}

end

end DiceExpr

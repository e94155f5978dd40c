import DiceExpr.Parse

/-!
# What comes of reading

Whether a text is read, and as what, hangs on the formulas that are active and on how many levels are
left, and not on what was reported before. Reading is therefore restated without its reports: a function
from the active formulas to a result, in which the bodies of groups and references are results as well.

## Main statements

* `yields_convertWithin`: reading gives the restated result and keeps what a reader carries along.
* `parse_eq_outcomeWithin`: the same of a whole text.
* `step_or_stops`, `outcomeItems_run`: a conversion goes on by steps until it ends or stops.
-/

namespace DiceExpr

/-- What a step and the next one after it come to, from a state. -/
theorem run_bind {ε τ α β : Type} (step : ExceptT ε (StateM τ) α)
    (next : α → ExceptT ε (StateM τ) β) (s : τ) :
    (step >>= next).run.run s =
      match step.run.run s with
      | (.ok a, s') => (next a).run.run s'
      | (.error e, s') => (.error e, s') := by
  have h : (step >>= next).run.run s =
      (match step.run.run s with | (r, s') => (ExceptT.bindCont next r).run s') := rfl
  rw [h]
  cases step.run.run s with
  | mk r s' => cases r <;> rfl

theorem run_bind_of_ok {ε τ α β : Type} {step : ExceptT ε (StateM τ) α}
    {next : α → ExceptT ε (StateM τ) β} {s s' : τ} {a : α} (h : step.run.run s = (.ok a, s')) :
    (step >>= next).run.run s = (next a).run.run s' := by
  rw [run_bind, h]

theorem run_bind_of_error {ε τ α β : Type} {step : ExceptT ε (StateM τ) α}
    {next : α → ExceptT ε (StateM τ) β} {s s' : τ} {e : ε} (h : step.run.run s = (.error e, s')) :
    (step >>= next).run.run s = (.error e, s') := by
  rw [run_bind, h]

theorem run_bind_eq_ok_iff {ε τ α β : Type} {step : ExceptT ε (StateM τ) α}
    {next : α → ExceptT ε (StateM τ) β} {s last : τ} {b : β} :
    (step >>= next).run.run s = (.ok b, last) ↔
      ∃ a s', step.run.run s = (.ok a, s') ∧ (next a).run.run s' = (.ok b, last) := by
  cases hr : step.run.run s with
  | mk r s' =>
    cases r with
    | error e =>
      rw [run_bind_of_error hr]
      constructor
      · nofun
      · rintro ⟨_, _, ⟨⟩, -⟩
    | ok a =>
      rw [run_bind_of_ok hr]
      constructor
      · intro h
        exact ⟨a, s', rfl, h⟩
      · rintro ⟨_, _, ⟨⟩, h⟩
        exact h

/-! ### Steps that keep what a reader carries along -/

/-- A step that leaves the active formulas and the depth as they were, whatever comes of it. -/
structure Keeps {α : Type} (step : ParseM α) : Prop where
  active : ∀ s, (step.run.run s).2.active = s.active
  depth : ∀ s, (step.run.run s).2.depth = s.depth

namespace Keeps

variable {α β : Type}

theorem lift (r : Except ParseError α) : Keeps (liftM r) := ⟨fun _ => rfl, fun _ => rfl⟩

theorem pure (a : α) : Keeps (pure a) := ⟨fun _ => rfl, fun _ => rfl⟩

theorem throw (e : ParseError) : Keeps (throw e : ParseM α) := ⟨fun _ => rfl, fun _ => rfl⟩

theorem bind {step : ParseM α} {next : α → ParseM β} (hstep : Keeps step)
    (hnext : ∀ a, Keeps (next a)) : Keeps (step >>= next) := by
  have hboth (s : ParseState) : ((step >>= next).run.run s).2.active = s.active ∧
      ((step >>= next).run.run s).2.depth = s.depth := by
    have hactive := hstep.active s
    have hdepth := hstep.depth s
    rw [run_bind]
    cases hr : step.run.run s with
    | mk r s' =>
      rw [hr] at hactive hdepth
      cases r with
      | error e => exact ⟨hactive, hdepth⟩
      | ok a => exact ⟨((hnext a).active s').trans hactive, ((hnext a).depth s').trans hdepth⟩
  exact ⟨fun s => (hboth s).1, fun s => (hboth s).2⟩

theorem report {step : ParseM α} (event : Event) (hstep : Keeps step) :
    Keeps (do DiceExpr.report event; step) :=
  ⟨fun s => hstep.active { s with events := event :: s.events },
    fun s => hstep.depth { s with events := event :: s.events }⟩

theorem expanding {step : ParseM Postfix} (name : String) (hstep : Keeps step) :
    Keeps (DiceExpr.expanding name step) := by
  refine ⟨active_expanding hstep.active, fun s => ?_⟩
  simp only [DiceExpr.expanding, ExceptT.run_mk, StateT.run]
  split
  · rfl
  · exact hstep.depth { s with active := name :: s.active }

theorem nested {step : ParseM Postfix} (limits : Limits) (hstep : Keeps step) :
    Keeps (DiceExpr.nested limits step) := by
  refine ⟨fun s => ?_, depth_nested hstep.depth⟩
  simp only [DiceExpr.nested, ExceptT.run_mk, StateT.run]
  split
  · exact hstep.active { s with depth := s.depth + 1 }
  · rfl

end Keeps

/-- A step of reading that comes to `result` at a depth, and keeps what a reader carries along. -/
structure Yields {α : Type} (depth : Nat) (step : ParseM α)
    (result : List String → Except ParseError α) : Prop where
  keeps : Keeps step
  value : ∀ s, s.depth = depth → (step.run.run s).1 = result s.active

namespace Yields

variable {α β : Type} {depth : Nat}

theorem lift (r : Except ParseError α) : Yields depth (liftM r) fun _ => r :=
  ⟨.lift r, fun _ _ => rfl⟩

theorem pure (a : α) : Yields depth (pure a) fun _ => .ok a :=
  ⟨.pure a, fun _ _ => rfl⟩

theorem throw (e : ParseError) : Yields depth (throw e : ParseM α) fun _ => .error e :=
  ⟨.throw e, fun _ _ => rfl⟩

theorem bind {step : ParseM α} {next : α → ParseM β} {result : List String → Except ParseError α}
    {after : α → List String → Except ParseError β} (hstep : Yields depth step result)
    (hnext : ∀ a, Yields depth (next a) (after a)) :
    Yields depth (step >>= next) fun active => result active >>= fun a => after a active := by
  refine ⟨hstep.keeps.bind fun a => (hnext a).keeps, ?_⟩
  intro s hs
  have hvalue := hstep.value s hs
  have hactive := hstep.keeps.active s
  have hdepth := hstep.keeps.depth s
  rw [run_bind]
  cases hr : step.run.run s with
  | mk r s' =>
    rw [hr] at hvalue hactive hdepth
    rw [← hvalue, ← hactive]
    cases r with
    | error e => rfl
    | ok a => exact (hnext a).value s' (hdepth.trans hs)

theorem report {step : ParseM α} {result : List String → Except ParseError α} (event : Event)
    (hstep : Yields depth step result) : Yields depth (do DiceExpr.report event; step) result :=
  ⟨hstep.keeps.report event, fun s => hstep.value { s with events := event :: s.events }⟩

theorem expanding {name : String} {step : ParseM Postfix}
    {result : List String → Except ParseError Postfix} (hstep : Yields depth step result) :
    Yields depth (DiceExpr.expanding name step) fun active =>
      if name ∈ active then .error (.selfReferentialFormula name) else result (name :: active) := by
  refine ⟨hstep.keeps.expanding name, ?_⟩
  intro s hs
  simp only [DiceExpr.expanding, ExceptT.run_mk, StateT.run]
  split
  · rfl
  · exact hstep.value { s with active := name :: s.active } hs

theorem nested {limits : Limits} {step : ParseM Postfix}
    {result : List String → Except ParseError Postfix} (hstep : Yields (depth + 1) step result) :
    Yields depth (DiceExpr.nested limits step) fun active =>
      if depth + 1 ≤ limits.maxDepth then result active else .error (.tooDeep limits.maxDepth) := by
  refine ⟨hstep.keeps.nested limits, ?_⟩
  intro s hs
  simp only [DiceExpr.nested, ExceptT.run_mk, StateT.run, hs]
  split
  · exact hstep.value { s with depth := depth + 1 } rfl
  · rfl

end Yields

/-! ### Results without reports -/

section

variable {S : Type} [FormulaStore S] (formulas : S) (limits : Limits)

/-- What expanding the formula of a name comes to, where `read` gives what a text comes to. -/
def expansion (read : List String → List Char → Except ParseError Postfix) (active : List String)
    (name : String) : Except ParseError Postfix :=
  match FormulaStore.find? formulas name with
  | none => .error (.unknownFormula name)
  | some f =>
    if f.name ∈ active then .error (.selfReferentialFormula f.name)
    else read (f.name :: active) f.expression.toList

variable {formulas} in
theorem expansion_eq_ok {read : List String → List Char → Except ParseError Postfix}
    {active : List String} {name : String} {body : Postfix}
    (h : expansion formulas read active name = .ok body) :
    ∃ f, FormulaStore.find? formulas name = some f ∧ f.name ∉ active ∧
      read (f.name :: active) f.expression.toList = .ok body := by
  unfold expansion at h
  split at h
  · cases h
  · next f found =>
    split at h
    · cases h
    · next inactive => exact ⟨f, found, inactive, h⟩

/-- What the conversion of items comes to. The bodies of groups come to what `read` gives, and the
bodies of references to what `expand` gives. -/
def outcomeItems (read : List Char → Except ParseError Postfix)
    (expand : String → Except ParseError Postfix) :
    List Item → Conversion → Except ParseError Postfix
  | [], c => c.finish
  | item :: rest, c =>
    match item with
    | .operator op =>
      if c.afterValue then outcomeItems read expand rest (c.pushOperator op)
      else
        match op, rest with
        | .sub, .integer n :: later => outcomeItems read expand later (c.pushValue (.literal (-n)))
        | .sub, next :: later =>
          if next.lead.isNegatable then
            outcomeItems read expand (next :: later) (c.pushValue (.literal (-1)))
          else .error (.misplacedOperator op)
        | _, _ => .error (.misplacedOperator op)
    | .integer n => outcomeItems read expand rest (c.pushValue (.literal n))
    | .die sides keep => do
      let c ← c.takeCount.2.pushNested limits (.dice c.takeCount.1 sides keep)
      outcomeItems read expand rest c
    | .group text => do
      let body ← read text
      let c ← c.takeCount.2.pushNested limits (.group c.takeCount.1 body)
      outcomeItems read expand rest c
    | .reference name => do
      let body ← expand name
      let c ← c.takeCount.2.pushNested limits (.group c.takeCount.1 body)
      outcomeItems read expand rest c
    | .fault _ error => .error error

/-- What a text comes to that may take up `levels` levels of texts within texts, itself counted, while
some formulas are active. -/
def outcomeWithin : Nat → List String → List Char → Except ParseError Postfix
  | 0, _, _ => .error (.tooDeep limits.maxDepth)
  | levels + 1, active, text =>
    outcomeItems limits (outcomeWithin levels active)
      (expansion formulas (outcomeWithin levels) active) (items limits text) {}

theorem yields_convertGroup {depth : Nat} {body : List Char → ParseM Postfix}
    {read : List String → List Char → Except ParseError Postfix}
    (hbody : ∀ text, Yields depth (body text) fun active => read active text) (text : List Char)
    (c : Conversion) :
    Yields depth (convertGroup limits body text c) fun active =>
      read active text >>= fun inner =>
        c.takeCount.2.pushNested limits (.group c.takeCount.1 inner) := by
  apply Yields.report
  exact (hbody text).bind fun inner => Yields.lift _

theorem yields_convertReference {depth : Nat} {body : List Char → ParseM Postfix}
    {read : List String → List Char → Except ParseError Postfix}
    (hbody : ∀ text, Yields depth (body text) fun active => read active text) (name : String)
    (c : Conversion) :
    Yields depth (convertReference formulas limits body name c) fun active =>
      expansion formulas read active name >>= fun inner =>
        c.takeCount.2.pushNested limits (.group c.takeCount.1 inner) := by
  simp only [convertReference, expansion]
  cases FormulaStore.find? formulas name with
  | none => exact Yields.throw _
  | some f =>
    apply Yields.report
    exact (Yields.expanding (hbody f.expression.toList)).bind fun inner => Yields.lift _

theorem yields_convertItems {depth : Nat} {body : List Char → ParseM Postfix}
    {read : List String → List Char → Except ParseError Postfix}
    (hbody : ∀ text, Yields depth (body text) fun active => read active text) (items : List Item)
    (c : Conversion) :
    Yields depth (convertItems formulas limits body items c) fun active =>
      outcomeItems limits (read active) (expansion formulas read active) items c := by
  match items with
  | [] => exact Yields.lift _
  | .operator op :: rest =>
    unfold convertItems outcomeItems
    apply Yields.report
    cases c.afterValue with
    | true => exact yields_convertItems hbody rest _
    | false =>
      have misplaced : Yields depth (throw (.misplacedOperator op) : ParseM Postfix) _ := .throw _
      match op, rest with
      | .add, _ | .mul, _ | .div, _ | .sub, [] | .sub, .operator _ :: _ => exact misplaced
      | .sub, .integer n :: later => exact yields_convertItems hbody later _
      | .sub, .die sides keep :: later => exact yields_convertItems hbody (_ :: later) _
      | .sub, .group text :: later => exact yields_convertItems hbody (_ :: later) _
      | .sub, .reference name :: later => exact yields_convertItems hbody (_ :: later) _
      | .sub, .fault kind error :: later =>
        simp only [Bool.false_eq_true, ↓reduceIte]
        split
        · exact yields_convertItems hbody (_ :: later) _
        · exact misplaced
  | .integer n :: rest =>
    apply Yields.report
    exact yields_convertItems hbody rest _
  | .die sides keep :: rest =>
    apply Yields.report
    exact (Yields.lift _).bind fun c => yields_convertItems hbody rest c
  | .group text :: rest =>
    apply Yields.report
    have hgroup := yields_convertGroup limits hbody text c
    simpa only [outcomeItems, bind_assoc] using
      hgroup.bind fun d => yields_convertItems hbody rest d
  | .reference name :: rest =>
    apply Yields.report
    have hreference := yields_convertReference formulas limits hbody name c
    simpa only [outcomeItems, bind_assoc] using
      hreference.bind fun d => yields_convertItems hbody rest d
  | .fault kind error :: rest =>
    apply Yields.report
    exact Yields.throw _
termination_by items.length

theorem yields_convertText {depth : Nat} {body : List Char → ParseM Postfix}
    {read : List String → List Char → Except ParseError Postfix}
    (hbody : ∀ text, Yields depth (body text) fun active => read active text) (text : List Char) :
    Yields depth (convertText formulas limits body text) fun active =>
      outcomeItems limits (read active) (expansion formulas read active) (items limits text) {} := by
  have hitems := yields_convertItems formulas limits hbody (items limits text) {}
  have hstep := hitems.bind fun result => (Yields.pure result).report (.converted text result)
  have hsame (r : Except ParseError Postfix) : (r >>= fun result => .ok result) = r := by
    cases r <;> rfl
  simp only [hsame] at hstep
  exact hstep

/-- Of the levels that a text may take up and those that the counter leaves, the fewer ones count. -/
theorem yields_convertWithin (levels depth : Nat) (text : List Char) :
    Yields depth (convertWithin formulas limits levels text) fun active =>
      outcomeWithin formulas limits (min levels (limits.maxDepth - depth + 1)) active text := by
  induction levels generalizing depth text with
  | zero =>
    rw [Nat.zero_min]
    exact Yields.throw _
  | succ levels ih =>
    have hbody (text : List Char) :
        Yields depth (nested limits (convertWithin formulas limits levels text)) fun active =>
          outcomeWithin formulas limits (min levels (limits.maxDepth - depth)) active text := by
      have hnested : Yields depth (nested limits (convertWithin formulas limits levels text)) _ :=
        (ih (depth + 1) text).nested
      by_cases hdepth : depth + 1 ≤ limits.maxDepth
      · have hlevels : limits.maxDepth - (depth + 1) + 1 = limits.maxDepth - depth := by omega
        simpa only [hdepth, hlevels, ↓reduceIte] using hnested
      · have hlevels : min levels (limits.maxDepth - depth) = 0 := by omega
        simpa only [hdepth, hlevels, ↓reduceIte, outcomeWithin] using hnested
    rw [convertWithin_succ, Nat.add_min_add_right]
    exact yields_convertText formulas limits hbody text

theorem parse_eq_outcomeWithin (text : String) :
    parse formulas limits text =
      outcomeWithin formulas limits (limits.maxDepth + 1) [] text.toList := by
  have hvalue := (yields_convertWithin formulas limits (limits.maxDepth + 1) 0 text.toList).value {} rfl
  rw [Nat.sub_zero, Nat.min_self] at hvalue
  rw [parse, runParse, run_convert, Nat.sub_zero]
  exact hvalue

end

/-! ### Items one by one -/

/-- What the body of an item comes to, if it has one. -/
def Item.outcome? (read : List Char → Except ParseError Postfix)
    (expand : String → Except ParseError Postfix) : Item → Option (Except ParseError Postfix)
  | .group text => some (read text)
  | .reference name => some (expand name)
  | _ => none

section

variable {limits : Limits} {read : List Char → Except ParseError Postfix}
  {expand : String → Except ParseError Postfix} {c : Conversion}

theorem outcomeItems_nested {item : Item} {r : Except ParseError Postfix}
    (h : item.outcome? read expand = some r) (rest : List Item) (c : Conversion) :
    outcomeItems limits read expand (item :: rest) c = (do
      let body ← r
      let c ← c.takeCount.2.pushNested limits (.group c.takeCount.1 body)
      outcomeItems limits read expand rest c) := by
  cases item with
  | group text => cases h; rfl
  | reference name => cases h; rfl
  | _ => cases h

theorem isNegatable_of_outcome {item : Item} {r : Except ParseError Postfix}
    (h : item.outcome? read expand = some r) : item.lead.isNegatable = true := by
  cases item with
  | group text => rfl
  | reference name => rfl
  | _ => cases h

theorem outcomeItems_binary (hc : c.afterValue = true) (op : Operator) (rest : List Item) :
    outcomeItems limits read expand (.operator op :: rest) c =
      outcomeItems limits read expand rest (c.pushOperator op) := by
  rw [outcomeItems.eq_def]
  simp only [hc, ↓reduceIte]

theorem outcomeItems_negative (hc : c.afterValue = false) (n : Nat) (rest : List Item) :
    outcomeItems limits read expand (.operator .sub :: .integer n :: rest) c =
      outcomeItems limits read expand rest (c.pushValue (.literal (-n))) := by
  rw [outcomeItems.eq_def]
  simp only [hc, Bool.false_eq_true, ↓reduceIte]

theorem outcomeItems_minus (hc : c.afterValue = false) {item : Item}
    (hitem : ∀ n, item ≠ .integer n) (rest : List Item) :
    outcomeItems limits read expand (.operator .sub :: item :: rest) c =
      if item.lead.isNegatable then
        outcomeItems limits read expand (item :: rest) (c.pushValue (.literal (-1)))
      else .error (.misplacedOperator .sub) := by
  rw [outcomeItems]
  · simp only [hc, Bool.false_eq_true, ↓reduceIte]
  · exact hitem

/-- Where a value is expected, only a minus before an item may stand. -/
theorem outcomeItems_misplaced (hc : c.afterValue = false) {op : Operator} {rest : List Item}
    (h : op ≠ .sub ∨ rest = []) :
    outcomeItems limits read expand (.operator op :: rest) c = .error (.misplacedOperator op) := by
  unfold outcomeItems
  simp only [hc, Bool.false_eq_true, ↓reduceIte]
  rcases h with h | rfl
  · cases op with
    | sub => exact absurd rfl h
    | _ => rfl
  · cases op <;> rfl

theorem ne_integer_of_outcome {item : Item} {r : Except ParseError Postfix}
    (h : item.outcome? read expand = some r) (n : Nat) : item ≠ .integer n := by
  rintro rfl
  cases h

end

/-! ### What a result says of the items -/

section

variable {limits : Limits} {read : List Char → Except ParseError Postfix}
  {expand : String → Except ParseError Postfix} {c : Conversion}

theorem Conversion.pushNested_eq_ok_iff {c d : Conversion} {t : Token} :
    c.pushNested limits t = .ok d ↔ t.depth ≤ limits.maxDepth ∧ d = c.pushValue t := by
  simp only [Conversion.pushNested]
  split
  · next h => simp [h, eq_comm]
  · next h => simp [h]

theorem Conversion.pushNested_eq_error_iff {c : Conversion} {t : Token} {e : ParseError} :
    c.pushNested limits t = .error e ↔
      limits.maxDepth < t.depth ∧ e = .tooDeep limits.maxDepth := by
  simp only [Conversion.pushNested]
  split
  · next h => simp [Nat.not_lt.2 h]
  · next h => simp [Nat.not_le.1 h, eq_comm]

theorem Conversion.finish_eq_error {c : Conversion} {e : ParseError} (h : c.finish = .error e) :
    e = .empty ∨ ∃ op, e = .misplacedOperator op := by
  simp only [Conversion.finish] at h
  split at h
  · cases h
    exact .inr ⟨_, rfl⟩
  · split at h
    · cases h
      exact .inl rfl
    · cases h

theorem Conversion.toList_of_finish {p : Postfix} (h : c.finish = .ok p) :
    p.toList = c.output.reverse ++ c.pending.map .operator ∧
      (c.afterValue = false → c.pending = []) := by
  simp only [Conversion.finish] at h
  split at h
  · cases h
  · next hop =>
    have hpending : c.afterValue = false → c.pending = [] := by
      intro hc
      cases hp : c.pending with
      | nil => rfl
      | cons op ops => exact absurd hp (hop op ops hc)
    split at h
    · cases h
    · next t ts htokens =>
      cases h
      exact ⟨by rw [Postfix.toList_ofTokens, htokens], hpending⟩

theorem Conversion.takeCount_cases (c : Conversion) :
    (∃ t earlier, c.afterValue = true ∧ c.output = t :: earlier ∧
      c.takeCount = (.single t, { c with output := earlier })) ∨
    (c.afterValue = false ∨ c.output = []) ∧ c.takeCount = (.literal 1, c) := by
  cases hc : c.afterValue with
  | false => exact .inr ⟨.inl rfl, by simp only [takeCount, hc]⟩
  | true =>
    cases ho : c.output with
    | nil => exact .inr ⟨.inr rfl, by simp only [takeCount, hc, ho]⟩
    | cons t earlier => exact .inl ⟨t, earlier, rfl, rfl, by simp only [takeCount, hc, ho]⟩

theorem Conversion.mem_of_mem_takeCount {t : Token} (h : t ∈ c.takeCount.2.output) :
    t ∈ c.output := by
  rcases c.takeCount_cases with ⟨u, earlier, -, houtput, htake⟩ | ⟨-, htake⟩
  · rw [htake] at h
    rw [houtput]
    exact List.mem_cons_of_mem u h
  · rw [htake] at h
    exact h

variable (read expand) in
/-- An item that no sequence is made of: its body comes to an error, or it is a fault. -/
def Item.Fails (item : Item) (e : ParseError) : Prop :=
  item.outcome? read expand = some (.error e) ∨ ∃ kind, item = .fault kind e

variable (limits) in
/-- An error that comes not from a single item but from the order or the nesting of items. -/
def ParseError.IsOfOrder (e : ParseError) : Prop :=
  e = .empty ∨ e = .tooDeep limits.maxDepth ∨ ∃ op, e = .misplacedOperator op

theorem not_fails_of_none {item : Item} (h : item.outcome? read expand = none)
    (hfault : ∀ kind e, item ≠ .fault kind e) (e : ParseError) : ¬item.Fails read expand e := by
  rintro (he | ⟨kind, he⟩)
  · rw [h] at he
    cases he
  · exact hfault kind e he

theorem not_fails_of_ok {item : Item} {body : Postfix}
    (h : item.outcome? read expand = some (.ok body)) (e : ParseError) :
    ¬item.Fails read expand e := by
  rintro (he | ⟨kind, rfl⟩)
  · rw [h] at he
    cases he
  · cases h

variable (read expand) in
/-- The token that an item makes of a count. -/
inductive Item.Makes (count : Postfix) : Item → Token → Prop
  | die (sides : Nat) (keep : Keep) : Makes count (.die sides keep) (.dice count sides keep)
  | nested {item : Item} {body : Postfix} (h : item.outcome? read expand = some (.ok body)) :
      Makes count item (.group count body)

variable (limits read expand) in
/-- A conversion goes on from some items to fewer. -/
inductive Conversion.Step : List Item → Conversion → List Item → Conversion → Prop
  | binary {op : Operator} {rest : List Item} {c : Conversion} (hc : c.afterValue = true) :
      Step (.operator op :: rest) c rest (c.pushOperator op)
  | negative {n : Nat} {rest : List Item} {c : Conversion} (hc : c.afterValue = false) :
      Step (.operator .sub :: .integer n :: rest) c rest (c.pushValue (.literal (-n)))
  | minus {item : Item} {rest : List Item} {c : Conversion} (hc : c.afterValue = false)
      (hitem : ∀ n, item ≠ .integer n) (hlead : item.lead.isNegatable = true) :
      Step (.operator .sub :: item :: rest) c (item :: rest) (c.pushValue (.literal (-1)))
  | integer {n : Nat} {rest : List Item} {c : Conversion} :
      Step (.integer n :: rest) c rest (c.pushValue (.literal n))
  | token {item : Item} {t : Token} {rest : List Item} {c : Conversion}
      (h : item.Makes read expand c.takeCount.1 t) (hdepth : t.depth ≤ limits.maxDepth) :
      Step (item :: rest) c rest (c.takeCount.2.pushValue t)

variable (limits read expand) in
/-- A conversion stops with an error at the first of some items. -/
inductive Conversion.Stops : List Item → Conversion → ParseError → Prop
  | misplaced {op : Operator} {rest : List Item} {c : Conversion} (hc : c.afterValue = false) :
      Stops (.operator op :: rest) c (.misplacedOperator op)
  | fails {item : Item} {rest : List Item} {c : Conversion} {e : ParseError}
      (h : item.Fails read expand e) : Stops (item :: rest) c e
  | tooDeep {item : Item} {t : Token} {rest : List Item} {c : Conversion}
      (h : item.Makes read expand c.takeCount.1 t) (hdepth : limits.maxDepth < t.depth) :
      Stops (item :: rest) c (.tooDeep limits.maxDepth)

theorem Conversion.Step.length_lt {items later : List Item} {c d : Conversion}
    (h : Conversion.Step limits read expand items c later d) : later.length < items.length := by
  cases h <;> simp only [List.length_cons] <;> omega

variable (limits read expand) in
/-- What a conversion comes to at some items: what it comes to after a step, or an error where it
stops. -/
def StepsOrStops (items : List Item) (c : Conversion) : Prop :=
  (∃ later d, Conversion.Step limits read expand items c later d ∧
    outcomeItems limits read expand items c = outcomeItems limits read expand later d) ∨
  ∃ e, Conversion.Stops limits read expand items c e ∧
    outcomeItems limits read expand items c = .error e

theorem stepsOrStops_makes {item : Item} {t : Token} (h : item.Makes read expand c.takeCount.1 t)
    (rest : List Item) : StepsOrStops limits read expand (item :: rest) c := by
  have hrun : outcomeItems limits read expand (item :: rest) c = (do
      let d ← c.takeCount.2.pushNested limits t
      outcomeItems limits read expand rest d) := by
    cases h with
    | die sides keep => rfl
    | nested h =>
      rw [outcomeItems_nested h]
      rfl
  cases hpush : c.takeCount.2.pushNested limits t with
  | ok d =>
    obtain ⟨hdepth, rfl⟩ := Conversion.pushNested_eq_ok_iff.1 hpush
    rw [hpush] at hrun
    exact .inl ⟨rest, _, .token h hdepth, hrun⟩
  | error e =>
    obtain ⟨hdepth, rfl⟩ := Conversion.pushNested_eq_error_iff.1 hpush
    rw [hpush] at hrun
    exact .inr ⟨_, .tooDeep h hdepth, hrun⟩

theorem stepsOrStops_sign (op : Operator) (rest : List Item) (hc : c.afterValue = false) :
    StepsOrStops limits read expand (.operator op :: rest) c := by
  by_cases hop : op = .sub ∧ rest ≠ []
  · obtain ⟨rfl, hrest⟩ := hop
    obtain ⟨item, later, rfl⟩ := List.exists_cons_of_ne_nil hrest
    by_cases hn : ∃ n, item = .integer n
    · obtain ⟨n, rfl⟩ := hn
      exact .inl ⟨later, _, .negative hc, outcomeItems_negative hc n later⟩
    · have hitem : ∀ n, item ≠ .integer n := fun n e => hn ⟨n, e⟩
      have hrun : outcomeItems limits read expand (.operator .sub :: item :: later) c =
          if item.lead.isNegatable then
            outcomeItems limits read expand (item :: later) (c.pushValue (.literal (-1)))
          else .error (.misplacedOperator .sub) := outcomeItems_minus hc hitem later
      by_cases hlead : item.lead.isNegatable = true
      · rw [if_pos hlead] at hrun
        exact .inl ⟨_, _, .minus hc hitem hlead, hrun⟩
      · rw [if_neg hlead] at hrun
        exact .inr ⟨_, .misplaced hc, hrun⟩
  · have hmisplaced : op ≠ .sub ∨ rest = [] := by
      by_cases h : op = .sub
      · exact .inr (Decidable.byContradiction fun hrest => hop ⟨h, hrest⟩)
      · exact .inl h
    exact .inr ⟨_, .misplaced hc, outcomeItems_misplaced hc hmisplaced⟩

variable (limits read expand) in
/-- At each item a conversion takes one step or stops. -/
theorem step_or_stops (item : Item) (rest : List Item) (c : Conversion) :
    StepsOrStops limits read expand (item :: rest) c := by
  cases hr : item.outcome? read expand with
  | some r =>
    cases r with
    | ok body => exact stepsOrStops_makes (.nested hr) rest
    | error e => exact .inr ⟨e, .fails (.inl hr), by rw [outcomeItems_nested hr]; rfl⟩
  | none =>
    cases item with
    | operator op =>
      cases hc : c.afterValue with
      | true => exact .inl ⟨rest, _, .binary hc, outcomeItems_binary hc op rest⟩
      | false => exact stepsOrStops_sign op rest hc
    | integer n => exact .inl ⟨rest, _, .integer, rfl⟩
    | die sides keep => exact stepsOrStops_makes (.die sides keep) rest
    | fault kind e => exact .inr ⟨e, .fails (.inr ⟨kind, rfl⟩), rfl⟩
    | group text => cases hr
    | reference name => cases hr

/-- What every step keeps holds where a conversion ends, or where it stops. -/
theorem outcomeItems_run (Inv : List Item → Conversion → Prop) {items : List Item} {c : Conversion}
    {r : Except ParseError Postfix} (h : outcomeItems limits read expand items c = r)
    (hstart : Inv items c)
    (hstep : ∀ {items c later d}, Conversion.Step limits read expand items c later d →
      Inv items c → Inv later d) :
    (∃ d, Inv [] d ∧ d.finish = r) ∨
      ∃ later d e, Inv later d ∧ Conversion.Stops limits read expand later d e ∧ r = .error e := by
  match items with
  | [] => exact .inl ⟨c, hstart, h⟩
  | item :: rest =>
    rcases step_or_stops limits read expand item rest c with ⟨later, d, hs, hrun⟩ | ⟨e, hs, hrun⟩
    · have hlt : later.length < rest.length + 1 := hs.length_lt
      exact outcomeItems_run Inv (hrun.symm.trans h) (hstep hs hstart) hstep
    · exact .inr ⟨_, c, e, hstart, hs, h.symm.trans hrun⟩
termination_by items.length

variable (limits read expand) in
/-- What a conversion may come to at an item: it ends with an error, or goes on after the item, or
after the integer that follows the item. -/
inductive StepsTo (item : Item) (rest : List Item) (r : Except ParseError Postfix) : Prop
  | ends {e : ParseError} (h : r = .error e) (why : item.Fails read expand e ∨ e.IsOfOrder limits)
  | goesOn {later : List Item} {d : Conversion} (h : r = outcomeItems limits read expand later d)
      (passes : ∀ e, ¬item.Fails read expand e)
      (hlater : later = rest ∨ ∃ n, rest = .integer n :: later)

theorem outcomeItems_step (item : Item) (rest : List Item) (c : Conversion) :
    StepsTo limits read expand item rest (outcomeItems limits read expand (item :: rest) c) := by
  rcases step_or_stops limits read expand item rest c with ⟨later, d, hs, hrun⟩ | ⟨e, hs, hrun⟩
  · cases hs with
    | binary hc => exact .goesOn hrun (not_fails_of_none rfl (by simp)) (.inl rfl)
    | negative hc => exact .goesOn hrun (not_fails_of_none rfl (by simp)) (.inr ⟨_, rfl⟩)
    | minus hc hitem hlead => exact .goesOn hrun (not_fails_of_none rfl (by simp)) (.inl rfl)
    | integer => exact .goesOn hrun (not_fails_of_none rfl (by simp)) (.inl rfl)
    | token h hdepth =>
      cases h with
      | die sides keep => exact .goesOn hrun (not_fails_of_none rfl (by simp)) (.inl rfl)
      | nested h => exact .goesOn hrun (not_fails_of_ok h) (.inl rfl)
  · cases hs with
    | misplaced hc => exact .ends hrun (.inr (.inr (.inr ⟨_, rfl⟩)))
    | fails h => exact .ends hrun (.inl h)
    | tooDeep h hdepth => exact .ends hrun (.inr (.inr (.inl rfl)))

theorem not_fails_of_outcomeItems {items : List Item} {c : Conversion} {p : Postfix}
    (h : outcomeItems limits read expand items c = .ok p) :
    ∀ item ∈ items, ∀ e, ¬item.Fails read expand e := by
  match items with
  | [] => simp
  | first :: rest =>
    rcases outcomeItems_step first rest c with ⟨he, -⟩ | ⟨hr, passes, hlater⟩
    · rw [he] at h
      cases h
    · rw [hr] at h
      intro item hitem
      rcases List.mem_cons.1 hitem with rfl | hitem
      · exact passes
      · rcases hlater with rfl | ⟨n, rfl⟩
        · exact not_fails_of_outcomeItems h item hitem
        · rcases List.mem_cons.1 hitem with rfl | hitem
          · exact not_fails_of_none rfl (by simp)
          · exact not_fails_of_outcomeItems h item hitem
termination_by items.length

theorem error_of_outcomeItems {items : List Item} {c : Conversion} {e : ParseError}
    (h : outcomeItems limits read expand items c = .error e) :
    (∃ item ∈ items, item.Fails read expand e) ∨ e.IsOfOrder limits := by
  match items with
  | [] =>
    rcases Conversion.finish_eq_error h with rfl | hop
    · exact .inr (.inl rfl)
    · exact .inr (.inr (.inr hop))
  | first :: rest =>
    rcases outcomeItems_step first rest c with ⟨he, why⟩ | ⟨hr, -, hlater⟩
    · rw [he] at h
      cases h
      exact why.imp_left fun hfails => ⟨first, List.mem_cons_self, hfails⟩
    · rw [hr] at h
      rcases hlater with rfl | ⟨n, rfl⟩
      all_goals
        rcases error_of_outcomeItems h with ⟨item, hitem, hfails⟩ | horder
        · exact .inl ⟨item, by simp [hitem], hfails⟩
        · exact .inr horder
termination_by items.length

end

end DiceExpr

import DiceExpr.Proofs.Calls
import DiceExpr.Proofs.Subtokens

/-!
# Reports of reading and rolling

Each conversion that is finished is reported with the sequence it came to, at a time when it is not yet
known whether the group around it stays a value or is taken back as a count or a multiplier. Either way
its body ends up in the sequence just once, and in the place that the order of the reports gives it. So
the reports of a text that is read are the bodies of all groups in the sequence, from left to right, each
of them after those inside it, and at last the sequence itself. Rolling reports each roll of dice, and
an evaluation that comes to a total reports the total.

## Main definitions

* `Postfix.bodies`: the bodies of the groups in a sequence, in the order in which they are reported.
* `Reports`: what a step of reading adds to the conversions that were reported.

## Main statements

* `length_bodies`: there are as many bodies as groups.
* `reports_convertWithin`: reading a text reports the bodies of what it comes to.
* `Course.events_eq`: rolling reports the calls for dice that give a total.
* `Course.rolled_unique`, `Course.unique`: with given ends there is one list of calls that give a total,
  which are all calls unless dice are refused at last.
* `evaluate_reports`: the statement for whole texts.
-/

namespace DiceExpr

/-! ### Bodies -/

mutual

/-- The bodies of the groups in a token, from left to right. Those in a count or a multiplier come first,
and each body comes after those inside it. -/
def Token.bodies : Token → List Postfix
  | .literal _ => []
  | .operator _ => []
  | .dice count _ _ => count.bodies
  | .group multiplier body => multiplier.bodies ++ (body.bodies ++ [body])

def Postfix.bodies : Postfix → List Postfix
  | .single t => t.bodies
  | .cons t rest => t.bodies ++ rest.bodies

end

theorem Postfix.bodies_eq (p : Postfix) : p.bodies = p.toList.flatMap Token.bodies := by
  match p with
  | .single t => simp [bodies, toList]
  | .cons t rest => simp [bodies, toList, bodies_eq rest]

def Token.isGroup : Token → Bool
  | .group _ _ => true
  | _ => false

/-- How many groups there are in a sequence, at any depth. -/
def Postfix.groupCount (p : Postfix) : Nat := p.subtokens.countP Token.isGroup

mutual

theorem Token.length_bodies (t : Token) : t.bodies.length = t.subtokens.countP Token.isGroup := by
  cases t with
  | literal n => rfl
  | operator op => rfl
  | dice count sides keep =>
    have hcount := count.length_bodies
    simpa [Token.bodies, Token.subtokens, Token.isGroup] using hcount
  | group multiplier body =>
    have hmultiplier := multiplier.length_bodies
    have hbody := body.length_bodies
    have hself : (Token.group multiplier body).isGroup = true := rfl
    rw [Token.subtokens, List.countP_cons_of_pos hself, List.countP_append, Token.bodies]
    simp only [List.length_append, List.length_singleton]
    omega

theorem Postfix.length_bodies (p : Postfix) :
    p.bodies.length = p.subtokens.countP Token.isGroup := by
  cases p with
  | single t => exact t.length_bodies
  | cons t rest =>
    simp only [Postfix.bodies, Postfix.subtokens, List.length_append, List.countP_append,
      t.length_bodies, rest.length_bodies]

end

/-- The bodies in the tokens of a conversion so far. -/
def Conversion.bodies (c : Conversion) : List Postfix := c.output.reverse.flatMap Token.bodies

namespace Conversion

variable {c : Conversion}

theorem bodies_pushValue (c : Conversion) (t : Token) :
    (c.pushValue t).bodies = c.bodies ++ t.bodies := by
  simp [bodies, pushValue]

theorem bodies_pushLiteral (c : Conversion) (n : Int) :
    (c.pushValue (.literal n)).bodies = c.bodies := by
  rw [bodies_pushValue, Token.bodies, List.append_nil]

theorem flatMap_bodies_operator (ops : List Operator) :
    (ops.map Token.operator).flatMap Token.bodies = [] := by
  simp [List.flatMap_eq_nil_iff, Token.bodies]

theorem bodies_pushOperator (c : Conversion) (op : Operator) :
    (c.pushOperator op).bodies = c.bodies := by
  rw [pushOperator_eq]
  simp [bodies, flatMap_bodies_operator]

/-- A value that is taken back as a count takes its bodies along. -/
theorem bodies_takeCount (c : Conversion) :
    c.takeCount.2.bodies ++ c.takeCount.1.bodies = c.bodies := by
  rcases c.takeCount_cases with ⟨t, earlier, -, houtput, htake⟩ | ⟨-, htake⟩
  · rw [htake]
    simp [bodies, houtput, Postfix.bodies]
  · rw [htake]
    simp [Postfix.literal, Postfix.bodies, Token.bodies]

theorem bodies_of_finish {p : Postfix} (h : c.finish = .ok p) : p.bodies = c.bodies := by
  rw [Postfix.bodies_eq, (toList_of_finish h).1, List.flatMap_append, flatMap_bodies_operator,
    List.append_nil, bodies]

end Conversion

/-! ### Reports of conversions -/

/-- Whether an event is a step of a conversion that goes on after it. -/
def Event.isStep : Event → Bool
  | .lexeme _ | .group _ | .formula _ _ => true
  | _ => false

/-- Whether an event is a roll of dice. -/
def Event.isRolled : Event → Bool
  | .rolled .. => true
  | _ => false

theorem Event.level_of_isStep {event : Event} (h : event.isStep = true) :
    event.level = .trace ∧ event.isRolled = false := by
  cases event with
  | lexeme kind => exact ⟨rfl, rfl⟩
  | group body => exact ⟨rfl, rfl⟩
  | formula name expression => exact ⟨rfl, rfl⟩
  | converted text result => cases h
  | rolled count sides keep total => cases h
  | evaluated text total => cases h

/-- Events, newest first, that besides steps report just the conversions that came to some sequences,
oldest first. -/
inductive Tells : List Event → List Postfix → Prop
  | nil : Tells [] []
  | step {event : Event} {events : List Event} {results : List Postfix} (h : event.isStep = true)
      (earlier : Tells events results) : Tells (event :: events) results
  | converted {text : List Char} {result : Postfix} {events : List Event} {results : List Postfix}
      (earlier : Tells events results) : Tells (.converted text result :: events) (results ++ [result])

/-- A step of reading after which, if it comes to a value, `after` is told where only `before` was told
up to then, whatever was told earlier. -/
def Reports {α : Type} (before : List Postfix) (step : ParseM α) (after : α → List Postfix) : Prop :=
  ∀ s told a last, Tells s.events (told ++ before) → step.run.run s = (.ok a, last) →
    Tells last.events (told ++ after a)

namespace Reports

variable {α β : Type} {before : List Postfix}

theorem lift {r : Except ParseError α} {after : α → List Postfix}
    (h : ∀ a, r = .ok a → after a = before) : Reports before (liftM r) after := by
  intro s told a last htold hrun
  obtain ⟨hr, rfl⟩ : r = .ok a ∧ s = last := Prod.mk.inj hrun
  rwa [h a hr]

theorem throw (e : ParseError) (after : α → List Postfix) :
    Reports before (throw e : ParseM α) after := by
  intro s told a last _ hrun
  cases hrun

theorem bind {step : ParseM α} {next : α → ParseM β} {between : α → List Postfix}
    {after : β → List Postfix} (hstep : Reports before step between)
    (hnext : ∀ a, Reports (between a) (next a) after) : Reports before (step >>= next) after := by
  intro s told b last htold hrun
  obtain ⟨a, s', hfirst, hlater⟩ := run_bind_eq_ok_iff.1 hrun
  exact hnext a s' told b last (hstep s told a s' htold hfirst) hlater

/-- What was told before a step stays, whatever the step adds. -/
theorem frame {step : ParseM α} {after : α → List Postfix} (h : Reports before step after)
    (earlier : List Postfix) : Reports (earlier ++ before) step fun a => earlier ++ after a := by
  intro s told a last htold hrun
  rw [← List.append_assoc] at htold ⊢
  exact h s _ a last htold hrun

theorem report {step : ParseM α} {after : α → List Postfix} {event : Event}
    (hevent : event.isStep = true) (hstep : Reports before step after) :
    Reports before (do DiceExpr.report event; step) after :=
  fun s told a last htold => hstep { s with events := event :: s.events } told a last (.step hevent htold)

theorem expanding {name : String} {step : ParseM Postfix} {after : Postfix → List Postfix}
    (hstep : Reports before step after) : Reports before (DiceExpr.expanding name step) after := by
  intro s told a last htold hrun
  simp only [DiceExpr.expanding, ExceptT.run_mk, StateT.run] at hrun
  split at hrun
  · cases hrun
  · obtain ⟨hr, rfl⟩ := Prod.mk.inj hrun
    let inside : ParseState := { s with active := name :: s.active }
    exact hstep inside told a (step.run.run inside).2 htold (Prod.ext hr rfl)

theorem nested {limits : Limits} {step : ParseM Postfix} {after : Postfix → List Postfix}
    (hstep : Reports before step after) : Reports before (DiceExpr.nested limits step) after := by
  intro s told a last htold hrun
  simp only [DiceExpr.nested, ExceptT.run_mk, StateT.run] at hrun
  split at hrun
  · obtain ⟨hr, rfl⟩ := Prod.mk.inj hrun
    let inside : ParseState := { s with depth := s.depth + 1 }
    exact hstep inside told a (step.run.run inside).2 htold (Prod.ext hr rfl)
  · cases hrun

theorem of_pushLiteral {step : ParseM α} {after : α → List Postfix} {c : Conversion} {n : Int}
    (h : Reports (c.pushValue (.literal n)).bodies step after) : Reports c.bodies step after := by
  rwa [c.bodies_pushLiteral] at h

end Reports

section

variable {S : Type} [FormulaStore S] {formulas : S} {limits : Limits}
  {body : List Char → ParseM Postfix}

variable (limits) in
theorem reports_pushNested (c : Conversion) (t : Token) :
    Reports (c.bodies ++ t.bodies) (liftM (c.pushNested limits t)) Conversion.bodies := by
  refine .lift fun d hd => ?_
  obtain ⟨-, rfl⟩ := Conversion.pushNested_eq_ok_iff.1 hd
  exact c.bodies_pushValue t

/-- A die is put in the place of its count and has the bodies of the count. -/
theorem reports_pushDie (c : Conversion) (sides : Int) (keep : Keep) :
    Reports c.bodies (liftM (c.takeCount.2.pushNested limits (.dice c.takeCount.1 sides keep)))
      Conversion.bodies := by
  have hpush := reports_pushNested limits c.takeCount.2 (.dice c.takeCount.1 sides keep)
  rw [Token.bodies, c.bodies_takeCount] at hpush
  exact hpush

/-- A body that is read is told after those of the multiplier before it. -/
theorem reports_pushGroup {step : ParseM Postfix} (hstep : Reports [] step fun q => q.bodies ++ [q])
    (c : Conversion) :
    Reports c.bodies (do
      let inner ← step
      c.takeCount.2.pushNested limits (.group c.takeCount.1 inner)) Conversion.bodies := by
  have hinner := hstep.frame c.bodies
  rw [List.append_nil] at hinner
  refine hinner.bind fun inner => ?_
  have hpush := reports_pushNested limits c.takeCount.2 (.group c.takeCount.1 inner)
  rw [Token.bodies, ← List.append_assoc, c.bodies_takeCount] at hpush
  exact hpush

theorem reports_convertGroup (hbody : ∀ text, Reports [] (body text) fun q => q.bodies ++ [q])
    (text : List Char) (c : Conversion) :
    Reports c.bodies (convertGroup limits body text c) Conversion.bodies :=
  .report rfl (reports_pushGroup (hbody text) c)

theorem reports_convertReference (hbody : ∀ text, Reports [] (body text) fun q => q.bodies ++ [q])
    (name : String) (c : Conversion) :
    Reports c.bodies (convertReference formulas limits body name c) Conversion.bodies := by
  simp only [convertReference]
  cases FormulaStore.find? formulas name with
  | none => exact .throw _ _
  | some f => exact .report rfl (reports_pushGroup (.expanding (hbody f.expression.toList)) c)

theorem reports_convertItems (hbody : ∀ text, Reports [] (body text) fun q => q.bodies ++ [q])
    (items : List Item) (c : Conversion) :
    Reports c.bodies (convertItems formulas limits body items c) Postfix.bodies := by
  match items with
  | [] => exact .lift fun p hp => Conversion.bodies_of_finish hp
  | .operator op :: rest =>
    unfold convertItems
    refine .report rfl ?_
    dsimp only
    split
    · have hrest := reports_convertItems hbody rest (c.pushOperator op)
      rw [c.bodies_pushOperator] at hrest
      exact hrest
    · -- A minus that is no operator adds a number, and any other one ends the conversion.
      split
      · exact .of_pushLiteral (reports_convertItems hbody _ _)
      · split
        · exact .of_pushLiteral (reports_convertItems hbody (_ :: _) _)
        · exact .throw _ _
      · exact .throw _ _
  | .integer n :: rest =>
    exact .report rfl (.of_pushLiteral (reports_convertItems hbody rest _))
  | .die sides keep :: rest =>
    refine .report rfl ?_
    exact (reports_pushDie c sides keep).bind fun d => reports_convertItems hbody rest d
  | .group text :: rest =>
    refine .report rfl ?_
    exact (reports_convertGroup hbody text c).bind fun d => reports_convertItems hbody rest d
  | .reference name :: rest =>
    refine .report rfl ?_
    exact (reports_convertReference hbody name c).bind fun d => reports_convertItems hbody rest d
  | .fault kind error :: rest =>
    refine .report rfl ?_
    exact .throw _ _
termination_by items.length

theorem reports_convertText (hbody : ∀ text, Reports [] (body text) fun q => q.bodies ++ [q])
    (text : List Char) :
    Reports [] (convertText formulas limits body text) fun q => q.bodies ++ [q] := by
  refine (reports_convertItems hbody (items limits text) {}).bind fun result => ?_
  intro s told a last htold hrun
  cases hrun
  rw [← List.append_assoc]
  exact .converted htold

variable (formulas limits) in
theorem reports_convertWithin (levels : Nat) (text : List Char) :
    Reports [] (convertWithin formulas limits levels text) fun q => q.bodies ++ [q] := by
  induction levels generalizing text with
  | zero => exact .throw _ _
  | succ levels ih =>
    rw [convertWithin_succ]
    exact reports_convertText (fun text => (ih text).nested) text

theorem tells_of_parse {text : String} {p : Postfix} (h : parse formulas limits text = .ok p) :
    Tells (parseEvents formulas limits text).reverse (p.bodies ++ [p]) := by
  rw [parseEvents, List.reverse_reverse]
  have hreports := reports_convertWithin formulas limits (limits.maxDepth + 1) text.toList
  refine hreports {} [] p _ .nil ?_
  have hrun := run_convert formulas limits text.toList {}
  rw [Nat.sub_zero] at hrun
  rw [← hrun]
  exact Prod.ext h rfl

end

/-! ### Records of a reader -/

/-- The records of some events that are more than traces. -/
def debugRecords (events : List Event) : List Event := events.filter fun event => event.level = .debug

theorem debugRecords_append (events more : List Event) :
    debugRecords (events ++ more) = debugRecords events ++ debugRecords more := List.filter_append ..

/-- Whether an event reports that a text was converted to a sequence. -/
def Event.IsConversionTo (event : Event) (result : Postfix) : Prop :=
  ∃ text, event = .converted text result

theorem Tells.debugRecords {events : List Event} {results : List Postfix} (h : Tells events results) :
    List.Forall₂ Event.IsConversionTo (debugRecords events.reverse) results := by
  induction h with
  | nil => exact .nil
  | @step event events results hevent _ ih =>
    have htrace := (Event.level_of_isStep hevent).1
    simpa [DiceExpr.debugRecords, htrace] using ih
  | @converted text result events results _ ih =>
    have hlast : List.Forall₂ Event.IsConversionTo [.converted text result] [result] :=
      .cons ⟨text, rfl⟩ .nil
    simpa [DiceExpr.debugRecords, Event.level] using List.rel_append ih hlast

theorem Tells.not_isRolled {events : List Event} {results : List Postfix} (h : Tells events results) :
    ∀ event ∈ events, event.isRolled = false := by
  induction h with
  | nil => exact List.forall_mem_nil _
  | step hevent _ ih => exact List.forall_mem_cons.2 ⟨(Event.level_of_isStep hevent).2, ih⟩
  | converted _ ih => exact List.forall_mem_cons.2 ⟨rfl, ih⟩

/-! ### Records of a roller -/

section

variable {σ α : Type} [Roller σ] {limits : Limits}

/-- What a call for dice reports: its total without the sign, if it gives one. -/
def DiceCall.record? (limits : Limits) (c : DiceCall σ) : Option Event :=
  match (c.outcome limits).1 with
  | .ok total => some (.rolled c.count c.sides c.keep total.natAbs)
  | .error _ => none

theorem natAbs_withSignOf (sign : Int) (n : Nat) : (withSignOf sign n).natAbs = n := by
  simp only [withSignOf]
  split
  · rw [Int.natAbs_neg, Int.natAbs_natCast]
  · exact Int.natAbs_natCast n

theorem DiceCall.events_outcome (limits : Limits) (c : DiceCall σ) :
    (c.outcome limits).2.events = (c.record? limits).toList ++ c.before.events := by
  have houtcome : c.outcome limits = (rollDice limits c.count c.sides c.keep).run.run c.before := rfl
  rw [run_rollDice] at houtcome
  rw [DiceCall.record?, houtcome]
  by_cases hcount : limits.maxDice < c.count.natAbs
  · simp only [hcount, ↓reduceIte, Option.toList_none, List.nil_append]
  · by_cases hsides : c.sides ≤ 1
    · simp only [hcount, hsides, ↓reduceIte, Option.toList_none, List.nil_append]
    · simp only [hcount, hsides, ↓reduceIte, natAbs_withSignOf, Option.toList_some,
        List.singleton_append]

/-- On a course the calls that give a total are reported one after the other. -/
theorem Course.events_eq {s last : RollState σ} {calls : List (DiceCall σ)} {r : Except RollError α}
    (h : Course limits s calls r last) :
    last.events.reverse = s.events.reverse ++ calls.filterMap (DiceCall.record? limits) := by
  induction h with
  | ends => simp
  | @refused c e s hcall =>
    have hevents := c.events_outcome limits
    rw [hcall] at hevents
    rw [hevents, List.filterMap_cons]
    cases c.record? limits <;> simp
  | @rolled c total next last calls r hcall _ ih =>
    have hevents := c.events_outcome limits
    rw [hcall] at hevents
    rw [ih, hevents, List.filterMap_cons]
    cases c.record? limits <;> simp

theorem DiceCall.record?_spec {c : DiceCall σ} {event : Event} (h : c.record? limits = some event) :
    event.isRolled = true ∧ event.level = .trace := by
  simp only [DiceCall.record?] at h
  split at h
  · cases h
    exact ⟨rfl, rfl⟩
  · cases h

/-! ### One list of calls -/

/-- Whether a call for dice gives a total. -/
def DiceCall.isRolled (limits : Limits) (c : DiceCall σ) : Bool := (c.record? limits).isSome

theorem DiceCall.isRolled_of_outcome {c : DiceCall σ} {total : Int} {next : RollState σ}
    (h : c.outcome limits = (.ok total, next)) : c.isRolled limits = true := by
  rw [isRolled, record?, h]
  rfl

/-- The calls that were made from a state on, by what they reported. -/
def callsOf (limits : Limits) : RollState σ → List Event → List (DiceCall σ)
  | s, .rolled count sides keep _ :: later =>
    let c : DiceCall σ := ⟨count, sides, keep, s⟩
    c :: callsOf limits (c.outcome limits).2 later
  | s, _ :: later => callsOf limits s later
  | _, [] => []

theorem callsOf_cons {c : DiceCall σ} {event : Event} (h : c.record? limits = some event)
    (later : List Event) :
    callsOf limits c.before (event :: later) = c :: callsOf limits (c.outcome limits).2 later := by
  simp only [DiceCall.record?] at h
  split at h
  · cases h
    rfl
  · cases h

/-- The reports of a course name its calls for dice, all but one that was refused. -/
theorem Course.filter_isRolled {s last : RollState σ} {calls : List (DiceCall σ)}
    {r : Except RollError α} (h : Course limits s calls r last) :
    calls.filter (DiceCall.isRolled limits) =
      callsOf limits s (calls.filterMap (DiceCall.record? limits)) := by
  induction h with
  | ends => rfl
  | @refused c e s hcall =>
    have hrecord : c.record? limits = none := by rw [DiceCall.record?, hcall]
    rw [List.filter_cons_of_neg (by simp [DiceCall.isRolled, hrecord]),
      List.filterMap_cons_none hrecord]
    rfl
  | @rolled c total next last calls r hcall _ ih =>
    have hrolled := DiceCall.isRolled_of_outcome hcall
    obtain ⟨event, hrecord⟩ := Option.isSome_iff_exists.1 hrolled
    rw [List.filter_cons_of_pos hrolled, ih, List.filterMap_cons_some hrecord, callsOf_cons hrecord,
      hcall]

theorem Course.isRolled_of_mem {s last : RollState σ} {calls : List (DiceCall σ)}
    {r : Except RollError α} (h : Course limits s calls r last)
    (hr : ∀ e, r = .error e → ¬e.IsOfDice) : ∀ c ∈ calls, c.isRolled limits = true := by
  induction h with
  | ends => exact List.forall_mem_nil _
  | refused hcall => exact absurd (DiceCall.isOfDice_of_outcome hcall) (hr _ rfl)
  | rolled hcall _ ih => exact List.forall_mem_cons.2 ⟨DiceCall.isRolled_of_outcome hcall, ih hr⟩

/-- Between two states there is one list of the calls that give a total. -/
theorem Course.rolled_unique {β : Type} {s last : RollState σ} {calls others : List (DiceCall σ)}
    {r : Except RollError α} {r' : Except RollError β} (h : Course limits s calls r last)
    (h' : Course limits s others r' last) :
    calls.filter (DiceCall.isRolled limits) = others.filter (DiceCall.isRolled limits) := by
  have hevents := h.events_eq.symm.trans h'.events_eq
  rw [h.filter_isRolled, h'.filter_isRolled, List.append_cancel_left hevents]

/-- A course that dice are not refused on has one list of calls. -/
theorem Course.unique {s last : RollState σ} {calls others : List (DiceCall σ)}
    {r : Except RollError α} (h : Course limits s calls r last) (h' : Course limits s others r last)
    (hr : ∀ e, r = .error e → ¬e.IsOfDice) : calls = others := by
  have hall := List.filter_eq_self.2 (h.isRolled_of_mem hr)
  have hothers := List.filter_eq_self.2 (h'.isRolled_of_mem hr)
  rw [← hall, ← hothers, h.rolled_unique h']

variable {S : Type} [FormulaStore S]

/-- If a text is read, the records of reading that are more than traces are the conversions to the bodies
of the groups in the sequence, in order, and at last to the sequence itself, so one more than there are
groups. Evaluating the text adds one such record if it comes to a total and none otherwise, and of each
call for dice that gives a total it adds the record, in the order of the calls. -/
theorem evaluate_reports (e : Engine σ S) (text : String) {p : Postfix} (h : e.parse text = .ok p) :
    List.Forall₂ Event.IsConversionTo (debugRecords (e.parseEvents text)) (p.bodies ++ [p]) ∧
    (debugRecords (e.parseEvents text)).length = 1 + p.groupCount ∧
    (debugRecords (e.evaluate text).events =
      debugRecords (e.parseEvents text) ++
        match (p.roll e.limits e.roller).1 with
        | .ok total => [.evaluated text.toList total]
        | .error _ => []) ∧
    ∃ calls, Course e.limits { roller := e.roller } calls (p.roll e.limits e.roller).1
        (p.roll e.limits e.roller).2 ∧
      (e.evaluate text).events.filter Event.isRolled = calls.filterMap (DiceCall.record? e.limits) := by
  have htells : Tells (e.parseEvents text).reverse (p.bodies ++ [p]) := tells_of_parse h
  have hread := htells.debugRecords
  rw [List.reverse_reverse] at hread
  obtain ⟨calls, hcourse, -⟩ := p.exists_course e.limits e.roller
  have hrolls : (p.roll e.limits e.roller).2.events.reverse =
      calls.filterMap (DiceCall.record? e.limits) := hcourse.events_eq
  have hspec : ∀ event ∈ calls.filterMap (DiceCall.record? e.limits),
      event.isRolled = true ∧ event.level = .trace := by
    intro event hevent
    obtain ⟨c, -, hc⟩ := List.mem_filterMap.1 hevent
    exact DiceCall.record?_spec hc
  obtain ⟨-, -, hevents⟩ := evaluate_of_parse h
  rw [hrolls] at hevents
  refine ⟨hread, ?_, ?_, calls, hcourse, ?_⟩
  · have hlength := hread.length_eq
    rw [List.length_append, p.length_bodies, List.length_singleton] at hlength
    rw [hlength, Postfix.groupCount, Nat.add_comm]
  · have htraces : debugRecords (calls.filterMap (DiceCall.record? e.limits)) = [] := by
      refine List.filter_eq_nil_iff.2 fun event hevent => ?_
      simp [(hspec event hevent).2]
    rw [hevents, debugRecords_append, debugRecords_append, htraces, List.append_nil]
    cases (p.roll e.limits e.roller).1 <;> rfl
  · have hnone : (e.parseEvents text).filter Event.isRolled = [] := by
      refine List.filter_eq_nil_iff.2 fun event hevent => ?_
      simp [htells.not_isRolled event (List.mem_reverse.2 hevent)]
    have hall : (calls.filterMap (DiceCall.record? e.limits)).filter Event.isRolled =
        calls.filterMap (DiceCall.record? e.limits) :=
      List.filter_eq_self.2 fun event hevent => (hspec event hevent).1
    rw [hevents, List.filter_append, List.filter_append, hnone, hall, List.nil_append]
    cases (p.roll e.limits e.roller).1 <;> simp [Event.isRolled]

/-- A die as often as two, where the two is a group that is taken back as a multiplier. -/
def groupTimesDie : Postfix :=
  .single (.group (.single (.group (.literal 1) (.literal 2))) (.single (.dice (.literal 1) 6 .all)))

theorem evaluate_reports_chained :
    (⟨.empty, {}, {}⟩ : Engine Stepping).parse "(2)(d6)" = .ok groupTimesDie ∧
      List.Forall₂ Event.IsConversionTo
        (debugRecords ((⟨.empty, {}, {}⟩ : Engine Stepping).parseEvents "(2)(d6)"))
        [.literal 2, .single (.dice (.literal 1) 6 .all), groupTimesDie] ∧
      (debugRecords ((⟨.empty, {}, {}⟩ : Engine Stepping).evaluate "(2)(d6)").events).length = 4 := by
  have hparse : (⟨.empty, {}, {}⟩ : Engine Stepping).parse "(2)(d6)" = .ok groupTimesDie := by
    decide +kernel
  have hroll : (groupTimesDie.roll {} ({} : Stepping)).1 = .ok 3 := by decide +kernel
  obtain ⟨hread, hlength, hrecords, -⟩ := evaluate_reports _ _ hparse
  refine ⟨hparse, hread, ?_⟩
  rw [hrecords, List.length_append, hlength, hroll]
  rfl

end

end DiceExpr

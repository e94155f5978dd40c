import DiceExpr.Proofs.Outcome

/-!
# What a reader carries along

A reader goes down a level for every body and makes a formula active for every reference. Each way out
of a body, an error included, undoes both. So a conversion that starts somewhere within a text finds
as many levels counted as there are bodies around it, and the formulas around it active, each once.

That a state never occurs is said by replacement: a conversion may do anything at all there, and every
text is still read alike.

## Main statements

* `convert_eq`: from every state, a text is converted with the bodies in it one level further down.
* `convert_keeps_and_starts_sound`: every step of reading leaves the active formulas and the depth as
  it finds them, and no conversion starts from a state that is not sound.
-/

namespace DiceExpr

/-! ### Steps that agree -/

/-- Two steps that do the same wherever the active formulas and the depth are as `holds` says. -/
def AgreeWhere (holds : List String → Nat → Prop) {α : Type} (step other : ParseM α) : Prop :=
  ∀ s, holds s.active s.depth → step.run.run s = other.run.run s

namespace AgreeWhere

variable {α β : Type} {holds inside : List String → Nat → Prop}

theorem refl (step : ParseM α) : AgreeWhere holds step step := fun _ _ => rfl

theorem bind {step other : ParseM α} {next after : α → ParseM β} (hkeeps : Keeps step)
    (hstep : AgreeWhere holds step other) (hnext : ∀ a, AgreeWhere holds (next a) (after a)) :
    AgreeWhere holds (step >>= next) (other >>= after) := by
  intro s hs
  have hactive := hkeeps.active s
  have hdepth := hkeeps.depth s
  rw [run_bind, run_bind, ← hstep s hs]
  cases hr : step.run.run s with
  | mk r s' =>
    rw [hr] at hactive hdepth
    cases r with
    | error e => rfl
    | ok a =>
      refine hnext a s' ?_
      rw [hactive, hdepth]
      exact hs

theorem andThen {step other : ParseM α} (h : AgreeWhere holds step other) (next : α → ParseM β) :
    AgreeWhere holds (step >>= next) (other >>= next) := by
  intro s hs
  rw [run_bind, run_bind, h s hs]

theorem report (event : Event) {step other : ParseM α} (h : AgreeWhere holds step other) :
    AgreeWhere holds (do DiceExpr.report event; step) (do DiceExpr.report event; other) :=
  fun s hs => h { s with events := event :: s.events } hs

theorem expanding (name : String) {step other : ParseM Postfix}
    (hinside : ∀ active depth, holds active depth → name ∉ active → inside (name :: active) depth)
    (h : AgreeWhere inside step other) :
    AgreeWhere holds (DiceExpr.expanding name step) (DiceExpr.expanding name other) := by
  intro s hs
  simp only [DiceExpr.expanding, ExceptT.run_mk, StateT.run]
  split
  · rfl
  · next inactive =>
    have hrun := h { s with active := name :: s.active } (hinside _ _ hs inactive)
    simp only [StateT.run] at hrun
    rw [hrun]

theorem nested {limits : Limits} {step other : ParseM Postfix}
    (hinside : ∀ active depth, holds active depth → depth + 1 ≤ limits.maxDepth →
      inside active (depth + 1))
    (h : AgreeWhere inside step other) :
    AgreeWhere holds (DiceExpr.nested limits step) (DiceExpr.nested limits other) := by
  intro s hs
  simp only [DiceExpr.nested, ExceptT.run_mk, StateT.run]
  split
  · next hdepth =>
    have hrun := h { s with depth := s.depth + 1 } (hinside _ _ hs hdepth)
    simp only [StateT.run] at hrun
    rw [hrun]
  · rfl

end AgreeWhere

/-- Two ways to convert bodies that do the same in a text that is converted where the active formulas
and the depth are as `holds` says. -/
structure BodiesAgree (holds : List String → Nat → Prop) (body other : List Char → ParseM Postfix) :
    Prop where
  keeps : ∀ text, Keeps (body text)
  group : ∀ text, AgreeWhere holds (body text) (other text)
  formula : ∀ name text, AgreeWhere holds (expanding name (body text)) (expanding name (other text))

/-- Bodies are converted one level further down, those of formulas while the formula is active. -/
theorem BodiesAgree.nested {holds inside : List String → Nat → Prop} {limits : Limits}
    {step other : List Char → ParseM Postfix} (hkeeps : ∀ text, Keeps (step text))
    (hgroup : ∀ active depth, holds active depth → depth + 1 ≤ limits.maxDepth →
      inside active (depth + 1))
    (hformula : ∀ name active depth, holds active depth → name ∉ active →
      depth + 1 ≤ limits.maxDepth → inside (name :: active) (depth + 1))
    (h : ∀ text, AgreeWhere inside (step text) (other text)) :
    BodiesAgree holds (fun text => DiceExpr.nested limits (step text))
      (fun text => DiceExpr.nested limits (other text)) where
  keeps text := (hkeeps text).nested limits
  group text := (h text).nested hgroup
  formula name text := by
    have hbody : AgreeWhere
        (fun active depth => depth + 1 ≤ limits.maxDepth → inside active (depth + 1))
        (DiceExpr.nested limits (step text)) (DiceExpr.nested limits (other text)) :=
      (h text).nested fun _ _ hinside hdepth => hinside hdepth
    exact hbody.expanding name fun active depth hs inactive => hformula name active depth hs inactive

section

variable {S : Type} [FormulaStore S] (formulas : S) (limits : Limits)

theorem keeps_convertGroup {body : List Char → ParseM Postfix} (hbody : ∀ text, Keeps (body text))
    (text : List Char) (c : Conversion) : Keeps (convertGroup limits body text c) := by
  apply Keeps.report
  exact (hbody text).bind fun inner => Keeps.lift _

theorem keeps_convertReference {body : List Char → ParseM Postfix}
    (hbody : ∀ text, Keeps (body text)) (name : String) (c : Conversion) :
    Keeps (convertReference formulas limits body name c) := by
  simp only [convertReference]
  cases FormulaStore.find? formulas name with
  | none => exact Keeps.throw _
  | some f =>
    apply Keeps.report
    exact ((hbody f.expression.toList).expanding f.name).bind fun inner => Keeps.lift _

variable {holds : List String → Nat → Prop} {body other : List Char → ParseM Postfix}

theorem agree_convertGroup (h : BodiesAgree holds body other) (text : List Char) (c : Conversion) :
    AgreeWhere holds (convertGroup limits body text c) (convertGroup limits other text c) := by
  apply AgreeWhere.report
  exact (h.group text).andThen _

theorem agree_convertReference (h : BodiesAgree holds body other) (name : String) (c : Conversion) :
    AgreeWhere holds (convertReference formulas limits body name c)
      (convertReference formulas limits other name c) := by
  simp only [convertReference]
  cases FormulaStore.find? formulas name with
  | none => exact .refl _
  | some f =>
    apply AgreeWhere.report
    exact (h.formula f.name _).andThen _

theorem agree_convertItems (h : BodiesAgree holds body other) (items : List Item) (c : Conversion) :
    AgreeWhere holds (convertItems formulas limits body items c)
      (convertItems formulas limits other items c) := by
  match items with
  | [] => exact .refl _
  | .operator op :: rest =>
    unfold convertItems
    apply AgreeWhere.report
    dsimp only
    split
    · exact agree_convertItems h rest _
    · split
      · exact agree_convertItems h _ _
      · split
        · exact agree_convertItems h (_ :: _) _
        · exact .refl _
      · exact .refl _
  | .integer n :: rest =>
    apply AgreeWhere.report
    exact agree_convertItems h rest _
  | .die sides keep :: rest =>
    apply AgreeWhere.report
    exact (AgreeWhere.refl _).bind (.lift _) fun d => agree_convertItems h rest d
  | .group text :: rest =>
    apply AgreeWhere.report
    exact (agree_convertGroup limits h text c).bind (keeps_convertGroup limits h.keeps text c)
      fun d => agree_convertItems h rest d
  | .reference name :: rest =>
    apply AgreeWhere.report
    exact (agree_convertReference formulas limits h name c).bind
      (keeps_convertReference formulas limits h.keeps name c) fun d => agree_convertItems h rest d
  | .fault kind error :: rest => exact .refl _
termination_by items.length

theorem agree_convertText (h : BodiesAgree holds body other) (text : List Char) :
    AgreeWhere holds (convertText formulas limits body text)
      (convertText formulas limits other text) := by
  have hitems := agree_convertItems formulas limits h (items limits text) {}
  exact hitems.andThen _

/-! ### One level further down -/

theorem keeps_convertWithin (levels : Nat) (text : List Char) :
    Keeps (convertWithin formulas limits levels text) :=
  (yields_convertWithin formulas limits levels 0 text).keeps

theorem keeps_convert (text : List Char) : Keeps (convert formulas limits text) := by
  constructor
  · intro s
    rw [run_convert]
    exact (keeps_convertWithin formulas limits _ text).active s
  · intro s
    rw [run_convert]
    exact (keeps_convertWithin formulas limits _ text).depth s

theorem keeps_convertBody (text : List Char) : Keeps (convertBody formulas limits text) :=
  (keeps_convert formulas limits text).nested limits

theorem convert_eq (text : List Char) :
    convert formulas limits text =
      convertText formulas limits (convertBody formulas limits) text := by
  refine ExceptT.ext (StateT.ext fun s => ?_)
  have hbody (body : List Char) :
      AgreeWhere (fun _ depth => depth = s.depth + 1 ∧ depth ≤ limits.maxDepth)
        (convertWithin formulas limits (limits.maxDepth - s.depth) body)
        (convert formulas limits body) := by
    rintro t ⟨ht, hdepth⟩
    have hlevels : limits.maxDepth - s.depth = limits.maxDepth - t.depth + 1 := by omega
    rw [hlevels, run_convert]
  have hbodies : BodiesAgree (fun _ depth => depth = s.depth)
      (fun body => nested limits (convertWithin formulas limits (limits.maxDepth - s.depth) body))
      (convertBody formulas limits) := by
    refine .nested (keeps_convertWithin formulas limits _) ?_ ?_ hbody
    · rintro active depth rfl hdepth
      exact ⟨rfl, hdepth⟩
    · rintro name active depth rfl - hdepth
      exact ⟨rfl, hdepth⟩
  have htext := agree_convertText formulas limits hbodies text s rfl
  rw [← convertWithin_succ] at htext
  exact (run_convert formulas limits text s).trans htext

/-! ### Where conversions start -/

/-- What a reader carries where a conversion starts: the formulas around it are active, each once and
each with a level of its own, and there are no more levels than the limits allow. -/
structure IsSound (limits : Limits) (active : List String) (depth : Nat) : Prop where
  nodup : active.Nodup
  length_le : active.length ≤ depth
  depth_le : depth ≤ limits.maxDepth

instance (active : List String) (depth : Nat) : Decidable (IsSound limits active depth) :=
  decidable_of_iff (active.Nodup ∧ active.length ≤ depth ∧ depth ≤ limits.maxDepth)
    ⟨fun ⟨nodup, length_le, depth_le⟩ => ⟨nodup, length_le, depth_le⟩,
      fun h => ⟨h.nodup, h.length_le, h.depth_le⟩⟩

theorem IsSound.deeper {active : List String} {depth : Nat} (h : IsSound limits active depth)
    (hdepth : depth + 1 ≤ limits.maxDepth) : IsSound limits active (depth + 1) :=
  ⟨h.nodup, Nat.le_succ_of_le h.length_le, hdepth⟩

theorem IsSound.expanding {active : List String} {depth : Nat} {name : String}
    (h : IsSound limits active depth) (inactive : name ∉ active)
    (hdepth : depth + 1 ≤ limits.maxDepth) : IsSound limits (name :: active) (depth + 1) :=
  ⟨List.nodup_cons.2 ⟨inactive, h.nodup⟩, Nat.succ_le_succ h.length_le, hdepth⟩

/-- Converts a text as `convertWithin` does, except that a conversion which starts from a state that
is not sound, or without a level left, is replaced by `otherwise`. -/
def convertChecked (otherwise : List Char → ParseM Postfix) : Nat → List Char → ParseM Postfix
  | 0, text => otherwise text
  | levels + 1, text =>
    ExceptT.mk fun s =>
      if IsSound limits s.active s.depth then
        (convertText formulas limits
          (fun body => nested limits (convertChecked otherwise levels body)) text).run.run s
      else (otherwise text).run.run s

theorem agree_convertChecked (otherwise : List Char → ParseM Postfix) (levels : Nat)
    (text : List Char) :
    AgreeWhere
      (fun active depth => IsSound limits active depth ∧ limits.maxDepth < depth + levels)
      (convertWithin formulas limits levels text)
      (convertChecked formulas limits otherwise levels text) := by
  induction levels generalizing text with
  | zero =>
    -- The levels last as long as the depth is sound.
    rintro s ⟨hsound, hlevels⟩
    exact absurd hsound.depth_le (Nat.not_le.2 hlevels)
  | succ levels ih =>
    rintro s ⟨hsound, hlevels⟩
    have hbodies : BodiesAgree
        (fun active depth => IsSound limits active depth ∧ limits.maxDepth < depth + (levels + 1))
        (fun body => nested limits (convertWithin formulas limits levels body))
        (fun body => nested limits (convertChecked formulas limits otherwise levels body)) := by
      refine .nested (keeps_convertWithin formulas limits levels) ?_ ?_ ih
      · rintro active depth ⟨hs, hl⟩ hdepth
        exact ⟨hs.deeper limits hdepth, by omega⟩
      · rintro name active depth ⟨hs, hl⟩ inactive hdepth
        exact ⟨hs.expanding limits inactive hdepth, by omega⟩
    have htext := agree_convertText formulas limits hbodies text s ⟨hsound, hlevels⟩
    simp only [convertChecked, ExceptT.run_mk, StateT.run, hsound, ↓reduceIte]
    exact htext

/-- Whatever comes of a step of reading, at any depth and with any formulas active, both are left as
they were. A whole text is read alike if every conversion in it that starts from a state which is not
sound does something else instead, whatever that is: no conversion starts from such a state. -/
theorem convert_keeps_and_starts_sound :
    (∀ text, Keeps (convert formulas limits text)) ∧
    (∀ text, Keeps (convertBody formulas limits text)) ∧
    (∀ text c, Keeps (convertGroup limits (convertBody formulas limits) text c)) ∧
    (∀ name c, Keeps (convertReference formulas limits (convertBody formulas limits) name c)) ∧
    ∀ otherwise text,
      (convertChecked formulas limits otherwise (limits.maxDepth + 1) text).run.run {} =
        (convert formulas limits text).run.run {} := by
  have hbody := keeps_convertBody formulas limits
  refine ⟨keeps_convert formulas limits, hbody, keeps_convertGroup limits hbody,
    keeps_convertReference formulas limits hbody, ?_⟩
  intro otherwise text
  have hstart : IsSound limits [] 0 := ⟨List.nodup_nil, Nat.le_refl 0, Nat.zero_le _⟩
  have hagree := agree_convertChecked formulas limits otherwise (limits.maxDepth + 1) text {}
    ⟨hstart, by omega⟩
  rw [run_convert, Nat.sub_zero]
  exact hagree.symm

end

end DiceExpr

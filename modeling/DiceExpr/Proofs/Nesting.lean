import Mathlib.Algebra.BigOperators.Group.List.Basic
import Mathlib.Algebra.GroupWithZero.Nat
import DiceExpr.Proofs.Refusals

/-!
# How deep a text can nest

A body in parentheses is shorter than the text around it, but the expression of a formula may be longer
than the text that refers to it. It is only read while its formula is not active, and from then on the
formula is. So the length of a text together with those of the formulas that are not active goes down
from each text to the texts in it, even where formulas refer to each other in a circle. It bounds the
levels of texts within texts, and also the depth of the sequence, to which each part adds at most one.

## Main statements

* `Formulas.length_add_outside`: what a formula leaves for the texts in it when it becomes active.
* `Sparing.step`: each item that is read pays for the depth it adds.
* `nestsWithin_outcomeWithin`: a text nests within its bound.
* `parse_nesting`: the statement for whole texts.
-/

namespace DiceExpr

open Lexeme

/-! ### Lengths -/

namespace Item

/-- The least number of characters that an item takes up. -/
def size : Item → Nat
  | group body => body.length + 1
  | _ => 1

def sizes (items : List Item) : Nat := (items.map size).sum

@[simp]
theorem sizes_nil : sizes [] = 0 := rfl

@[simp]
theorem sizes_cons (item : Item) (items : List Item) :
    sizes (item :: items) = item.size + sizes items := by
  simp [sizes]

theorem size_pos (item : Item) : 0 < item.size := by
  cases item <;> simp [size]

variable {limits : Limits}

theorem size_add_le_of_stands {ls rest : List Lexeme} {item : Item}
    (h : Stands limits ls item rest) :
    item.size + (rest.flatMap source).length ≤ (ls.flatMap source).length := by
  have hlength (l : Lexeme) : l.source.length = l.gap.length + (l.tail.length + 1) := by
    simp [source, Lexeme.text]
  have single {size : Nat} (hsize : size = 1) :
      size + (rest.flatMap source).length ≤ (ls.flatMap source).length := by
    obtain ⟨l, used, rfl⟩ := h.exists_used
    simp only [List.flatMap_cons, List.flatMap_append, List.length_append, hlength]
    omega
  cases h with
  | operator => exact single rfl
  | integer => exact single rfl
  | die => exact single rfl
  | reference => exact single rfl
  | @group l close inner _ =>
    simp only [size, List.flatMap_cons, List.flatMap_append, List.length_append, hlength]
    omega

theorem sizes_read_le (ls : List Lexeme) :
    sizes (read limits ls) ≤ (ls.flatMap source).length := by
  cases hr : read limits ls with
  | nil => simp
  | cons item items =>
    rcases stands_of_read hr with ⟨kind, e, rfl, -, rfl⟩ | ⟨rest, rfl, hstands⟩
    · cases ls with
      | nil =>
        rw [read] at hr
        cases hr
      | cons l ls =>
        simp only [sizes_cons, sizes_nil, size, List.flatMap_cons, List.length_append, source,
          Lexeme.text, List.length_cons]
        omega
    · have hlt := hstands.length_lt
      have hrest := sizes_read_le rest
      have hitem := size_add_le_of_stands hstands
      rw [sizes_cons]
      omega
termination_by ls.length

theorem sizes_items_le (text : List Char) : sizes (items limits text) ≤ text.length := by
  obtain ⟨blanks, -, htext⟩ := lex_source text
  have hlength := congrArg List.length htext
  have hread : sizes (read limits (lex text)) ≤ ((lex text).flatMap source).length :=
    sizes_read_le _
  rw [List.length_append] at hlength
  rw [items]
  omega

end Item

/-- The length of all expressions whose formulas are not active. -/
def Formulas.outside (s : Formulas) (active : List String) : Nat :=
  ((s.toList.filter (fun f => f.name ∉ active)).map (fun f => f.expression.length)).sum

theorem Formulas.outside_nil (s : Formulas) :
    s.outside [] = (s.toList.map (fun f => f.expression.length)).sum := by
  have hall : s.toList.filter (fun f => f.name ∉ ([] : List String)) = s.toList :=
    List.filter_eq_self.2 (by simp)
  rw [outside, hall]

theorem Formulas.length_add_outside {s : Formulas} {active : List String} {name : String}
    {f : Formula} (found : s.find? name = some f) (inactive : f.name ∉ active) :
    f.expression.length + s.outside (f.name :: active) = s.outside active := by
  rw [← name_of_find? found] at found
  have hmem : f ∈ s.toList := find?_eq_some_iff.1 found
  have hothers : s.toList.filter (fun g => g.name ∉ f.name :: active) =
      (s.toList.filter (fun g => g.name ∉ active)).erase f := by
    rw [List.Nodup.erase_eq_filter (s.nodup.filter _), List.filter_filter]
    apply List.filter_congr
    intro g hg
    have hsame : g.name = f.name ↔ g = f := by
      constructor
      · intro hname
        have hg' := find?_eq_some_iff.2 hg
        rw [hname, found] at hg'
        exact (Option.some.inj hg').symm
      · rintro rfl
        rfl
    simp [hsame, bne, beq_eq_decide]
  have hleft : f ∈ s.toList.filter (fun g => g.name ∉ active) :=
    List.mem_filter.2 ⟨hmem, decide_eq_true inactive⟩
  rw [outside, outside, hothers]
  exact List.sum_map_erase (fun g : Formula => g.expression.length) hleft

/-! ### Depths along a conversion -/

/-- A result that nests within a bound, or an error that is not about nesting. -/
def NestsWithin (bound : Nat) : Except ParseError Postfix → Prop
  | .ok p => p.depth ≤ bound
  | .error e => ∀ depth, e ≠ .tooDeep depth

section

variable {limits : Limits} {read : List Char → Except ParseError Postfix}
  {expand : String → Except ParseError Postfix} {length above : Nat}

/-- A conversion of a text of some length, with `above` more characters for what the formulas in it add.
Each depth so far leaves enough of both for the items that remain. -/
structure Sparing (length above : Nat) (items : List Item) (c : Conversion) : Prop where
  sizes : Item.sizes items ≤ length
  depths : ∀ t ∈ c.output, t.depth + Item.sizes items ≤ length + above
  faults : ∀ kind e, .fault kind e ∈ items → ∀ depth, e ≠ .tooDeep depth

variable (read expand length above) in
/-- Bodies nest within what is left for them. -/
def BodiesNest : Prop :=
  ∀ (item : Item) (r : Except ParseError Postfix), item.size ≤ length →
    item.outcome? read expand = some r → NestsWithin (item.size - 1 + above) r

theorem Sparing.depth_count {items : List Item} {c : Conversion} (h : Sparing length above items c) :
    c.takeCount.1.depth + Item.sizes items ≤ length + above := by
  rcases c.takeCount_cases with ⟨t, earlier, -, houtput, htake⟩ | ⟨-, htake⟩
  · have ht := h.depths t (by simp [houtput])
    simp only [htake, Postfix.depth]
    exact ht
  · have hsizes := h.sizes
    simp only [htake, Postfix.literal, Postfix.depth, Token.depth]
    omega

theorem Sparing.depth_token {item : Item} {rest : List Item} {c : Conversion} {t : Token}
    (hbodies : BodiesNest read expand length above) (h : Sparing length above (item :: rest) c)
    (ht : item.Makes read expand c.takeCount.1 t) :
    t.depth + Item.sizes rest ≤ length + above := by
  have hcount := h.depth_count
  have hsizes := h.sizes
  have hpos := item.size_pos
  rw [Item.sizes_cons] at hcount hsizes
  cases ht with
  | die sides keep =>
    simp only [Token.depth]
    omega
  | nested hbody =>
    have hdepth := hbodies _ _ (by omega) hbody
    simp only [NestsWithin] at hdepth
    simp only [Token.depth]
    omega

theorem Sparing.of_sizes_le {items later : List Item} {c : Conversion}
    (h : Sparing length above items c) (hlater : later <:+ items) : Sparing length above later c := by
  obtain ⟨used, rfl⟩ := hlater
  have hle : Item.sizes later ≤ Item.sizes (used ++ later) := by simp [Item.sizes]
  have hsizes := h.sizes
  refine ⟨by omega, ?_, ?_⟩
  · intro t ht
    have hdepth := h.depths t ht
    omega
  · intro kind e hmem
    exact h.faults kind e (List.mem_append_right used hmem)

theorem Sparing.pushValue {items : List Item} {c : Conversion} {t : Token}
    (h : Sparing length above items c) (ht : t.depth + Item.sizes items ≤ length + above) :
    Sparing length above items (c.pushValue t) := by
  refine ⟨h.sizes, ?_, h.faults⟩
  intro u hu
  rcases List.mem_cons.1 hu with rfl | hu
  · exact ht
  · exact h.depths u hu

theorem Sparing.pushLiteral {items : List Item} {c : Conversion} (n : Int)
    (h : Sparing length above items c) : Sparing length above items (c.pushValue (.literal n)) := by
  have hsizes := h.sizes
  apply h.pushValue
  simp only [Token.depth]
  omega

theorem Sparing.step (hbodies : BodiesNest read expand length above) {items later : List Item}
    {c d : Conversion} (hs : Conversion.Step limits read expand items c later d)
    (h : Sparing length above items c) : Sparing length above later d := by
  cases hs with
  | @binary op rest c hc =>
    have hrest := h.of_sizes_le (List.suffix_cons _ _)
    have hsizes := hrest.sizes
    refine ⟨hrest.sizes, ?_, hrest.faults⟩
    intro t ht
    rw [Conversion.pushOperator_eq] at ht
    rcases List.mem_append.1 ht with ht | ht
    · obtain ⟨op', -, rfl⟩ := List.mem_map.1 ht
      simp only [Token.depth]
      omega
    · exact hrest.depths t ht
  | negative => exact (h.of_sizes_le ⟨[_, _], rfl⟩).pushLiteral _
  | minus => exact (h.of_sizes_le (List.suffix_cons _ _)).pushLiteral _
  | integer => exact (h.of_sizes_le (List.suffix_cons _ _)).pushLiteral _
  | token ht =>
    have hrest := h.of_sizes_le (List.suffix_cons _ _)
    have htaken : Sparing length above later c.takeCount.2 :=
      ⟨hrest.sizes, fun u hu => hrest.depths u (Conversion.mem_of_mem_takeCount hu), hrest.faults⟩
    exact htaken.pushValue (h.depth_token hbodies ht)

theorem Sparing.not_tooDeep (hbodies : BodiesNest read expand length above)
    (hlimit : length + above ≤ limits.maxDepth) {items : List Item} {c : Conversion} {e : ParseError}
    (h : Sparing length above items c) (hs : Conversion.Stops limits read expand items c e)
    (depth : Nat) : e ≠ .tooDeep depth := by
  cases hs with
  | misplaced => simp
  | @fails item rest _ _ hfails =>
    rcases hfails with hbody | ⟨kind, rfl⟩
    · have hsizes := h.sizes
      rw [Item.sizes_cons] at hsizes
      exact hbodies item _ (by omega) hbody depth
    · exact h.faults kind e List.mem_cons_self depth
  | tooDeep ht hdepth =>
    have htoken := h.depth_token hbodies ht
    omega

theorem nestsWithin_outcomeItems (hbodies : BodiesNest read expand length above)
    (hlimit : length + above ≤ limits.maxDepth) {items : List Item}
    (h : Sparing length above items {}) :
    NestsWithin (length + above) (outcomeItems limits read expand items {}) := by
  generalize hr : outcomeItems limits read expand items {} = r
  rcases outcomeItems_run (Sparing length above) hr h (Sparing.step hbodies) with
    ⟨d, hd, rfl⟩ | ⟨later, d, e, hd, hs, rfl⟩
  · cases hp : d.finish with
    | error e =>
      rcases Conversion.finish_eq_error hp with rfl | ⟨op, rfl⟩
      · simp [NestsWithin]
      · simp [NestsWithin]
    | ok p =>
      simp only [NestsWithin, Postfix.depth_le_iff, (Conversion.toList_of_finish hp).1]
      intro t ht
      rcases List.mem_append.1 ht with ht | ht
      · exact hd.depths t (List.mem_reverse.1 ht)
      · obtain ⟨op, -, rfl⟩ := List.mem_map.1 ht
        exact Nat.zero_le _
  · exact hd.not_tooDeep hbodies hlimit hs

end

/-! ### Texts -/

section

variable {s : Formulas} {limits : Limits}

theorem nestsWithin_expansion {read : List String → List Char → Except ParseError Postfix}
    {active : List String} {bound : Nat} (name : String) (hbound : s.outside active ≤ bound)
    (hread : ∀ active text, text.length + s.outside active ≤ bound →
      NestsWithin (text.length + s.outside active) (read active text)) :
    NestsWithin (s.outside active) (expansion s read active name) := by
  unfold expansion
  split
  · simp [NestsWithin]
  · next f found =>
    split
    · simp [NestsWithin]
    · next inactive =>
      have hlength := Formulas.length_add_outside found inactive
      have hbody := hread (f.name :: active) f.expression.toList
      rw [String.length_toList, hlength] at hbody
      exact hbody hbound

theorem nestsWithin_outcomeWithin {levels : Nat} {active : List String} {text : List Char}
    (hlevels : text.length + s.outside active < levels)
    (hlimit : text.length + s.outside active ≤ limits.maxDepth) :
    NestsWithin (text.length + s.outside active) (outcomeWithin s limits levels active text) := by
  induction levels generalizing active text with
  | zero => omega
  | succ levels ih =>
    have hbodies : BodiesNest (outcomeWithin s limits levels active)
        (expansion s (outcomeWithin s limits levels) active) text.length (s.outside active) := by
      intro item r hsize hr
      cases item with
      | group body =>
        cases hr
        simp only [Item.size] at hsize ⊢
        exact ih (by omega) (by omega)
      | reference name =>
        cases hr
        simp only [Item.size] at hsize ⊢
        have hbound : s.outside active ≤ text.length + s.outside active - 1 := by omega
        rw [Nat.sub_self, Nat.zero_add]
        exact nestsWithin_expansion name hbound fun active text hle => ih (by omega) (by omega)
      | operator => cases hr
      | integer => cases hr
      | die => cases hr
      | fault => cases hr
    apply nestsWithin_outcomeItems hbodies hlimit
    refine ⟨Item.sizes_items_le text, by simp, ?_⟩
    intro kind e hmem
    exact Item.ne_tooDeep_of_mem_read hmem

theorem outcomeWithin_eq_of_nestsWithin {small large : Limits} (h : small.Within large)
    (hdice : small.maxDice = large.maxDice) (hsides : small.maxSides = large.maxSides)
    {levels levels' bound : Nat} (hle : levels ≤ levels') {active : List String} {text : List Char}
    (hnests : NestsWithin bound (outcomeWithin s small levels active text)) :
    outcomeWithin s small levels active text = outcomeWithin s large levels' active text := by
  have hkind : ∀ e, small.Separates large e → ∃ depth, e = .tooDeep depth := by
    intro e hseparates
    cases hseparates with
    | dice hn hn' => omega
    | sides hn hn' => omega
    | depth => exact ⟨_, rfl⟩
  have hrefines := outcomeWithin_refines s h hkind hle (fun _ => ⟨_, rfl⟩) active text
  apply hrefines.eq
  rintro _ herror ⟨depth, rfl⟩
  rw [herror] at hnests
  exact hnests depth rfl

end

/-- A depth limit of at least the length of the text and of all stored expressions plays no part in
reading the text. Nothing is refused for its nesting, every such limit gives the same result, and so does
every number of levels past that length: the texts within the text open no more levels than it. -/
theorem parse_nesting (s : Formulas) (limits : Limits) (text : String)
    (h : text.length + (s.toList.map (fun f => f.expression.length)).sum ≤ limits.maxDepth) :
    (∀ depth, parse s limits text ≠ .error (.tooDeep depth)) ∧
    (∀ depth, text.length + (s.toList.map (fun f => f.expression.length)).sum ≤ depth →
      parse s { limits with maxDepth := depth } text = parse s limits text) ∧
    (∀ levels, text.length + (s.toList.map (fun f => f.expression.length)).sum < levels →
      ((convertWithin s limits levels text.toList).run.run {}).1 = parse s limits text) := by
  generalize hbound : text.length + (s.toList.map (fun f => f.expression.length)).sum = bound at h ⊢
  rw [← String.length_toList, ← Formulas.outside_nil] at hbound
  have hnests (limits : Limits) (levels : Nat) (hlevels : bound < levels)
      (hlimit : bound ≤ limits.maxDepth) :
      NestsWithin bound (outcomeWithin s limits levels [] text.toList) := by
    rw [← hbound] at hlevels hlimit ⊢
    exact nestsWithin_outcomeWithin hlevels hlimit
  -- Whatever the depth and the levels, the result is that with the least of both.
  have hleast (depth levels : Nat) (hdepth : bound ≤ depth) (hlevels : bound < levels) :
      outcomeWithin s { limits with maxDepth := bound } (bound + 1) [] text.toList =
        outcomeWithin s { limits with maxDepth := depth } levels [] text.toList := by
    have hwithin : Limits.Within { limits with maxDepth := bound }
        { limits with maxDepth := depth } := ⟨Nat.le_refl _, Nat.le_refl _, hdepth⟩
    exact outcomeWithin_eq_of_nestsWithin hwithin rfl rfl hlevels
      (hnests _ _ (Nat.lt_succ_self bound) (Nat.le_refl bound))
  have hparse := hleast limits.maxDepth (limits.maxDepth + 1) h (by omega)
  rw [parse_eq_outcomeWithin]
  refine ⟨?_, ?_, ?_⟩
  · intro depth herror
    have hresult := hnests limits (limits.maxDepth + 1) (by omega) h
    rw [herror] at hresult
    exact hresult depth rfl
  · intro depth hdepth
    rw [parse_eq_outcomeWithin]
    exact (hleast depth (depth + 1) hdepth (by omega)).symm.trans hparse
  · intro levels hlevels
    rw [(yields_convertWithin s limits levels 0 text.toList).value {} rfl]
    exact (hleast limits.maxDepth _ h (by omega)).symm.trans hparse

/-- Two formulas that refer to each other are refused for that, however deep the limits let them go. -/
theorem parse_nesting_circle :
    "[a]".length + ((Formulas.ofList [⟨"a", "[b]+1"⟩, ⟨"b", "2[a]"⟩]).toList.map
        (fun f => f.expression.length)).sum ≤ 12 ∧
      parse (Formulas.ofList [⟨"a", "[b]+1"⟩, ⟨"b", "2[a]"⟩]) { maxDepth := 2 ^ 64 - 1 } "[a]" =
        .error (.selfReferentialFormula "a") := by
  have hlength : "[a]".length + ((Formulas.ofList [⟨"a", "[b]+1"⟩, ⟨"b", "2[a]"⟩]).toList.map
      (fun f => f.expression.length)).sum ≤ 12 := by decide +kernel
  have hread : parse (Formulas.ofList [⟨"a", "[b]+1"⟩, ⟨"b", "2[a]"⟩]) { maxDepth := 12 } "[a]" =
      .error (.selfReferentialFormula "a") := by decide +kernel
  have hdeep := (parse_nesting _ { maxDepth := 12 } "[a]" hlength).2.1 (2 ^ 64 - 1)
    (Nat.le_trans hlength (by decide))
  exact ⟨hlength, hdeep.trans hread⟩

end DiceExpr

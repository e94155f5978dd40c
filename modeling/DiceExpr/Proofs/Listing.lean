import DiceExpr.Proofs.Definitions
import DiceExpr.Proofs.Values

/-!
# What a dialogue keeps

A dialogue keeps the formulas that its lines define, and nothing else: a line that defines no formula
leaves the store as it is, and a line that defines one saves it, whether or not its expression can be
read. So the store is the one of all definitions, put in one after the other, and the formula of a name
is the one of its last definition. The lines that show the formulas define them again, in any order.

## Main statements

* `Dialogue.formulas_answer`: what one line does to the store.
* `Dialogue.formulas_run`: the store after a whole dialogue.
* `listing_restores`: the formulas kept are the last definitions, and their listing gives the same store.
-/

namespace DiceExpr

open Text

namespace Dialogue

/-! ### Lines -/

theorem lines_nil : lines [] = [] := by
  simp [lines]

/-- A line ends at its end of line, also if the line is empty. -/
theorem lines_append_newline {line : List Char} (rest : List Char) (h : '\n' ∉ line) :
    lines (line ++ '\n' :: rest) = line :: lines rest := by
  have hline : ∀ c ∈ line, (c != '\n') = true := by
    intro c hc
    exact bne_iff_ne.2 fun e => h (e ▸ hc)
  have hspan := Lexeme.span_append ('\n' :: rest) hline (by simp)
  rw [lines]
  split
  · next hnone => simp [hspan.2] at hnone
  · next newline after hsome =>
    rw [hspan.2] at hsome
    obtain ⟨-, rfl⟩ := List.cons.inj hsome
    rw [hspan.1]

theorem newline_not_mem_lines {input line : List Char} (h : line ∈ lines input) : '\n' ∉ line := by
  fun_induction lines input with
  | case1 hnone => simp at h
  | case2 input hnone hempty =>
    obtain rfl := List.mem_singleton.1 h
    intro hmem
    simpa using List.dropWhile_eq_nil_iff.1 hnone _ hmem
  | case3 input newline rest hsome ih =>
    rcases List.mem_cons.1 h with rfl | h
    · intro hmem
      have htake := List.all_eq_true.1 (List.all_takeWhile (l := input) (p := (· != '\n'))) _ hmem
      simp at htake
    · exact ih h

theorem lines_joinLines {ls : List String} (h : ∀ line ∈ ls, '\n' ∉ line.toList) :
    lines (joinLines ls).toList = ls.map String.toList := by
  induction ls with
  | nil => exact lines_nil
  | cons line ls ih =>
    have hfirst : (joinLines (line :: ls)).toList = line.toList ++ '\n' :: (joinLines ls).toList := by
      simp [joinLines, String.join_cons]
    have hrest := ih fun other hother => h other (List.mem_cons_of_mem _ hother)
    rw [hfirst, lines_append_newline _ (h line List.mem_cons_self), hrest, List.map_cons]

/-! ### What lines do to the store -/

theorem formulas_define {σ : Type} (e : Engine σ) (f : Formula) :
    (e.define f).2.formulas = e.formulas.insert f := by
  unfold Engine.define
  dsimp only
  split <;> rfl

variable {σ : Type} [Roller σ]

/-- A line that defines a formula saves it, and every other line leaves the store as it is. -/
theorem formulas_answer (e : Engine σ) (line : List Char) :
    (answer e line).2.formulas =
      match definition? (trim line) with
      | some f => e.formulas.insert f
      | none => e.formulas := by
  unfold answer
  by_cases hlist : trim line = [':', 'l', 'i', 's', 't']
  · simp only [hlist]
    rfl
  · simp only [if_neg hlist]
    cases hdefinition : definition? (trim line) with
    | some f =>
      have hdefine := formulas_define e f
      cases hafter : e.define f with
      | mk why after =>
        rw [hafter] at hdefine
        cases why <;> simpa only [hafter] using hdefine
    | none =>
      have hengine := congrArg Engine.formulas (evaluate_eq e (String.ofList (trim line))).2
      simp only
      split
      · rfl
      · cases (e.evaluate (String.ofList (trim line))).result <;> exact hengine

/-- The formulas that lines define, in the order of the lines. -/
def definitions (ls : List (List Char)) : List Formula :=
  ls.filterMap fun line => definition? (trim line)

theorem definitions_cons (line : List Char) (ls : List (List Char)) :
    definitions (line :: ls) = (definition? (trim line)).toList ++ definitions ls := by
  rw [definitions, List.filterMap_cons]
  cases definition? (trim line) <;> rfl

theorem engine_answerAll (e : Engine σ) (ls : List (List Char)) :
    (answerAll e ls).2 = ls.foldl (fun e line => (answer e line).2) e :=
  (List.foldl_hom Prod.snd fun _ _ => rfl).symm

theorem formulas_answerAll (e : Engine σ) (ls : List (List Char)) :
    (answerAll e ls).2.formulas = e.formulas.insertMany (definitions ls) := by
  rw [engine_answerAll]
  induction ls generalizing e with
  | nil => rfl
  | cons line ls ih =>
    rw [List.foldl_cons, ih, formulas_answer, definitions_cons]
    cases definition? (trim line) <;> rfl

theorem formulas_run (limits : Limits) (roller : σ) (input : String) :
    (run (Engine.mk Formulas.empty limits roller) input).2.formulas =
      Formulas.ofList (definitions (lines input.toList)) :=
  formulas_answerAll _ _

/-! ### The formulas that are kept -/

/-- The formula is the one of the last line that defines a formula of its name. -/
def DefinedLast (ls : List (List Char)) (f : Formula) : Prop :=
  ∃ before line later, ls = before ++ line :: later ∧ IsDefinition (trim line) f ∧
    ∀ other ∈ later, ∀ g, IsDefinition (trim other) g → g.name ≠ f.name

theorem find?_definitions_eq_some_iff {ls : List (List Char)} {name : String} {f : Formula} :
    (Formulas.ofList (definitions ls)).find? name = some f ↔ f.name = name ∧ DefinedLast ls f := by
  rw [Formulas.ofList, Formulas.find?_insertMany, Formulas.find?_empty, Option.or_none, definitions,
    ← List.filterMap_reverse, List.find?_filterMap, Option.bind_eq_some_iff]
  constructor
  · intro h
    obtain ⟨line, hfind, hf⟩ := h
    obtain ⟨hname, later, before, hls, hlater⟩ := List.find?_eq_some_iff_append.1 hfind
    have hname : f.name = name := by simpa [hf] using hname
    rw [List.reverse_eq_append_iff] at hls
    refine ⟨hname, before.reverse, line, later.reverse, by simpa using hls,
      definition?_eq_some_iff.1 hf, ?_⟩
    intro other hother g hg
    have hnone := hlater other (List.mem_reverse.1 hother)
    simpa [definition?_eq_some_iff.2 hg, hname] using hnone
  · intro h
    obtain ⟨rfl, before, line, later, rfl, hf, hlater⟩ := h
    have hf := definition?_eq_some_iff.2 hf
    refine ⟨line, List.find?_eq_some_iff_append.2 ⟨by simp [hf], later.reverse, before.reverse,
      by simp, ?_⟩, hf⟩
    intro other hother
    cases hg : definition? (trim other) with
    | none => rfl
    | some g =>
      have hne := hlater other (List.mem_reverse.1 hother) g (definition?_eq_some_iff.1 hg)
      simpa using hne

theorem DefinedLast.exists_line {ls : List (List Char)} {f : Formula} (h : DefinedLast ls f) :
    ∃ line ∈ ls, IsDefinition (trim line) f := by
  obtain ⟨before, line, later, rfl, hf, -⟩ := h
  exact ⟨line, by simp, hf⟩

/-! ### Listings -/

theorem output_answer_list (e : Engine σ) :
    (answer e [':', 'l', 'i', 's', 't']).1.output = e.formulas.toList.map Formula.render := rfl

theorem definitions_render {fs : List Formula} (h : ∀ f ∈ fs, f.IsListable) :
    definitions (fs.map fun f => f.render.toList) = fs := by
  induction fs with
  | nil => rfl
  | cons f fs ih =>
    have hrest := ih fun g hg => h g (List.mem_cons_of_mem _ hg)
    rw [List.map_cons, definitions_cons, definition?_trim_render (h f List.mem_cons_self), hrest]
    rfl

/-- A store is given back by the lines that show its formulas, if each of them is read back. -/
theorem formulas_run_listing {s : Formulas} {listed : List String} (limits : Limits) (roller : σ)
    (hs : ∀ f ∈ s.toList, f.IsListable ∧ '\n' ∉ f.render.toList)
    (hlisted : listed.Perm (s.toList.map Formula.render)) :
    (run (Engine.mk Formulas.empty limits roller) (joinLines listed)).2.formulas = s := by
  have hlines : lines (joinLines listed).toList = listed.map String.toList := by
    apply lines_joinLines
    intro line hline
    obtain ⟨f, hf, rfl⟩ := List.mem_map.1 (hlisted.mem_iff.1 hline)
    exact (hs f hf).2
  have hperm : (definitions (listed.map String.toList)).Perm s.toList := by
    have hdefinitions := (hlisted.map String.toList).filterMap fun line => definition? (trim line)
    rw [List.map_map] at hdefinitions
    exact hdefinitions.trans (.of_eq (definitions_render fun f hf => (hs f hf).1))
  rw [formulas_run, hlines]
  exact Formulas.ofList_of_perm hperm

theorem listable_of_definedLast {input : List Char} {f : Formula} (h : DefinedLast (lines input) f) :
    f.IsListable ∧ '\n' ∉ f.render.toList := by
  obtain ⟨line, hline, hf⟩ := h.exists_line
  have hnewline : '\n' ∉ trim line := fun hmem => newline_not_mem_lines hline (mem_of_mem_trim hmem)
  exact ⟨hf.isListable, newline_not_mem_render hf hnewline⟩

end Dialogue

/-! ### Whole dialogues -/

open Dialogue

/-- After a dialogue the store has, under each name, the formula of the last line that defined one of
that name, and no other formulas. A line that is a definition saves its formula, and no other line
changes the store. The lines that show the formulas of the store, answered in any order by a dialogue
that starts afresh, give the same store. -/
theorem listing_restores {σ τ : Type} [Roller σ] [Roller τ] (limits limits' : Limits) (roller : σ)
    (roller' : τ) (input : String) :
    let after := (Dialogue.run (Engine.mk Formulas.empty limits roller) input).2
    (∀ line f, definition? line = some f ↔ IsDefinition line f) ∧
    (∀ (e : Engine σ) (line : List Char),
      (∀ f, IsDefinition (trim line) f →
        (Dialogue.answer e line).2.formulas = e.formulas.insert f) ∧
      ((∀ f, ¬IsDefinition (trim line) f) → (Dialogue.answer e line).2.formulas = e.formulas)) ∧
    (∀ name f, after.formulas.find? name = some f ↔
      f.name = name ∧ DefinedLast (Dialogue.lines input.toList) f) ∧
    ∀ listed, listed.Perm (Dialogue.answer after [':', 'l', 'i', 's', 't']).1.output →
      (Dialogue.run (Engine.mk Formulas.empty limits' roller')
        (Dialogue.joinLines listed)).2.formulas = after.formulas := by
  intro after
  have hfind : ∀ name f, after.formulas.find? name = some f ↔
      f.name = name ∧ DefinedLast (lines input.toList) f := by
    intro name f
    rw [formulas_run limits roller input]
    exact find?_definitions_eq_some_iff
  refine ⟨fun line f => definition?_eq_some_iff, ?_, hfind, ?_⟩
  · intro e line
    constructor
    · intro f hf
      rw [formulas_answer, definition?_eq_some_iff.2 hf]
    · intro hnone
      have hdefinition : definition? (trim line) = none :=
        Option.eq_none_iff_forall_ne_some.2 fun f hf => hnone f (definition?_eq_some_iff.1 hf)
      rw [formulas_answer, hdefinition]
  · intro listed hlisted
    rw [output_answer_list] at hlisted
    apply formulas_run_listing limits' roller' _ hlisted
    intro f hf
    exact listable_of_definedLast ((hfind f.name f).1 (Formulas.find?_eq_some_iff.2 hf)).2

/-- One formula was defined twice, the other refers to it and cannot be read. Their listing is read back
in the opposite order. -/
theorem listing_restores_swapped :
    ["[b] = [a]+[", "[a] = =2"].Perm
        (Dialogue.answer (Dialogue.run (⟨.empty, {}, {}⟩ : Engine Stepping)
          "[b]=[a]+[\n [a] = 1 \n[a]==2\n[a]\n").2 [':', 'l', 'i', 's', 't']).1.output ∧
      (Dialogue.run (⟨.empty, {}, {}⟩ : Engine Stepping)
          (Dialogue.joinLines ["[b] = [a]+[", "[a] = =2"])).2.formulas =
        (Dialogue.run (⟨.empty, {}, {}⟩ : Engine Stepping)
          "[b]=[a]+[\n [a] = 1 \n[a]==2\n[a]\n").2.formulas := by
  have hdefinitions : definitions (lines "[b]=[a]+[\n [a] = 1 \n[a]==2\n[a]\n".toList) =
      [⟨"b", "[a]+["⟩, ⟨"a", "1"⟩, ⟨"a", "=2"⟩] := by
    decide +kernel
  have hlisted : (Dialogue.answer (Dialogue.run (⟨.empty, {}, {}⟩ : Engine Stepping)
      "[b]=[a]+[\n [a] = 1 \n[a]==2\n[a]\n").2 [':', 'l', 'i', 's', 't']).1.output =
        ["[a] = =2", "[b] = [a]+["] := by
    rw [output_answer_list, formulas_run, hdefinitions]
    rfl
  have hperm := hlisted ▸ List.Perm.swap "[a] = =2" "[b] = [a]+[" []
  exact ⟨hperm, (listing_restores {} {} ({} : Stepping) ({} : Stepping) _).2.2.2 _ hperm⟩

end DiceExpr

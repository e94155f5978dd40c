/-!
# Formulas

A formula is a named expression. Expressions are read with any collection that can be asked for the
formula of a name. The store of this library keeps one formula a name, in the order of the names, so
that two stores that answer every look-up alike are the same store.

## Main statements

* `find?_insert`: an inserted formula is found under its own name, and no other name is touched.
* `find?_insertMany`: of formulas of one name, the one put in last is found.
* `find?_erase`: an erased name is gone, and no other name is touched.
* `ext`: a store is determined by its look-ups.
* `ofList_of_perm`: the formulas of a store, in any order, give the store.
-/

namespace DiceExpr

/-- An expression with a name by which other expressions refer to it. -/
structure Formula where
  name : String
  expression : String
  deriving DecidableEq

/-- A collection that can be asked for the formula of a name. -/
class FormulaStore (S : Type) where
  find? : S → String → Option Formula

/-- The contract of looking formulas up by name: one that is found under a name has that name. What is
said of stores in which a formula stands for its name rests on it, namely that references can be written
out in a text, and that formulas with the same expressions can be exchanged. -/
class LawfulFormulaStore (S : Type) [FormulaStore S] : Prop where
  name_of_find? : ∀ (s : S) {name : String} {f : Formula},
    FormulaStore.find? s name = some f → f.name = name

/-- A store of formulas, one a name, in the order of the names. -/
structure Formulas where
  toList : List Formula
  sorted : toList.Pairwise (fun f g => f.name < g.name)

namespace Formulas

/-! ### Operations -/

def empty : Formulas := ⟨[], .nil⟩

instance : Inhabited Formulas := ⟨empty⟩

/-- The formula of a name. Names are compared as they are written, case included. -/
def find? (s : Formulas) (name : String) : Option Formula :=
  s.toList.find? (·.name = name)

instance : FormulaStore Formulas := ⟨find?⟩

def size (s : Formulas) : Nat := s.toList.length

def isEmpty (s : Formulas) : Bool := s.toList.isEmpty

/-- Puts a formula at its place by name, instead of one of the same name. -/
def place (f : Formula) : List Formula → List Formula
  | [] => [f]
  | g :: rest =>
    if f.name < g.name then f :: g :: rest
    else if f.name = g.name then f :: rest
    else g :: place f rest

theorem mem_of_mem_place {f g : Formula} {l : List Formula} (h : g ∈ place f l) :
    g = f ∨ g ∈ l := by
  induction l with
  | nil => simpa [place] using h
  | cons k rest ih =>
    simp only [place] at h
    split at h
    · simpa using h
    · split at h
      · rcases List.mem_cons.1 h with h | h
        · exact .inl h
        · exact .inr (List.mem_cons_of_mem _ h)
      · rcases List.mem_cons.1 h with h | h
        · exact .inr (h ▸ List.mem_cons_self)
        · exact (ih h).imp_right (List.mem_cons_of_mem _)

theorem lt_of_not_lt_of_ne {a b : String} (h : ¬a < b) (hne : a ≠ b) : b < a := by
  rcases Decidable.em (b < a) with hba | hba
  · exact hba
  · exact absurd (String.le_antisymm (String.not_lt.1 hba) (String.not_lt.1 h)) hne

theorem pairwise_place (f : Formula) {l : List Formula}
    (h : l.Pairwise (fun f g => f.name < g.name)) :
    (place f l).Pairwise (fun f g => f.name < g.name) := by
  induction l with
  | nil => simp [place]
  | cons k rest ih =>
    obtain ⟨hk, hrest⟩ := List.pairwise_cons.1 h
    simp only [place]
    split
    · next hlt =>
      refine .cons ?_ h
      intro g hg
      rcases List.mem_cons.1 hg with rfl | hg
      · exact hlt
      · exact String.lt_trans hlt (hk g hg)
    · next hlt =>
      split
      · next heq => exact .cons (fun g hg => heq ▸ hk g hg) hrest
      · next hne =>
        refine .cons ?_ (ih hrest)
        intro g hg
        rcases mem_of_mem_place hg with rfl | hg
        · exact lt_of_not_lt_of_ne hlt hne
        · exact hk g hg

/-- The store with a formula put in, instead of one of the same name. -/
def insert (s : Formulas) (f : Formula) : Formulas :=
  ⟨place f s.toList, pairwise_place f s.sorted⟩

def erase (s : Formulas) (name : String) : Formulas :=
  ⟨s.toList.filter (fun f => f.name ≠ name), s.sorted.filter _⟩

/-- The store with formulas put in one after the other: of two with one name, the later one stays. -/
def insertMany (s : Formulas) (fs : List Formula) : Formulas :=
  fs.foldl insert s

/-- The store of some formulas: of two with one name, the later one stays. -/
def ofList (fs : List Formula) : Formulas :=
  empty.insertMany fs

/-! ### Look-ups -/

@[simp]
theorem find?_empty (name : String) : empty.find? name = none := rfl

theorem find?_place (f : Formula) (l : List Formula) (name : String)
    (h : l.Pairwise (fun f g => f.name < g.name)) :
    (place f l).find? (·.name = name) =
      if name = f.name then some f else l.find? (·.name = name) := by
  induction l with
  | nil => by_cases hn : name = f.name <;> simp [place, hn, eq_comm]
  | cons k rest ih =>
    simp only [place]
    split
    · by_cases hn : name = f.name
      · simp [hn]
      · have hn' : ¬f.name = name := fun e => hn e.symm
        simp [hn, hn']
    · split
      · next heq =>
        by_cases hn : name = f.name
        · simp [hn]
        · have hn' : ¬f.name = name := fun e => hn e.symm
          have hk' : ¬k.name = name := heq ▸ hn'
          simp [hn, hn', hk']
      · next hlt hne =>
        by_cases hkn : k.name = name
        · have hn : ¬name = f.name := fun e => hne (e ▸ hkn.symm)
          simp [hkn, hn]
        · simp [hkn, ih (List.Pairwise.of_cons h)]

theorem find?_insert (s : Formulas) (f : Formula) (name : String) :
    (s.insert f).find? name = if name = f.name then some f else s.find? name :=
  find?_place f s.toList name s.sorted

/-- Of the formulas put in, the last one of a name is found, and one of the store if there is none. -/
theorem find?_insertMany (s : Formulas) (fs : List Formula) (name : String) :
    (s.insertMany fs).find? name = (fs.reverse.find? (·.name = name)).or (s.find? name) := by
  induction fs generalizing s with
  | nil => rfl
  | cons f fs ih =>
    have hrest : (s.insertMany (f :: fs)) = (s.insert f).insertMany fs := rfl
    rw [hrest, ih, find?_insert, List.reverse_cons, List.find?_append, Option.or_assoc]
    by_cases hn : name = f.name
    · simp [hn]
    · have hn' : ¬f.name = name := fun e => hn e.symm
      simp [hn, hn']

theorem find?_erase (s : Formulas) (gone name : String) :
    (s.erase gone).find? name = if name = gone then none else s.find? name := by
  simp only [find?, erase, List.find?_filter]
  split
  · next h => subst h; simp
  · next h =>
    congr 1
    funext f
    by_cases hf : f.name = name
    · simp [hf, h]
    · simp [hf]

theorem name_of_find? {s : Formulas} {name : String} {f : Formula} (h : s.find? name = some f) :
    f.name = name := by
  simpa using List.find?_some h

instance : LawfulFormulaStore Formulas := ⟨fun _ _ _ => name_of_find?⟩

/-! ### Extensionality -/

theorem nodup (s : Formulas) : s.toList.Nodup := by
  apply s.sorted.imp
  intro f g h e
  exact String.lt_irrefl _ (e ▸ h)

theorem find?_eq_some_iff {s : Formulas} {f : Formula} : s.find? f.name = some f ↔ f ∈ s.toList := by
  constructor
  · exact List.mem_of_find?_eq_some
  · intro h
    obtain ⟨l, hl⟩ := s
    simp only [find?] at *
    induction l with
    | nil => simp at h
    | cons k rest ih =>
      rcases List.mem_cons.1 h with rfl | hmem
      · simp
      · have hlt := List.rel_of_pairwise_cons hl hmem
        have hne : ¬k.name = f.name := fun e => String.lt_irrefl _ (e ▸ hlt)
        simp [hne, ih (List.Pairwise.of_cons hl) hmem]

theorem ext {s t : Formulas} (h : ∀ name, s.find? name = t.find? name) : s = t := by
  have mem_iff (f : Formula) : f ∈ s.toList ↔ f ∈ t.toList := by
    rw [← find?_eq_some_iff, ← find?_eq_some_iff, h]
  have perm : s.toList.Perm t.toList :=
    (List.perm_ext_iff_of_nodup s.nodup t.nodup).2 mem_iff
  obtain ⟨l, hl⟩ := s
  obtain ⟨m, hm⟩ := t
  have eq : l = m :=
    perm.eq_of_pairwise (fun _ _ _ _ hab hba => absurd hba (String.lt_asymm hab)) hl hm
  subst eq
  rfl

/-- The store of its own formulas, in whatever order they are put in. -/
theorem ofList_of_perm {s : Formulas} {fs : List Formula} (h : fs.Perm s.toList) : ofList fs = s := by
  apply ext
  intro name
  have hmem (f : Formula) : f ∈ fs.reverse ↔ s.find? f.name = some f := by
    rw [List.mem_reverse, h.mem_iff, find?_eq_some_iff]
  rw [ofList, find?_insertMany, find?_empty, Option.or_none]
  cases hfind : fs.reverse.find? (·.name = name) with
  | some f =>
    have hname : f.name = name := by simpa using List.find?_some hfind
    rw [← hname]
    exact ((hmem f).1 (List.mem_of_find?_eq_some hfind)).symm
  | none =>
    cases hs : s.find? name with
    | none => rfl
    | some f =>
      have hname := name_of_find? hs
      subst hname
      have hnone := List.find?_eq_none.1 hfind f ((hmem f).2 hs)
      simp at hnone

end Formulas

end DiceExpr

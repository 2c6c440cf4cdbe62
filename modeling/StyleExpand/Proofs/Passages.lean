import StyleExpand.Proofs.Evaluation
import StyleExpand.Proofs.Reference

/-!
# The texts that evaluation resolves

Evaluation resolves the references of some texts of a node before it goes on inside it: once for a
node that stays, once in each round for what is inside a loop, and never for what is inside a branch
that is not taken.

* `Content.resolved` : the texts of a node whose references are resolved;
* `Passage` : such a text, with what its names stand for where it is resolved;
* `Eval.forestPassages` : the passages of siblings, in the order in which they are resolved;
* `Eval.forest_reporting` : warnings are those of the passages, and all else is as without warnings.
-/

namespace StyleExpand

open StyleExpand.Tree

/-! ## Texts of a node -/

def countingTexts (params : String) : List String :=
  [2, 4, 6].flatMap fun place => ((splitSpace params.toList)[place]?.map String.ofList).toList

def listingTexts (params : String) : List String :=
  if (Text.words (Run.eachParts params).1).isEmpty then [] else [String.ofList (Run.eachParts params).2]

def conditionTexts (params : String) : List String :=
  match splitSpace params.toList with
  | left :: _ :: right :: _ => [String.ofList left, String.ofList right]
  | _ => []

/-- The texts of a node whose references are resolved, in that order. -/
def Content.resolved : Content → List String
  | .declaration property value =>
    match declaredName? property with
    | some _ => [value]
    | none => [property, value]
  | .rule selector => [selector]
  | .atRule name params _ =>
    match Directive.ofName name with
    | .counting => countingTexts params
    | .listing => listingTexts params
    | .condition => conditionTexts params
    | .media | .keyframes => [params]
    | .other => []
  | .root | .comment _ => []

/-- A text at a position, and the values that names have where it is resolved. -/
structure Passage where
  text : String
  position : Option Position
  values : Bindings

/-- One notice for each reference of a passage that has no value, in order of appearance. -/
def Passage.notices (p : Passage) : List Notice :=
  (((references false p.text.toList).map fun r => String.ofList r.name).filter fun name =>
    (p.values name).isNone).map fun name => ⟨name, p.text, p.position⟩

namespace Eval

def passagesOf (scopes : List Bindings) (position : Option Position) (texts : List String) :
    List Passage :=
  texts.map fun text => ⟨text, position, Bindings.find scopes⟩

/-- The scopes in which what is inside a node is evaluated, one after the other. -/
def bodies (above : List Bindings) (own : Bindings) (entry : Entry) : List Bindings :=
  match entry.content with
  | .declaration property _ =>
    match declaredName? property with
    | some _ => []
    | none => [.empty]
  | .atRule name params _ =>
    match Directive.ofName name with
    | .counting =>
      (countingRows false (own :: above) entry.position params).1.map Bindings.empty.setAll
    | .listing =>
      (listingRows false (own :: above) entry.position params).1.map Bindings.empty.setAll
    | .condition =>
      if (condition false (own :: above) entry.position params).1 then [.empty] else []
    | .media | .keyframes | .other => [.empty]
  | .rule _ | .root | .comment _ => [.empty]

def plainPassages (above : List Bindings) (own : Bindings) (entry : Entry)
    (inside : Bindings → List Passage) : List Passage :=
  passagesOf (own :: above) entry.position entry.content.resolved ++
    (bodies above own entry).flatMap inside

def nodePassages (above : List Bindings) (own : Bindings) (before : Option Bool) (entry : Entry)
    (inside : Bindings → List Passage) : List Passage :=
  match entry.isElse, before with
  | true, some true => []
  | true, some false => inside .empty
  | _, _ => plainPassages above own entry inside

mutual

def treePassages (above : List Bindings) (own : Bindings) (before : Option Bool) :
    Tree Entry → List Passage
  | .node entry children =>
    nodePassages above own before entry fun b => forestPassages (own :: above) b none children

/-- The passages of siblings, in the order in which they are resolved. -/
def forestPassages (above : List Bindings) (own : Bindings) (before : Option Bool) :
    List (Tree Entry) → List Passage
  | [] => []
  | t :: ts =>
    let first := tree false above own before t
    treePassages above own before t ++ forestPassages above first.bindings first.condition ts

end

def passages (options : Options) (trees : List (Tree Entry)) : List Passage :=
  forestPassages [] (optionBindings options .empty) none trees

/-! ## Warnings of passages -/

def told (warns : Bool) (ps : List Passage) : List Notice :=
  if warns then ps.flatMap Passage.notices else []

@[simp] theorem told_nil (warns : Bool) : told warns [] = [] := by
  cases warns <;> rfl

theorem told_append (warns : Bool) (ps qs : List Passage) :
    told warns (ps ++ qs) = told warns ps ++ told warns qs := by
  cases warns
  · rfl
  · exact List.flatMap_append

theorem told_flatMap {α : Type} (warns : Bool) (xs : List α) (f : α → List Passage) :
    told warns (xs.flatMap f) = xs.flatMap fun x => told warns (f x) := by
  cases warns
  · simp [told]
  · exact List.flatMap_assoc

/-- An outcome with the warnings of passages in place of its own. -/
def Outcome.reporting (o : Outcome) (warns : Bool) (ps : List Passage) : Outcome :=
  { o with notices := told warns ps }

variable (warns : Bool) (scopes above : List Bindings) (own : Bindings) (position : Option Position)

section Texts

theorem passagesOf_append (texts texts' : List String) :
    passagesOf scopes position (texts ++ texts') =
      passagesOf scopes position texts ++ passagesOf scopes position texts' := List.map_append

theorem interpolate_told (text : String) :
    interpolate warns scopes position text =
      ((interpolate false scopes position text).1, told warns (passagesOf scopes position [text])) := by
  rw [interpolate, unresolved_substitute]
  cases warns <;> simp [interpolate, told, passagesOf, Passage.notices]

theorem bound_told (tokens : List (List Char)) (place : Nat) :
    bound warns scopes position tokens place =
      ((bound false scopes position tokens place).1,
        told warns (passagesOf scopes position (tokens[place]?.map String.ofList).toList)) := by
  unfold bound
  cases tokens[place]? with
  | none => simp [passagesOf]
  | some token =>
    dsimp only
    rw [interpolate_told warns]
    rfl

theorem countingRows_told (params : String) :
    countingRows warns scopes position params =
      ((countingRows false scopes position params).1,
        told warns (passagesOf scopes position (countingTexts params))) := by
  unfold countingRows countingTexts
  cases splitSpace params.toList with
  | nil => simp [passagesOf]
  | cons token tokens =>
    simp only [bound_told warns, List.flatMap_cons, List.flatMap_nil, List.append_nil,
      passagesOf_append, told_append, List.append_assoc]

theorem listingRows_told (params : String) :
    listingRows warns scopes position params =
      ((listingRows false scopes position params).1,
        told warns (passagesOf scopes position (listingTexts params))) := by
  unfold listingRows listingTexts
  dsimp only
  cases Text.words (Run.eachParts params).1 with
  | nil => simp [passagesOf]
  | cons token tokens =>
    rw [List.map_cons]
    dsimp only
    rw [interpolate_told warns]
    rfl

theorem told_pair (first second : String) :
    told warns (passagesOf scopes position [first]) ++ told warns (passagesOf scopes position [second]) =
      told warns (passagesOf scopes position [first, second]) := (told_append ..).symm

theorem condition_told (params : String) :
    condition warns scopes position params =
      ((condition false scopes position params).1,
        told warns (passagesOf scopes position (conditionTexts params))) := by
  unfold condition conditionTexts
  generalize splitSpace params.toList = tokens
  match tokens with
  | left :: operator :: right :: others =>
    dsimp only
    rw [interpolate_told warns, interpolate_told warns _ _ (String.ofList right), told_pair]
    cases Comparison.ofText? (String.ofList operator) <;> rfl
  | [] | [_] | [_, _] => simp [passagesOf]

end Texts

/-! ## Nodes and trees -/

section Node

variable {inside inside' : Bindings → Outcome} {ps : Bindings → List Passage}

theorem keep_reporting (h : ∀ b, inside b = (inside' b).reporting warns (ps b)) (entry : Entry)
    (qs : List Passage) (ns : List Notice) :
    keep own entry (told warns qs) inside =
      (keep own entry ns inside').reporting warns (qs ++ [Bindings.empty].flatMap ps) := by
  simp only [keep, h, Outcome.reporting, told_append, List.flatMap_cons, List.flatMap_nil,
    List.append_nil]

theorem keep_reporting_nil (h : ∀ b, inside b = (inside' b).reporting warns (ps b)) (entry : Entry) :
    keep own entry [] inside =
      (keep own entry [] inside').reporting warns ([Bindings.empty].flatMap ps) := by
  simpa using keep_reporting warns own h entry [] []

theorem rounds_reporting (h : ∀ b, inside b = (inside' b).reporting warns (ps b))
    (rows : List (List (String × Value))) (qs : List Passage) (ns : List Notice) :
    rounds own rows (told warns qs) inside =
      (rounds own rows ns inside').reporting warns
        (qs ++ (rows.map Bindings.empty.setAll).flatMap ps) := by
  simp only [rounds, gather, h, Outcome.reporting, told_append, told_flatMap, List.flatMap_map]

theorem unwrap_reporting (h : ∀ b, inside b = (inside' b).reporting warns (ps b))
    (after : Option Bool) (qs : List Passage) (ns : List Notice) :
    unwrap own (told warns qs) after inside =
      (unwrap own ns after inside').reporting warns (qs ++ [Bindings.empty].flatMap ps) := by
  simp only [unwrap, h, Outcome.reporting, told_append, List.flatMap_cons, List.flatMap_nil,
    List.append_nil]

theorem plain_reporting (h : ∀ b, inside b = (inside' b).reporting warns (ps b)) (entry : Entry) :
    plain warns above own entry inside =
      (plain false above own entry inside').reporting warns (plainPassages above own entry ps) := by
  unfold plain plainPassages bodies Content.resolved
  cases entry.content with
  | root => exact keep_reporting_nil warns own h _
  | comment text => exact keep_reporting_nil warns own h _
  | rule selector =>
    dsimp only
    rw [interpolate_told warns]
    exact keep_reporting warns own h _ _ _
  | declaration property value =>
    dsimp only
    unfold declaration
    cases declaredName? property with
    | some name =>
      dsimp only
      rw [interpolate_told warns]
      simp [Outcome.reporting]
    | none =>
      dsimp only
      rw [interpolate_told warns, interpolate_told warns _ _ value, told_pair]
      exact keep_reporting warns own h _ _ _
  | atRule name params block =>
    dsimp only
    unfold atRule
    cases Directive.ofName name with
    | counting =>
      dsimp only
      rw [countingRows_told warns]
      exact rounds_reporting warns own h _ _ _
    | listing =>
      dsimp only
      rw [listingRows_told warns]
      exact rounds_reporting warns own h _ _ _
    | condition =>
      dsimp only
      rw [condition_told warns]
      dsimp only
      split
      · exact unwrap_reporting warns own h _ _ _
      · simp [Outcome.reporting]
    | media =>
      dsimp only
      rw [interpolate_told warns]
      exact keep_reporting warns own h _ _ _
    | keyframes =>
      dsimp only
      rw [interpolate_told warns]
      exact keep_reporting warns own h _ _ _
    | other => exact keep_reporting_nil warns own h _

theorem node_reporting (h : ∀ b, inside b = (inside' b).reporting warns (ps b))
    (before : Option Bool) (entry : Entry) :
    node warns above own before entry inside =
      (node false above own before entry inside').reporting warns
        (nodePassages above own before entry ps) := by
  unfold node nodePassages
  match entry.isElse, before with
  | true, some true => simp [Outcome.reporting]
  | true, some false => simpa using unwrap_reporting warns own h none [] []
  | true, none | false, _ => exact plain_reporting warns above own h entry

end Node

theorem andThen_reporting (o o' : Outcome) (ps qs : List Passage) :
    (o.reporting warns ps).andThen (o'.reporting warns qs) =
      (o.andThen o').reporting warns (ps ++ qs) := by
  simp only [Outcome.andThen, Outcome.reporting, told_append]

mutual

theorem tree_reporting : ∀ (above : List Bindings) (own : Bindings) (before : Option Bool)
    (t : Tree Entry), tree warns above own before t =
      (tree false above own before t).reporting warns (treePassages above own before t)
  | above, own, before, .node entry ts => by
    rw [tree, tree, treePassages]
    exact node_reporting warns above own (fun b => forest_reporting (own :: above) b none ts) before
      entry

/-- With warnings or without, siblings come to the same; the warnings are those of the passages. -/
theorem forest_reporting : ∀ (above : List Bindings) (own : Bindings) (before : Option Bool)
    (ts : List (Tree Entry)), forest warns above own before ts =
      (forest false above own before ts).reporting warns (forestPassages above own before ts)
  | above, own, before, [] => by
    rw [forest_nil, forest_nil, forestPassages]
    simp [Outcome.reporting]
  | above, own, before, t :: ts => by
    rw [forest_cons, forest_cons, forestPassages, tree_reporting above own before t,
      forest_reporting above _ _ ts]
    exact andThen_reporting ..

end

end Eval

end StyleExpand

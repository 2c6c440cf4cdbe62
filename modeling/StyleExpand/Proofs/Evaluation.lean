import StyleExpand.Run.Walk
import StyleExpand.Proofs.Tree

/-!
# Evaluation of trees

What a stylesheet expands to, said of trees that nobody changes. Scopes are a stack, the innermost
first; a block is evaluated in a new scope on top, which is gone behind the block.

* `Eval.node` : what stands for one node, given what its children come to in a scope;
* `Eval.tree`, `Eval.forest` : trees, and siblings from left to right;
* `Eval.stylesheet` : the trees of a stylesheet, with the variables of the options bound first;
* `Eval.forest_append` : a row of siblings is evaluated part after part.
-/

namespace StyleExpand

/-! ## Scopes -/

/-- The values of names in one scope. -/
abbrev Bindings := String → Option Value

namespace Bindings

def empty : Bindings := fun _ => none

def set (b : Bindings) (x : String) (v : Value) : Bindings := fun y => if x = y then some v else b y

def setAll (b : Bindings) (row : List (String × Value)) : Bindings :=
  row.foldl (fun b binding => b.set binding.1 binding.2) b

/-- The value of a name in the nearest scope that binds it. -/
def find (scopes : List Bindings) (name : String) : Option Value := scopes.findSome? fun b => b name

theorem setAll_cons (b : Bindings) (binding : String × Value) (row : List (String × Value)) :
    b.setAll (binding :: row) = (b.set binding.1 binding.2).setAll row := rfl

theorem setAll_congr {row : List (String × Value)} : ∀ {b b' : Bindings},
    (∀ x, x ∉ row.map Prod.fst → b x = b' x) → b.setAll row = b'.setAll row := by
  induction row with
  | nil => exact fun h => funext fun x => h x (by simp)
  | cons binding row ih =>
    intro b b' h
    rw [setAll_cons, setAll_cons]
    refine ih fun x hx => ?_
    rw [set, set]
    split
    · rfl
    · rename_i hne
      refine h x ?_
      rw [List.map_cons, List.mem_cons, not_or]
      exact ⟨Ne.symm hne, hx⟩

theorem setAll_of_notMem {row : List (String × Value)} {x : String} : ∀ {b : Bindings},
    x ∉ row.map Prod.fst → b.setAll row x = b x := by
  induction row with
  | nil => exact fun _ => rfl
  | cons binding row ih =>
    intro b hx
    rw [List.map_cons, List.mem_cons, not_or] at hx
    rw [setAll_cons, ih hx.2, set, if_neg (Ne.symm hx.1)]

theorem find_cons (b : Bindings) (scopes : List Bindings) (name : String) :
    find (b :: scopes) name = (b name).or (find scopes name) := by
  rw [find, List.findSome?_cons]
  cases b name <;> rfl

theorem find_empty_cons (scopes : List Bindings) : find (empty :: scopes) = find scopes := by
  funext name
  rw [find_cons]
  rfl

end Bindings

/-- A warning, without the identity of the node at which it was raised. -/
structure Notice where
  name : String
  text : String
  position : Option Position
  deriving DecidableEq

def Warning.notice (w : Warning) : Notice := ⟨w.name, w.text, w.position⟩

def Entry.isElse (e : Entry) : Bool := e.content.atRuleName? == some "else"

def Entry.isCondition (e : Entry) : Bool := e.content.atRuleName? == some "if"

/-- Whether a node is a loop or a condition: expansion puts other nodes in its place. -/
def Entry.isConstruct (e : Entry) : Bool :=
  e.content.atRuleName?.any fun name => name == "for" || name == "each" || name == "if"

theorem Directive.ofName_eq_condition {name : String} (h : Directive.ofName name = .condition) :
    name = "if" := by
  unfold Directive.ofName at h
  grind

/-- Every name of a loop or condition has a directive of its own. -/
theorem Directive.isConstruct_atRule {name params : String} {block : Bool}
    {position : Option Position} (hfor : ofName name ≠ .counting) (heach : ofName name ≠ .listing)
    (hif : ofName name ≠ .condition) :
    Entry.isConstruct ⟨.atRule name params block, position⟩ = false := by
  have hnames : name ≠ "for" ∧ name ≠ "each" ∧ name ≠ "if" := by
    refine ⟨?_, ?_, ?_⟩
    · rintro rfl
      exact hfor (by decide)
    · rintro rfl
      exact heach (by decide)
    · rintro rfl
      exact hif (by decide)
  simp [Entry.isConstruct, Content.atRuleName?, hnames]

namespace Eval

/-- What a part of a stylesheet comes to: trees, the innermost scope behind it, the warnings in
order, and whether a condition right before the next sibling held. -/
structure Outcome where
  trees : List (Tree Entry)
  bindings : Bindings
  notices : List Notice
  condition : Option Bool

def Outcome.andThen (first second : Outcome) : Outcome :=
  ⟨first.trees ++ second.trees, second.bindings, first.notices ++ second.notices, second.condition⟩

variable (warns : Bool)

/-! ## Texts -/

def interpolate (scopes : List Bindings) (position : Option Position) (text : String) :
    String × List Notice :=
  let done := substitute (Bindings.find scopes) text.toList
  (String.ofList done.text,
    if warns then done.unresolved.map fun name => ⟨name, text, position⟩ else [])

/-- An assignment in the innermost scope; a default one yields to any value that is in sight. -/
def assign (above : List Bindings) (own : Bindings) (name raw : String) : Bindings :=
  match Scopes.beforeMarker? raw.toList with
  | none => own.set name (.ofText raw)
  | some value =>
    if (Bindings.find (own :: above) name).isSome then own
    else own.set name (.literal true value)

/-! ## Loops and conditions -/

def bound (scopes : List Bindings) (position : Option Position) (tokens : List (List Char))
    (place : Nat) : Double × List Notice :=
  match tokens[place]? with
  | none => (.nan, [])
  | some token =>
    let (text, notices) := interpolate warns scopes position (String.ofList token)
    (boundOf text.toList, notices)

def countingRows (scopes : List Bindings) (position : Option Position) (params : String) :
    List (List (String × Value)) × List Notice :=
  match splitSpace params.toList with
  | [] => ([], [])
  | token :: tokens =>
    let (first, notices₁) := bound warns scopes position (token :: tokens) 2
    let (last, notices₂) := bound warns scopes position (token :: tokens) 4
    let (step, notices₃) := bound warns scopes position (token :: tokens) 6
    ((Range.of first last step).visits.values.map fun x => [(bindingName token, .scalar x.text)],
      notices₁ ++ notices₂ ++ notices₃)

def listingRows (scopes : List Bindings) (position : Option Position) (params : String) :
    List (List (String × Value)) × List Notice :=
  let (head, list) := Run.eachParts params
  match (Text.words head).map bindingName with
  | [] => ([], [])
  | name :: others =>
    let index := others.head?.filter (!·.isEmpty)
    let (text, notices) := interpolate warns scopes position (String.ofList list)
    ((Value.ofText text).elements.zipIdx.map fun (element, i) =>
      (name, element) :: (index.map fun name => (name, Value.scalar (toString i))).toList, notices)

def condition (scopes : List Bindings) (position : Option Position) (params : String) :
    Bool × List Notice :=
  match splitSpace params.toList with
  | left :: operator :: right :: _ =>
    let (left, notices₁) := interpolate warns scopes position (String.ofList left)
    let (right, notices₂) := interpolate warns scopes position (String.ofList right)
    match Comparison.ofText? (String.ofList operator) with
    | some comparison => (comparison.holds (.ofText left) (.ofText right), notices₁ ++ notices₂)
    | none => (false, notices₁ ++ notices₂)
  | _ => (false, [])

/-! ## Nodes -/

/-- A node that stays, over what its children come to in a new scope. -/
def keep (own : Bindings) (entry : Entry) (notices : List Notice) (inside : Bindings → Outcome) :
    Outcome :=
  let body := inside .empty
  ⟨[.node entry body.trees], own, notices ++ body.notices, none⟩

/-- What the children of a node come to in a new scope, in place of the node. -/
def unwrap (own : Bindings) (notices : List Notice) (after : Option Bool)
    (inside : Bindings → Outcome) : Outcome :=
  let body := inside .empty
  ⟨body.trees, own, notices ++ body.notices, after⟩

/-- The trees and warnings of several bodies, in place of a node. -/
def gather (own : Bindings) (notices : List Notice) (bodies : List Outcome) : Outcome :=
  ⟨bodies.flatMap Outcome.trees, own, notices ++ bodies.flatMap Outcome.notices, none⟩

/-- What the children of a node come to in a new scope for each row of bindings. -/
def rounds (own : Bindings) (rows : List (List (String × Value))) (notices : List Notice)
    (inside : Bindings → Outcome) : Outcome :=
  gather own notices (rows.map fun row => inside (Bindings.empty.setAll row))

def declaration (above : List Bindings) (own : Bindings) (position : Option Position)
    (property value : String) (inside : Bindings → Outcome) : Outcome :=
  match declaredName? property with
  | some name =>
    let (value, notices) := interpolate warns (own :: above) position value
    ⟨[], assign above own name value, notices, none⟩
  | none =>
    let (property, notices₁) := interpolate warns (own :: above) position property
    let (value, notices₂) := interpolate warns (own :: above) position value
    keep own ⟨.declaration property value, position⟩ (notices₁ ++ notices₂) inside

def atRule (above : List Bindings) (own : Bindings) (position : Option Position)
    (name params : String) (block : Bool) (inside : Bindings → Outcome) : Outcome :=
  match Directive.ofName name with
  | .counting =>
    let (rows, notices) := countingRows warns (own :: above) position params
    rounds own rows notices inside
  | .listing =>
    let (rows, notices) := listingRows warns (own :: above) position params
    rounds own rows notices inside
  | .condition =>
    let (holds, notices) := condition warns (own :: above) position params
    if holds then unwrap own notices (some true) inside else ⟨[], own, notices, some false⟩
  | .media | .keyframes =>
    let (params, notices) := interpolate warns (own :: above) position params
    keep own ⟨.atRule name params block, position⟩ notices inside
  | .other => keep own ⟨.atRule name params block, position⟩ [] inside

/-- What stands for a node that is no second branch. -/
def plain (above : List Bindings) (own : Bindings) (entry : Entry) (inside : Bindings → Outcome) :
    Outcome :=
  match entry.content with
  | .declaration property value => declaration warns above own entry.position property value inside
  | .rule selector =>
    let (selector, notices) := interpolate warns (own :: above) entry.position selector
    keep own ⟨.rule selector, entry.position⟩ notices inside
  | .atRule name params block => atRule warns above own entry.position name params block inside
  | .root | .comment _ => keep own entry [] inside

/-- What stands for a node: `before` says whether a condition right before it held, and `inside` what
its children come to in a scope. -/
def node (above : List Bindings) (own : Bindings) (before : Option Bool) (entry : Entry)
    (inside : Bindings → Outcome) : Outcome :=
  match entry.isElse, before with
  | true, some true => ⟨[], own, [], none⟩
  | true, some false => unwrap own [] none inside
  | _, _ => plain warns above own entry inside

mutual

def tree (above : List Bindings) (own : Bindings) (before : Option Bool) : Tree Entry → Outcome
  | .node entry children =>
    node warns above own before entry fun b => forest (own :: above) b none children

/-- What stands for siblings, evaluated from left to right. -/
def forest (above : List Bindings) (own : Bindings) (before : Option Bool) :
    List (Tree Entry) → Outcome
  | [] => ⟨[], own, [], before⟩
  | t :: ts =>
    let first := tree above own before t
    first.andThen (forest above first.bindings first.condition ts)

end

def optionBindings (options : Options) (own : Bindings) : Bindings :=
  options.bindings.toList.foldl (fun own pair => assign [] own pair.1 pair.2) own

/-- A whole stylesheet, whose only scope is that of the root. -/
def stylesheet (options : Options) (own : Bindings) (trees : List (Tree Entry)) : Outcome :=
  forest options.warnUnresolved [] (optionBindings options own) none trees

/-! ### Scopes count for the values of names in them -/

section Congruence

variable {warns} {scopes scopes' : List Bindings}

theorem interpolate_congr (h : Bindings.find scopes = Bindings.find scopes') :
    interpolate warns scopes = interpolate warns scopes' := by
  funext position text
  rw [interpolate, interpolate, h]

theorem countingRows_congr (h : Bindings.find scopes = Bindings.find scopes') :
    countingRows warns scopes = countingRows warns scopes' := by
  funext position params
  simp only [countingRows, bound, interpolate_congr h]

theorem listingRows_congr (h : Bindings.find scopes = Bindings.find scopes') :
    listingRows warns scopes = listingRows warns scopes' := by
  funext position params
  simp only [listingRows, interpolate_congr h]

theorem condition_congr (h : Bindings.find scopes = Bindings.find scopes') :
    condition warns scopes = condition warns scopes' := by
  funext position params
  simp only [condition, interpolate_congr h]

end Congruence

/-! ## Rows of siblings -/

variable (above : List Bindings) (own : Bindings) (before : Option Bool)

@[simp] theorem forest_nil : forest warns above own before [] = ⟨[], own, [], before⟩ := by rw [forest]

theorem forest_cons (t : Tree Entry) (ts : List (Tree Entry)) :
    forest warns above own before (t :: ts) =
      (tree warns above own before t).andThen
        (forest warns above (tree warns above own before t).bindings
          (tree warns above own before t).condition ts) := by rw [forest]

theorem Outcome.andThen_assoc (a b c : Outcome) :
    (a.andThen b).andThen c = a.andThen (b.andThen c) := by
  simp only [andThen, List.append_assoc]

theorem forest_append : ∀ (own : Bindings) (before : Option Bool) (ts us : List (Tree Entry)),
    forest warns above own before (ts ++ us) =
      (forest warns above own before ts).andThen
        (forest warns above (forest warns above own before ts).bindings
          (forest warns above own before ts).condition us)
  | own, before, [], us => by simp [Outcome.andThen]
  | own, before, t :: ts, us => by
    rw [List.cons_append, forest_cons, forest_append _ _ ts us, forest_cons,
      Outcome.andThen_assoc]
    rfl

theorem forest_singleton (t : Tree Entry) :
    forest warns above own before [t] = tree warns above own before t := by
  rw [forest_cons, forest_nil]
  simp [Outcome.andThen]

theorem tree_none (entry : Entry) (ts : List (Tree Entry)) :
    tree warns above own none (.node entry ts) =
      plain warns above own entry fun b => forest warns (own :: above) b none ts := by
  rw [tree]
  unfold node
  cases entry.isElse <;> rfl

theorem tree_before {t : Tree Entry} (h : t.label.isElse = false) :
    tree warns above own before t = tree warns above own none t := by
  cases t with
  | node entry ts =>
    rw [Tree.label_node] at h
    rw [tree_none, tree]
    unfold node
    rw [h]

/-- The condition before a row of siblings that does not start with an `@else` is not asked for. -/
theorem forest_before {ts : List (Tree Entry)} (h : ∀ t ∈ ts.head?, t.label.isElse = false) :
    ∃ after, forest warns above own before ts =
      { forest warns above own none ts with condition := after } := by
  cases ts with
  | nil => exact ⟨before, by rw [forest_nil, forest_nil]⟩
  | cons t ts =>
    refine ⟨(forest warns above own none (t :: ts)).condition, ?_⟩
    rw [forest_cons, tree_before warns above own before (h t (by simp)), ← forest_cons]

/-- Only a declaration changes the scope in which it stands. -/
theorem plain_bindings {entry : Entry} (inside : Bindings → Outcome)
    (h : ∀ property value, entry.content ≠ .declaration property value) :
    (plain warns above own entry inside).bindings = own := by
  unfold plain
  split
  · rename_i hcontent
    exact absurd hcontent (h _ _)
  · rfl
  · unfold atRule
    split
    · rfl
    · rfl
    · dsimp only
      split <;> rfl
    · rfl
    · rfl
    · rfl
  · rfl
  · rfl

theorem tree_bindings {t : Tree Entry}
    (h : ∀ property value, t.label.content ≠ .declaration property value) :
    (tree warns above own before t).bindings = own := by
  cases t with
  | node entry ts =>
    rw [tree]
    unfold node
    split
    · rfl
    · rfl
    · exact plain_bindings warns above own _ h

/-! ### Scopes above a row -/

section Above

theorem find_of_forall_empty : ∀ {scopes : List Bindings}, (∀ b ∈ scopes, b = .empty) →
    Bindings.find scopes = Bindings.find []
  | [], _ => rfl
  | b :: scopes, h => by
    rw [h b (by simp), Bindings.find_empty_cons,
      find_of_forall_empty fun b hb => h b (List.mem_cons_of_mem _ hb)]

variable {warns above own} {above' : List Bindings}

theorem find_cons_congr (h : Bindings.find above = Bindings.find above') (own : Bindings) :
    Bindings.find (own :: above) = Bindings.find (own :: above') := by
  funext name
  rw [Bindings.find_cons, Bindings.find_cons, h]

theorem assign_congr (h : Bindings.find above = Bindings.find above') :
    assign above = assign above' := by
  funext own name raw
  rw [assign, assign, find_cons_congr h own]

theorem plain_congr (h : Bindings.find above = Bindings.find above') :
    plain warns above own = plain warns above' own := by
  have hown := find_cons_congr h own
  funext entry inside
  simp only [plain, declaration, atRule, assign_congr h, interpolate_congr hown,
    countingRows_congr hown, listingRows_congr hown, condition_congr hown]

mutual

theorem tree_congr : ∀ {above above' : List Bindings} (own : Bindings) (before : Option Bool)
    (t : Tree Entry), Bindings.find above = Bindings.find above' →
      tree warns above own before t = tree warns above' own before t
  | above, above', own, before, .node entry ts, h => by
    have hinside : ∀ b, forest warns (own :: above) b none ts = forest warns (own :: above') b none ts :=
      fun b => forest_congr b none ts (find_cons_congr h own)
    simp only [tree, node, plain_congr h, hinside]

theorem forest_congr : ∀ {above above' : List Bindings} (own : Bindings) (before : Option Bool)
    (ts : List (Tree Entry)), Bindings.find above = Bindings.find above' →
      forest warns above own before ts = forest warns above' own before ts
  | above, above', own, before, [], _ => by rw [forest_nil, forest_nil]
  | above, above', own, before, t :: ts, h => by
    rw [forest_cons, forest_cons, tree_congr own before t h, forest_congr _ _ ts h]

end

end Above

/-! ### Rounds that share a scope -/

/-- The bodies of rounds whose bindings all go into one scope, one row over the other. -/
def roundsFrom (inside : Bindings → Outcome) (b : Bindings) :
    List (List (String × Value)) → List Outcome
  | [] => []
  | row :: rows => inside (b.setAll row) :: roundsFrom inside (b.setAll row) rows

/-- Where every row binds the same names, a round does not see the rows before. -/
theorem roundsFrom_eq_map (inside : Bindings → Outcome) {names : List String} :
    ∀ {rows : List (List (String × Value))} {b : Bindings},
      (∀ row ∈ rows, row.map Prod.fst = names) → (∀ x, x ∉ names → b x = none) →
      roundsFrom inside b rows = rows.map fun row => inside (Bindings.empty.setAll row)
  | [], _, _, _ => rfl
  | row :: rows, b, hrows, hb => by
    have hrow := hrows row (by simp)
    have hset : b.setAll row = Bindings.empty.setAll row :=
      Bindings.setAll_congr fun x hx => hb x (hrow ▸ hx)
    rw [roundsFrom, List.map_cons, ← hset]
    congr 1
    refine roundsFrom_eq_map inside (fun row' h => hrows row' (by simp [h])) fun x hx => ?_
    rw [Bindings.setAll_of_notMem (hrow ▸ hx), hb x hx]

/-! ### Where a row may be cut -/

/-- The cut between two rows of siblings does not part a condition from its second branch. -/
def Severed (ts us : List (Tree Entry)) : Prop :=
  (∀ t ∈ ts.getLast?, t.label.isCondition = false) ∨ ∀ u ∈ us.head?, u.label.isElse = false

theorem plain_condition {entry : Entry} (inside : Bindings → Outcome)
    (h : entry.isCondition = false) : (plain warns above own entry inside).condition = none := by
  unfold plain
  split
  · unfold declaration
    split <;> rfl
  · rfl
  · rename_i name params block hcontent
    have hname : name ≠ "if" := by
      simpa [Entry.isCondition, hcontent, Content.atRuleName?] using h
    unfold atRule
    split
    · rfl
    · rfl
    · rename_i hdirective
      exact absurd (Directive.ofName_eq_condition hdirective) hname
    · rfl
    · rfl
    · rfl
  · rfl
  · rfl

theorem tree_condition {t : Tree Entry} (h : t.label.isCondition = false) :
    (tree warns above own before t).condition = none := by
  cases t with
  | node entry ts =>
    rw [tree]
    unfold node
    split
    · rfl
    · rfl
    · exact plain_condition warns above own _ h

theorem forest_condition : ∀ (own : Bindings) (before : Option Bool) {ts : List (Tree Entry)},
    ts ≠ [] → (∀ t ∈ ts.getLast?, t.label.isCondition = false) →
    (forest warns above own before ts).condition = none
  | own, before, [t], _, h => by
    rw [forest_singleton]
    exact tree_condition warns above own before (h t (by simp))
  | own, before, t :: u :: ts, _, h => by
    rw [forest_cons]
    exact forest_condition _ _ (by simp) fun v hv => h v (by simpa using hv)

/-- What is evaluated first of a row: a node, or a condition with the `@else` right behind it. -/
inductive Lead : List (Tree Entry) → List (Tree Entry) → Prop where
  | single {t : Tree Entry} {us : List (Tree Entry)} (h : Severed [t] us) : Lead [t] us
  | pair {t u : Tree Entry} {us : List (Tree Entry)} (ht : t.label.isCondition = true)
      (hu : u.label.isElse = true) : Lead [t, u] us

theorem Lead.length_pos {ts us : List (Tree Entry)} (h : Lead ts us) : 0 < ts.length := by
  cases h <;> simp

theorem Lead.severed {ts us : List (Tree Entry)} (h : Lead ts us) : Severed ts us := by
  cases h with
  | single h => exact h
  | @pair t u _ ht hu =>
    refine .inl fun v hv => ?_
    have hv : u = v := by simpa using hv
    subst hv
    simp only [Entry.isElse, beq_iff_eq] at hu
    simp [Entry.isCondition, hu]

/-- What is evaluated first does not reach over a cut. -/
theorem Lead.length_le {ts us vs ws : List (Tree Entry)} (h : Lead ts us)
    (heq : ts ++ us = vs ++ ws) (hvs : vs ≠ []) (hcut : Severed vs ws) : ts.length ≤ vs.length := by
  have hpos := List.length_pos_iff.2 hvs
  cases h with
  | single _ => exact hpos
  | @pair t u _ ht hu =>
    match vs with
    | [v] =>
      obtain ⟨rfl, rfl⟩ : t = v ∧ u :: us = ws := by simpa using heq
      rcases hcut with hcut | hcut
      · simp [hcut t (by simp)] at ht
      · simp [hcut u (by simp)] at hu
    | _ :: _ :: _ => simp

/-- Rows that are cut where no condition is parted from its second branch are evaluated apart. -/
theorem forest_append_of_severed {ts us : List (Tree Entry)} (h : Severed ts us) :
    ∃ after, forest warns above own none (ts ++ us) =
      { (forest warns above own none ts).andThen
          (forest warns above (forest warns above own none ts).bindings none us) with
        condition := after } := by
  rw [forest_append]
  rcases h with h | h
  · by_cases hts : ts = []
    · subst hts
      exact ⟨_, rfl⟩
    · rw [forest_condition warns above own none hts h]
      exact ⟨_, rfl⟩
  · obtain ⟨after, hafter⟩ := forest_before warns above (forest warns above own none ts).bindings
      (forest warns above own none ts).condition h
    rw [hafter]
    exact ⟨after, rfl⟩

end Eval

end StyleExpand

import StyleExpand.Proofs.Run.Walk
import StyleExpand.Proofs.Sheet.Linked

/-!
# What a block cannot do to its siblings

The children of a rule or at-rule are expanded in a scope of their own. Two walks over containers
that differ only in those children agree on all other siblings: on what they come to, on the
warnings they raise, and on the scopes behind them.

* `Run.Passes` : the part of a walk that visits a row of siblings;
* `Run.Ready` : a container with its scopes and trees, before a walk;
* `Eval.Twin` : rules or at-rules that differ in their children only;
* `Run.Cursor.pass` : what a walk does to a row of siblings;
* `Run.walk_isolated` : two walks.
-/

namespace StyleExpand

/-! ## Siblings that differ in their children -/

namespace Eval

/-- The same rule or at-rule over any two rows of children, or a condition with its `@else`, both
over any children. -/
inductive Twin : List (Tree Entry) → List (Tree Entry) → Prop where
  | rule {selector : String} {position : Option Position} (ts us : List (Tree Entry)) :
      Twin [.node ⟨.rule selector, position⟩ ts] [.node ⟨.rule selector, position⟩ us]
  | atRule {name params : String} {block : Bool} {position : Option Position}
      (ts us : List (Tree Entry)) :
      Twin [.node ⟨.atRule name params block, position⟩ ts]
        [.node ⟨.atRule name params block, position⟩ us]
  | branches {e e' : Entry} (hif : e.isCondition = true) (helse : e'.isElse = true)
      (ts ts' us us' : List (Tree Entry)) :
      Twin [.node e ts, .node e' ts'] [.node e us, .node e' us']

theorem Twin.symm {ts us : List (Tree Entry)} (h : Twin ts us) : Twin us ts := by
  cases h with
  | rule ts us => exact .rule us ts
  | atRule ts us => exact .atRule us ts
  | branches hif helse ts ts' us us' => exact .branches hif helse us us' ts ts'

theorem Twin.ne_nil {ts us : List (Tree Entry)} (h : Twin ts us) : ts ≠ [] := by
  cases h <;> simp

theorem Twin.labels_eq {ts us : List (Tree Entry)} (h : Twin ts us) :
    ts.map Tree.label = us.map Tree.label := by
  cases h <;> rfl

/-- A row of rules and at-rules leaves the scope in which it stands. -/
theorem Twin.bindings_eq {ts us : List (Tree Entry)} (h : Twin ts us) (warns : Bool)
    (above : List Bindings) (own : Bindings) (before : Option Bool) :
    (forest warns above own before ts).bindings = own := by
  cases h with
  | rule | atRule =>
    rw [forest_singleton]
    exact tree_bindings warns above own before (by simp)
  | @branches e e' hif helse ts ts' =>
    have hnot : ∀ {e : Entry} {name : String}, e.content.atRuleName? = some name →
        ∀ property value, e.content ≠ .declaration property value := by
      intro e name he property value heq
      rw [heq] at he
      simp [Content.atRuleName?] at he
    simp only [Entry.isCondition, Entry.isElse, beq_iff_eq] at hif helse
    rw [forest_cons, forest_singleton]
    exact (tree_bindings warns above _ _ (t := .node e' ts') (hnot helse)).trans
      (tree_bindings warns above own before (t := .node e ts) (hnot hif))

theorem severed_of_labels_eq {ts ts' us us' : List (Tree Entry)}
    (hts : ts.map Tree.label = ts'.map Tree.label) (hus : us.map Tree.label = us'.map Tree.label)
    (h : Severed ts us) : Severed ts' us' := by
  have hlast : ts.getLast?.map Tree.label = ts'.getLast?.map Tree.label := by
    rw [← List.getLast?_map, hts, List.getLast?_map]
  have hhead : us.head?.map Tree.label = us'.head?.map Tree.label := by
    rw [← List.head?_map, hus, List.head?_map]
  refine h.imp (fun h t ht => ?_) fun h u hu => ?_
  · rw [Option.mem_def.1 ht, Option.map_some] at hlast
    obtain ⟨t', ht', heq⟩ := Option.map_eq_some_iff.1 hlast
    rw [← heq]
    exact h t' ht'
  · rw [Option.mem_def.1 hu, Option.map_some] at hhead
    obtain ⟨u', hu', heq⟩ := Option.map_eq_some_iff.1 hhead
    rw [← heq]
    exact h u' hu'

end Eval

namespace Run

open StyleExpand.Tree

/-! ## Parts of a walk -/

/-- Below `c`, between `front` and `back`, visits turn the trees `ts` into `ts'` and raise the
warnings `ns`. -/
structure Passes (visit : NodeId → Run → Nat × Run) (c : NodeId)
    (front ts ts' back : List (Tree Entry)) (ns : List Notice) (r r' : Run) : Prop where
  advances : ∃ k, k ≤ ts.length ∧
    Advances visit c k (front.length, r) (front.length + ts'.length, r')
  before : (r.sheet.tree c).children = front ++ ts ++ back
  after : (r'.sheet.tree c).children = front ++ ts' ++ back
  notices_eq : r'.notices = r.notices ++ ns

/-- A walk that goes `depth` levels down stands between trees: those of `front` are done, and those of
`back` are to be visited, in the scope `own` below the scopes `outer`. -/
def Cursor (depth : Nat) (above : List NodeId) (c : NodeId) (outer : List Bindings) (own : Bindings)
    (front back : List (Tree Entry)) (r : Run) : Prop :=
  ∃ xs ys, r.sheet.Region above c (xs ++ ys) ∧ mapAll r.sheet.entry xs = front ∧
    mapAll r.sheet.entry ys = back ∧ above.map r.scopes.at? = outer ∧ r.scopes.at? c = own ∧
    Clean r ys ∧ ∀ u ∈ ys, heightAll u.children ≤ depth

variable {warns : Bool} {depth : Nat} {above : List NodeId} {c : NodeId} {outer : List Bindings}
  {own : Bindings} {r r' : Run} {front ts back : List (Tree Entry)}

theorem mapAll_eq_append {f : NodeId → Entry} {zs : List (Tree NodeId)}
    (h : mapAll f zs = ts ++ back) : ∃ xs ys, zs = xs ++ ys ∧ mapAll f xs = ts ∧ mapAll f ys = back := by
  simp only [mapAll_eq_map] at h ⊢
  exact List.map_eq_append_iff.1 h

/-- A walk passes a row of siblings as evaluation says, and its cursor stands behind them. -/
theorem Cursor.pass (warns : Bool) (h : Cursor depth above c outer own front (ts ++ back) r)
    (hcut : Eval.Severed ts back) :
    let o := Eval.forest warns outer own none ts
    ∃ r', Passes (Run.visit warns (walk warns depth) c) c front ts o.trees back o.notices r r' ∧
      Cursor depth above c outer o.bindings (front ++ o.trees) back r' := by
  obtain ⟨xs, zs, hregion, rfl, hzs, rfl, rfl, hclean, hheight⟩ := h
  obtain ⟨ms, ys, rfl, rfl, rfl⟩ := mapAll_eq_append hzs
  have hr : r.sheet.Region above c (xs ++ ms ++ ys) := by simpa using hregion
  obtain ⟨k, us, r', hk, hadvances, hx⟩ :=
    advances_through (walk_expands warns depth) ms hr hheight hcut
  obtain ⟨htrees, hbindings, hnotices, -⟩ :=
    hx.means fun n hn => hclean n (hn.imp (fun hn => by simp [hn]) id)
  have hkept : ∀ n, n ∈ preorderAll xs ∨ n ∈ preorderAll ys →
      r'.sheet.entry n = r.sheet.entry n := fun n hn =>
    hx.keeps.entry_eq (hr.lt_size_below n (by rcases hn with hn | hn <;> simp [hn]))
      (not_below_of_region hr hn)
  have hxs : mapAll r'.sheet.entry xs = mapAll r.sheet.entry xs :=
    mapAll_congr fun n hn => hkept n (.inl hn)
  have hys : mapAll r'.sheet.entry ys = mapAll r.sheet.entry ys :=
    mapAll_congr fun n hn => hkept n (.inr hn)
  refine ⟨r', ⟨⟨k, ?_, ?_⟩, ?_, ?_, hnotices⟩, xs ++ us, ys, hx.region, ?_, hys,
    hx.map_above_eq hr, hbindings, ?_, fun u hu => hheight u (by simp [hu])⟩
  · rwa [length_mapAll]
  · have hlength : (outcome warns r above c ms).trees.length = us.length := by
      rw [← htrees, length_mapAll]
    rw [length_mapAll]
    exact hlength ▸ hadvances
  · rw [hr.tree_eq, children_node, mapAll_append, mapAll_append]
  · rw [hx.region.tree_eq, children_node, mapAll_append, mapAll_append, htrees, hxs, hys]
    rfl
  · rw [mapAll_append, hxs, htrees]
    rfl
  · have hrow : r.sheet.Region above c (xs ++ (ms ++ ys) ++ []) := by simpa using hr
    refine Expanded.clean_behind hrow (by simpa using hx) (fun n hn => ?_) hclean
    exact not_below_of_region hr (.inr hn)

/-! ## Whole walks -/

def stack (r : Run) (c : NodeId) : List Bindings := (r.sheet.lineage c).map r.scopes.at?

/-- A container that does not stand above the root, where only the container and its ancestors have
scopes: these are `scopes`, and the trees below the container are `trees`. -/
structure Ready (r : Run) (c : NodeId) (scopes : List Bindings) (trees : List (Tree Entry)) : Prop where
  linked : r.sheet.Linked
  container_lt : c < r.sheet.size
  root_notMem : Sheet.root ∉ r.sheet.descendants c
  scope_eq : ∀ n, n ∉ r.sheet.lineage c → r.scopes.scope? n = none
  stack_eq : r.stack c = scopes
  trees_eq : (r.sheet.tree c).children = trees

theorem Ready.cursor {scopes : List Bindings} {trees : List (Tree Entry)} (h : Ready r c scopes trees)
    (hdepth : r.sheet.size ≤ depth + 1) :
    ∃ above outer own, scopes = own :: outer ∧ Cursor depth above c outer own [] trees r := by
  obtain ⟨above, zs, hlineage, -, hregion⟩ := h.linked.region h.container_lt h.root_notMem
  have hstack := h.stack_eq
  rw [stack, hlineage, List.map_cons] at hstack
  refine ⟨above, _, _, hstack.symm, [], zs, hregion, rfl, ?_, rfl, rfl, fun n hn => ?_, fun u hu => ?_⟩
  · rw [← h.trees_eq, hregion.tree_eq, children_node]
  · refine h.scope_eq n fun hmem => ?_
    rw [hlineage] at hmem
    rcases hn with hn | hn
    · exact (List.nodup_append.1 hregion.nodup).2.2 n hmem n hn rfl
    · exact Nat.not_lt.2 hn (hregion.lt_size n hmem)
  · have := heightAll_children_lt hu
    have := hregion.heightAll_le_size
    omega

theorem ready_start (trees : List (Tree Entry)) :
    Ready (Run.start (Sheet.ofForest trees)) Sheet.root [.empty] trees where
  linked := Sheet.Linked.ofForest trees
  container_lt := (Sheet.Linked.ofForest trees).root_lt
  root_notMem := by
    have h := Sheet.region_ofForest trees
    exact h.descendants_eq ▸ h.root_notMem_below
  scope_eq _ _ := rfl
  stack_eq := by
    have hlineage : (Run.start (Sheet.ofForest trees)).sheet.lineage Sheet.root = [Sheet.root] :=
      (Sheet.region_ofForest trees).lineage_eq
    rw [stack, hlineage, List.map_singleton, at?_of_scope?_none rfl]
  trees_eq := Sheet.forest_ofForest trees

/-- A walk passes `A`, `G` and `B` one after the other: they become `A'`, `G'` and `B'`, with the
warnings `nsA`, `nsG` and `nsB`. -/
def WalksThrough (warns : Bool) (depth : Nat) (c : NodeId) (A G B A' G' B' : List (Tree Entry))
    (nsA nsG nsB : List Notice) (r : Run) : Prop :=
  ∃ r₁ r₂,
    Passes (visit warns (walk warns depth) c) c [] A A' (G ++ B) nsA r r₁ ∧
    Passes (visit warns (walk warns depth) c) c A' G G' B nsG r₁ r₂ ∧
    Passes (visit warns (walk warns depth) c) c (A' ++ G') B B' [] nsB r₂
      (walk warns (depth + 1) c r)

theorem Cursor.length_children (h : Cursor depth above c outer own front back r) :
    (r.sheet.children c).length = front.length + back.length := by
  obtain ⟨xs, ys, hregion, rfl, rfl, -⟩ := h
  rw [hregion.children_eq, List.length_map, List.length_append, length_mapAll, length_mapAll]

theorem Cursor.stack_eq (h : Cursor depth above c outer own front back r) :
    r.stack c = own :: outer := by
  obtain ⟨xs, ys, hregion, -, -, rfl, rfl, -⟩ := h
  rw [stack, hregion.lineage_eq, List.map_cons]

/-- A walk over `A`, `G` and `B`, where `G` leaves the scope in which it stands. -/
theorem Ready.walksThrough {A G B : List (Tree Entry)} {own : Bindings}
    (h : Ready r c (own :: outer) (A ++ G ++ B)) (hdepth : r.sheet.size ≤ depth + 1)
    (hG : G ≠ []) (hA : Eval.Severed A G) (hB : Eval.Severed G B)
    (hquiet : ∀ own, (Eval.forest warns outer own none G).bindings = own) :
    let a := Eval.forest warns outer own none A
    let b := Eval.forest warns outer a.bindings none B
    (∃ G' nsG, WalksThrough warns depth c A G B a.trees G' b.trees a.notices nsG b.notices r) ∧
      (walk warns (depth + 1) c r).stack c = b.bindings :: outer := by
  obtain ⟨above, outer', own', hscopes, hcursor⟩ := h.cursor hdepth
  obtain ⟨rfl, rfl⟩ := List.cons.inj hscopes
  have hA' : Eval.Severed A (G ++ B) := hA.imp id fun hA u hu => by
    cases G with
    | nil => exact absurd rfl hG
    | cons g G => exact hA u hu
  rw [List.append_assoc] at hcursor
  obtain ⟨r₁, hpass₁, hcursor₁⟩ := hcursor.pass warns hA'
  obtain ⟨r₂, hpass₂, hcursor₂⟩ := hcursor₁.pass warns hB
  rw [hquiet, ← List.append_nil B] at hcursor₂
  obtain ⟨r₃, hpass₃, hcursor₃⟩ := hcursor₂.pass warns (.inr (by simp))
  simp only [List.nil_append] at hpass₂ hpass₃ hcursor₃
  obtain ⟨k₁, hk₁, hadv₁⟩ := hpass₁.advances
  obtain ⟨k₂, hk₂, hadv₂⟩ := hpass₂.advances
  obtain ⟨k₃, hk₃, hadv₃⟩ := hpass₃.advances
  simp only [List.length_nil, Nat.zero_add, List.length_append] at hadv₁ hadv₂ hadv₃
  have hlength := hcursor.length_children
  have hlength₃ := hcursor₃.length_children
  simp only [List.length_nil, List.length_append] at hlength hlength₃
  have hwalk : walk warns (depth + 1) c r = r₃ :=
    walk_eq_of_advances ((hadv₁.trans hadv₂).trans hadv₃) (by omega)
      (List.getElem?_eq_none (by omega))
  rw [hwalk]
  exact ⟨⟨_, _, r₁, r₂, hpass₁, hpass₂, hwalk ▸ hpass₃⟩, hcursor₃.stack_eq⟩

/-! ## Two walks -/

/-- Two walks over containers with the same scopes, and the same trees apart from the children of a
rule or at-rule (with the `@else` of a condition): all before and after it comes to the same, with the
same warnings, and the scopes at the end are the same. -/
theorem walk_isolated (options : Options) {r₁ r₂ : Run} {c₁ c₂ : NodeId} {scopes : List Bindings}
    {A G₁ G₂ B : List (Tree Entry)} {depth₁ depth₂ : Nat}
    (h₁ : Ready r₁ c₁ scopes (A ++ G₁ ++ B)) (h₂ : Ready r₂ c₂ scopes (A ++ G₂ ++ B))
    (htwin : Eval.Twin G₁ G₂) (hA : Eval.Severed A G₁) (hB : Eval.Severed G₁ B)
    (hdepth₁ : r₁.sheet.size ≤ depth₁ + 1) (hdepth₂ : r₂.sheet.size ≤ depth₂ + 1) :
    ∃ A' B' nsA nsB,
      (∃ G' nsG, WalksThrough options.warnUnresolved depth₁ c₁ A G₁ B A' G' B' nsA nsG nsB r₁) ∧
      (∃ G' nsG, WalksThrough options.warnUnresolved depth₂ c₂ A G₂ B A' G' B' nsA nsG nsB r₂) ∧
      (walk options.warnUnresolved (depth₁ + 1) c₁ r₁).stack c₁ =
        (walk options.warnUnresolved (depth₂ + 1) c₂ r₂).stack c₂ := by
  have hlabels := htwin.labels_eq
  obtain ⟨above, outer, own, rfl, -⟩ := h₁.cursor hdepth₁
  obtain ⟨hwalk₁, hstack₁⟩ := h₁.walksThrough hdepth₁ htwin.ne_nil hA hB
    fun own => htwin.bindings_eq options.warnUnresolved outer own none
  obtain ⟨hwalk₂, hstack₂⟩ := h₂.walksThrough hdepth₂ htwin.symm.ne_nil
    (Eval.severed_of_labels_eq rfl hlabels hA) (Eval.severed_of_labels_eq hlabels rfl hB)
    fun own => htwin.symm.bindings_eq options.warnUnresolved outer own none
  exact ⟨_, _, _, _, hwalk₁, hwalk₂, hstack₁.trans hstack₂.symm⟩

/-- A variable that a rule binds anew in one of two stylesheets, and that is used behind the rule. -/
theorem walk_isolated_shadowed : ∃ A' B' nsA nsB,
    (∃ G' nsG, WalksThrough true 4 Sheet.root [.node ⟨.declaration "$x" "1", none⟩ []]
      [.node ⟨.rule "a", none⟩ [.node ⟨.declaration "$x" "2", none⟩ []]]
      [.node ⟨.declaration "w" "$x $y", none⟩ []] A' G' B' nsA nsG nsB
      (Run.start (Sheet.ofForest [.node ⟨.declaration "$x" "1", none⟩ [],
        .node ⟨.rule "a", none⟩ [.node ⟨.declaration "$x" "2", none⟩ []],
        .node ⟨.declaration "w" "$x $y", none⟩ []]))) ∧
    (∃ G' nsG, WalksThrough true 3 Sheet.root [.node ⟨.declaration "$x" "1", none⟩ []]
      [.node ⟨.rule "a", none⟩ []]
      [.node ⟨.declaration "w" "$x $y", none⟩ []] A' G' B' nsA nsG nsB
      (Run.start (Sheet.ofForest [.node ⟨.declaration "$x" "1", none⟩ [], .node ⟨.rule "a", none⟩ [],
        .node ⟨.declaration "w" "$x $y", none⟩ []]))) ∧
    (walk true 5 Sheet.root (Run.start (Sheet.ofForest [.node ⟨.declaration "$x" "1", none⟩ [],
      .node ⟨.rule "a", none⟩ [.node ⟨.declaration "$x" "2", none⟩ []],
      .node ⟨.declaration "w" "$x $y", none⟩ []]))).stack Sheet.root =
    (walk true 4 Sheet.root (Run.start (Sheet.ofForest [.node ⟨.declaration "$x" "1", none⟩ [],
      .node ⟨.rule "a", none⟩ [], .node ⟨.declaration "w" "$x $y", none⟩ []]))).stack Sheet.root :=
  walk_isolated .default (A := [.node ⟨.declaration "$x" "1", none⟩ []])
    (B := [.node ⟨.declaration "w" "$x $y", none⟩ []]) (ready_start _) (ready_start _)
    (.rule [.node ⟨.declaration "$x" "2", none⟩ []] []) (.inr (by decide)) (.inr (by decide))
    (Nat.le_of_eq (Sheet.size_ofForest _)) (Nat.le_of_eq (Sheet.size_ofForest _))

end Run

end StyleExpand

import StyleExpand.Proofs.Reference
import StyleExpand.Proofs.Run.Refinement

/-!
# Nothing left to expand

A run expands all loops and conditions, those in copies and branches included, and it does nothing to
a stylesheet in which nothing is to be done.

* `Run.no_construct_of_process` : no loop or condition is left below the root;
* `Content.Resolved` : contents that no visit changes;
* `Run.walk_of_resolved` : a walk over resolved contents changes nothing;
* `Run.process_of_resolved` : a run over them changes the scope of the root at most.
-/

namespace StyleExpand

open StyleExpand.Tree

/-! ## Complete expansion -/

theorem Entry.name_notMem_of_isConstruct {e : Entry} {name params : String} {block : Bool}
    (h : e.isConstruct = false) (hcontent : e.content = .atRule name params block) :
    name ∉ ["for", "each", "if"] := by
  rw [isConstruct, hcontent] at h
  simpa [Content.atRuleName?, and_assoc] using h

/-- After a run of a linked stylesheet, whatever was bound before, no node below the root is a loop or
a condition. -/
theorem Run.no_construct_of_process {r : Run} (hs : r.sheet.Linked) (options : Options) :
    ∀ n ∈ (r.process options).sheet.descendants Sheet.root, ∀ name params block,
      (r.process options).sheet.content n = .atRule name params block →
        name ∉ ["for", "each", "if"] := by
  obtain ⟨above, ts, -, -, hregion⟩ := hs.region_root
  obtain ⟨us, hx⟩ := process_expands hregion options
  have hus : (r.process options).sheet.Region above Sheet.root us := by simpa using hx.region
  intro n hn name params block hcontent
  rw [hus.descendants_eq] at hn
  exact Entry.name_notMem_of_isConstruct (hx.settled n hn) hcontent

/-- Conditions in the rounds of a loop, a loop in a second branch, and a condition below an `@else`
that follows none, with a name bound at a node that a copy will get. -/
theorem Run.no_construct_of_process_nested :
    let s := Sheet.ofForest [
      .node ⟨.atRule "each" "$x in a, b, c" true, none⟩
        [.node ⟨.atRule "if" "$x == a" true, none⟩ [.node ⟨.rule ".$x", none⟩ []],
          .node ⟨.atRule "else" "" true, none⟩ [.node ⟨.atRule "for" "$i from 1 to 2" true, none⟩
            [.node ⟨.rule ".$(x)-$i", none⟩ []]]],
      .node ⟨.atRule "else" "" true, none⟩
        [.node ⟨.atRule "if" "1 < 2" true, none⟩ [.node ⟨.rule "d", none⟩ []]]]
    let r : Run := ⟨s, Scopes.empty.bind 17 "x" (.scalar "a"), #[]⟩
    r.sheet.Linked ∧
      (r.process .default).sheet.print =
        ".a \x7b\x7d\n.a \x7b\x7d\n.c-1 \x7b\x7d\n.c-2 \x7b\x7d\n@else \x7b\n  d \x7b\x7d\n\x7d\n" ∧
      ∀ n ∈ (r.process .default).sheet.descendants Sheet.root, ∀ name params block,
        (r.process .default).sheet.content n = .atRule name params block →
          name ∉ ["for", "each", "if"] := by
  intro s r
  have hs : s.Linked := .ofForest _
  exact ⟨hs, by decide +kernel, no_construct_of_process (r := r) hs .default⟩

/-! ## Resolved contents -/

/-- Nothing is to be done at a node with this content, and no reference is left in a text that is
looked through, save after backslashes. -/
def Content.Resolved : Content → Prop
  | .root | .comment _ => True
  | .rule selector => references false selector.toList = []
  | .declaration property value =>
    declaredName? property = none ∧ references false property.toList = [] ∧
      references false value.toList = []
  | .atRule name params _ =>
    name ∉ ["for", "each", "if"] ∧
      (Directive.ofName name ∈ [.media, .keyframes] → references false params.toList = [])

instance : (content : Content) → Decidable content.Resolved
  | .root | .comment _ => inferInstanceAs (Decidable True)
  | .rule selector => inferInstanceAs (Decidable (references false selector.toList = []))
  | .declaration property value => inferInstanceAs (Decidable (declaredName? property = none ∧
      references false property.toList = [] ∧ references false value.toList = []))
  | .atRule name params _ => inferInstanceAs (Decidable (name ∉ ["for", "each", "if"] ∧
      (Directive.ofName name ∈ [.media, .keyframes] → references false params.toList = [])))

theorem Directive.name_mem_of_construct {name : String}
    (h : ofName name ∈ [.counting, .listing, .condition]) : name ∈ ["for", "each", "if"] := by
  unfold ofName at h
  grind

theorem Sheet.setContent_content (s : Sheet) (n : NodeId) : s.setContent n (s.content n) = s := by
  refine eq_of_node_eq (size_setContent ..) fun m => ?_
  rw [setContent, node_modify]
  split
  · rename_i heq
    rw [heq.1]
    rfl
  · rfl

namespace Run

variable {warns : Bool} {descend : NodeId → Run → Run} {above : List NodeId} {c n : NodeId} {r : Run}
  {ts : List (Tree NodeId)}

/-! ## Visits and walks -/

theorem interpolate_of_references_nil {text : String} (h : references false text.toList = [])
    (scope location : NodeId) : r.interpolate warns scope location text = (text, r) := by
  rw [interpolate, substitute_of_references_nil h]
  cases warns <;> simp

theorem setContent_of_eq {content : Content} (h : r.sheet.content n = content) :
    r.setContent n content = r := by
  rw [setContent, ← h, Sheet.setContent_content]

theorem visitContent_of_resolved (h : (r.sheet.content n).Resolved) :
    visitContent warns descend c n r = (1, r) := by
  unfold visitContent
  cases hcontent : r.sheet.content n with
  | root | comment text => rfl
  | rule selector =>
    rw [hcontent] at h
    simp only [interpolate_of_references_nil h, setContent_of_eq hcontent]
  | declaration property value =>
    rw [hcontent] at h
    obtain ⟨hname, hproperty, hvalue⟩ := h
    simp only [visitDeclaration, hname, interpolate_of_references_nil hproperty,
      interpolate_of_references_nil hvalue, setContent_of_eq hcontent]
  | atRule name params block =>
    rw [hcontent] at h
    obtain ⟨hnames, hparams⟩ := h
    simp only [visitAtRule]
    cases hdirective : Directive.ofName name with
    | counting | listing | condition =>
      exact absurd (Directive.name_mem_of_construct (by simp [hdirective])) hnames
    | media | keyframes =>
      have hnone := hparams (by simp [hdirective])
      simp only [interpolate_of_references_nil hnone, setContent_of_eq hcontent]
    | other => rfl

theorem visit_of_resolved (h : (r.sheet.content n).Resolved) (hd : descend n r = r) :
    visit warns descend c n r = (1, r) := by
  rw [visit, visitContent_of_resolved h]
  dsimp only
  rw [hd, ite_self]

/-- A walk whose visits leave each child where it stands ends where it started. -/
theorem walkFrom_eq_self {visit : NodeId → Run → Nat × Run}
    (h : ∀ n ∈ r.sheet.children c, visit n r = (1, r)) (steps : Nat) :
    ∀ i, walkFrom visit c steps i r = r := by
  induction steps with
  | zero => exact fun _ => rfl
  | succ steps ih =>
    intro i
    rw [walkFrom]
    cases hn : (r.sheet.children c)[i]? with
    | none => rfl
    | some n =>
      simp only [h n (List.mem_of_getElem? hn)]
      exact ih (i + 1)

/-- A walk over resolved contents changes nothing. -/
theorem walk_of_resolved (depth : Nat) (h : r.sheet.Region above c ts)
    (hresolved : ∀ n ∈ preorderAll ts, (r.sheet.content n).Resolved) : walk warns depth c r = r := by
  induction depth generalizing above c ts with
  | zero => rfl
  | succ depth ih =>
    rw [walk]
    refine walkFrom_eq_self (fun n hn => ?_) _ 0
    rw [h.children_eq] at hn
    obtain ⟨t, ht, rfl⟩ := List.mem_map.1 hn
    obtain ⟨xs, ys, rfl⟩ := List.append_of_mem ht
    refine visit_of_resolved (hresolved _ (label_mem_preorderAll ht)) (ih h.child fun m hm => ?_)
    exact hresolved m (preorder_subset_preorderAll ht (preorderAll_children_subset t hm))

/-! ## Whole runs -/

theorem warnings_note (r : Run) (n : Note) : (r.note n).warnings = r.warnings := by
  simp [warnings, note, report, Event.warning?]

theorem warnings_assign (r : Run) (n : NodeId) (name raw : String) :
    (r.assign n name raw).warnings = r.warnings := by
  unfold assign
  dsimp only
  split
  · rfl
  · exact warnings_note ..

theorem warnings_started (r : Run) (options : Options) : (r.started options).warnings = r.warnings := by
  rw [started, warnings_note, bindOptions]
  generalize options.bindings.toList = pairs
  induction pairs generalizing r with
  | nil => rfl
  | cons pair pairs ih => rw [List.foldl_cons, ih, warnings_assign]

/-- A run over a linked stylesheet in which all contents below the root are resolved leaves the store
as it is, warns of nothing, and changes no scope but that of the root. -/
theorem process_of_resolved {r : Run} (hs : r.sheet.Linked) (options : Options)
    (hresolved : ∀ n ∈ r.sheet.descendants Sheet.root, (r.sheet.content n).Resolved) :
    (r.process options).sheet = r.sheet ∧ (r.process options).warnings = r.warnings ∧
      ∀ n, n ≠ Sheet.root → (r.process options).scopes.scope? n = r.scopes.scope? n := by
  obtain ⟨above, ts, -, -, hregion⟩ := hs.region_root
  rw [hregion.descendants_eq] at hresolved
  have hstart := started_rebinds hregion options
  have hprocess : r.process options = r.started options := by
    rw [← hstart.sheet_eq] at hregion hresolved
    exact walk_of_resolved _ hregion hresolved
  rw [hprocess]
  exact ⟨hstart.sheet_eq, warnings_started r options, hstart.scope_eq⟩

/-- References behind backslashes, in a comment and in parameters that are not looked through, with
names bound below the root, at a node that does not exist, and by the options. -/
theorem process_of_resolved_escaped :
    let s := Sheet.ofForest [
      .node ⟨.rule "a\\$x", none⟩ [.node ⟨.declaration "w" "\\#\x7b$y\x7d \\$(z) 1px", none⟩ []],
      .node ⟨.atRule "media" "print" true, none⟩ [.node ⟨.comment "$x", none⟩ []],
      .node ⟨.atRule "supports" "($x)" true, none⟩ [.node ⟨.rule "$1", none⟩ []]]
    let r : Run := ⟨s, (Scopes.empty.bind 2 "x" (.scalar "b")).bind 9 "y" (.scalar "c"), #[]⟩
    let options := Options.default.withVariable "x" "1"
    s.Linked ∧ (∀ n ∈ s.descendants Sheet.root, (s.content n).Resolved) ∧
      (r.process options).lookup Sheet.root "x" = some (.scalar "1") ∧
      (r.process options).sheet = s ∧ (r.process options).warnings = r.warnings ∧
        ∀ n, n ≠ Sheet.root → (r.process options).scopes.scope? n = r.scopes.scope? n := by
  intro s r options
  have hs : s.Linked := .ofForest _
  have hresolved : ∀ n ∈ s.descendants Sheet.root, (s.content n).Resolved := by decide +kernel
  exact ⟨hs, hresolved, by decide +kernel, process_of_resolved (r := r) hs options hresolved⟩

end Run

end StyleExpand

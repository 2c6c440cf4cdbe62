import StyleExpand.Proofs.Passages
import StyleExpand.Proofs.Run.Refinement

/-!
# Warnings do not change what a run does

Two runs of one stylesheet, one that warns and one that does not, go through the same states but for
the warnings.

* `Run.quiet` : a run without its warnings;
* `Run.quiet_interpolate` : the one step that may warn;
* `Run.quiet_walk`, `Run.quiet_process` : a run that warns, without its warnings, is the run that
  does not;
* `Run.process_reporting` : the two runs side by side, and the warnings of the one that warns.
-/

namespace StyleExpand.Run

open StyleExpand.Tree

/-- A run without the warnings it raised. -/
def quiet (r : Run) : Run := { r with events := r.events.filter fun e => e.warning?.isNone }

@[simp] theorem quiet_sheet (r : Run) : r.quiet.sheet = r.sheet := rfl

@[simp] theorem quiet_scopes (r : Run) : r.quiet.scopes = r.scopes := rfl

theorem quiet_lookup (r : Run) (n : NodeId) : r.quiet.lookup n = r.lookup n := rfl

theorem quiet_note (r : Run) (n : Note) : (r.note n).quiet = r.quiet.note n := by
  simp [quiet, note, report, Event.warning?]

theorem quiet_warn (r : Run) (location : NodeId) (text name : String) :
    (r.warn location text name).quiet = r.quiet := by
  simp [quiet, warn, report, Event.warning?]

theorem quiet_foldl_warn (location : NodeId) (text : String) : ∀ (names : List String) (r : Run),
    (names.foldl (fun r name => r.warn location text name) r).quiet = r.quiet
  | [], _ => rfl
  | name :: names, r => by
    rw [List.foldl_cons, quiet_foldl_warn location text names, quiet_warn]

theorem quiet_remove (r : Run) (n : NodeId) : (r.remove n).quiet = r.quiet.remove n := rfl

theorem quiet_discard (r : Run) (n : NodeId) : (r.discard n).quiet = r.quiet.discard n := rfl

theorem quiet_setContent (r : Run) (n : NodeId) (content : Content) :
    (r.setContent n content).quiet = r.quiet.setContent n content := rfl

theorem quiet_start (s : Sheet) : (start s).quiet = start s := by
  simp [quiet, start]

theorem warnings_quiet (r : Run) : r.quiet.warnings = [] := by
  simp [warnings, quiet, List.filterMap_eq_nil_iff]

/-! ## Steps -/

def hush {α : Type} (found : α × Run) : α × Run := (found.1, found.2.quiet)

section Steps

variable (warns : Bool) (r : Run)

theorem quiet_interpolate (scope location : NodeId) (text : String) :
    hush (r.interpolate warns scope location text) =
      r.quiet.interpolate false scope location text := by
  rw [hush, interpolate, interpolate, quiet_lookup]
  cases warns
  · rfl
  · rw [if_pos rfl, quiet_foldl_warn]
    rfl

theorem quiet_assign (n : NodeId) (name raw : String) :
    (r.assign n name raw).quiet = r.quiet.assign n name raw := by
  unfold assign
  rw [quiet_sheet, quiet_scopes]
  dsimp only
  split
  · rfl
  · exact quiet_note ..

theorem quiet_bindAll (node : NodeId) : ∀ (bindings : List (String × Value)) (r : Run),
    (bindAll node bindings r).quiet = bindAll node bindings r.quiet
  | [], _ => rfl
  | binding :: bindings, r => quiet_bindAll node bindings (r.bind node binding.1 binding.2)

theorem quiet_bound (node : NodeId) (tokens : List (List Char)) (place : Nat) :
    hush (bound warns node tokens place r) = bound false node tokens place r.quiet := by
  unfold bound
  cases tokens[place]? with
  | none => rfl
  | some token =>
    dsimp only
    rw [← quiet_interpolate warns]
    dsimp only [hush]

theorem quiet_condition (node : NodeId) (params : String) :
    hush (condition warns node params r) = condition false node params r.quiet := by
  unfold condition
  match splitSpace params.toList with
  | left :: operator :: right :: others =>
    dsimp only
    rw [← quiet_note, ← apply_ite quiet, ← quiet_interpolate warns]
    dsimp only [hush]
    rw [← quiet_interpolate warns]
    dsimp only [hush]
    cases Comparison.ofText? (String.ofList operator) with
    | some comparison => rfl
    | none => exact congrArg (Prod.mk false) (quiet_note ..)
  | [] | [_] | [_, _] => exact congrArg (Prod.mk false) (quiet_note ..)

theorem quiet_visitDeclaration (container node : NodeId) (property value : String) :
    hush (visitDeclaration warns container node property value r) =
      visitDeclaration false container node property value r.quiet := by
  unfold visitDeclaration
  cases declaredName? property with
  | some name =>
    dsimp only
    rw [← quiet_interpolate warns]
    dsimp only [hush]
    rw [quiet_remove, quiet_assign]
  | none =>
    dsimp only
    rw [← quiet_interpolate warns]
    dsimp only [hush]
    rw [← quiet_interpolate warns]
    dsimp only [hush]
    rw [quiet_setContent]

end Steps

/-! ## Loops and branches

What is done below a node is given for the run that warns and for the one that does not.
-/

section Control

variable {warns : Bool} {descend descend' : NodeId → Run → Run}
  (hd : ∀ n r, (descend n r).quiet = descend' n r.quiet)
include hd

theorem quiet_splice (container node : NodeId) (r : Run) :
    hush (splice descend container node r) = splice descend' container node r.quiet := by
  unfold splice
  dsimp only
  have hcopied : ∀ sheet scopes, { r.quiet with sheet := sheet, scopes := scopes } =
      quiet { r with sheet := sheet, scopes := scopes } := fun _ _ => rfl
  rw [hcopied, ← hd]
  rfl

theorem quiet_iterate (container node : NodeId) : ∀ (rows : List (List (String × Value))) (r : Run),
    hush (iterate descend container node rows r) = iterate descend' container node rows r.quiet
  | [], _ => rfl
  | row :: rows, r => by
    rw [iterate, iterate]
    dsimp only
    rw [← quiet_bindAll, ← quiet_splice hd]
    dsimp only [hush]
    rw [← quiet_iterate container node rows]
    rfl

theorem quiet_expandFor (container node : NodeId) (params : String) (r : Run) :
    hush (expandFor warns descend container node params r) =
      expandFor false descend' container node params r.quiet := by
  unfold expandFor
  cases splitSpace params.toList with
  | nil => exact congrArg (fun r : Run => (0, r.remove node)) (quiet_note ..)
  | cons token tokens =>
    dsimp only
    rw [← quiet_note, ← apply_ite quiet, ← quiet_bound warns]
    generalize bound warns node (token :: tokens) 2 _ = first
    dsimp only [hush]
    rw [← quiet_bound warns]
    generalize bound warns node (token :: tokens) 4 _ = last
    dsimp only [hush]
    rw [← quiet_bound warns]
    generalize bound warns node (token :: tokens) 6 _ = step
    dsimp only [hush]
    rw [← quiet_iterate hd]
    dsimp only [hush]
    cases (Range.of first.1 last.1 step.1).visits.stalledAt with
    | some x =>
      dsimp only
      rw [quiet_discard, quiet_remove, quiet_note, quiet_note]
    | none =>
      dsimp only
      rw [quiet_discard, quiet_remove, quiet_note]

theorem quiet_expandEach (container node : NodeId) (params : String) (r : Run) :
    hush (expandEach warns descend container node params r) =
      expandEach false descend' container node params r.quiet := by
  unfold expandEach
  dsimp only
  cases (Text.words (eachParts params).1).map bindingName with
  | nil => exact congrArg (fun r : Run => (0, r.remove node)) (quiet_note ..)
  | cons name others =>
    dsimp only
    rw [← quiet_interpolate warns]
    dsimp only [hush]
    rw [← quiet_iterate hd]
    dsimp only [hush]
    rw [quiet_discard, quiet_remove, quiet_note]

theorem quiet_takeBranch (node : NodeId) (holds : Bool) (other : Option NodeId) (r : Run) :
    hush (takeBranch descend node holds other r) = takeBranch descend' node holds other r.quiet := by
  unfold takeBranch
  match holds, other with
  | true, some branch | true, none | false, some branch =>
    dsimp only
    rw [← hd]
    rfl
  | false, none => rfl

theorem quiet_expandIf (node : NodeId) (params : String) (r : Run) :
    hush (expandIf warns descend node params r) = expandIf false descend' node params r.quiet := by
  unfold expandIf
  dsimp only
  rw [← quiet_condition warns]
  dsimp only [hush]
  rw [← quiet_note, ← quiet_takeBranch hd]
  dsimp only [hush]
  rw [quiet_discard, quiet_remove]
  rfl

/-! ## Visits and walks -/

theorem quiet_visitAtRule (container node : NodeId) (name params : String) (block : Bool)
    (r : Run) :
    hush (visitAtRule warns descend container node name params block r) =
      visitAtRule false descend' container node name params block r.quiet := by
  unfold visitAtRule
  cases Directive.ofName name with
  | counting => exact quiet_expandFor hd container node params r
  | listing => exact quiet_expandEach hd container node params r
  | condition => exact quiet_expandIf hd node params r
  | media | keyframes =>
    dsimp only
    rw [← quiet_interpolate warns]
    dsimp only [hush]
    rw [quiet_setContent]
  | other => rfl

theorem quiet_visitContent (container node : NodeId) (r : Run) :
    hush (visitContent warns descend container node r) =
      visitContent false descend' container node r.quiet := by
  unfold visitContent
  rw [quiet_sheet]
  cases r.sheet.content node with
  | root => rfl
  | comment text => rfl
  | rule selector =>
    dsimp only
    rw [← quiet_interpolate warns]
    dsimp only [hush]
    rw [quiet_setContent]
  | declaration property value => exact quiet_visitDeclaration ..
  | atRule name params block => exact quiet_visitAtRule hd container node name params block r

theorem quiet_visit (container node : NodeId) (r : Run) :
    hush (visit warns descend container node r) = visit false descend' container node r.quiet := by
  unfold visit
  dsimp only
  rw [← quiet_visitContent hd]
  dsimp only [hush]
  rw [← hd]
  exact apply_ite hush ..

end Control

theorem quiet_walkFrom {visit visit' : NodeId → Run → Nat × Run}
    (hvisit : ∀ n r, hush (visit n r) = visit' n r.quiet) (container : NodeId) :
    ∀ (steps index : Nat) (r : Run),
      (walkFrom visit container steps index r).quiet = walkFrom visit' container steps index r.quiet
  | 0, _, _ => rfl
  | steps + 1, index, r => by
    rw [walkFrom, walkFrom, quiet_sheet]
    cases (r.sheet.children container)[index]? with
    | none => rfl
    | some node =>
      dsimp only
      rw [← hvisit]
      exact quiet_walkFrom hvisit container steps _ _

theorem quiet_walk (warns : Bool) : ∀ (depth : Nat) (container : NodeId) (r : Run),
    (walk warns depth container r).quiet = walk false depth container r.quiet
  | 0, _, _ => rfl
  | depth + 1, container, r => by
    rw [walk, walk, quiet_sheet]
    exact quiet_walkFrom (quiet_visit (quiet_walk warns depth) container) container _ 0 r

/-! ## Whole runs -/

theorem quiet_bindOptions (options : Options) (r : Run) :
    (bindOptions options r).quiet = bindOptions options r.quiet := by
  unfold bindOptions
  generalize options.bindings.toList = pairs
  induction pairs generalizing r with
  | nil => rfl
  | cons pair pairs ih => rw [List.foldl_cons, List.foldl_cons, ih, quiet_assign]

theorem quiet_started (options : Options) (r : Run) :
    (r.started options).quiet = r.quiet.started options := by
  rw [started, started, quiet_note, quiet_bindOptions]

/-- A run, less its warnings, is the run that does not warn. -/
theorem quiet_process (options : Options) (r : Run) :
    (r.process options).quiet = r.quiet.process { options with warnUnresolved := false } := by
  calc (r.process options).quiet
      = walk false (r.started options).quiet.sheet.size Sheet.root (r.started options).quiet :=
        quiet_walk ..
    _ = r.quiet.process { options with warnUnresolved := false } := by
        rw [quiet_started]
        rfl

/-- The warnings of a run that starts without scopes are those of the passages of its trees. -/
theorem notices_process {s : Sheet} (hs : s.Linked) (options : Options) :
    ((start s).process options).notices =
      Eval.told options.warnUnresolved (Eval.passages options s.forest) := by
  obtain ⟨above, ts, -, -, hregion⟩ := hs.region_root
  obtain ⟨us, -, hmeans⟩ := process_expanded (r := start s) hregion (fun _ _ => rfl) options
  rw [hmeans.notices, Eval.stylesheet, Eval.forest_reporting, Eval.passages, hregion.forest_eq]
  rfl

/-- A run that warns and one that does not leave the same nodes and scopes. The warnings are, text
after text as they are resolved, one for each reference that has no value and that no backslash
escapes. -/
theorem process_reporting {s : Sheet} (hs : s.Linked) (options : Options) :
    let loud := (start s).process { options with warnUnresolved := true }
    let silent := (start s).process { options with warnUnresolved := false }
    loud.sheet = silent.sheet ∧ loud.scopes = silent.scopes ∧ silent.warnings = [] ∧
      loud.notices = (Eval.passages options s.forest).flatMap Passage.notices := by
  intro loud silent
  have hquiet : loud.quiet = silent := by
    rw [quiet_process, quiet_start]
  refine ⟨?_, ?_, ?_, notices_process hs _⟩
  · rw [← hquiet, quiet_sheet]
  · rw [← hquiet, quiet_scopes]
  · rw [← hquiet, warnings_quiet]

/-- A text in a loop is warned of in each round, a text in the branch that is not taken never, and an
escaped reference never. -/
theorem process_reporting_rounds :
    let s := Sheet.ofForest [
      .node ⟨.atRule "each" "$x in a, $u" true, none⟩ [.node ⟨.rule ".$x $y $z", none⟩ []],
      .node ⟨.atRule "if" "$v == a" true, none⟩ [.node ⟨.declaration "p" "$z", none⟩ []],
      .node ⟨.atRule "else" "" true, none⟩ [.node ⟨.declaration "q" "\\$z $w", none⟩ []]]
    let options := Options.default.withVariable "z" "1"
    let loud := (start s).process { options with warnUnresolved := true }
    let silent := (start s).process { options with warnUnresolved := false }
    s.Linked ∧
      loud.notices = [⟨"u", "a, $u", none⟩, ⟨"y", ".$x $y $z", none⟩, ⟨"y", ".$x $y $z", none⟩,
        ⟨"v", "$v", none⟩, ⟨"w", "\\$z $w", none⟩] ∧
      loud.sheet = silent.sheet ∧ loud.scopes = silent.scopes ∧ silent.warnings = [] ∧
      loud.notices = (Eval.passages options s.forest).flatMap Passage.notices := by
  intro s options loud silent
  have hs : s.Linked := .ofForest _
  exact ⟨hs, by decide +kernel, process_reporting hs options⟩

end StyleExpand.Run

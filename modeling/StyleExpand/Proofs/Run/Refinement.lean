import StyleExpand.Proofs.Run.Walk
import StyleExpand.Proofs.Sheet.Linked

/-!
# Expansion in place is evaluation

A run works on one store of nodes: it copies loops, moves what is left of the copies, and takes nodes
out while it walks. What comes out is what evaluation says of the trees alone.

* `Run.process_expands`, `Run.process_expanded` : a whole run, as a replacement of what is below the
  root;
* `Run.process_eq_stylesheet` : trees, scope of the root and warnings of a run;
* `expand_eq_stylesheet` : a source is read, evaluated and printed.
-/

namespace StyleExpand

namespace Run

open StyleExpand.Tree

variable {r : Run} {options : Options} {above : List NodeId} {ts : List (Tree NodeId)}

theorem foldl_assign_rebinds : ∀ (pairs : List (String × String)) {r : Run},
    r.sheet.Region above Sheet.root ts →
    Rebinds r (pairs.foldl (fun r pair => r.assign Sheet.root pair.1 pair.2) r) Sheet.root
      (pairs.foldl (fun own pair => Eval.assign (above.map r.scopes.at?) own pair.1 pair.2)
        (r.scopes.at? Sheet.root))
  | [], r, _ => Rebinds.refl r Sheet.root
  | pair :: pairs, r, h => by
    have hfirst := assign_rebinds rfl (lookup_eq_find h) pair.1 pair.2
    have hrest := foldl_assign_rebinds pairs
      (r := r.assign Sheet.root pair.1 pair.2) (by rwa [hfirst.sheet_eq])
    have habove : above.map (r.assign Sheet.root pair.1 pair.2).scopes.at? =
        above.map r.scopes.at? := by
      refine List.map_congr_left fun n hn => at?_congr (hfirst.scope_eq n ?_)
      rintro rfl
      exact h.container_notMem_above hn
    rw [hfirst.at?_eq, habove] at hrest
    exact hfirst.trans hrest

def started (options : Options) (r : Run) : Run :=
  (bindOptions options r).note (.started options.bindings.size)

/-- The variables of the options are bound at the root, and nothing else is different. -/
theorem started_rebinds (h : r.sheet.Region above Sheet.root ts) (options : Options) :
    Rebinds r (r.started options) Sheet.root
      (options.bindings.toList.foldl
        (fun own pair => Eval.assign (above.map r.scopes.at?) own pair.1 pair.2)
        (r.scopes.at? Sheet.root)) := by
  have hbind := foldl_assign_rebinds options.bindings.toList h
  exact ⟨hbind.sheet_eq, (notices_note ..).trans hbind.notices_eq, hbind.at?_eq, hbind.scope_eq⟩

/-- A run replaces all that is below the root, whatever stands above it and whatever is bound. -/
theorem process_expands (h : r.sheet.Region above Sheet.root ts) (options : Options) :
    ∃ us, Expanded (outcome options.warnUnresolved (r.started options) above Sheet.root ts)
      (Below Sheet.root ts) above Sheet.root [] ts us [] (r.started options) (r.process options) := by
  have h₁ : (r.started options).sheet.Region above Sheet.root ts := by
    rwa [(started_rebinds h options).sheet_eq]
  exact walk_expands options.warnUnresolved _ h₁ h₁.heightAll_le_size

/-- If only the root has a scope, no name has a value above it. -/
theorem find_above (h : r.sheet.Region above Sheet.root ts)
    (hscopes : ∀ n, n ≠ Sheet.root → r.scopes.scope? n = none) :
    Bindings.find (above.map r.scopes.at?) = Bindings.find [] := by
  refine Eval.find_of_forall_empty fun b hb => ?_
  obtain ⟨n, hn, rfl⟩ := List.mem_map.1 hb
  refine at?_of_scope?_none (hscopes n ?_)
  rintro rfl
  exact h.container_notMem_above hn

/-- A run of which nothing but the root has a scope comes to what evaluation says. -/
theorem process_expanded (h : r.sheet.Region above Sheet.root ts)
    (hscopes : ∀ n, n ≠ Sheet.root → r.scopes.scope? n = none) (options : Options) :
    ∃ us, (r.process options).sheet.Region above Sheet.root us ∧
      Means (Eval.stylesheet options (r.scopes.at? Sheet.root) (mapAll r.sheet.entry ts)) Sheet.root
        ts us r (r.process options) := by
  have hstart := started_rebinds h options
  have hsheet := hstart.sheet_eq
  have hstarted : ∀ n, n ≠ Sheet.root → (r.started options).scopes.scope? n = none :=
    fun n hn => (hstart.scope_eq n hn).trans (hscopes n hn)
  have houtcome : outcome options.warnUnresolved (r.started options) above Sheet.root ts =
      Eval.stylesheet options (r.scopes.at? Sheet.root) (mapAll r.sheet.entry ts) := by
    have habove := find_above (r := r.started options) (by rwa [hsheet]) hstarted
    rw [outcome, Eval.forest_congr _ _ _ habove, hstart.at?_eq, hsheet,
      Eval.assign_congr (find_above h hscopes)]
    rfl
  obtain ⟨us, hx⟩ := process_expands h options
  rw [houtcome] at hx
  refine ⟨us, by simpa using hx.region, ?_⟩
  obtain ⟨htrees, hbindings, hnotices, hgone⟩ := hx.means fun n hn => by
    refine hstarted n ?_
    rintro rfl
    rw [hsheet] at hn
    rcases hn with hn | hn
    · exact h.root_notMem_below hn
    · exact Nat.not_lt.2 hn h.container_lt
  rw [hsheet] at hgone
  exact ⟨htrees, hbindings, by rw [hnotices, hstart.notices_eq], hgone⟩

/-- The trees that a run leaves, the scope of the root behind it, and its warnings in order are those
of evaluation, if no node but the root had a scope. -/
theorem process_eq_stylesheet (options : Options) (r : Run) (hsheet : r.sheet.Linked)
    (hscopes : ∀ n, n ≠ Sheet.root → r.scopes.scope? n = none) :
    let o := Eval.stylesheet options (r.scopes.at? Sheet.root) r.sheet.forest
    (r.process options).sheet.forest = o.trees ∧
      (r.process options).scopes.at? Sheet.root = o.bindings ∧
      (r.process options).notices = r.notices ++ o.notices := by
  obtain ⟨above, ts, -, -, h⟩ := hsheet.region_root
  obtain ⟨us, hregion, hmeans⟩ := process_expanded h hscopes options
  rw [h.forest_eq]
  exact ⟨hregion.forest_eq.trans hmeans.trees, hmeans.bindings, hmeans.notices⟩

/-- A loop over two values, around a rule that also refers to a variable without one. -/
theorem process_eq_stylesheet_each :
    ((Run.start (Sheet.ofForest [.node ⟨.atRule "each" "$x in a, b" true, none⟩
      [.node ⟨.rule ".$x $y", none⟩ []]])).process .default).sheet.print =
        ".a $y \x7b\x7d\n.b $y \x7b\x7d\n" ∧
    ((Run.start (Sheet.ofForest [.node ⟨.atRule "each" "$x in a, b" true, none⟩
      [.node ⟨.rule ".$x $y", none⟩ []]])).process .default).notices =
        [⟨"y", ".$x $y", none⟩, ⟨"y", ".$x $y", none⟩] := by
  obtain ⟨htrees, -, hnotices⟩ := process_eq_stylesheet .default
    (Run.start (Sheet.ofForest [.node ⟨.atRule "each" "$x in a, b" true, none⟩
      [.node ⟨.rule ".$x $y", none⟩ []]]))
    (by dsimp only [Run.start]; exact Sheet.Linked.ofForest _) fun _ _ => rfl
  rw [Run.start, Sheet.forest_ofForest] at htrees hnotices
  rw [Sheet.print, Run.start, htrees, hnotices]
  decide +kernel

end Run

/-- The text and the warnings of a source are those of its trees, evaluated with no scope but the
variables of the options. -/
theorem expand_eq_stylesheet (options : Options) (source : String) :
    (expand options source).map (fun result => (result.1, result.2.map Warning.notice)) =
      (parseForest source.toList).map fun trees =>
        let o := Eval.stylesheet options .empty trees
        (String.ofList (Printer.writeAll 0 o.trees), o.notices) := by
  rw [expand, Sheet.parse]
  cases parseForest source.toList with
  | error e => rfl
  | ok trees =>
    have h := Sheet.region_ofForest trees
    obtain ⟨us, hregion, hmeans⟩ :=
      Run.process_expanded (r := Run.start (Sheet.ofForest trees)) h (fun _ _ => rfl) options
    have hforest : Tree.mapAll (Sheet.ofForest trees).entry (Tree.numberAll 1 trees) = trees := by
      have := Sheet.forest_ofForest trees
      rwa [h.forest_eq] at this
    have hstart : (Run.start (Sheet.ofForest trees)).sheet = Sheet.ofForest trees := rfl
    have htrees := hmeans.trees
    have hnotices := hmeans.notices
    rw [hstart, hforest] at htrees hnotices
    simp only [Except.map, Sheet.print, hregion.forest_eq, htrees]
    congr 2

end StyleExpand

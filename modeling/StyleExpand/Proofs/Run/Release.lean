import StyleExpand.Proofs.Run.Refinement

/-!
# Scopes go with their nodes

A run binds variables at the nodes it walks and at copies that it makes of loops. When it is over,
only the root and what can be reached from it have a scope.

* `Run.Expanded.scope_eq_none` : what a part of a run took out, or made in vain, has no scope;
* `Run.reachable_of_scope` : after a whole run, every node with a scope can be reached.
-/

namespace StyleExpand.Run

open StyleExpand.Tree

/-- Behind a part of a run that started clean, only the container and the trees that are left have
scopes that were not there before. -/
theorem Expanded.scope_eq_none {o : Eval.Outcome} {above : List NodeId} {c n : NodeId} {r r' : Run}
    {xs ts us ys : List (Tree NodeId)} (hx : Expanded o (Below c ts) above c xs ts us ys r r')
    (hclean : Clean r ts) (hn : r.scopes.scope? n = none) (hc : n ≠ c) (hus : n ∉ preorderAll us) :
    r'.scopes.scope? n = none := by
  by_cases hnew : n ∈ preorderAll ts ∨ r.sheet.size ≤ n
  · exact (hx.means hclean).clean n hnew hus
  · rw [not_or, Nat.not_le] at hnew
    rw [hx.keeps.scope_eq n hnew.2, hn]
    rintro (heq | hts)
    · exact hc heq
    · exact hnew.1 hts

/-- After a run of a linked stylesheet that starts without scopes, every node with a scope is the root
or stands below it. -/
theorem reachable_of_scope {s : Sheet} (hs : s.Linked) (options : Options) {n : NodeId}
    (h : (((start s).process options).scopes.scope? n).isSome = true) :
    n = Sheet.root ∨ n ∈ ((start s).process options).sheet.descendants Sheet.root := by
  obtain ⟨above, ts, -, -, hregion⟩ := hs.region_root
  have hstart := started_rebinds (r := start s) hregion options
  obtain ⟨us, hx⟩ := process_expands (r := start s) hregion options
  have hunbound : ∀ m, m ≠ Sheet.root → ((start s).started options).scopes.scope? m = none :=
    fun m hm => hstart.scope_eq m hm
  have hclean : Clean ((start s).started options) ts := by
    intro m hm
    apply hunbound
    rintro rfl
    rw [hstart.sheet_eq] at hm
    rcases hm with hm | hm
    · exact hregion.root_notMem_below hm
    · exact Nat.not_lt.2 hm hregion.container_lt
  have hus : ((start s).process options).sheet.Region above Sheet.root us := by
    simpa using hx.region
  have hbelow : ((start s).process options).sheet.descendants Sheet.root = preorderAll us := by
    rw [Sheet.descendants, hus.shape_eq]
    rfl
  rw [hbelow]
  by_cases hroot : n = Sheet.root
  · exact .inl hroot
  by_cases hmem : n ∈ preorderAll us
  · exact .inr hmem
  -- anything else lost its scope, or never had one
  · rw [hx.scope_eq_none hclean (hunbound n hroot) hroot hmem] at h
    cases h

/-- A branch and the rounds of a loop, all with assignments inside. A rule of the last round has a
scope; neither the branches nor the loop nor its copies do. -/
theorem reachable_of_scope_round :
    let s := Sheet.ofForest [
      .node ⟨.atRule "if" "a == a" true, none⟩ [.node ⟨.declaration "$v" "1", none⟩ [],
        .node ⟨.rule "b", none⟩ [.node ⟨.declaration "$w" "$v", none⟩ []]],
      .node ⟨.atRule "else" "" true, none⟩ [.node ⟨.declaration "$u" "2", none⟩ []],
      .node ⟨.atRule "each" "$x in p, q" true, none⟩
        [.node ⟨.rule ".$x", none⟩ [.node ⟨.declaration "$y" "$x", none⟩ []]]]
    let r := (start s).process .default
    s.Linked ∧ (List.range r.sheet.size).filter (fun n => (r.scopes.scope? n).isSome) = [3, 11, 14] ∧
      (14 = Sheet.root ∨ 14 ∈ r.sheet.descendants Sheet.root) := by
  intro s r
  have hs : s.Linked := .ofForest _
  have hscope : (r.scopes.scope? 14).isSome = true := by decide +kernel
  exact ⟨hs, by decide +kernel, reachable_of_scope hs .default hscope⟩

end StyleExpand.Run

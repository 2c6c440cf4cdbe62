import StyleExpand.Proofs.Run.Condition

/-!
# Visits

One visit replaces a child of the container, or a condition with its `@else`, by what evaluation
says, whatever the content of the child.

* `Run.assign_rebinds` : an assignment changes one scope, as evaluation says;
* `Run.visit_keeps`, `Run.visit_eq_of_gone` : a child that stays is walked next, one that went is not;
* `Run.visit_visited` : every visit.
-/

namespace StyleExpand.Run

open StyleExpand.Tree

variable {warns : Bool} {descend : NodeId → Run → Run} {height : Nat} {above : List NodeId}
  {c n : NodeId} {r r₁ r₂ : Run} {t : Tree NodeId} {xs us ys : List (Tree NodeId)}

/-! ## Assignments -/

theorem assign_rebinds {own : Bindings} {scopes : List Bindings} (hown : r.scopes.at? n = own)
    (h : r.lookup n = Bindings.find (own :: scopes)) (name raw : String) :
    Rebinds r (r.assign n name raw) n (Eval.assign scopes own name raw) := by
  subst hown
  have hlookup : r.scopes.lookup r.sheet n = Bindings.find (r.scopes.at? n :: scopes) := h
  unfold assign Scopes.assign Eval.assign
  rw [hlookup]
  cases Scopes.beforeMarker? raw.toList with
  | none => exact Rebinds.bind r n name _
  | some value =>
    dsimp only
    cases (Bindings.find (r.scopes.at? n :: scopes) name).isSome with
    | true => exact ⟨rfl, notices_note .., rfl, fun _ _ => rfl⟩
    | false => exact Rebinds.bind r n name _

theorem container_sight (h : r.sheet.Region above c (xs ++ t :: ys)) :
    Sight r c t.label (r.scopes.at? c :: above.map r.scopes.at?) (r.sheet.position t.label) :=
  ⟨lookup_eq_find h, rfl⟩

/-! ## After the content -/

theorem visit_eq_of_gone (h : r.sheet.Region above c (xs ++ t :: ys))
    (hgone : (visitContent warns descend c t.label r).2.sheet.parent t.label = none) :
    visit warns descend c t.label r = visitContent warns descend c t.label r := by
  have hattached := Sheet.isAttached_eq_false h.child_ne_root hgone
  unfold visit
  generalize visitContent warns descend c t.label r = found at hattached
  simp [hattached]

theorem visit_keeps {e : Entry} {ns : List Notice} (hd : Expands warns descend height)
    (h : r.sheet.Region above c (xs ++ t :: ys)) (hheight : heightAll t.children ≤ height)
    (hcontent : visitContent warns descend c t.label r = (1, r₁))
    (hlabel : Sheet.Relabels r.sheet r₁.sheet t.label e) (he : e.isConstruct = false)
    (hscopes : r₁.scopes = r.scopes) (hnotices : r₁.notices = r.notices ++ ns) :
    ∃ us, (visit warns descend c t.label r).1 = us.length ∧
      Expanded (Eval.keep (r.scopes.at? c) e ns (body warns r above c t)) (Below c [t]) above c xs [t]
        us ys r (visit warns descend c t.label r).2 := by
  cases t with
  | node n us =>
    have h₁ := hlabel.region h
    have hattached := h₁.isAttached_child
    have hchild := h₁.child
    simp only [label_node, children_node] at hattached hchild hheight hcontent hlabel ⊢
    unfold visit
    simp only [hcontent, hattached, hchild.children_eq, Bool.true_and, List.isEmpty_map]
    cases us with
    | nil =>
      exact ⟨_, rfl, Expanded.keep h hlabel he hscopes hnotices (Expanded.nothing warns hchild)⟩
    | cons u us =>
      obtain ⟨us', hx⟩ := hd hchild hheight
      exact ⟨_, rfl, Expanded.keep h hlabel he hscopes hnotices hx⟩

theorem visit_setContent (content : Content) {ns : List Notice} (hd : Expands warns descend height)
    (h : r.sheet.Region above c (xs ++ t :: ys)) (hheight : heightAll t.children ≤ height)
    (hplain : Entry.isConstruct ⟨content, r.sheet.position t.label⟩ = false) (hns : Reports r r₁ ns)
    (hcontent : visitContent warns descend c t.label r = (1, r₁.setContent t.label content)) :
    ∃ us, (visit warns descend c t.label r).1 = us.length ∧
      Expanded
        (Eval.keep (r.scopes.at? c) ⟨content, r.sheet.position t.label⟩ ns (body warns r above c t))
        (Below c [t]) above c xs [t] us ys r (visit warns descend c t.label r).2 := by
  refine visit_keeps hd h hheight hcontent ?_ hplain hns.scopes_eq hns.notices_eq
  rw [Run.setContent, hns.sheet_eq]
  exact .setContent h.child_lt_size content

theorem visit_unchanged (hd : Expands warns descend height)
    (h : r.sheet.Region above c (xs ++ t :: ys)) (hheight : heightAll t.children ≤ height)
    (hplain : (r.sheet.entry t.label).isConstruct = false)
    (hcontent : visitContent warns descend c t.label r = (1, r)) :
    ∃ us, (visit warns descend c t.label r).1 = us.length ∧
      Expanded (Eval.keep (r.scopes.at? c) (r.sheet.entry t.label) [] (body warns r above c t))
        (Below c [t]) above c xs [t] us ys r (visit warns descend c t.label r).2 :=
  visit_keeps hd h hheight hcontent (.refl r.sheet t.label) hplain rfl (List.append_nil _).symm

/-- A visit that stands for a single tree. -/
theorem visited_single {found : Nat × Run} {o : Eval.Outcome}
    (hcondition : (r.sheet.entry t.label).isCondition = false)
    (hx : ∃ us, found.1 = us.length ∧ Expanded o (Below c [t]) above c xs [t] us ys r found.2)
    (ho : Eval.plain warns (above.map r.scopes.at?) (r.scopes.at? c) (r.sheet.entry t.label)
      (body warns r above c t) = o) :
    Visited warns above c xs (t :: ys) r found := by
  obtain ⟨us, hcount, hx⟩ := hx
  refine ⟨[t], ys, us, rfl, ?_, hcount, ?_⟩
  · rw [mapAll_cons, mapAll_nil]
    refine .single (.inl fun u hu => ?_)
    obtain rfl : t.map r.sheet.entry = u := by simpa using hu
    rw [label_map, hcondition]
  · rwa [outcome_singleton, ho]

/-! ## One kind of content after the other -/

section Contents

variable {property value selector name params : String} {block : Bool}

theorem visit_declaration (hd : Expands warns descend height)
    (h : r.sheet.Region above c (xs ++ t :: ys)) (hheight : heightAll t.children ≤ height)
    (hcontent : r.sheet.content t.label = .declaration property value) :
    ∃ us, (visit warns descend c t.label r).1 = us.length ∧
      Expanded
        (Eval.declaration warns (above.map r.scopes.at?) (r.scopes.at? c) (r.sheet.position t.label)
          property value (body warns r above c t))
        (Below c [t]) above c xs [t] us ys r (visit warns descend c t.label r).2 := by
  have hsight := container_sight h
  cases hname : declaredName? property with
  | some name =>
    obtain ⟨value', r₁, ns, hfound, hsaid, hr₁⟩ := hsight.interpolate warns value
    have hassign := assign_rebinds (congrArg (Scopes.at? · c) hr₁.scopes_eq)
      (hsight.after hr₁).lookup_eq name value'
    have hvisit : visitContent warns descend c t.label r =
        (0, (r₁.assign c name value').remove t.label) := by
      simp only [visitContent, hcontent, visitDeclaration, hname, hfound]
    rw [visit_eq_of_gone h (by rw [hvisit]; exact (Sheet.parent_remove ..).trans (if_pos rfl)), hvisit]
    simp only [Eval.declaration, hname, hsaid, ← hassign.at?_eq]
    refine ⟨[], rfl, Expanded.drop h (hassign.sheet_eq.trans hr₁.sheet_eq) (fun k hk => ?_)
      (hassign.notices_eq.trans hr₁.notices_eq) none⟩
    rw [hassign.scope_eq k hk, hr₁.scopes_eq]
  | none =>
    obtain ⟨property', r₁, ns₁, hfound₁, hsaid₁, hr₁⟩ := hsight.interpolate warns property
    obtain ⟨value', r₂, ns₂, hfound₂, hsaid₂, hr₂⟩ := (hsight.after hr₁).interpolate warns value
    simp only [Eval.declaration, hname, hsaid₁, hsaid₂]
    refine visit_setContent _ hd h hheight rfl (hr₁.trans hr₂) ?_
    simp only [visitContent, hcontent, visitDeclaration, hname, hfound₁, hfound₂]

theorem visit_rule (hd : Expands warns descend height)
    (h : r.sheet.Region above c (xs ++ t :: ys)) (hheight : heightAll t.children ≤ height)
    (hcontent : r.sheet.content t.label = .rule selector) :
    Visited warns above c xs (t :: ys) r (visit warns descend c t.label r) := by
  have hentry : (r.sheet.entry t.label).content = .rule selector := hcontent
  obtain ⟨selector', r₁, ns, hfound, hsaid, hr₁⟩ := (container_sight h).interpolate warns selector
  refine visited_single (by rw [Entry.isCondition, hentry]; rfl)
    (visit_setContent (.rule selector') hd h hheight rfl hr₁ ?_) ?_
  · simp only [visitContent, hcontent, hfound]
  · have hposition : (r.sheet.entry t.label).position = r.sheet.position t.label := rfl
    rw [Eval.plain, hentry]
    simp only [hposition, hsaid]

/-! ### At-rules -/

theorem parent_expandFor (c n : NodeId) (params : String) (r : Run) :
    (expandFor warns descend c n params r).2.sheet.parent n = none := by
  unfold expandFor
  dsimp only
  split
  · exact (Sheet.parent_remove ..).trans (if_pos rfl)
  · exact (Sheet.parent_remove ..).trans (if_pos rfl)

theorem parent_expandEach (c n : NodeId) (params : String) (r : Run) :
    (expandEach warns descend c n params r).2.sheet.parent n = none := by
  unfold expandEach
  dsimp only
  split
  · exact (Sheet.parent_remove ..).trans (if_pos rfl)
  · exact (Sheet.parent_remove ..).trans (if_pos rfl)

theorem parent_expandIf (n : NodeId) (params : String) (r : Run) :
    (expandIf warns descend n params r).2.sheet.parent n = none :=
  (Sheet.parent_remove ..).trans (if_pos rfl)

theorem visit_atRule (hd : Expands warns descend height)
    (h : r.sheet.Region above c (xs ++ t :: ys))
    (hheight : ∀ u ∈ t :: ys, heightAll u.children ≤ height)
    (hcontent : r.sheet.content t.label = .atRule name params block) :
    Visited warns above c xs (t :: ys) r (visit warns descend c t.label r) := by
  have hentry : r.sheet.entry t.label = ⟨.atRule name params block, r.sheet.position t.label⟩ := by
    rw [← hcontent]
    rfl
  have ht := hheight t (by simp)
  have hvisit : visitContent warns descend c t.label r =
      visitAtRule warns descend c t.label name params block r := by
    simp only [visitContent, hcontent]
  have hplain : ∀ inside, Eval.plain warns (above.map r.scopes.at?) (r.scopes.at? c)
      (r.sheet.entry t.label) inside = Eval.atRule warns (above.map r.scopes.at?) (r.scopes.at? c)
        (r.sheet.position t.label) name params block inside := by
    intro inside
    rw [Eval.plain, hentry]
  have hother : Directive.ofName name ≠ .condition → (r.sheet.entry t.label).isCondition = false := by
    intro hne
    rw [hentry, Entry.isCondition, Content.atRuleName?, beq_eq_false_iff_ne]
    rintro heq
    exact hne (Option.some.inj heq ▸ by decide)
  have hsight := container_sight h
  cases hdirective : Directive.ofName name with
  | counting =>
    have hfor : visitContent warns descend c t.label r =
        expandFor warns descend c t.label params r := by rw [hvisit, visitAtRule, hdirective]
    rw [visit_eq_of_gone h (by rw [hfor]; exact parent_expandFor ..), hfor]
    refine visited_single (hother (by simp [hdirective])) (expandFor_expanded hd h ht params) ?_
    rw [hplain, Eval.atRule, hdirective]
  | listing =>
    have heach : visitContent warns descend c t.label r =
        expandEach warns descend c t.label params r := by rw [hvisit, visitAtRule, hdirective]
    rw [visit_eq_of_gone h (by rw [heach]; exact parent_expandEach ..), heach]
    refine visited_single (hother (by simp [hdirective])) (expandEach_expanded hd h ht params) ?_
    rw [hplain, Eval.atRule, hdirective]
  | condition =>
    have hif : visitContent warns descend c t.label r =
        expandIf warns descend t.label params r := by rw [hvisit, visitAtRule, hdirective]
    rw [visit_eq_of_gone h (by rw [hif]; exact parent_expandIf ..), hif]
    rw [Directive.ofName_eq_condition hdirective] at hcontent
    exact expandIf_visited hd h hheight hcontent
  | media | keyframes =>
    obtain ⟨params', r₁, ns, hfound, hsaid, hr₁⟩ := hsight.interpolate warns params
    refine visited_single (hother (by simp [hdirective]))
      (visit_setContent (.atRule name params' block) hd h ht
        (by apply Directive.isConstruct_atRule <;> simp [hdirective]) hr₁ ?_) ?_
    · simp only [hvisit, visitAtRule, hdirective, hfound]
    · rw [hplain, Eval.atRule, hdirective]
      simp only [hsaid]
  | other =>
    have hplain' : (r.sheet.entry t.label).isConstruct = false := by
      rw [hentry]
      apply Directive.isConstruct_atRule <;> simp [hdirective]
    refine visited_single (hother (by simp [hdirective])) (visit_unchanged hd h ht hplain' ?_) ?_
    · rw [hvisit, visitAtRule, hdirective]
    · rw [hplain, Eval.atRule, hdirective, hentry]

end Contents

/-- Every visit replaces a child as evaluation says. -/
theorem visit_visited (hd : Expands warns descend height)
    (h : r.sheet.Region above c (xs ++ t :: ys))
    (hheight : ∀ u ∈ t :: ys, heightAll u.children ≤ height) :
    Visited warns above c xs (t :: ys) r (visit warns descend c t.label r) := by
  have ht := hheight t (by simp)
  cases hcontent : r.sheet.content t.label with
  | declaration property value =>
    have hentry : (r.sheet.entry t.label).content = .declaration property value := hcontent
    refine visited_single (by rw [Entry.isCondition, hentry]; rfl)
      (visit_declaration hd h ht hcontent) ?_
    rw [Eval.plain, hentry]
    rfl
  | rule selector => exact visit_rule hd h ht hcontent
  | atRule name params block => exact visit_atRule hd h hheight hcontent
  | root =>
    have hentry : (r.sheet.entry t.label).content = .root := hcontent
    refine visited_single (by rw [Entry.isCondition, hentry]; rfl) (visit_unchanged hd h ht
      (by rw [Entry.isConstruct, hentry]; rfl) ?_) ?_
    · simp only [visitContent, hcontent]
    · rw [Eval.plain, hentry]
  | comment text =>
    have hentry : (r.sheet.entry t.label).content = .comment text := hcontent
    refine visited_single (by rw [Entry.isCondition, hentry]; rfl) (visit_unchanged hd h ht
      (by rw [Entry.isConstruct, hentry]; rfl) ?_) ?_
    · simp only [visitContent, hcontent]
    · rw [Eval.plain, hentry]

end StyleExpand.Run

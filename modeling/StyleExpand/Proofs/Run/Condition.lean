import StyleExpand.Proofs.Run.Loop

/-!
# Conditions

A condition leaves the trees of one branch in its place and goes away, together with an `@else`
right behind it.

* `Run.Rearranges` : nodes change places and lose their scopes, and nothing else;
* `Run.Expanded.unwrap` : the trees of an expanded branch take the place of all branches;
* `Run.elseBranch?_eq` : the second branch of a condition in its container;
* `Run.expandIf_visited` : a condition with its second branch, if there is one.
-/

namespace StyleExpand.Run

open StyleExpand.Tree

variable {warns : Bool} {descend : NodeId → Run → Run} {height : Nat} {above : List NodeId}
  {b c n : NodeId} {r r₁ r₂ : Run} {t : Tree NodeId} {xs us us' ys : List (Tree NodeId)}

/-! ## Rearrangements -/

/-- Only nodes of `W` changed places, and the nodes of `gone` have no scope any more. -/
structure Rearranges (r r' : Run) (W : NodeId → Prop) (gone : List NodeId) : Prop where
  size_eq : r'.sheet.size = r.sheet.size
  entry_eq : ∀ k, r'.sheet.entry k = r.sheet.entry k
  node_eq : ∀ k, ¬ W k → r'.sheet.node k = r.sheet.node k
  scope_eq : ∀ k, r'.scopes.scope? k = if k ∈ gone then none else r.scopes.scope? k
  notices_eq : r'.notices = r.notices
  linked : r.sheet.Linked → r'.sheet.Linked

namespace Rearranges

variable {W : NodeId → Prop} {gone gone' : List NodeId}

theorem refl (r : Run) (W : NodeId → Prop) : Rearranges r r W [] :=
  ⟨rfl, fun _ => rfl, fun _ _ => rfl, fun _ => rfl, rfl, id⟩

theorem trans (h : Rearranges r r₁ W gone) (h' : Rearranges r₁ r₂ W gone') :
    Rearranges r r₂ W (gone ++ gone') where
  size_eq := h'.size_eq.trans h.size_eq
  entry_eq k := (h'.entry_eq k).trans (h.entry_eq k)
  node_eq k hk := (h'.node_eq k hk).trans (h.node_eq k hk)
  scope_eq k := by
    rw [h'.scope_eq, h.scope_eq]
    by_cases hk : k ∈ gone <;> simp [hk]
  notices_eq := h'.notices_eq.trans h.notices_eq
  linked hs := h'.linked (h.linked hs)

theorem remove (h : r.sheet.Region above c (xs ++ t :: ys)) (hc : W c) (ht : W t.label) :
    Rearranges r (r.remove t.label) W [] where
  size_eq := Sheet.size_remove ..
  entry_eq k := Sheet.entry_remove ..
  node_eq k hk := h.node_remove_of_ne (by rintro rfl; exact hk hc) (by rintro rfl; exact hk ht)
  scope_eq k := rfl
  notices_eq := rfl
  linked hs := hs.remove t.label

theorem discard (r : Run) (W : NodeId → Prop) (n : NodeId) : Rearranges r (r.discard n) W [n] where
  size_eq := rfl
  entry_eq k := rfl
  node_eq k _ := rfl
  scope_eq k := by simp [Run.discard, Scopes.scope?_discard, eq_comm]
  notices_eq := rfl
  linked := id

theorem insertBefore {list : List NodeId}
    (h : Sheet.Moves r.sheet (r.sheet.insertBefore n (us.map Tree.label)).2 c b (us.map Tree.label)
      list) (hc : W c) (hb : W b) (hus : ∀ k ∈ preorderAll us, W k)
    (hlinked : r.sheet.Linked → (r.sheet.insertBefore n (us.map Tree.label)).2.Linked) :
    Rearranges r (r.insertBefore n (us.map Tree.label)).2 W [] where
  size_eq := h.size_eq
  entry_eq := h.entry_eq
  node_eq k hk := h.node_eq (by rintro rfl; exact hk hc) (by rintro rfl; exact hk hb)
    fun hmem => hk (hus k (labels_subset_preorderAll us hmem))
  scope_eq k := rfl
  notices_eq := rfl
  linked := hlinked

end Rearranges

/-! ## Branches -/

/-- A branch was expanded, and its trees took the place of all branches `ts ++ .node b us :: ts'`. -/
theorem Expanded.unwrap (ts ts' : List (Tree NodeId)) (gone : List NodeId) (after : Option Bool)
    (h : r.sheet.Region above c (xs ++ (ts ++ .node b us :: ts') ++ ys))
    (hx : Expanded (outcome warns r (c :: above) b us) (Below b us) (c :: above) b [] us us' [] r r₁)
    (hmove : Rearranges r₁ r₂
      (fun k => Below c (ts ++ .node b us :: ts') k ∨ r.sheet.size ≤ k) gone)
    (hb : b ∈ gone) (hgone : ∀ k ∈ gone, k ∈ preorderAll (ts ++ .node b us :: ts'))
    (hregion : r₂.sheet.Region above c (xs ++ us' ++ ys)) :
    Expanded (Eval.unwrap (r.scopes.at? c) [] after (body warns r above c (.node b us)))
      (Below c (ts ++ .node b us :: ts')) above c xs (ts ++ .node b us :: ts') us' ys r r₂ := by
  have hr : r.sheet.Region above c ((xs ++ ts) ++ .node b us :: (ts' ++ ys)) := by simpa using h
  have hcontainer : ¬ Below b us c := not_below_child hr (.inl (by simp))
  have hbelow : ∀ k, Below b us k → k ∈ preorderAll (ts ++ .node b us :: ts') := by
    rintro k (rfl | hk)
    · simp
    · simp [hk]
  have hold : ∀ k, k < r.sheet.size → ¬ Below c (ts ++ .node b us :: ts') k →
      ¬ (Below c (ts ++ .node b us :: ts') k ∨ r.sheet.size ≤ k) := fun k hk hw hor =>
    hor.elim hw (Nat.not_le.2 hk)
  have hc : c ∉ gone := fun hmem => h.container_notMem_below (by
    have := hgone c hmem
    simp only [preorderAll_append, List.mem_append] at this ⊢
    exact .inl (.inr this))
  refine ⟨hregion, ⟨?_, fun k hk hw => ?_, fun k hk hw => ?_⟩, ?_, fun k hk => ?_, fun k hk => ?_,
    fun hs => hmove.linked (hx.linked hs), fun hclean => ?_⟩
  · rw [hmove.size_eq]
    exact hx.keeps.size_le
  · rw [hmove.node_eq k (hold k hk hw), hx.keeps.node_eq k hk fun hk => hw (.inr (hbelow k hk))]
  · rw [hmove.scope_eq, if_neg fun hmem => hw (.inr (hgone k hmem)),
      hx.keeps.scope_eq k hk fun hk => hw (.inr (hbelow k hk))]
  · rw [hmove.entry_eq, hx.keeps.entry_eq h.container_lt hcontainer]
  · exact (hx.fresh k hk).imp (fun hk => hbelow k (.inr hk)) id
  · rw [hmove.entry_eq]
    exact hx.settled k hk
  have hunbound : r.scopes.at? b = Bindings.empty := hclean.at?_eq (hbelow b (.inl rfl))
  obtain ⟨htrees, -, hnotices, hempty⟩ := hx.means fun k hk =>
    hclean k (hk.imp (fun hk => hbelow k (.inr hk)) id)
  rw [outcome, hunbound] at htrees hnotices
  refine ⟨?_, ?_, hmove.notices_eq.trans hnotices, fun k hk hnot => ?_⟩
  · rw [mapAll_congr fun k _ => hmove.entry_eq k, htrees]
    rfl
  · refine at?_congr ?_
    rw [hmove.scope_eq, if_neg hc, hx.keeps.scope_eq c h.container_lt hcontainer]
  · rw [hmove.scope_eq]
    split
    · rfl
    rename_i hngone
    by_cases hk' : k ∈ preorderAll us ∨ r.sheet.size ≤ k
    · exact hempty k hk' hnot
    -- an old node of another branch: nothing was ever bound there
    · rw [not_or, Nat.not_le] at hk'
      rw [hx.keeps.scope_eq k hk'.2 ?_]
      · exact hclean k hk
      · rintro (rfl | hmem)
        · exact hngone hb
        · exact hk'.1 hmem

theorem nextSibling?_eq (h : r.sheet.Region above c (xs ++ t :: ys)) :
    r.sheet.nextSibling? t.label = ys.head?.map Tree.label := by
  have hbefore : t.label ∉ xs.map Tree.label := by
    have := h.label_notMem_others
    rw [List.map_append, List.mem_append, not_or] at this
    exact this.1
  have hindex : r.sheet.index? t.label = some xs.length := by
    rw [Sheet.index?, h.parent_child]
    simp only [h.children_eq, List.map_append, List.map_cons]
    rw [List.findIdx?_append, List.findIdx?_eq_none_iff.2 fun k hk => by
      rw [beq_eq_false_iff_ne]
      rintro rfl
      exact hbefore hk]
    simp [List.findIdx?_cons]
  rw [Sheet.nextSibling?, h.parent_child, hindex]
  simp only [h.children_eq, List.map_append, List.map_cons]
  cases ys <;> simp

theorem elseBranch?_eq (h : r.sheet.Region above c (xs ++ t :: ys)) :
    r.elseBranch? t.label =
      (ys.head?.filter fun u => (r.sheet.entry u.label).isElse).map Tree.label := by
  rw [elseBranch?, nextSibling?_eq h]
  cases ys with
  | nil => rfl
  | cons u ys =>
    have hcontent : ((r.sheet.content u.label).atRuleName? == some "else") =
        (r.sheet.entry u.label).isElse := rfl
    simp only [List.head?_cons, Option.map_some, Option.filter_some, hcontent]
    split <;> rfl

/-! ## Taking a branch -/

/-- The trees of an expanded child take its place and that of the branches `ts` behind it. -/
theorem Expanded.hoist (ts : List (Tree NodeId)) (after : Option Bool)
    (h : r.sheet.Region above c (xs ++ .node n us :: ts ++ ys))
    (hx : Expanded (outcome warns r (c :: above) n us) (Below n us) (c :: above) n [] us us' [] r r₁)
    (hmove : Rearranges r₁ r₂ (fun k => Below c (.node n us :: ts) k ∨ r.sheet.size ≤ k) [])
    (h₂ : r₂.sheet.Region above c (xs ++ .node n us' :: ys)) :
    (r₂.insertBefore n (us'.map Tree.label)).1 = us'.length ∧
      Expanded (Eval.unwrap (r.scopes.at? c) [] after (body warns r above c (.node n us)))
        (Below c (.node n us :: ts)) above c xs (.node n us :: ts) us' ys r
        (((r₂.insertBefore n (us'.map Tree.label)).2.remove n).discard n) := by
  obtain ⟨hcount, hmoves, h₃⟩ := h₂.hoist
  have hself : n ∈ preorderAll (.node n us :: ts) := by simp
  refine ⟨hcount, Expanded.unwrap [] ts [n] after (by simpa using h) hx ?_ (by simp) (by simp) ?_⟩
  · have hinsert := Rearranges.insertBefore
      (W := fun k => Below c (.node n us :: ts) k ∨ r.sheet.size ≤ k) hmoves
      (.inl (.inl rfl)) (.inl (.inr hself))
      (fun k hk => (hx.fresh k hk).imp (fun hk => .inr (by simp [hk])) id)
      (h₂.linked_insertBefore h₂.child)
    have hremove := Rearranges.remove (r := (r₂.insertBefore n (us'.map Tree.label)).2)
      (W := fun k => Below c (.node n us :: ts) k ∨ r.sheet.size ≤ k) h₃
      (.inl (.inl rfl)) (.inl (.inr hself))
    exact ((hmove.trans hinsert).trans hremove).trans (Rearranges.discard _ _ n)
  · exact h₃.remove

theorem Expanded.hoist_next (after : Option Bool)
    (h : r.sheet.Region above c (xs ++ t :: .node n us :: ys))
    (hx : Expanded (outcome warns r (c :: above) n us) (Below n us) (c :: above) n [] us us' [] r r₁) :
    (r₁.insertBefore t.label (us'.map Tree.label)).1 = us'.length ∧
      Expanded (Eval.unwrap (r.scopes.at? c) [] after (body warns r above c (.node n us)))
        (Below c [t, .node n us]) above c xs [t, .node n us] us' ys r
        (((((r₁.insertBefore t.label (us'.map Tree.label)).2.remove n).discard n).remove
          t.label).discard t.label) := by
  have h' : r.sheet.Region above c ((xs ++ [t]) ++ .node n us :: ys) := by simpa using h
  have h₁ : r₁.sheet.Region above c (xs ++ t :: .node n us' :: ys) := by simpa using hx.refill h'
  obtain ⟨hcount, hmoves, h₂⟩ := h₁.hoist_next
  rw [← List.singleton_append, ← List.append_assoc (xs ++ us') [t]] at h₂
  have h₃ := h₂.remove
  rw [List.append_assoc (xs ++ us') [t], List.singleton_append] at h₃
  have hfirst : t.label ∈ preorderAll [t, .node n us] := by simp [t.label_mem_preorder]
  have hsecond : n ∈ preorderAll [t, .node n us] := by simp
  refine ⟨hcount, Expanded.unwrap [t] [] [n, t.label] after (by simpa using h) hx ?_ (by simp) ?_
    h₃.remove⟩
  · have hinsert := Rearranges.insertBefore
      (W := fun k => Below c [t, .node n us] k ∨ r.sheet.size ≤ k) hmoves
      (.inl (.inl rfl)) (.inl (.inr hsecond))
      (fun k hk => (hx.fresh k hk).imp (fun hk => .inr (by simp [hk])) id)
      (h₁.linked_insertBefore (by simpa using hx.region))
    have hremove := Rearranges.remove (r := (r₁.insertBefore t.label (us'.map Tree.label)).2)
      (W := fun k => Below c [t, .node n us] k ∨ r.sheet.size ≤ k) h₂
      (.inl (.inl rfl)) (.inl (.inr hsecond))
    have hremove' := Rearranges.remove
      (r := ((r₁.insertBefore t.label (us'.map Tree.label)).2.remove n).discard n)
      (W := fun k => Below c [t, .node n us] k ∨ r.sheet.size ≤ k) h₃
      (.inl (.inl rfl)) (.inl (.inr hfirst))
    exact ((hinsert.trans hremove).trans (Rearranges.discard _ _ n)).trans
      (hremove'.trans (Rearranges.discard _ _ t.label))
  · intro k hk
    rcases List.mem_cons.1 hk with rfl | hk
    · exact hsecond
    · rw [List.mem_singleton.1 hk]
      exact hfirst

theorem Expanded.discard {o : Eval.Outcome} {ts ts' : List (Tree NodeId)}
    (h : r.sheet.Region above c (xs ++ ts ++ ys))
    (hx : Expanded o (Below c ts) above c xs ts ts' ys r r₁) (hn : n ∈ preorderAll ts) :
    Expanded o (Below c ts) above c xs ts ts' ys r (r₁.discard n) := by
  have hc : n ≠ c := by
    rintro rfl
    exact h.container_notMem_below (by simp [hn])
  refine ⟨hx.region, ⟨hx.keeps.size_le, hx.keeps.node_eq, fun k hk hw => ?_⟩, hx.entry_eq, hx.fresh,
    hx.settled, hx.linked, fun hclean => ?_⟩
  · rw [Run.discard, Scopes.scope?_discard, if_neg (by rintro rfl; exact hw (.inr hn))]
    exact hx.keeps.scope_eq k hk hw
  · obtain ⟨htrees, hbindings, hnotices, hgone⟩ := hx.means hclean
    refine ⟨htrees, (at?_congr ?_).trans hbindings, hnotices, fun k hk hnot => ?_⟩
    · rw [Run.discard, Scopes.scope?_discard, if_neg hc]
    · rw [Run.discard, Scopes.scope?_discard, hgone k hk hnot, ite_self]

/-! ## Conditions -/

theorem Sight.condition {scopes : List Bindings} {position : Option Position}
    (h : Sight r n n scopes position) (warns : Bool) (params : String) :
    Answers r (Run.condition warns n params r) (Eval.condition warns scopes position params) := by
  rcases htokens : splitSpace params.toList with _ | ⟨left, _ | ⟨operator, _ | ⟨right, others⟩⟩⟩
  -- too few words to be a comparison
  iterate 3
    simp only [Run.condition, Eval.condition, htokens]
    exact ⟨_, _, _, rfl, rfl, Reports.note r _⟩
  have hr₀ : Reports r (if others.isEmpty then r else r.note (.trailingTokens params)) [] := by
    split
    · exact Reports.refl r
    · exact Reports.note r _
  obtain ⟨left', r₁, ns₁, hfound₁, hsaid₁, hr₁⟩ :=
    (h.after hr₀).interpolate warns (String.ofList left)
  obtain ⟨right', r₂, ns₂, hfound₂, hsaid₂, hr₂⟩ :=
    ((h.after hr₀).after hr₁).interpolate warns (String.ofList right)
  have hr : Reports r r₂ (ns₁ ++ ns₂) := by simpa using (hr₀.trans hr₁).trans hr₂
  simp only [Run.condition, Eval.condition, htokens, hfound₁, hsaid₁, hfound₂, hsaid₂]
  cases Comparison.ofText? (String.ofList operator) with
  | some comparison => exact ⟨_, _, _, rfl, rfl, hr⟩
  | none => exact ⟨_, _, _, rfl, rfl, by simpa using hr.trans (Reports.note r₂ _)⟩

section Outcomes

variable {params : String} {block holds : Bool} {ns : List Notice} {e : Tree NodeId}

theorem outcome_condition (hif : r.sheet.content t.label = .atRule "if" params block)
    (hsaid : Eval.condition warns (r.scopes.at? c :: above.map r.scopes.at?)
      (r.sheet.position t.label) params = (holds, ns)) :
    outcome warns r above c [t] =
      if holds then Eval.unwrap (r.scopes.at? c) ns (some true) (body warns r above c t)
      else ⟨[], r.scopes.at? c, ns, some false⟩ := by
  have hcontent : (r.sheet.entry t.label).content = .atRule "if" params block := hif
  have hposition : (r.sheet.entry t.label).position = r.sheet.position t.label := rfl
  have hname : Directive.ofName "if" = .condition := by decide
  rw [outcome_singleton, Eval.plain, hcontent]
  simp only [Eval.atRule, hname, hposition, hsaid]

/-- A condition with its second branch comes to what one of the two comes to. -/
theorem outcome_branches (hif : r.sheet.content t.label = .atRule "if" params block)
    (hsaid : Eval.condition warns (r.scopes.at? c :: above.map r.scopes.at?)
      (r.sheet.position t.label) params = (holds, ns))
    (helse : (r.sheet.entry e.label).isElse = true) :
    outcome warns r above c [t, e] =
      Eval.unwrap (r.scopes.at? c) ns none (body warns r above c (if holds then t else e)) := by
  have hfirst := outcome_condition hif hsaid
  rw [outcome, mapAll_cons, mapAll_nil, Eval.forest_singleton] at hfirst
  rw [outcome, mapAll_cons, mapAll_cons, mapAll_nil, Eval.forest_cons, Eval.forest_singleton,
    hfirst]
  cases e with
  | node n us =>
    rw [label_node] at helse
    cases holds <;> simp [Eval.tree, Eval.node, helse, Eval.unwrap, Eval.Outcome.andThen, body]

end Outcomes

theorem takeBranch_expanded (hd : Expands warns descend height)
    (h : r.sheet.Region above c (xs ++ t :: ys)) (hheight : heightAll t.children ≤ height)
    (holds : Bool) (after : Option Bool) :
    ∃ us, (takeBranch descend t.label holds none r).1 = us.length ∧
      Expanded
        (if holds then Eval.unwrap (r.scopes.at? c) [] after (body warns r above c t)
          else ⟨[], r.scopes.at? c, [], after⟩)
        (Below c [t]) above c xs [t] us ys r
        (((takeBranch descend t.label holds none r).2.remove t.label).discard t.label) := by
  have hself : t.label ∈ preorderAll [t] := by simp [t.label_mem_preorder]
  cases holds with
  | false =>
    refine ⟨[], rfl, ?_⟩
    have hnotices : r.notices = r.notices ++ [] := by simp
    have hdrop := Expanded.drop h rfl (fun _ _ => rfl) hnotices after
    exact hdrop.discard (by simpa using h) hself
  | true =>
    cases t with
    | node n us =>
      obtain ⟨us', hx⟩ := hd h.child hheight
      simp only [label_node, children_node] at hx
      have h₁ := hx.refill h
      have hchildren : (descend n r).sheet.children n = us'.map Tree.label := by
        simpa using hx.region.children_eq
      obtain ⟨hcount, hexpanded⟩ := Expanded.hoist [] after (by simpa using h) hx
        (Rearranges.refl _ _) h₁
      refine ⟨us', ?_, ?_⟩
      · simp only [takeBranch, label_node, hchildren]
        exact hcount
      · simp only [takeBranch, label_node, hchildren]
        exact hexpanded

theorem takeBranch_else_expanded {e : Tree NodeId} (hd : Expands warns descend height)
    (h : r.sheet.Region above c (xs ++ t :: e :: ys)) (ht : heightAll t.children ≤ height)
    (he : heightAll e.children ≤ height) (holds : Bool) (after : Option Bool) :
    ∃ us, (takeBranch descend t.label holds (some e.label) r).1 = us.length ∧
      Expanded (Eval.unwrap (r.scopes.at? c) [] after
          (body warns r above c (if holds then t else e)))
        (Below c [t, e]) above c xs [t, e] us ys r
        (((takeBranch descend t.label holds (some e.label) r).2.remove t.label).discard t.label) := by
  cases holds with
  | false =>
    cases e with
    | node n us =>
      have h' : r.sheet.Region above c ((xs ++ [t]) ++ .node n us :: ys) := by simpa using h
      obtain ⟨us', hx⟩ := hd h'.child he
      simp only [label_node, children_node] at hx
      have hchildren : (descend n r).sheet.children n = us'.map Tree.label := by
        simpa using hx.region.children_eq
      obtain ⟨hcount, hexpanded⟩ := hx.hoist_next after h
      refine ⟨us', ?_, ?_⟩
      · simp only [takeBranch, label_node, hchildren]
        exact hcount
      · simp only [takeBranch, label_node, hchildren]
        exact hexpanded
  | true =>
    cases t with
    | node n us =>
      obtain ⟨us', hx⟩ := hd h.child ht
      simp only [label_node, children_node] at hx
      have h₁ := hx.refill h
      rw [← List.singleton_append, ← List.append_assoc] at h₁
      have h₂ := h₁.remove
      rw [List.append_assoc, List.singleton_append] at h₂
      have hchildren : (descend n r).sheet.children n = us'.map Tree.label := by
        simpa using hx.region.children_eq
      obtain ⟨hcount, hexpanded⟩ := Expanded.hoist [e] after (by simpa using h) hx
        (Rearranges.remove h₁ (.inl (.inl rfl))
          (.inl (.inr (by simp [e.label_mem_preorder])))) h₂
      refine ⟨us', ?_, ?_⟩
      · simp only [takeBranch, label_node, hchildren]
        exact hcount
      · simp only [takeBranch, label_node, hchildren]
        exact hexpanded

theorem expandIf_visited {params : String} {block : Bool} (hd : Expands warns descend height)
    (h : r.sheet.Region above c (xs ++ t :: ys))
    (hheight : ∀ u ∈ t :: ys, heightAll u.children ≤ height)
    (hif : r.sheet.content t.label = .atRule "if" params block) :
    Visited warns above c xs (t :: ys) r (expandIf warns descend t.label params r) := by
  obtain ⟨holds, r₀, ns, hfound, hsaid, hr₀⟩ := (child_sight h).condition warns params
  have hr₁ : Reports r (r₀.note (.conditionEvaluated params holds)) ns := by
    simpa using hr₀.trans (Reports.note r₀ _)
  have h₀ : r₀.sheet.Region above c (xs ++ t :: ys) := by rwa [hr₀.sheet_eq]
  have h₁ : (r₀.note (.conditionEvaluated params holds)).sheet.Region above c (xs ++ t :: ys) := h₀
  have hcondition : (r.sheet.entry t.label).isCondition = true := by
    have hcontent : (r.sheet.entry t.label).content = .atRule "if" params block := hif
    rw [Entry.isCondition, hcontent]
    rfl
  -- nothing is bound at the condition, so its sides are resolved in the container
  have hsaid' : ∀ {ts}, Clean r (t :: ts) → Eval.condition warns
      (r.scopes.at? c :: above.map r.scopes.at?) (r.sheet.position t.label) params = (holds, ns) := by
    intro ts hclean
    rwa [hclean.at?_child, Eval.condition_congr (Bindings.find_empty_cons _)] at hsaid
  by_cases helse : ∃ e rest, ys = e :: rest ∧ (r.sheet.entry e.label).isElse = true
  · obtain ⟨e, rest, rfl, helse⟩ := helse
    obtain ⟨us, hcount, hx⟩ := takeBranch_else_expanded hd h₁ (hheight t (by simp))
      (hheight e (by simp)) holds none
    have hother : r₀.elseBranch? t.label = some e.label := by
      rw [elseBranch?_eq h₀, hr₀.sheet_eq, List.head?_cons, Option.filter_some, if_pos helse]
      rfl
    simp only [expandIf, hfound, hother]
    refine ⟨[t, e], rest, us, rfl, ?_, hcount, (hx.after_reports hr₁).congr fun hclean => ?_⟩
    · simp only [mapAll_cons, mapAll_nil]
      exact .pair (by rwa [label_map]) (by rwa [label_map])
    · rw [outcome_branches hif (hsaid' hclean) helse, hr₁.body_eq, hr₁.scopes_eq]
      exact ⟨rfl, rfl, rfl⟩
  · obtain ⟨us, hcount, hx⟩ := takeBranch_expanded hd h₁ (hheight t (by simp)) holds (some holds)
    have hother : r₀.elseBranch? t.label = none := by
      rw [elseBranch?_eq h₀, hr₀.sheet_eq]
      cases ys with
      | nil => rfl
      | cons e rest => simpa using fun hmem => helse ⟨e, rest, rfl, hmem⟩
    simp only [expandIf, hfound, hother]
    refine ⟨[t], ys, us, rfl, ?_, hcount, (hx.after_reports hr₁).congr fun hclean => ?_⟩
    · simp only [mapAll_cons, mapAll_nil]
      refine .single (.inr fun u hu => ?_)
      cases ys with
      | nil => simp at hu
      | cons e rest =>
        obtain rfl : e.map r.sheet.entry = u := by simpa using hu
        rw [label_map]
        exact Bool.eq_false_iff.2 fun hmem => helse ⟨e, rest, rfl, hmem⟩
    · rw [outcome_condition hif (hsaid' hclean), hr₁.body_eq, hr₁.scopes_eq]
      cases holds
      · exact ⟨rfl, rfl, by simp⟩
      · exact ⟨rfl, rfl, rfl⟩

end StyleExpand.Run

import StyleExpand.Proofs.Run.Expansion

/-!
# Nodes that stay and nodes that go

What the visit of one child does to its container, apart from loops and conditions.

* `Run.Expands warns descend height` : `descend` expands trees of at most `height` levels;
* `Run.Visited` : what a visit does to the trees of a container from a place on;
* `Run.Expanded.refill` : new trees below a child, seen from the container;
* `Run.Expanded.keep` : a child that stays, with what is below it expanded;
* `Run.Expanded.drop` : a child that goes away.
-/

namespace StyleExpand.Run

open StyleExpand.Tree

/-- `descend` replaces what is below a container by what evaluation says, for trees of at most
`height` levels. -/
def Expands (warns : Bool) (descend : NodeId → Run → Run) (height : Nat) : Prop :=
  ∀ {r : Run} {above : List NodeId} {c : NodeId} {ts : List (Tree NodeId)},
    r.sheet.Region above c ts → heightAll ts ≤ height →
    ∃ ts', Expanded (outcome warns r above c ts) (Below c ts) above c [] ts ts' [] r (descend c r)

/-- The first trees of `ts`, behind `xs`, were replaced as evaluation says, and what came in their
place was counted. -/
def Visited (warns : Bool) (above : List NodeId) (c : NodeId) (xs ts : List (Tree NodeId)) (r : Run)
    (found : Nat × Run) : Prop :=
  ∃ done rest us, ts = done ++ rest ∧
    Eval.Lead (mapAll r.sheet.entry done) (mapAll r.sheet.entry rest) ∧ found.1 = us.length ∧
    Expanded (outcome warns r above c done) (Below c done) above c xs done us rest r found.2

/-- What evaluation says of the children of a tree in a scope, below a container. -/
def body (warns : Bool) (r : Run) (above : List NodeId) (c : NodeId) (t : Tree NodeId)
    (b : Bindings) : Eval.Outcome :=
  Eval.forest warns (r.scopes.at? c :: above.map r.scopes.at?) b none
    (mapAll r.sheet.entry t.children)

theorem outcome_singleton (warns : Bool) (r : Run) (above : List NodeId) (c : NodeId)
    (t : Tree NodeId) :
    outcome warns r above c [t] = Eval.plain warns (above.map r.scopes.at?) (r.scopes.at? c)
      (r.sheet.entry t.label) (body warns r above c t) := by
  cases t with
  | node n us =>
    rw [outcome, mapAll_cons, mapAll_nil, Eval.forest_singleton, map_node, Eval.tree_none]
    rfl

variable {warns : Bool} {above : List NodeId} {c n m : NodeId} {r r₁ r₂ : Run} {o : Eval.Outcome}
  {t : Tree NodeId} {xs us us' ys : List (Tree NodeId)}

theorem Reports.body_eq {ns : List Notice} (h : Reports r r₁ ns) (t : Tree NodeId) :
    body warns r₁ above c t = body warns r above c t := by
  funext b
  rw [body, body, h.sheet_eq, h.scopes_eq]

theorem Clean.at?_child (h : Clean r (t :: ys)) : r.scopes.at? t.label = Bindings.empty :=
  h.at?_eq (by simp [t.label_mem_preorder])

/-! ## Below a child -/

theorem not_below_child (h : r.sheet.Region above c (xs ++ .node n us :: ys))
    (hm : m ∈ c :: above ∨ m ∈ preorderAll (xs ++ ys)) : ¬ Below n us m := by
  have hchild := h.child
  rw [label_node, children_node] at hchild
  intro hbelow
  have hmem : m ∈ n :: preorderAll us := List.mem_cons.2 hbelow
  rcases hm with hm | hm
  · rcases List.mem_cons.1 hmem with rfl | hmem
    · exact hchild.container_notMem_above hm
    · exact hchild.above_notMem_below hm hmem
  · exact h.notMem_child hm (by rwa [preorder_node])

namespace Expanded

theorem refill (h : r.sheet.Region above c (xs ++ .node n us :: ys))
    (hx : Expanded o (Below n us) (c :: above) n [] us us' [] r r₁) :
    r₁.sheet.Region above c (xs ++ .node n us' :: ys) := by
  have hchild : r₁.sheet.Region (c :: above) n us' := by simpa using hx.region
  have hparent : r₁.sheet.parent n = some c := by
    cases hchild.lineage with
    | step hp hl =>
      obtain ⟨up, hup⟩ := hl.head_eq
      rw [hp, (List.cons.inj hup).1]
  have hunder := h.holdsUnder
  rw [Sheet.holdsUnder_append, Sheet.holdsUnder_cons] at hunder
  refine h.congr hx.keeps.size_le (fun k hk => ?_) (Sheet.holds_node.2 ⟨?_, ?_⟩) ?_ fun hr => ?_
  · exact hx.keeps.parent_eq (h.lt_size k hk) (not_below_child h (.inl hk))
  · rw [hx.keeps.children_eq h.container_lt (not_below_child h (.inl (by simp))), h.children_eq]
    simp
  · rw [Sheet.holdsUnder_append, Sheet.holdsUnder_cons]
    refine ⟨?_, ⟨hparent, hchild.holds, ?_⟩⟩
    · exact hx.keeps.holdsUnder hunder.1 fun k hk => not_below_child h (.inr (by simp [hk]))
    · exact hx.keeps.holdsUnder hunder.2.2.2 fun k hk => not_below_child h (.inr (by simp [hk]))
  · have hperm : (n :: c :: above ++ preorderAll us' ++ preorderAll (xs ++ ys)).Perm
        (c :: above ++ preorderAll (xs ++ .node n us' :: ys)) := by
      refine List.perm_iff_count.2 fun a => ?_
      simp only [preorderAll_append, preorderAll_cons, preorder_node, List.count_append,
        List.count_cons]
      omega
    have hothers : (c :: above ++ preorderAll (xs ++ ys)).Nodup := by
      refine h.nodup.sublist ?_
      simp only [preorderAll_append, preorderAll_cons]
      exact (List.Sublist.refl _).append
        ((List.Sublist.refl _).append (List.sublist_append_right _ _))
    obtain ⟨-, hrest, hdisj⟩ := List.nodup_append.1 hothers
    refine hperm.nodup (List.nodup_append.2 ⟨hchild.nodup, hrest, ?_⟩)
    rintro a ha b hb rfl
    rw [List.cons_append, List.mem_cons, List.mem_append] at ha
    rcases ha with rfl | ha | ha
    · exact not_below_child h (.inr hb) (.inl rfl)
    · exact hdisj a ha a hb rfl
    -- a new tree holds old nodes from below the child, or nodes that did not exist
    · rcases hx.fresh a ha with ha | ha
      · exact not_below_child h (.inr hb) (.inr ha)
      · refine Nat.not_lt.2 ha (h.lt_size_below a ?_)
        simp only [preorderAll_append, preorderAll_cons, List.mem_append] at hb ⊢
        exact hb.imp id .inr
  · refine h.root_notMem_below ?_
    have hsize : Sheet.root < r.sheet.size := Nat.lt_of_le_of_lt (Nat.zero_le _) h.container_lt
    simp only [preorderAll_append, preorderAll_cons, preorder_node, List.mem_append,
      List.mem_cons] at hr ⊢
    rcases hr with hr | (hr | hr) | hr
    · exact .inl hr
    · exact .inr (.inl (.inl hr))
    · exact .inr (.inl (.inr ((hx.fresh _ hr).resolve_right (Nat.not_le.2 hsize))))
    · exact .inr (.inr hr)

/-! ## A child that stays -/

/-- What is below a child was expanded, after the child got a new entry. -/
theorem keep {e : Entry} {ns : List Notice} (h : r.sheet.Region above c (xs ++ .node n us :: ys))
    (hlabel : Sheet.Relabels r.sheet r₁.sheet n e) (he : e.isConstruct = false)
    (hscopes : r₁.scopes = r.scopes) (hnotices : r₁.notices = r.notices ++ ns)
    (hx : Expanded (outcome warns r₁ (c :: above) n us) (Below n us) (c :: above) n [] us us' []
      r₁ r₂) :
    Expanded (Eval.keep (r.scopes.at? c) e ns (body warns r above c (.node n us)))
      (Below c [.node n us]) above c xs [.node n us] [.node n us'] ys r r₂ := by
  have hr₁ := hlabel.region h
  have hc : n ≠ c := h.child_ne_container
  have hsize := hlabel.size_eq
  have hkeeps₁ : Keeps r r₁ (Below n us) :=
    ⟨Nat.le_of_eq hsize.symm, fun k _ hk => hlabel.node_eq fun heq => hk (.inl heq),
      fun k _ _ => by rw [hscopes]⟩
  have hkeeps : Keeps r r₂ (Below n us) := hkeeps₁.trans hx.keeps fun k _ hk => hk
  have hcontainer : ¬ Below n us c := not_below_child h (.inl (by simp))
  refine ⟨?_, ?_, ?_, ?_, ?_, fun hs => hx.linked (hlabel.linked hs), fun hclean => ?_⟩
  · simpa using hx.refill hr₁
  · refine hkeeps.mono fun k _ hk => .inr ?_
    rcases hk with rfl | hk
    · simp
    · simp [hk]
  · exact hkeeps.entry_eq h.container_lt hcontainer
  · intro k hk
    rw [preorderAll_cons, preorder_node, preorderAll_nil, List.append_nil, List.mem_cons] at hk ⊢
    rcases hk with rfl | hk
    · exact .inl (.inl rfl)
    · exact (hx.fresh k hk).imp .inr fun hk => hsize ▸ hk
  · intro k hk
    rw [preorderAll_cons, preorder_node, preorderAll_nil, List.append_nil, List.mem_cons] at hk
    rcases hk with rfl | hk
    · rw [hx.entry_eq, hlabel.entry_self, he]
    · exact hx.settled k hk
  · have hunbound : r₁.scopes.at? n = Bindings.empty := by
      rw [hscopes]
      exact hclean.at?_eq (by simp)
    have hbody : outcome warns r₁ (c :: above) n us = body warns r above c (.node n us) .empty := by
      rw [outcome, body, hunbound, hscopes, List.map_cons, children_node]
      congr 1
      refine mapAll_congr fun k hk => hlabel.entry_eq k ?_
      rintro rfl
      exact (by simpa using h.child : r.sheet.Region (c :: above) k us).container_notMem_below hk
    obtain ⟨htrees, -, hnotices', hgone⟩ := hx.means fun k hk => by
      rw [hscopes]
      exact hclean k (hk.imp (fun hk => by simp [hk]) fun hk => hsize ▸ hk)
    rw [hbody] at htrees hnotices'
    refine ⟨?_, hkeeps.at?_eq h.container_lt hcontainer, ?_, fun k hk hnot => hgone k ?_ ?_⟩
    · rw [mapAll_cons, map_node, mapAll_nil, hx.entry_eq, hlabel.entry_self, htrees]
      rfl
    · rw [hnotices', hnotices, List.append_assoc]
      rfl
    · refine hk.imp (fun hk => ?_) fun hk => hsize ▸ hk
      have hne : k ≠ n := fun heq => hnot (by simp [heq])
      simpa [hne] using hk
    · exact fun hmem => hnot (by simp [hmem])

/-! ## A child that goes -/

/-- A child went away, after the scope of the container may have changed. -/
theorem drop {ns : List Notice} (h : r.sheet.Region above c (xs ++ t :: ys))
    (hsheet : r₁.sheet = r.sheet)
    (hscope : ∀ k, k ≠ c → r₁.scopes.scope? k = r.scopes.scope? k)
    (hnotices : r₁.notices = r.notices ++ ns) (after : Option Bool) :
    Expanded ⟨[], r₁.scopes.at? c, ns, after⟩ (Below c [t]) above c xs [t] [] ys r
      (r₁.remove t.label) where
  region := by
    have := h.remove
    rw [← hsheet] at this
    simpa [Run.remove] using this
  keeps := by
    refine ⟨by simp [Run.remove, hsheet], fun k _ hk => ?_, fun k _ hk => ?_⟩
    · rw [Run.remove, hsheet]
      refine h.node_remove_of_ne (fun heq => hk (.inl heq)) fun heq => hk (.inr ?_)
      rw [heq, preorderAll_cons]
      exact List.mem_append_left _ t.label_mem_preorder
    · exact hscope k fun heq => hk (.inl heq)
  entry_eq := by simp [Run.remove, hsheet]
  fresh := by simp
  settled := by simp
  linked hs := by
    rw [Run.remove, hsheet]
    exact hs.remove t.label
  means hclean := by
    refine ⟨rfl, rfl, hnotices, fun k hk _ => ?_⟩
    have hne : k ≠ c := by
      rintro rfl
      rcases hk with hk | hk
      · rw [preorderAll_cons, preorderAll_nil, List.append_nil] at hk
        exact h.container_notMem_below (by simp [hk])
      · exact Nat.not_lt.2 hk h.container_lt
    exact (hscope k hne).trans (hclean k hk)

end Expanded

end StyleExpand.Run

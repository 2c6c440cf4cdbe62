import StyleExpand.Proofs.Run.Node
import StyleExpand.Proofs.Scope

/-!
# Loops

A round of a loop expands a copy of the loop and puts what is left before the loop.

* `Run.splice_expanded` : one round;
* `Run.iterate_expanded` : a round for each row of bindings, all bound at the loop;
* `Run.Expanded.finish` : a loop goes away behind its rounds;
* `Run.expandFor_expanded`, `Run.expandEach_expanded` : the two loops;
* `Run.Round`, `Run.Loops` : the rounds of a loop that binds one name, told without `Run.iterate`, and
  `Run.iterate_loops` : those of `Run.iterate` are such.
-/

namespace StyleExpand.Run

open StyleExpand.Tree

variable {warns : Bool} {descend : NodeId → Run → Run} {height : Nat} {above : List NodeId}
  {c n m : NodeId} {r r₁ r₂ : Run} {o : Eval.Outcome} {t : Tree NodeId}
  {xs us ys : List (Tree NodeId)}

/-! ## One round -/

/-- A run in which a node was copied with its bindings. -/
def copied (r : Run) (c n : NodeId) : Run :=
  { r with
    sheet := (r.sheet.clone n (some c)).2
    scopes := r.scopes.install r.sheet.size (r.scopes.snapshot n) }

theorem splice_eq (descend : NodeId → Run → Run) (c n : NodeId) (r : Run) :
    splice descend c n r =
      let r' := descend r.sheet.size (r.copied c n)
      let inserted := r'.sheet.insertBefore n (r'.sheet.children r.sheet.size)
      (inserted.1, { r' with sheet := inserted.2, scopes := r'.scopes.discard r.sheet.size }) := by
  unfold splice
  simp only [Sheet.clone, Sheet.graft_fst]
  rfl

theorem copied_scope?_of_ne (h : m ≠ r.sheet.size) :
    (r.copied c n).scopes.scope? m = r.scopes.scope? m := by
  rw [copied, Scopes.scope?_install, if_neg (Ne.symm h)]

theorem copied_at?_self : (r.copied c n).scopes.at? r.sheet.size = r.scopes.at? n := by
  funext name
  rw [Scopes.at?, copied, Scopes.scope?_install, if_pos rfl, Option.bind_some, Scopes.snapshot,
    Scopes.at?]
  cases r.scopes.scope? n <;> simp

theorem copied_keeps (W : NodeId → Prop) : Keeps r (r.copied c n) W := by
  have hext := Sheet.Extends.clone r.sheet n (some c)
  refine ⟨?_, fun k hk _ => hext.node_eq k hk, fun k hk _ => copied_scope?_of_ne (Nat.ne_of_lt hk)⟩
  rw [copied, hext.size_eq]
  exact Nat.le_add_right _ _

/-- The copy of a loop in its container, and what evaluation says of it. -/
theorem copied_region (warns : Bool) (h : r.sheet.Region above c (xs ++ t :: ys)) :
    (r.copied c t.label).sheet.Region (c :: above) r.sheet.size
        (numberAll (r.sheet.size + 1) t.children) ∧
      outcome warns (r.copied c t.label) (c :: above) r.sheet.size
          (numberAll (r.sheet.size + 1) t.children) =
        body warns r above c t (r.scopes.at? t.label) := by
  obtain ⟨hregion, hentries⟩ := h.clone
  refine ⟨hregion, ?_⟩
  have habove : (c :: above).map (r.copied c t.label).scopes.at? = (c :: above).map r.scopes.at? :=
    (copied_keeps fun _ => False).map_at?_eq h.lt_size fun _ _ => id
  rw [outcome, body, habove, copied_at?_self]
  exact congrArg _ hentries

/-- A round puts new trees before the loop, and they are what the body comes to. -/
theorem splice_expanded (hd : Expands warns descend height)
    (h : r.sheet.Region above c (xs ++ t :: ys)) (hheight : heightAll t.children ≤ height) :
    ∃ us, (splice descend c t.label r).1 = us.length ∧
      Expanded (Eval.gather (r.scopes.at? c) [] [body warns r above c t (r.scopes.at? t.label)])
        (· = c) above c xs [] us (t :: ys) r (splice descend c t.label r).2 := by
  obtain ⟨hcopy, hbody⟩ := copied_region warns h
  obtain ⟨us, hx⟩ := hd hcopy (by rwa [heightAll_numberAll])
  rw [hbody] at hx
  have hus : (descend r.sheet.size (r.copied c t.label)).sheet.Region (c :: above) r.sheet.size us := by
    simpa using hx.region
  have hsize : (r.copied c t.label).sheet.size = r.sheet.size + 1 + (preorderAll t.children).length := by
    have := (Sheet.Extends.clone r.sheet t.label (some c)).size_eq
    rw [h.child.tree_eq, preorder_node, preorderAll_mapAll, List.length_cons, List.length_map] at this
    rw [copied, this]
    lia
  have hnew : ∀ k, Below r.sheet.size (numberAll (r.sheet.size + 1) t.children) k → r.sheet.size ≤ k := by
    rintro k (rfl | hk)
    · exact Nat.le_refl _
    · rw [preorderAll_numberAll, List.mem_range'_1] at hk
      lia
  have hfresh : ∀ k ∈ preorderAll us, r.sheet.size ≤ k := by
    intro k hk
    rcases hx.fresh k hk with hk | hk
    · exact hnew k (.inr hk)
    · lia
  -- walking the copy leaves all old nodes alone, so the container is still there
  have hkeeps : Keeps r (descend r.sheet.size (r.copied c t.label)) fun _ => False :=
    (copied_keeps _).trans hx.keeps fun k hk hw => Nat.not_lt.2 (hnew k hw) hk
  have hcontainer := hkeeps.region h fun _ _ => id
  obtain ⟨hcount, hmoves, hregion⟩ := hcontainer.insert_copy hus fun k hk hmem => by
    refine Nat.not_lt.2 ?_ (h.lt_size_below k hmem)
    rcases List.mem_cons.1 hk with rfl | hk
    · exact Nat.le_refl _
    · exact hfresh k hk
  refine ⟨us, ?_, ?_⟩
  · simp only [splice_eq, hus.children_eq]
    exact hcount
  simp only [splice_eq, hus.children_eq]
  have hold : ∀ k, k < r.sheet.size → k ≠ r.sheet.size ∧ k ∉ us.map Tree.label := fun k hk =>
    ⟨Nat.ne_of_lt hk, fun hmem => Nat.not_lt.2 (hfresh k (labels_subset_preorderAll us hmem)) hk⟩
  refine ⟨hregion, ⟨?_, fun k hk hw => ?_, fun k hk _ => ?_⟩, ?_, fun k hk => .inr (hfresh k hk),
    fun k hk => ?_, fun hs => ?_, fun hclean => ?_⟩
  · exact Nat.le_trans hkeeps.size_le (Nat.le_of_eq hmoves.size_eq.symm)
  · exact (hmoves.node_eq hw (hold k hk).1 (hold k hk).2).trans (hkeeps.node_eq k hk id)
  · rw [Scopes.scope?_discard, if_neg (Ne.symm (hold k hk).1), hkeeps.scope_eq k hk id]
  · exact (hmoves.entry_eq c).trans (hkeeps.entry_eq h.container_lt id)
  · rw [hmoves.entry_eq]
    exact hx.settled k hk
  · refine hcontainer.linked_insertBefore hus (hx.linked (hs.clone t.label ?_))
    simpa using h.container_lt
  obtain ⟨htrees, -, hnotices, hgone⟩ := hx.means fun k hk => by
    have hk' : r.sheet.size + 1 ≤ k := by
      rcases hk with hk | hk
      · rw [preorderAll_numberAll, List.mem_range'_1] at hk
        exact hk.1
      · lia
    rw [copied_scope?_of_ne (by lia)]
    exact hclean k (.inr (by lia))
  refine ⟨?_, ?_, ?_, fun k hk hnot => ?_⟩
  · rw [mapAll_congr fun k _ => hmoves.entry_eq k, htrees]
    simp [Eval.gather]
  · refine at?_congr ?_
    rw [Scopes.scope?_discard, if_neg (Ne.symm (hold c h.container_lt).1),
      hkeeps.scope_eq c h.container_lt id]
  · simp only [Eval.gather, List.flatMap_cons, List.flatMap_nil, List.append_nil, List.nil_append]
    exact hnotices
  · rw [Scopes.scope?_discard]
    split
    · rfl
    · rename_i hne
      have hk : r.sheet.size ≤ k := by simpa using hk
      refine hgone k ?_ hnot
      rw [preorderAll_numberAll, List.mem_range'_1, hsize]
      lia

/-! ## One round for each row -/

theorem bindAll_rebinds (n : NodeId) : ∀ (row : List (String × Value)) (r : Run),
    Rebinds r (bindAll n row r) n (Bindings.setAll (r.scopes.at? n) row)
  | [], r => Rebinds.refl r n
  | binding :: row, r => by
    have hbind := Rebinds.bind r n binding.1 binding.2
    have hrest := bindAll_rebinds n row (r.bind n binding.1 binding.2)
    rw [hbind.at?_eq] at hrest
    exact hbind.trans hrest

/-- The nodes that the rounds of a loop change: the container, and the loop whose scope they share. -/
def Looping (c n k : NodeId) : Prop := k = c ∨ k = n

theorem Rebinds.expanded {b : Bindings} (h : r.sheet.Region above c (xs ++ t :: ys))
    (hb : Rebinds r r₁ t.label b) :
    Expanded ⟨[], r.scopes.at? c, [], none⟩ (Looping c t.label) above c xs [] [] (t :: ys) r r₁ := by
  have hne : c ≠ t.label := Ne.symm h.child_ne_container
  refine ⟨by simpa [hb.sheet_eq] using h, ⟨Nat.le_of_eq (by rw [hb.sheet_eq]), fun k _ _ => ?_,
    fun k _ hk => ?_⟩, by rw [hb.sheet_eq], by simp, by simp, fun hs => by rwa [hb.sheet_eq],
    fun hclean => ⟨rfl, ?_, ?_, fun k hk _ => ?_⟩⟩
  · rw [hb.sheet_eq]
  · exact hb.scope_eq k fun heq => hk (.inr heq)
  · exact at?_congr (hb.scope_eq c hne)
  · rw [hb.notices_eq, List.append_nil]
  · refine (hb.scope_eq k ?_).trans (hclean k hk)
    rintro rfl
    have hk : r.sheet.size ≤ t.label := by simpa using hk
    exact Nat.not_lt.2 hk h.child_lt_size

theorem Expanded.andThen {o₁ o₂ : Eval.Outcome} {us' : List (Tree NodeId)}
    (h : r.sheet.Region above c (xs ++ t :: ys))
    (h₁ : Expanded o₁ (Looping c t.label) above c xs [] us (t :: ys) r r₁)
    (h₂ : Expanded o₂ (Looping c t.label) above c (xs ++ us) [] us' (t :: ys) r₁ r₂) :
    Expanded (o₁.andThen o₂) (Looping c t.label) above c xs [] (us ++ us') (t :: ys) r r₂ := by
  refine Expanded.trans (by simpa using h) h₁ h₂ (by simp) (fun k hk hw => ?_)
    (fun k hk _ _ hw => ?_) (fun k _ hw => hw) fun k _ hw => hw
  · rcases hw with rfl | rfl
    · exact h₁.region.container_notMem_below (by simp [hk])
    · exact h₁.region.notMem_child (by simp [hk]) t.label_mem_preorder
  · have hk : r.sheet.size ≤ k := by simpa using hk
    rcases hw with rfl | rfl
    · exact Nat.not_lt.2 hk h.container_lt
    · exact Nat.not_lt.2 hk h.child_lt_size

/-- The body of a loop is as it was after a round. -/
theorem Expanded.body_eq (h : r.sheet.Region above c (xs ++ t :: ys))
    (hx : Expanded o (Looping c t.label) above c xs [] us (t :: ys) r r₁)
    (hown : r₁.scopes.at? c = r.scopes.at? c) : body warns r₁ above c t = body warns r above c t := by
  have hapart : ∀ k ∈ above ++ preorderAll t.children, k < r.sheet.size ∧ ¬ Looping c t.label k := by
    have hchild := h.child
    intro k hk
    rcases List.mem_append.1 hk with hk | hk
    · refine ⟨h.lt_size k (by simp [hk]), ?_⟩
      rintro (rfl | rfl)
      · exact h.container_notMem_above hk
      · exact hchild.container_notMem_above (by simp [hk])
    · refine ⟨hchild.lt_size_below k hk, ?_⟩
      rintro (rfl | rfl)
      · exact hchild.above_notMem_below (by simp) hk
      · exact hchild.container_notMem_below hk
  funext b
  rw [body, body, hown, hx.keeps.map_at?_eq (fun k hk => (hapart k (by simp [hk])).1)
    fun k hk => (hapart k (by simp [hk])).2]
  congr 1
  exact mapAll_congr fun k hk =>
    hx.keeps.entry_eq (hapart k (by simp [hk])).1 (hapart k (by simp [hk])).2

/-- The rounds of a loop share the scope of the loop, one row over the other. -/
theorem iterate_expanded (hd : Expands warns descend height)
    (hheight : heightAll t.children ≤ height) :
    ∀ (rows : List (List (String × Value))) {xs : List (Tree NodeId)} {r : Run},
      r.sheet.Region above c (xs ++ t :: ys) →
      ∃ us, (iterate descend c t.label rows r).1 = us.length ∧
        Expanded
          (Eval.gather (r.scopes.at? c) []
            (Eval.roundsFrom (body warns r above c t) (r.scopes.at? t.label) rows))
          (Looping c t.label) above c xs [] us (t :: ys) r (iterate descend c t.label rows r).2
  | [], xs, r, h => ⟨[], rfl, Expanded.refl h _ none⟩
  | row :: rows, xs, r, h => by
    have hbind := bindAll_rebinds t.label row r
    have hx₀ := hbind.expanded h
    have h₀ : (bindAll t.label row r).sheet.Region above c (xs ++ t :: ys) := by
      simpa using hx₀.region
    obtain ⟨us, hcount, hsplice⟩ := splice_expanded hd h₀ hheight
    have hx₁ := hsplice.mono fun k _ (hk : k = c) => (.inl hk : Looping c t.label k)
    obtain ⟨us', hcount', hx₂⟩ := iterate_expanded hd hheight rows hx₁.region
    have hrounds := hx₁.andThen h₀ hx₂
    rw [← List.append_nil xs] at hrounds
    have hx := hx₀.andThen h hrounds
    refine ⟨us ++ us', ?_, hx.congr fun hclean => ?_⟩
    · rw [iterate, List.length_append, ← hcount, ← hcount']
    -- a round leaves the scope of the container and that of the loop
    have hmeans₀ := hx₀.means hclean
    have hmeans₁ := hx₁.means fun k hk => hmeans₀.clean k (by rwa [hbind.sheet_eq] at hk) (by simp)
    have hloop := hsplice.keeps.at?_eq h₀.child_lt_size h.child_ne_container
    rw [hmeans₁.bindings, hx₁.body_eq h₀ hmeans₁.bindings, hx₀.body_eq h hmeans₀.bindings, hloop,
      hbind.at?_eq]
    simp [Eval.gather, Eval.Outcome.andThen, Eval.roundsFrom, hmeans₀.bindings]

/-! ## The two loops -/

/-- A loop goes away behind its rounds. -/
theorem Expanded.finish (h : r.sheet.Region above c (xs ++ t :: ys))
    (hx : Expanded o (Looping c t.label) above c xs [] us (t :: ys) r r₁) :
    Expanded o (Below c [t]) above c xs [t] us ys r ((r₁.remove t.label).discard t.label) := by
  have hne : t.label ≠ c := h.child_ne_container
  have hbelow : Below c [t] t.label := .inr (by simp [t.label_mem_preorder])
  have hloop : ∀ k, Looping c t.label k → Below c [t] k := by
    rintro k (rfl | rfl)
    · exact .inl rfl
    · exact hbelow
  refine ⟨?_, ⟨?_, fun k hk hw => ?_, fun k hk hw => ?_⟩, ?_, fun k hk => ?_, fun k hk => ?_,
    fun hs => (hx.linked hs).remove t.label, fun hclean => ?_⟩
  · exact hx.region.remove
  · exact Nat.le_trans hx.keeps.size_le (Nat.le_of_eq (Sheet.size_remove ..).symm)
  · refine Eq.trans ?_ (hx.keeps.node_eq k hk fun hl => hw (hloop k hl))
    refine hx.region.node_remove_of_ne (fun heq => hw (.inl heq)) ?_
    rintro rfl
    exact hw hbelow
  · rw [discard, Scopes.scope?_discard, if_neg (by rintro rfl; exact hw hbelow)]
    exact hx.keeps.scope_eq k hk fun hl => hw (hloop k hl)
  · exact (Sheet.entry_remove ..).trans hx.entry_eq
  · exact .inr ((hx.fresh k hk).resolve_left (by simp))
  · exact (congrArg Entry.isConstruct (Sheet.entry_remove ..)).trans (hx.settled k hk)
  obtain ⟨htrees, hbindings, hnotices, hgone⟩ := hx.means fun k hk =>
    hclean k (.inr (hk.resolve_left (by simp)))
  refine ⟨?_, ?_, hnotices, fun k hk hnot => ?_⟩
  · exact (mapAll_congr fun k _ => Sheet.entry_remove ..).trans htrees
  · refine (at?_congr ?_).trans hbindings
    rw [discard, Scopes.scope?_discard, if_neg hne]
    rfl
  · rw [discard, Scopes.scope?_discard]
    split
    · rfl
    rename_i hk'
    rcases hk with hk | hk
    · have hchild : k ∈ preorderAll (xs ++ t :: ys) := by
        rw [preorderAll_cons, preorderAll_nil, List.append_nil] at hk
        simp [hk]
      refine (hx.keeps.scope_eq k (h.lt_size_below k hchild) ?_).trans (hclean k (.inl hk))
      rintro (rfl | rfl)
      · exact h.container_notMem_below hchild
      · exact hk' rfl
    · exact hgone k (.inr hk) hnot

/-- A loop whose rows all bind the same names: no round sees the rows before. -/
theorem rounds_expanded (names : List String) {rows : List (List (String × Value))}
    {ns : List Notice} (hd : Expands warns descend height)
    (h : r.sheet.Region above c (xs ++ t :: ys)) (hheight : heightAll t.children ≤ height)
    (hrows : ∀ row ∈ rows, row.map Prod.fst = names) (hns : Reports r r₁ ns)
    (hnotes : Reports (iterate descend c t.label rows r₁).2 r₂ []) :
    ∃ us, (iterate descend c t.label rows r₁).1 = us.length ∧
      Expanded (Eval.rounds (r.scopes.at? c) rows ns (body warns r above c t)) (Below c [t]) above c
        xs [t] us ys r ((r₂.remove t.label).discard t.label) := by
  have h₁ : r₁.sheet.Region above c (xs ++ t :: ys) := by rwa [hns.sheet_eq]
  obtain ⟨us, hcount, hx⟩ := iterate_expanded hd hheight rows h₁
  refine ⟨us, hcount, (((hx.before_notes hnotes).finish h₁).after_reports hns).congr fun hclean => ?_⟩
  have hrounds : Eval.roundsFrom (body warns r above c t) .empty rows = rows.map fun row =>
      body warns r above c t (Bindings.empty.setAll row) :=
    Eval.roundsFrom_eq_map _ hrows fun _ _ => rfl
  rw [hns.body_eq, hns.scopes_eq, hclean.at?_child, hrounds]
  exact ⟨rfl, rfl, rfl⟩

theorem child_sight (h : r.sheet.Region above c (xs ++ t :: ys)) :
    Sight r t.label t.label (r.scopes.at? t.label :: r.scopes.at? c :: above.map r.scopes.at?)
      (r.sheet.position t.label) :=
  ⟨lookup_eq_find h.child, rfl⟩

theorem Sight.bound {scopes : List Bindings} {position : Option Position}
    (h : Sight r n n scopes position) (warns : Bool) (tokens : List (List Char)) (place : Nat) :
    Answers r (Run.bound warns n tokens place r) (Eval.bound warns scopes position tokens place) := by
  unfold Run.bound Eval.bound
  cases tokens[place]? with
  | none => exact ⟨_, _, _, rfl, rfl, Reports.refl r⟩
  | some token =>
    obtain ⟨text, r', ns, hfound, hsaid, hreports⟩ := h.interpolate warns (String.ofList token)
    simp only [hfound, hsaid]
    exact ⟨_, _, _, rfl, rfl, hreports⟩

theorem Expanded.drop_note (h : r.sheet.Region above c (xs ++ t :: ys)) (n : Note) :
    Expanded ⟨[], r.scopes.at? c, [], none⟩ (Below c [t]) above c xs [t] [] ys r
      ((r.note n).remove t.label) := by
  have hnote := Reports.note r n
  exact Expanded.drop h hnote.sheet_eq (fun k _ => by rw [hnote.scopes_eq]) hnote.notices_eq none

theorem expandFor_expanded (hd : Expands warns descend height)
    (h : r.sheet.Region above c (xs ++ t :: ys)) (hheight : heightAll t.children ≤ height)
    (params : String) :
    ∃ us, (expandFor warns descend c t.label params r).1 = us.length ∧
      Expanded
        (let (rows, ns) := Eval.countingRows warns (r.scopes.at? c :: above.map r.scopes.at?)
          (r.sheet.position t.label) params
        Eval.rounds (r.scopes.at? c) rows ns (body warns r above c t))
        (Below c [t]) above c xs [t] us ys r (expandFor warns descend c t.label params r).2 := by
  have hsight := child_sight h
  have hrows : ∃ us, (expandFor warns descend c t.label params r).1 = us.length ∧
      Expanded
        (let (rows, ns) := Eval.countingRows warns
          (r.scopes.at? t.label :: r.scopes.at? c :: above.map r.scopes.at?)
          (r.sheet.position t.label) params
        Eval.rounds (r.scopes.at? c) rows ns (body warns r above c t))
        (Below c [t]) above c xs [t] us ys r (expandFor warns descend c t.label params r).2 := by
    cases htokens : splitSpace params.toList with
    | nil =>
      simp only [expandFor, Eval.countingRows, htokens]
      refine ⟨[], rfl, ?_⟩
      exact Expanded.drop_note h .loopWithoutParameters
    | cons token tokens =>
      have hr₀ : Reports r
          (if (token :: tokens).length < 5 then r.note (.malformedLoop params) else r) [] := by
        split
        · exact Reports.note r _
        · exact Reports.refl r
      obtain ⟨first, r₁, ns₁, hfound₁, hsaid₁, hr₁⟩ :=
        (hsight.after hr₀).bound warns (token :: tokens) 2
      obtain ⟨last, r₂, ns₂, hfound₂, hsaid₂, hr₂⟩ :=
        ((hsight.after hr₀).after hr₁).bound warns (token :: tokens) 4
      obtain ⟨step, r₃, ns₃, hfound₃, hsaid₃, hr₃⟩ :=
        (((hsight.after hr₀).after hr₁).after hr₂).bound warns (token :: tokens) 6
      simp only [expandFor, Eval.countingRows, htokens, hfound₁, hsaid₁, hfound₂, hsaid₂, hfound₃,
        hsaid₃]
      refine rounds_expanded [bindingName token] hd h hheight (by simp)
        (by simpa using ((hr₀.trans hr₁).trans hr₂).trans hr₃) ?_
      split
      · exact (Reports.note _ _).trans (Reports.note _ _)
      · exact Reports.note _ _
  obtain ⟨us, hcount, hx⟩ := hrows
  refine ⟨us, hcount, hx.congr fun hclean => ?_⟩
  rw [hclean.at?_child, Eval.countingRows_congr (Bindings.find_empty_cons _)]
  exact ⟨rfl, rfl, rfl⟩

theorem expandEach_expanded (hd : Expands warns descend height)
    (h : r.sheet.Region above c (xs ++ t :: ys)) (hheight : heightAll t.children ≤ height)
    (params : String) :
    ∃ us, (expandEach warns descend c t.label params r).1 = us.length ∧
      Expanded
        (let (rows, ns) := Eval.listingRows warns (r.scopes.at? c :: above.map r.scopes.at?)
          (r.sheet.position t.label) params
        Eval.rounds (r.scopes.at? c) rows ns (body warns r above c t))
        (Below c [t]) above c xs [t] us ys r (expandEach warns descend c t.label params r).2 := by
  have hsight := child_sight h
  have hrows : ∃ us, (expandEach warns descend c t.label params r).1 = us.length ∧
      Expanded
        (let (rows, ns) := Eval.listingRows warns
          (r.scopes.at? t.label :: r.scopes.at? c :: above.map r.scopes.at?)
          (r.sheet.position t.label) params
        Eval.rounds (r.scopes.at? c) rows ns (body warns r above c t))
        (Below c [t]) above c xs [t] us ys r (expandEach warns descend c t.label params r).2 := by
    cases hnames : (Text.words (eachParts params).1).map bindingName with
    | nil =>
      simp only [expandEach, Eval.listingRows, hnames]
      refine ⟨[], rfl, ?_⟩
      exact Expanded.drop_note h .eachWithoutName
    | cons name others =>
      obtain ⟨text, r₁, ns, hfound, hsaid, hr₁⟩ :=
        hsight.interpolate warns (String.ofList (eachParts params).2)
      simp only [expandEach, Eval.listingRows, hnames, hfound, hsaid]
      refine rounds_expanded (name :: (others.head?.filter (!·.isEmpty)).toList) hd h hheight
        (fun row hrow => ?_) hr₁ (Reports.note _ _)
      obtain ⟨⟨element, i⟩, -, rfl⟩ := List.mem_map.1 hrow
      cases others.head?.filter (!·.isEmpty) <;> rfl
  obtain ⟨us, hcount, hx⟩ := hrows
  refine ⟨us, hcount, hx.congr fun hclean => ?_⟩
  rw [hclean.at?_child, Eval.listingRows_congr (Bindings.find_empty_cons _)]
  exact ⟨rfl, rfl, rfl⟩

/-! ## Loops over one name -/

/-- One round of a loop. The name is bound at the loop, the loop is copied with its bindings, the copy
is expanded, its children are put before the loop, and its scope goes away; `found` has the number of
these children and the run after it. -/
structure Round (descend : NodeId → Run → Run) (c n : NodeId) (name : String) (value : Value)
    (r : Run) (found : Nat × Run) : Prop where
  binds : ((r.bind n name value).copied c n).scopes.at? r.sheet.size =
    Bindings.set (r.scopes.at? n) name value
  sees : ((r.bind n name value).copied c n).lookup r.sheet.size name = some value
  leaves : found =
    let expanded := descend r.sheet.size ((r.bind n name value).copied c n)
    let inserted := expanded.insertBefore n (expanded.sheet.children r.sheet.size)
    (inserted.1, inserted.2.discard r.sheet.size)

/-- One round for each value, each in the run that the rounds before it left. -/
inductive Rounds (descend : NodeId → Run → Run) (c n : NodeId) (name : String) :
    List Value → Run → Nat × Run → Prop
  | nil (r : Run) : Rounds descend c n name [] r (0, r)
  | cons {value : Value} {values : List Value} {r : Run} {found more : Nat × Run} :
      Round descend c n name value r found → Rounds descend c n name values found.2 more →
      Rounds descend c n name (value :: values) r (found.1 + more.1, more.2)

/-- A loop with a round for each value, which is noted and goes away. -/
def Loops (descend : NodeId → Run → Run) (c n : NodeId) (name : String) (values : List Value)
    (closing : Note) (r : Run) (found : Nat × Run) : Prop :=
  ∃ r', Rounds descend c n name values r (found.1, r') ∧
    found.2 = ((r'.note closing).remove n).discard n

theorem splice_round (descend : NodeId → Run → Run) (c n : NodeId) (name : String) (value : Value)
    (r : Run) : Round descend c n name value r (splice descend c n (r.bind n name value)) := by
  have hbinds : ((r.bind n name value).copied c n).scopes.at? r.sheet.size =
      Bindings.set (r.scopes.at? n) name value := by
    refine Eq.trans (copied_at?_self (r := r.bind n name value)) ?_
    exact (Rebinds.bind r n name value).at?_eq
  have hsize : r.sheet.size < ((r.bind n name value).copied c n).sheet.size := by
    show r.sheet.size < (r.sheet.clone n (some c)).2.size
    rw [(Sheet.Extends.clone r.sheet n (some c)).size_eq, preorder_eq, List.length_cons]
    omega
  refine ⟨hbinds, Scopes.lookup_of_at? hsize ?_, splice_eq descend c n _⟩
  rw [hbinds, Bindings.set, if_pos rfl]

theorem iterate_rounds (name : String) : ∀ (values : List Value) (r : Run),
    Rounds descend c n name values r (iterate descend c n (values.map fun value => [(name, value)]) r)
  | [], r => .nil r
  | value :: values, r => .cons (splice_round descend c n name value r) (iterate_rounds name values _)

theorem iterate_loops (name : String) (values : List Value) (closing : Note) (r : Run) :
    Loops descend c n name values closing r
      (let (count, r) := iterate descend c n (values.map fun value => [(name, value)]) r
      (count, ((r.note closing).remove n).discard n)) :=
  ⟨_, iterate_rounds name values r, rfl⟩

end StyleExpand.Run

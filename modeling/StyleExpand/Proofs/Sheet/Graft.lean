import StyleExpand.Proofs.Sheet.Region

/-!
# New nodes for whole trees

Grafting a tree adds its nodes behind all others, numbered in document order.

* `Sheet.Extends s s' k` : `s'` has `k` nodes more than `s`, and the old ones as they were;
* `Sheet.graft_extends`, `Sheet.graft_holds`, `Sheet.graft_entries` : what a graft adds;
* `Sheet.Region.clone` : the copy of a node is a region of its own, and leaves the others alone;
* `Sheet.region_ofForest`, `Sheet.forest_ofForest` : a stylesheet made from trees shows these trees.
-/

namespace StyleExpand.Sheet

open StyleExpand.Tree

/-- `k` new nodes behind the old ones, which are as they were. -/
structure Extends (s s' : Sheet) (k : Nat) : Prop where
  size_eq : s'.size = s.size + k
  node_eq : ∀ m < s.size, s'.node m = s.node m

namespace Extends

variable {s s' u : Sheet} {i j : Nat} {m : NodeId}

theorem refl (s : Sheet) : s.Extends s 0 := ⟨rfl, fun _ _ => rfl⟩

theorem trans (h : s.Extends s' i) (h' : s'.Extends u j) : s.Extends u (i + j) where
  size_eq := by rw [h'.size_eq, h.size_eq, Nat.add_assoc]
  node_eq m hm := by
    have := h.size_eq
    rw [h'.node_eq m (by omega), h.node_eq m hm]

theorem parent_eq (h : s.Extends s' i) (hm : m < s.size) : s'.parent m = s.parent m := by
  rw [parent, parent, h.node_eq m hm]

theorem children_eq (h : s.Extends s' i) (hm : m < s.size) : s'.children m = s.children m := by
  rw [children, children, h.node_eq m hm]

theorem entry_eq (h : s.Extends s' i) (hm : m < s.size) : s'.entry m = s.entry m := by
  rw [entry, entry, h.node_eq m hm]

theorem holdsUnder {p : NodeId} {ts : List (Tree NodeId)} (h : s.Extends s' i)
    (hts : s.HoldsUnder p ts) : s'.HoldsUnder p ts :=
  hts.congr (fun n hn => h.children_eq (hts.lt_size n hn)) fun n hn => h.parent_eq (hts.lt_size n hn)

theorem alloc (s : Sheet) (e : Entry) (p : Option NodeId) : s.Extends (s.alloc e p).2 1 :=
  ⟨size_alloc s e p, fun _ hm => node_alloc_of_lt s e p hm⟩

theorem setChildren (h : s.Extends s' i) (hm : s.size ≤ m) (cs : List NodeId) :
    s.Extends (s'.setChildren m cs) i where
  size_eq := by rw [size_setChildren, h.size_eq]
  node_eq n hn := by
    have hne : m ≠ n := Nat.ne_of_gt (Nat.lt_of_lt_of_le hn hm)
    rw [node_setChildren_of_ne _ _ hne, h.node_eq n hn]

theorem region {above : List NodeId} {c : NodeId} {ts : List (Tree NodeId)} (h : s.Extends s' i)
    (hr : s.Region above c ts) : s'.Region above c ts := by
  refine hr.congr (by rw [h.size_eq]; omega) (fun n hn => h.parent_eq (hr.lt_size n hn)) ?_
    hr.nodup hr.root_notMem_below
  rw [holds_node, h.children_eq hr.container_lt]
  exact ⟨hr.children_eq, h.holdsUnder hr.holdsUnder⟩

end Extends

/-! ## Grafts -/

variable (s : Sheet) (p : NodeId) (q : Option NodeId)

theorem graft_node (e : Entry) (ts : List (Tree Entry)) :
    s.graft q (.node e ts) =
      (s.size, ((s.alloc e q).2.graftAll s.size ts).2.setChildren s.size
        ((s.alloc e q).2.graftAll s.size ts).1) := by
  rw [graft]
  rfl

theorem graftAll_nil : s.graftAll p [] = ([], s) := by rw [graftAll]

theorem graftAll_cons (t : Tree Entry) (ts : List (Tree Entry)) :
    s.graftAll p (t :: ts) =
      ((s.graft (some p) t).1 :: ((s.graft (some p) t).2.graftAll p ts).1,
        ((s.graft (some p) t).2.graftAll p ts).2) := by
  rw [graftAll]

@[simp] theorem graft_fst : ∀ t : Tree Entry, (s.graft q t).1 = s.size
  | .node e ts => by rw [graft_node]

mutual

theorem graft_extends : ∀ (s : Sheet) (q : Option NodeId) (t : Tree Entry),
    s.Extends (s.graft q t).2 t.preorder.length
  | s, q, .node e ts => by
    rw [graft_node, preorder_node, List.length_cons, Nat.add_comm]
    exact ((Extends.alloc s e q).trans (graftAll_extends _ _ ts)).setChildren (Nat.le_refl _) _

theorem graftAll_extends : ∀ (s : Sheet) (p : NodeId) (ts : List (Tree Entry)),
    s.Extends (s.graftAll p ts).2 (preorderAll ts).length
  | s, p, [] => by
    rw [graftAll_nil]
    exact Extends.refl s
  | s, p, t :: ts => by
    rw [graftAll_cons, preorderAll_cons, List.length_append]
    exact (graft_extends s (some p) t).trans (graftAll_extends _ p ts)

end

theorem graftAll_fst : ∀ (s : Sheet) (ts : List (Tree Entry)),
    (s.graftAll p ts).1 = (numberAll s.size ts).map Tree.label
  | s, [] => by
    rw [graftAll_nil]
    rfl
  | s, t :: ts => by
    rw [graftAll_cons, numberAll, List.map_cons, label_number, graftAll_fst _ ts,
      (graft_extends s (some p) t).size_eq, graft_fst]

theorem graft_parent : ∀ t : Tree Entry, (s.graft q t).2.parent s.size = q
  | .node e ts => by
    have h := graftAll_extends (s.alloc e q).2 s.size ts
    rw [graft_node, parent_setChildren, h.parent_eq (by simp), parent, node_alloc_self]

mutual

theorem graft_holds : ∀ (s : Sheet) (q : Option NodeId) (t : Tree Entry),
    (s.graft q t).2.Holds (t.number s.size)
  | s, q, .node e ts => by
    have hext := graftAll_extends (s.alloc e q).2 s.size ts
    have hunder := graftAll_holdsUnder (s.alloc e q).2 s.size ts
    rw [size_alloc] at hunder
    rw [graft_node, number, holds_node, children_setChildren, if_pos, graftAll_fst, size_alloc]
    · refine ⟨rfl, hunder.congr (fun n hn => ?_) fun n _ => parent_setChildren ..⟩
      -- the grafted nodes below come after the new top node, whose list is set last
      rw [preorderAll_numberAll, List.mem_range'_1] at hn
      have hne : s.size ≠ n := by omega
      rw [children_setChildren, if_neg fun h => hne h.1]
    · have := hext.size_eq
      rw [size_alloc] at this
      exact ⟨rfl, by lia⟩

theorem graftAll_holdsUnder : ∀ (s : Sheet) (p : NodeId) (ts : List (Tree Entry)),
    (s.graftAll p ts).2.HoldsUnder p (numberAll s.size ts)
  | s, p, [] => holdsUnder_nil
  | s, p, t :: ts => by
    have hext := graft_extends s (some p) t
    have htop : (s.graft (some p) t).2.HoldsUnder p [t.number s.size] := by
      rw [holdsUnder_cons, label_number]
      exact ⟨graft_parent s (some p) t, graft_holds s (some p) t, holdsUnder_nil⟩
    have hrest := graftAll_holdsUnder (s.graft (some p) t).2 p ts
    rw [hext.size_eq] at hrest
    rw [graftAll_cons, numberAll]
    exact holdsUnder_append.2 ⟨(graftAll_extends _ p ts).holdsUnder htop, hrest⟩

end

mutual

theorem graft_entries : ∀ (s : Sheet) (q : Option NodeId) (t : Tree Entry),
    (t.number s.size).map (s.graft q t).2.entry = t
  | s, q, .node e ts => by
    have hext := graftAll_extends (s.alloc e q).2 s.size ts
    have hrest := graftAll_entries (s.alloc e q).2 s.size ts
    rw [size_alloc] at hrest
    rw [graft_node, number, map_node, entry_setChildren, hext.entry_eq (by simp), entry,
      node_alloc_self]
    congr 1
    exact (mapAll_congr fun n _ => entry_setChildren ..).trans hrest

theorem graftAll_entries : ∀ (s : Sheet) (p : NodeId) (ts : List (Tree Entry)),
    mapAll (s.graftAll p ts).2.entry (numberAll s.size ts) = ts
  | s, p, [] => rfl
  | s, p, t :: ts => by
    have hext := graft_extends s (some p) t
    have hrest := graftAll_entries (s.graft (some p) t).2 p ts
    rw [hext.size_eq] at hrest
    rw [graftAll_cons, numberAll, mapAll_cons, hrest]
    congr 1
    refine (map_congr fun n hn => ?_).trans (graft_entries s (some p) t)
    -- the later trees leave the nodes of the first one as they were
    rw [preorder_number, List.mem_range'_1] at hn
    have hlt : n < (s.graft (some p) t).2.size := by
      rw [hext.size_eq]
      exact hn.2
    exact (graftAll_extends _ p ts).entry_eq hlt

end

/-! ## Copies -/

variable {s p}

theorem Extends.clone (s : Sheet) (n : NodeId) (q : Option NodeId) :
    s.Extends (s.clone n q).2 (s.tree n).preorder.length := graft_extends s q _

/-- A copy below a container is a region, with the trees below it numbered anew. -/
theorem Region.clone {above : List NodeId} {c : NodeId} {xs ys : List (Tree NodeId)}
    {t : Tree NodeId} (h : s.Region above c (xs ++ t :: ys)) :
    (s.clone t.label (some c)).2.Region (c :: above) s.size (numberAll (s.size + 1) t.children) ∧
      mapAll (s.clone t.label (some c)).2.entry (numberAll (s.size + 1) t.children) =
        mapAll s.entry t.children := by
  have hext := Extends.clone s t.label (some c)
  have htree := h.child.tree_eq
  have hnumber : (s.tree t.label).number s.size = .node s.size (numberAll (s.size + 1) t.children) := by
    rw [htree, number]
    congr 1
    exact numberAll_mapAll s.entry _ _
  have hlen : (s.tree t.label).preorder.length = (preorderAll t.children).length + 1 := by
    rw [htree, preorder_node, preorderAll_mapAll, List.length_cons, List.length_map]
  have hsize := hext.size_eq
  refine ⟨⟨?_, ?_, ?_, ?_, ?_⟩, ?_⟩
  · refine .step ?_ (hext.region h).lineage
    exact graft_parent s (some c) _
  · rw [← hnumber]
    exact graft_holds s (some c) _
  · rw [preorderAll_numberAll]
    have hcut : ∀ n ∈ c :: above, n < s.size := h.lt_size
    refine List.nodup_append.2 ⟨List.nodup_cons.2 ⟨fun hmem => ?_, (List.nodup_append.1 h.nodup).1⟩,
      List.nodup_range', ?_⟩
    · exact absurd (hcut _ hmem) (Nat.lt_irrefl _)
    · intro a ha b hb hab
      rw [List.mem_range'_1] at hb
      rcases List.mem_cons.1 ha with rfl | ha
      · lia
      · have := hcut a ha
        lia
  · intro n hn
    rcases List.mem_cons.1 hn with rfl | hn
    · lia
    · have := h.lt_size n hn
      lia
  · rw [preorderAll_numberAll, List.mem_range'_1]
    exact fun h => absurd h.1 (Nat.not_succ_le_zero _)
  · have hentries := graft_entries s (some c) (s.tree t.label)
    rw [hnumber, map_node] at hentries
    exact (Tree.node.inj (hentries.trans htree)).2

/-! ## Stylesheets made from trees -/

theorem size_ofForest (trees : List (Tree Entry)) :
    (ofForest trees).size = 1 + (preorderAll trees).length := by
  rw [ofForest, size_setChildren, (graftAll_extends empty root trees).size_eq]
  rfl

theorem region_ofForest (trees : List (Tree Entry)) :
    (ofForest trees).Region [] root (numberAll 1 trees) := by
  have hext := graftAll_extends empty root trees
  have hunder := graftAll_holdsUnder empty root trees
  refine ⟨.top ?_, ?_, ?_, ?_, ?_⟩
  · rw [ofForest, parent_setChildren, hext.parent_eq (by decide)]
    rfl
  · rw [holds_node, ofForest, children_setChildren, if_pos, graftAll_fst]
    · refine ⟨rfl, hunder.congr (fun n hn => ?_) fun n _ => parent_setChildren ..⟩
      rw [preorderAll_numberAll, List.mem_range'_1] at hn
      rw [children_setChildren, if_neg]
      intro h
      exact absurd hn.1 (by rw [← h.1]; decide)
    · rw [hext.size_eq]
      exact ⟨rfl, Nat.lt_of_lt_of_le (by decide) (Nat.le_add_right _ _)⟩
  · rw [preorderAll_numberAll, List.singleton_append, List.nodup_cons, List.mem_range'_1]
    exact ⟨fun h => absurd h.1 (by decide), List.nodup_range'⟩
  · intro n hn
    rw [List.mem_singleton.1 hn, size_ofForest]
    exact Nat.lt_of_lt_of_le (by decide) (Nat.le_add_right _ _)
  · rw [preorderAll_numberAll, List.mem_range'_1]
    exact fun h => absurd h.1 (by decide)

theorem forest_ofForest (trees : List (Tree Entry)) : (ofForest trees).forest = trees := by
  rw [(region_ofForest trees).forest_eq]
  exact (mapAll_congr fun n _ => entry_setChildren ..).trans (graftAll_entries empty root trees)

end StyleExpand.Sheet

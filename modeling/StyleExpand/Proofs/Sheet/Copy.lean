import StyleExpand.Proofs.Sheet.Linked

/-!
# Copies

A copy has new nodes only, numbered in document order behind all others, and each of them has the
entry and the links of its original, with copies in the place of originals.

* `Sheet.copyOf` : where the copy of a node is found;
* `Sheet.HoldsUnder.map_links` : links of trees that differ only in the names of their nodes;
* `Sheet.clone_exact` : what a copy is, and that all else stays.
-/

namespace StyleExpand.Sheet

open StyleExpand.Tree

variable {s s' : Sheet} {n m : NodeId} {k : Nat} {f : NodeId → NodeId}

/-! ## Trees with other names -/

mutual

theorem Holds.map_links : ∀ {t : Tree NodeId}, s.Holds t → s'.Holds (t.map f) →
    (∀ m ∈ t.preorder, s'.children (f m) = (s.children m).map f) ∧
      ∀ m ∈ preorderAll t.children, ∃ p ∈ t.preorder,
        s.parent m = some p ∧ s'.parent (f m) = some (f p)
  | .node n ts, h, h' => by
    rw [map_node] at h'
    rw [holds_node] at h h'
    have hbelow := HoldsUnder.map_links h.2 h'.2
    rw [preorder_node, children_node]
    refine ⟨fun m hm => ?_, fun m hm => (hbelow m hm).2⟩
    rcases List.mem_cons.1 hm with rfl | hm
    · rw [h.1, h'.1, mapAll_eq_map, List.map_map, List.map_map]
      exact List.map_congr_left fun t _ => label_map f t
    · exact (hbelow m hm).1

/-- Two stores hold the same trees, but for names: then they have the same links, but for names. -/
theorem HoldsUnder.map_links : ∀ {p : NodeId} {ts : List (Tree NodeId)}, s.HoldsUnder p ts →
    s'.HoldsUnder (f p) (mapAll f ts) → ∀ m ∈ preorderAll ts,
      s'.children (f m) = (s.children m).map f ∧
        ∃ q ∈ p :: preorderAll ts, s.parent m = some q ∧ s'.parent (f m) = some (f q)
  | _, [], _, _ => by simp
  | p, t :: ts, h, h' => by
    rw [mapAll_cons] at h'
    rw [holdsUnder_cons] at h h'
    obtain ⟨hchildren, hparent⟩ := Holds.map_links h.2.1 h'.2.1
    have hrest := HoldsUnder.map_links h.2.2 h'.2.2
    intro m hm
    rw [preorderAll_cons] at hm ⊢
    rcases List.mem_append.1 hm with hm | hm
    · refine ⟨hchildren m hm, ?_⟩
      rw [preorder_eq] at hm
      rcases List.mem_cons.1 hm with rfl | hm
      · rw [label_map] at h'
        exact ⟨p, by simp, h.1, h'.1⟩
      · obtain ⟨q, hq, hlinks⟩ := hparent m hm
        exact ⟨q, by simp [hq], hlinks⟩
    · obtain ⟨hm', q, hq, hlinks⟩ := hrest m hm
      refine ⟨hm', q, ?_, hlinks⟩
      rcases List.mem_cons.1 hq with rfl | hq
      · simp
      · simp [hq]

end

/-! ## Copies -/

theorem preorder_shape (s : Sheet) (n : NodeId) : (s.shape n).preorder = n :: s.descendants n := by
  rw [preorder_eq, descendants, labelsBelow, shape, label_shapeTo]

/-- The copy of a node `m` when all that is at and below `n` is copied. -/
def copyOf (s : Sheet) (n m : NodeId) : NodeId := s.size + (n :: s.descendants n).idxOf m

theorem Linked.number_shape (hs : s.Linked) (hn : n < s.size) :
    (s.shape n).number s.size = (s.shape n).map (s.copyOf n) := by
  have hnumber := number_eq_map s.size (s.shape n) (hs.nodup_shapeTo s.size (hs.lineage hn))
  rwa [preorder_shape] at hnumber

theorem Linked.map_copyOf (hs : s.Linked) (hn : n < s.size) :
    (n :: s.descendants n).map (s.copyOf n) = List.range' s.size (n :: s.descendants n).length := by
  have hpreorder := congrArg Tree.preorder (hs.number_shape hn)
  rw [preorder_number, preorder_map, preorder_shape] at hpreorder
  exact hpreorder.symm

/-- A copy has the shape of its original. -/
theorem Linked.holds_clone (hs : s.Linked) (hn : n < s.size) (q : Option NodeId) :
    (s.clone n q).2.Holds ((s.shape n).map (s.copyOf n)) := by
  have hholds := graft_holds s q (s.tree n)
  rwa [tree, number_map, hs.number_shape hn] at hholds

theorem clone_entries (s : Sheet) (n : NodeId) (q : Option NodeId) :
    (List.range' s.size (n :: s.descendants n).length).map (s.clone n q).2.entry =
      (n :: s.descendants n).map s.entry := by
  have hentries := congrArg Tree.preorder (graft_entries s q (s.tree n))
  rw [preorder_map, preorder_number, tree, preorder_map, preorder_shape, List.length_map] at hentries
  exact hentries

theorem size_clone (s : Sheet) (n : NodeId) (q : Option NodeId) :
    (s.clone n q).2.size = s.size + (n :: s.descendants n).length := by
  rw [(Extends.clone s n q).size_eq, tree, preorder_map, preorder_shape, List.length_map]

theorem Linked.descendants_clone (hs : s.Linked) (hn : n < s.size) (q : Option NodeId) :
    (s.clone n q).2.descendants s.size = List.range' (s.size + 1) (s.descendants n).length := by
  have hholds := hs.holds_clone hn q
  rw [← hs.number_shape hn] at hholds
  have hheight : ((s.shape n).number s.size).height ≤ (s.clone n q).2.size + 1 := by
    have hle := height_le_length (s.shape n)
    rw [preorder_shape] at hle
    rw [height_number, size_clone]
    omega
  have hshape := congrArg Tree.preorder (hholds.shapeTo_eq hheight)
  rw [label_number, ← shape, preorder_shape, preorder_number, preorder_shape, List.length_cons,
    List.range'_succ] at hshape
  exact (List.cons.inj hshape).2

/-! ## Originals and their copies -/

theorem entry_clone (q : Option NodeId) (hk : (n :: s.descendants n)[k]? = some m) :
    (s.clone n q).2.entry (s.size + k) = s.entry m := by
  have hlt := (List.getElem?_eq_some_iff.1 hk).1
  have hplace := congrArg (·[k]?) (clone_entries s n q)
  rw [List.getElem?_map, List.getElem?_map, hk, List.getElem?_range' hlt] at hplace
  simpa using hplace

section Linked

variable (hs : s.Linked) (hn : n < s.size)

include hs hn

theorem Linked.copyOf_eq (hk : (n :: s.descendants n)[k]? = some m) : s.copyOf n m = s.size + k := by
  have hlt := (List.getElem?_eq_some_iff.1 hk).1
  have hplace := congrArg (·[k]?) (hs.map_copyOf hn)
  rw [List.getElem?_map, hk, List.getElem?_range' hlt] at hplace
  simpa using hplace

theorem Linked.notMem_children_below (hm : m ∈ n :: s.descendants n) : n ∉ s.children m := by
  intro hmem
  rw [← preorder_shape] at hm
  obtain ⟨front, hfront⟩ := hs.lineage_of_mem_shapeTo s.size (hs.lineage hn) hm
  have hlength := congrArg List.length
    ((hs.lineage hn).unique (.step (hs.parent_eq m n hmem) hfront))
  simp at hlength
  omega

theorem Linked.notMem_children_clone (q : Option NodeId) (m : NodeId) :
    s.size ∉ (s.clone n q).2.children m := by
  intro hmem
  by_cases hold : m < s.size
  · rw [(Extends.clone s n q).children_eq hold] at hmem
    exact Nat.lt_irrefl _ (lt_size_of_parent (hs.parent_eq m _ hmem))
  · -- a new node has copies for children, and the first copy is that of `n`
    obtain ⟨k, rfl⟩ := Nat.exists_eq_add_of_le (Nat.le_of_not_lt hold)
    have hk : k < (n :: s.descendants n).length := by
      have hlt := lt_size_of_mem_children hmem
      rw [size_clone] at hlt
      exact Nat.lt_of_add_lt_add_left hlt
    obtain ⟨old, hget⟩ : ∃ old, (n :: s.descendants n)[k]? = some old :=
      ⟨_, List.getElem?_eq_getElem hk⟩
    have hmem_old := List.mem_of_getElem? hget
    have hlinks := (Holds.map_links (hs.holds hn) (hs.holds_clone hn q)).1 old
      (by rwa [preorder_shape])
    rw [← hs.copyOf_eq hn hget, hlinks] at hmem
    obtain ⟨c, hc, hcopy⟩ := List.mem_map.1 hmem
    have hfirst : (n :: s.descendants n).idxOf c = 0 := by
      unfold copyOf at hcopy
      omega
    by_cases hcn : n = c
    · exact hs.notMem_children_below hn hmem_old (hcn ▸ hc)
    · rw [List.idxOf_cons, beq_eq_false_iff_ne.2 hcn, cond_false] at hfirst
      exact absurd hfirst (Nat.succ_ne_zero _)

end Linked

/-- A copy and all below it are new nodes, numbered behind all others in document order, and no old
node is different. The top points to any parent and is in no list; all else has the entry and, up to
renaming, the links of its original. -/
theorem clone_exact (hs : s.Linked) (hn : n < s.size) (q : Option NodeId) :
    let s' := (s.clone n q).2
    (s.clone n q).1 = s.size ∧ s'.size = s.size + 1 + (s.descendants n).length ∧
      (∀ m < s.size, s'.node m = s.node m) ∧ (∀ m, s.size ∉ s'.children m) ∧
      s'.descendants s.size = List.range' (s.size + 1) (s.descendants n).length ∧
      s'.parent s.size = q ∧
      ∀ k m, (n :: s.descendants n)[k]? = some m →
        s.copyOf n m = s.size + k ∧ s'.entry (s.size + k) = s.entry m ∧
          s'.children (s.size + k) = (s.children m).map (s.copyOf n) ∧
          (0 < k → ∃ p ∈ n :: s.descendants n,
            s.parent m = some p ∧ s'.parent (s.size + k) = some (s.copyOf n p)) := by
  intro s'
  obtain ⟨hchildren, hparent⟩ := Holds.map_links (hs.holds hn) (hs.holds_clone hn q)
  have hsize : s'.size = s.size + ((s.descendants n).length + 1) := size_clone s n q
  refine ⟨graft_fst s q _, by omega, (Extends.clone s n q).node_eq, hs.notMem_children_clone hn q,
    hs.descendants_clone hn q, graft_parent s q _, ?_⟩
  intro k m hk
  have hcopy := hs.copyOf_eq hn hk
  refine ⟨hcopy, entry_clone q hk, ?_, fun hpos => ?_⟩
  · rw [← hcopy]
    exact hchildren m (by rw [preorder_shape]; exact List.mem_of_getElem? hk)
  · rw [← hcopy, ← preorder_shape]
    refine hparent m ?_
    -- all but the first node are below the top
    obtain ⟨j, rfl⟩ := Nat.exists_eq_succ_of_ne_zero (Nat.ne_of_gt hpos)
    rw [List.getElem?_cons_succ] at hk
    exact List.mem_of_getElem? hk

/-- A rule whose children are not in the order in which they were made, with a copy that points to a
node below the rule. -/
theorem clone_exact_moved :
    let trees := [.node ⟨.rule "a", none⟩ [.node ⟨.comment "b", some ⟨2, 3⟩⟩ [],
      .node ⟨.rule "c", none⟩ [.node ⟨.declaration "d" "1", none⟩ []]], .node ⟨.rule "e", none⟩ []]
    let s := ((ofForest trees).insertBefore 2 [5]).2
    let s' := (s.clone 1 (some 4)).2
    s.Linked ∧ 1 < s.size ∧ s.descendants 1 = [5, 2, 3, 4] ∧ s'.children 6 = [7, 8, 9] ∧
      (s.clone 1 (some 4)).1 = s.size ∧ s'.size = s.size + 1 + (s.descendants 1).length ∧
      (∀ m < s.size, s'.node m = s.node m) ∧ (∀ m, s.size ∉ s'.children m) ∧
      s'.descendants s.size = List.range' (s.size + 1) (s.descendants 1).length ∧
      s'.parent s.size = some 4 ∧
      ∀ k m, (1 :: s.descendants 1)[k]? = some m →
        s.copyOf 1 m = s.size + k ∧ s'.entry (s.size + k) = s.entry m ∧
          s'.children (s.size + k) = (s.children m).map (s.copyOf 1) ∧
          (0 < k → ∃ p ∈ 1 :: s.descendants 1,
            s.parent m = some p ∧ s'.parent (s.size + k) = some (s.copyOf 1 p)) := by
  intro trees s s'
  have hs : s.Linked := (Linked.ofForest trees).insertBefore (by decide +kernel) (by decide)
    (by decide +kernel)
  have hn : 1 < s.size := by decide +kernel
  exact ⟨hs, hn, by decide +kernel, by decide +kernel, clone_exact hs hn (some 4)⟩

end StyleExpand.Sheet

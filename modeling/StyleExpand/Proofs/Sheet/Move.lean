import StyleExpand.Proofs.Sheet.Linked

/-!
# Moving nodes between regions

What taking out a child and putting nodes before a child do to a region.

* `Sheet.Region.remove` : the other children stay;
* `Sheet.Relabels` : one node has another entry;
* `Sheet.Moves` : all children of one node put into the list of another one;
* `Sheet.Region.insert_copy`, `Sheet.Region.hoist`, `Sheet.Region.hoist_next` : the children of a
  copy put before a child, and the children of a child, or of its neighbour, put in its place;
* `Sheet.Region.linked_insertBefore` : such a move keeps the store linked.
-/

namespace StyleExpand.Sheet

open StyleExpand.Tree

variable {s s' : Sheet} {above : List NodeId} {c q m : NodeId} {t : Tree NodeId}
  {xs ys us ts : List (Tree NodeId)}

/-! ## Distinct nodes -/

theorem notMem_labels_of_nodup : ∀ {us : List (Tree NodeId)}, (preorderAll us).Nodup →
    ∀ {t : Tree NodeId}, t ∈ us → ∀ {n : NodeId}, n ∈ preorderAll t.children → n ∉ us.map Tree.label
  | u :: us, hnodup, t, ht, n, hn => by
    rw [preorderAll_cons, List.nodup_append] at hnodup
    obtain ⟨hu, hus, hdisj⟩ := hnodup
    rw [List.map_cons, List.mem_cons]
    rintro (rfl | hlabel)
    · rcases List.mem_cons.1 ht with rfl | ht
      · rw [preorder_eq, List.nodup_cons] at hu
        exact hu.1 hn
      · refine hdisj _ u.label_mem_preorder _ ?_ rfl
        exact preorder_subset_preorderAll ht (preorderAll_children_subset t hn)
    · rcases List.mem_cons.1 ht with rfl | ht
      · exact hdisj _ (preorderAll_children_subset t hn) _ (labels_subset_preorderAll us hlabel) rfl
      · exact notMem_labels_of_nodup hus ht hn hlabel

namespace Region

theorem child_lt_size (h : s.Region above c (xs ++ t :: ys)) : t.label < s.size :=
  h.lt_size_below _ (by simp [label_mem_preorder])

theorem parent_child (h : s.Region above c (xs ++ t :: ys)) : s.parent t.label = some c :=
  h.holdsUnder.parent_eq (by simp)

theorem child_ne_container (h : s.Region above c (xs ++ t :: ys)) : t.label ≠ c := fun heq =>
  h.container_notMem_below (heq ▸ by simp [label_mem_preorder])

theorem notMem_child (h : s.Region above c (xs ++ t :: ys)) (hm : m ∈ preorderAll (xs ++ ys)) :
    m ∉ t.preorder := by
  have hnodup := h.nodup_below
  simp only [preorderAll_append, preorderAll_cons] at hnodup hm
  obtain ⟨-, hrest, hdisj⟩ := List.nodup_append.1 hnodup
  intro ht
  rcases List.mem_append.1 hm with hm | hm
  · exact hdisj m hm m (by simp [ht]) rfl
  · exact (List.nodup_append.1 hrest).2.2 m ht m hm rfl

theorem label_notMem_others (h : s.Region above c (xs ++ t :: ys)) :
    t.label ∉ (xs ++ ys).map Tree.label := by
  intro hmem
  obtain ⟨u, hu, heq⟩ := List.mem_map.1 hmem
  exact h.notMem_child (label_mem_preorderAll hu) (heq ▸ t.label_mem_preorder)

/-! ## Taking out a child -/

theorem node_remove_of_ne (h : s.Region above c (xs ++ t :: ys)) (hc : m ≠ c) (ht : m ≠ t.label) :
    (s.remove t.label).node m = s.node m := by
  refine node_ext (entry_remove ..) ?_ ?_
  · rw [parent_remove, if_neg (Ne.symm ht)]
  · rw [children_remove, h.parent_child, if_neg]
    exact fun heq => hc (Option.some.inj heq).symm

theorem children_remove_container (h : s.Region above c (xs ++ t :: ys)) :
    (s.remove t.label).children c = (xs ++ ys).map Tree.label := by
  have hothers := h.label_notMem_others
  rw [children_remove, if_pos h.parent_child, h.children_eq]
  simp only [List.map_append, List.map_cons, List.filter_append, List.mem_append, not_or] at hothers ⊢
  have hkeep : ∀ l : List NodeId, t.label ∉ l → l.filter (· != t.label) = l := by
    intro l hl
    refine List.filter_eq_self.2 fun a ha => ?_
    have : a ≠ t.label := fun heq => hl (heq ▸ ha)
    simpa using this
  rw [hkeep _ hothers.1, List.filter_cons_of_neg (by simp), hkeep _ hothers.2]

theorem remove (h : s.Region above c (xs ++ t :: ys)) :
    (s.remove t.label).Region above c (xs ++ ys) := by
  have hlabel : t.label ∈ preorderAll (xs ++ t :: ys) := by simp [label_mem_preorder]
  have hunder : s.HoldsUnder c (xs ++ ys) := by
    have := h.holdsUnder
    simp only [holdsUnder_append, holdsUnder_cons] at this ⊢
    exact ⟨this.1, this.2.2.2⟩
  have hkeep : ∀ n ∈ preorderAll (xs ++ ys), n ≠ c ∧ n ≠ t.label := fun n hn =>
    ⟨fun heq => h.container_notMem_below (heq ▸ by simpa [or_left_comm, or_assoc] using Or.inr hn),
      fun heq => h.notMem_child hn (heq ▸ t.label_mem_preorder)⟩
  refine h.congr (by simp) (fun n hn => ?_) (holds_node.2 ⟨h.children_remove_container, ?_⟩) ?_
    fun hr => ?_
  · rw [parent_remove, if_neg]
    rintro rfl
    exact (List.nodup_append.1 h.nodup).2.2 _ hn _ hlabel rfl
  · refine hunder.congr (fun n hn => ?_) fun n hn => ?_
    · rw [children, h.node_remove_of_ne (hkeep n hn).1 (hkeep n hn).2, children]
    · rw [parent, h.node_remove_of_ne (hkeep n hn).1 (hkeep n hn).2, parent]
  · refine h.nodup.sublist ?_
    simp only [preorderAll_append, preorderAll_cons]
    exact (List.Sublist.refl _).append ((List.Sublist.refl _).append (List.sublist_append_right _ _))
  · refine h.root_notMem_below ?_
    simp only [preorderAll_append, preorderAll_cons, List.mem_append] at hr ⊢
    exact hr.imp id .inr

end Region

/-! ## Attached nodes -/

theorem isAttached_eq_false (hn : m ≠ root) (hp : s.parent m = none) : s.isAttached m = false := by
  simp [isAttached, index?, hn, hp]

theorem Region.isAttached_child (h : s.Region above c (xs ++ t :: ys)) :
    s.isAttached t.label = true := by
  have hmem : t.label ∈ s.children c := by
    rw [h.children_eq]
    simp
  unfold isAttached index?
  rw [h.parent_child]
  simp only [Bool.or_eq_true, List.findIdx?_isSome, List.any_eq_true]
  exact .inr ⟨t.label, hmem, by simp⟩

theorem Region.child_ne_root (h : s.Region above c (xs ++ t :: ys)) : t.label ≠ root := fun heq =>
  h.root_notMem_below (heq ▸ by simp [label_mem_preorder])

/-! ## A new entry for a node -/

/-- The entry of `n` is now `e`, and nothing else is different. -/
structure Relabels (s s' : Sheet) (n : NodeId) (e : Entry) : Prop where
  size_eq : s'.size = s.size
  parent_eq : ∀ m, s'.parent m = s.parent m
  children_eq : ∀ m, s'.children m = s.children m
  entry_self : s'.entry n = e
  entry_eq : ∀ m, m ≠ n → s'.entry m = s.entry m

namespace Relabels

variable {n : NodeId} {e : Entry}

theorem refl (s : Sheet) (n : NodeId) : Relabels s s n (s.entry n) :=
  ⟨rfl, fun _ => rfl, fun _ => rfl, rfl, fun _ _ => rfl⟩

theorem setContent (hn : n < s.size) (content : Content) :
    Relabels s (s.setContent n content) n ⟨content, (s.entry n).position⟩ where
  size_eq := size_setContent ..
  parent_eq _ := parent_setContent ..
  children_eq _ := children_setContent ..
  entry_self := entry_setContent_self content hn
  entry_eq _ hm := entry_setContent_of_ne s content (Ne.symm hm)

theorem node_eq (h : Relabels s s' n e) (hm : m ≠ n) : s'.node m = s.node m :=
  node_ext (h.entry_eq m hm) (h.parent_eq m) (h.children_eq m)

theorem linked (h : Relabels s s' n e) (hs : s.Linked) : s'.Linked :=
  hs.congr h.size_eq h.parent_eq h.children_eq

theorem region (h : Relabels s s' n e) (hr : s.Region above c ts) : s'.Region above c ts := by
  refine hr.congr (Nat.le_of_eq h.size_eq.symm) (fun m _ => h.parent_eq m) ?_ hr.nodup
    hr.root_notMem_below
  exact hr.holds.congr (fun m _ => h.children_eq m) fun m _ => h.parent_eq m

end Relabels

/-! ## Moving all children of a node -/

/-- The children `ns` of `q` have become children of `c`, whose list is now `list`. -/
structure Moves (s s' : Sheet) (c q : NodeId) (ns list : List NodeId) : Prop where
  size_eq : s'.size = s.size
  entry_eq : ∀ m, s'.entry m = s.entry m
  children_container : s'.children c = list
  children_source : s'.children q = []
  children_eq : ∀ m, m ≠ c → m ≠ q → s'.children m = s.children m
  parent_moved : ∀ n ∈ ns, s'.parent n = some c
  parent_eq : ∀ m, m ∉ ns → s'.parent m = s.parent m

/-- Moving the children of `q` before a child of another node leaves `q` without children. -/
theorem insertBefore_moves {anchor : NodeId} {before after ns : List NodeId}
    (hparent : s.parent anchor = some c) (hlist : s.children c = before ++ anchor :: after)
    (hbefore : anchor ∉ before) (hanchor : anchor ∉ ns) (hq : s.children q = ns)
    (hns : ∀ n ∈ ns, s.parent n = some q) (hqc : q ≠ c) :
    (s.insertBefore anchor ns).1 = ns.length ∧
      Moves s (s.insertBefore anchor ns).2 c q ns (before ++ ns ++ anchor :: after) := by
  have hkept : ∀ k, k ≠ q → (s.removeAll ns).children k = s.children k := by
    intro k hk
    rw [children_removeAll]
    refine List.filter_eq_self.2 fun a _ => ?_
    simp only [Bool.not_eq_eq_eq_not, Bool.not_true, decide_eq_false_iff_not, not_and]
    intro ha
    rw [hns a ha]
    exact fun heq => hk (Option.some.inj heq).symm
  have hsource : (s.removeAll ns).children q = [] := by
    rw [children_removeAll, hq]
    refine List.filter_eq_nil_iff.2 fun a ha => ?_
    simp [ha, hns a ha]
  obtain ⟨hcount, hins⟩ := insertBefore_inserts hparent hanchor ((hkept c hqc.symm).trans hlist) hbefore
  refine ⟨hcount, ⟨hins.size_eq, hins.entry_eq, hins.children_self, ?_, ?_, ?_, hins.parent_eq⟩⟩
  · rw [hins.children_eq q hqc, hsource]
  · intro k hc hkq
    rw [hins.children_eq k hc, hkept k hkq]
  · intro n hn
    exact hins.parent_moved n hn (lt_size_of_parent (hns n hn))

namespace Moves

variable {ns list : List NodeId} {p : NodeId}

theorem node_eq (h : Moves s s' c q ns list) (hc : m ≠ c) (hq : m ≠ q) (hns : m ∉ ns) :
    s'.node m = s.node m :=
  node_ext (h.entry_eq m) (h.parent_eq m hns) (h.children_eq m hc hq)

theorem holdsUnder (h : Moves s s' c q ns list) (hts : s.HoldsUnder p ts)
    (hapart : ∀ n ∈ preorderAll ts, n ≠ c ∧ n ≠ q ∧ n ∉ ns) : s'.HoldsUnder p ts :=
  hts.congr (fun n hn => h.children_eq n (hapart n hn).1 (hapart n hn).2.1)
    fun n hn => h.parent_eq n (hapart n hn).2.2

/-- The moved trees stand under their new parent. -/
theorem moved (h : Moves s s' c q (us.map Tree.label) list) (hus : s.HoldsUnder q us)
    (hnodup : (preorderAll us).Nodup) (hapart : ∀ n ∈ preorderAll us, n ≠ c ∧ n ≠ q) :
    s'.HoldsUnder c us :=
  hus.reparent (fun n hn => h.children_eq n (hapart n hn).1 (hapart n hn).2)
    (fun _ ht => h.parent_moved _ (List.mem_map_of_mem ht))
    fun _ ht n hn => h.parent_eq n (notMem_labels_of_nodup hnodup ht hn)

end Moves

/-! ## Trees put before a child -/

namespace Region

variable {n e : NodeId} {zs : List (Tree NodeId)}

/-- The children of `q` put before a child; the child and what follows it become `zs`. -/
theorem insert (h : s.Region above c (xs ++ t :: ys)) (hq : s.Holds (.node q us)) (hqc : q ≠ c)
    (hqxs : q ∉ preorderAll xs) (hqus : q ∉ preorderAll us)
    (hlabels : zs.map Tree.label = (t :: ys).map Tree.label)
    (hzs : ∀ s₁ list, Moves s s₁ c q (us.map Tree.label) list → s₁.HoldsUnder c zs)
    (hnodup : (c :: above ++ preorderAll (xs ++ us ++ zs)).Nodup)
    (hroot : root ∉ preorderAll (xs ++ us ++ zs)) :
    (s.insertBefore t.label (us.map Tree.label)).1 = us.length ∧
      Moves s (s.insertBefore t.label (us.map Tree.label)).2 c q (us.map Tree.label)
        ((xs ++ us ++ zs).map Tree.label) ∧
      (s.insertBefore t.label (us.map Tree.label)).2.Region above c (xs ++ us ++ zs) := by
  rw [holds_node] at hq
  have hlabel := labels_subset_preorderAll us
  have hbelow := (List.nodup_append.1 hnodup).2.1
  have hout : ∀ k ∈ c :: above, k ∉ preorderAll us := fun k hk hus =>
    (List.nodup_append.1 hnodup).2.2 k hk k (by simp [hus]) rfl
  rw [preorderAll_append, preorderAll_append, List.append_assoc] at hbelow
  obtain ⟨-, husnodup, hxsdisj⟩ := List.nodup_append.1 hbelow
  -- the anchor is among the later trees, so it is not moved itself
  have hanchor : t.label ∉ us.map Tree.label := by
    intro hmem
    have : t.label ∈ zs.map Tree.label := by rw [hlabels]; simp
    obtain ⟨z, hz, hzt⟩ := List.mem_map.1 this
    exact (List.nodup_append.1 husnodup).2.2 _ (hlabel hmem) _ (hzt ▸ label_mem_preorderAll hz) rfl
  have hbefore : t.label ∉ xs.map Tree.label := by
    have := h.label_notMem_others
    rw [List.map_append, List.mem_append, not_or] at this
    exact this.1
  obtain ⟨hcount, hmoves⟩ := insertBefore_moves h.parent_child
    (by rw [h.children_eq, List.map_append, List.map_cons]) hbefore hanchor hq.1
    (fun k hk => by obtain ⟨u, hu, rfl⟩ := List.mem_map.1 hk; exact hq.2.parent_eq hu) hqc
  rw [List.length_map] at hcount
  rw [← List.map_append, ← List.map_cons, ← hlabels, ← List.map_append] at hmoves
  refine ⟨hcount, hmoves, h.congr (Nat.le_of_eq hmoves.size_eq.symm) (fun k hk => ?_)
    (holds_node.2 ⟨hmoves.children_container, ?_⟩) hnodup hroot⟩
  · exact hmoves.parent_eq k fun hmem => hout k hk (hlabel hmem)
  · rw [holdsUnder_append, holdsUnder_append]
    refine ⟨⟨?_, ?_⟩, hzs _ _ hmoves⟩
    · refine hmoves.holdsUnder (holdsUnder_append.1 h.holdsUnder).1 fun k hk => ⟨?_, ?_, ?_⟩
      · exact fun heq => h.container_notMem_below (heq ▸ by simp [hk])
      · exact fun heq => hqxs (heq ▸ hk)
      · exact fun hmem => hxsdisj k hk k (List.mem_append_left _ (hlabel hmem)) rfl
    · refine hmoves.moved hq.2 (List.nodup_append.1 husnodup).1 fun k hk => ⟨?_, ?_⟩
      · exact fun heq => hout c (by simp) (heq ▸ hk)
      · exact fun heq => hqus (heq ▸ hk)

/-- The trees of a copy, a child or its neighbour stand apart from what is above a child. -/
theorem linked_insertBefore (h : s.Region above c (xs ++ t :: ys)) (hq : s.Region (c :: above) q us)
    (hs : s.Linked) : (s.insertBefore t.label (us.map Tree.label)).2.Linked := by
  have hlabel := labels_subset_preorderAll us
  refine hs.insertBefore (fun n hn => hq.lt_size_below n (hlabel hn)) (nodup_labels hq.nodup_below) ?_
  intro n hn
  rw [h.child.lineage_eq, List.tail_cons]
  exact fun hmem => hq.above_notMem_below hmem (hlabel hn)

theorem insert_copy (h : s.Region above c (xs ++ t :: ys)) (hq : s.Region (c :: above) q us)
    (hapart : ∀ k ∈ q :: preorderAll us, k ∉ preorderAll (xs ++ t :: ys)) :
    (s.insertBefore t.label (us.map Tree.label)).1 = us.length ∧
      Moves s (s.insertBefore t.label (us.map Tree.label)).2 c q (us.map Tree.label)
        ((xs ++ us ++ t :: ys).map Tree.label) ∧
      (s.insertBefore t.label (us.map Tree.label)).2.Region above c (xs ++ us ++ t :: ys) := by
  have hqc : q ≠ c := fun heq => hq.container_notMem_above (by simp [heq])
  have hlabel := labels_subset_preorderAll us
  refine h.insert hq.holds hqc ?_ hq.container_notMem_below rfl (fun s₁ list hmoves => ?_) ?_
    fun hr => ?_
  · exact fun hmem => hapart q (by simp) (by simp [hmem])
  · refine hmoves.holdsUnder (holdsUnder_append.1 h.holdsUnder).2 fun k hk => ⟨?_, ?_, ?_⟩
    · exact fun heq => h.container_notMem_below (heq ▸ by simpa using Or.inr hk)
    · exact fun heq => hapart q (by simp) (heq ▸ by simpa using Or.inr hk)
    · exact fun hmem => hapart k (by simp [hlabel hmem]) (by simpa using Or.inr hk)
  · have hperm : (preorderAll us ++ (c :: above ++ preorderAll (xs ++ t :: ys))).Perm
        (c :: above ++ preorderAll (xs ++ us ++ t :: ys)) := by
      refine List.perm_iff_count.2 fun a => ?_
      simp only [preorderAll_append, List.count_append]
      omega
    refine hperm.nodup (List.nodup_append.2 ⟨hq.nodup_below, h.nodup, ?_⟩)
    rintro a ha b hb rfl
    rcases List.mem_append.1 hb with hb | hb
    · exact (List.nodup_append.1 hq.nodup).2.2 a (by simpa using Or.inr hb) a ha rfl
    · exact hapart a (by simp [ha]) hb
  · simp only [preorderAll_append, List.mem_append] at hr
    rcases hr with (hr | hr) | hr
    · exact h.root_notMem_below (by simp [hr])
    · exact hq.root_notMem_below hr
    · exact h.root_notMem_below (by rw [preorderAll_append]; exact List.mem_append_right _ hr)

theorem hoist (h : s.Region above c (xs ++ .node n us :: ys)) :
    (s.insertBefore n (us.map Tree.label)).1 = us.length ∧
      Moves s (s.insertBefore n (us.map Tree.label)).2 c n (us.map Tree.label)
        ((xs ++ us ++ .node n [] :: ys).map Tree.label) ∧
      (s.insertBefore n (us.map Tree.label)).2.Region above c (xs ++ us ++ .node n [] :: ys) := by
  have hchild := h.child
  rw [label_node, children_node] at hchild
  have hapart : ∀ k ∈ preorderAll ys, k ∉ n :: preorderAll us := fun k hk => by
    rw [← preorder_node]
    exact h.notMem_child (by simp [hk])
  refine h.insert hchild.holds h.child_ne_container ?_ hchild.container_notMem_below rfl
    (fun s₁ list hmoves => ?_) ?_ fun hr => ?_
  · exact fun hmem => h.notMem_child (m := n) (by simp [hmem]) (by simp)
  · have hn : n ∉ us.map Tree.label := fun hmem =>
      hchild.container_notMem_below (labels_subset_preorderAll us hmem)
    rw [holdsUnder_cons, label_node, hmoves.parent_eq n hn, holds_node, hmoves.children_source]
    refine ⟨h.parent_child, ⟨rfl, holdsUnder_nil⟩, ?_⟩
    have hys := (holdsUnder_cons.1 (holdsUnder_append.1 h.holdsUnder).2).2.2
    refine hmoves.holdsUnder hys fun k hk => ⟨?_, ?_, ?_⟩
    · exact fun heq => h.container_notMem_below (heq ▸ by simp [hk])
    · exact fun heq => hapart k hk (heq ▸ by simp)
    · exact fun hmem => hapart k hk (by simp [labels_subset_preorderAll us hmem])
  · refine List.Perm.nodup (List.perm_iff_count.2 fun a => ?_) h.nodup
    simp only [preorderAll_append, preorderAll_cons, preorder_node, preorderAll_nil,
      List.count_append, List.count_cons, List.count_nil]
    omega
  · refine h.root_notMem_below ?_
    simp only [preorderAll_append, preorderAll_cons, preorder_node, preorderAll_nil, List.mem_append,
      List.mem_cons] at hr ⊢
    grind

theorem hoist_next (h : s.Region above c (xs ++ t :: .node e us :: ys)) :
    (s.insertBefore t.label (us.map Tree.label)).1 = us.length ∧
      Moves s (s.insertBefore t.label (us.map Tree.label)).2 c e (us.map Tree.label)
        ((xs ++ us ++ t :: .node e [] :: ys).map Tree.label) ∧
      (s.insertBefore t.label (us.map Tree.label)).2.Region above c
        (xs ++ us ++ t :: .node e [] :: ys) := by
  have h' : s.Region above c ((xs ++ [t]) ++ .node e us :: ys) := by simpa using h
  have hchild := h'.child
  rw [label_node, children_node] at hchild
  have hapart : ∀ k ∈ preorderAll (xs ++ t :: ys), k ∉ e :: preorderAll us := fun k hk => by
    rw [← preorder_node]
    exact h'.notMem_child (by simpa using hk)
  have hkeep : ∀ {k}, k ∈ preorderAll (xs ++ t :: ys) → k ≠ c ∧ k ≠ e ∧ k ∉ us.map Tree.label := by
    intro k hk
    refine ⟨fun heq => h.container_notMem_below (heq ▸ ?_), fun heq => hapart k hk (heq ▸ by simp),
      fun hmem => hapart k hk (by simp [labels_subset_preorderAll us hmem])⟩
    simp only [preorderAll_append, preorderAll_cons, List.mem_append] at hk ⊢
    rcases hk with hk | hk | hk
    · exact .inl hk
    · exact .inr (.inl hk)
    · exact .inr (.inr (.inr hk))
  refine h.insert hchild.holds h'.child_ne_container ?_ hchild.container_notMem_below rfl
    (fun s₁ list hmoves => ?_) ?_ fun hr => ?_
  · exact fun hmem => hapart e (by simp [hmem]) (by simp)
  · have he : e ∉ us.map Tree.label := fun hmem =>
      hchild.container_notMem_below (labels_subset_preorderAll us hmem)
    have hrest := (holdsUnder_append.1 h.holdsUnder).2
    rw [← List.singleton_append, holdsUnder_append, holdsUnder_cons] at hrest ⊢
    rw [holdsUnder_cons, label_node, hmoves.parent_eq e he, holds_node, hmoves.children_source]
    have ht : s₁.HoldsUnder c [t] := hmoves.holdsUnder (holdsUnder_cons.2 hrest.1) fun k hk =>
      hkeep (by simp at hk; simp [hk])
    refine ⟨holdsUnder_cons.1 ht, h'.parent_child, ⟨rfl, holdsUnder_nil⟩, ?_⟩
    exact hmoves.holdsUnder (holdsUnder_cons.1 hrest.2).2.2 fun k hk => hkeep (by simp [hk])
  · refine List.Perm.nodup (List.perm_iff_count.2 fun a => ?_) h.nodup
    simp only [preorderAll_append, preorderAll_cons, preorder_node, preorderAll_nil,
      List.count_append, List.count_cons, List.count_nil]
    omega
  · refine h.root_notMem_below ?_
    simp only [preorderAll_append, preorderAll_cons, preorder_node, preorderAll_nil, List.mem_append,
      List.mem_cons] at hr ⊢
    grind

end Region

end StyleExpand.Sheet

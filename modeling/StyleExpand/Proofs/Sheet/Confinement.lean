import StyleExpand.Proofs.Sheet.Insertion

/-!
# Changes that stay below some children

A change below a container that concerns some of its children leaves everything else alone: of the
container it may change the list of children, and of other old nodes only those at or below the
children. The container may stand anywhere in a linked store, also above the root.

* `Sheet.Confined s s' c ws` : such a change, below `c`, at or below the nodes `ws`;
* `Sheet.Confined.trans` : one change after another;
* `Sheet.Confined.raise` : a change below a node, seen from a container above it;
* `Sheet.Confined.remove`, `Sheet.Confined.clone`, `Sheet.Linked.insert_children` : a child goes, is
  copied, or gives way to the children of itself, of a copy or of a sibling.
-/

namespace StyleExpand.Sheet

variable {s s' s'' : Sheet} {c n m p q : NodeId} {ws ws' xs ys : List NodeId}

/-! ## Ancestors -/

namespace Linked

theorem mem_lineage_self (hs : s.Linked) (hn : n < s.size) : n ∈ s.lineage n := by
  obtain ⟨up, hup⟩ := (hs.lineage hn).head_eq
  rw [hup]
  exact List.mem_cons_self

theorem lineage_eq_cons (hs : s.Linked) (hp : s.parent n = some p) :
    s.lineage n = n :: s.lineage p :=
  (hs.lineage (lt_size_of_parent hp)).unique (.step hp (hs.lineage (hs.parent_lt n p hp)))

theorem lt_size_of_mem_lineage (hs : s.Linked) (hm : m < s.size) (hn : n ∈ s.lineage m) : n < s.size :=
  (hs.lineage hm).lt_size hs.toAcyclic hm n hn

theorem lineage_subset (hs : s.Linked) (hm : m < s.size) (hn : n ∈ s.lineage m) :
    s.lineage n ⊆ s.lineage m := by
  obtain ⟨front, rest, heq, hrest⟩ := (hs.lineage hm).split hn
  rw [(hs.lineage (hs.lt_size_of_mem_lineage hm hn)).unique hrest, heq]
  exact List.subset_append_right ..

theorem parent_mem_lineage (hs : s.Linked) (hm : m < s.size) (hn : n ∈ s.lineage m)
    (hp : s.parent n = some p) : p ∈ s.lineage m := by
  refine hs.lineage_subset hm hn ?_
  rw [hs.lineage_eq_cons hp]
  exact List.mem_cons_of_mem n (hs.mem_lineage_self (hs.parent_lt n p hp))

theorem notMem_lineage_parent (hs : s.Linked) (hp : s.parent n = some p) : n ∉ s.lineage p := by
  have hnodup := (hs.lineage (lt_size_of_parent hp)).nodup
  rw [hs.lineage_eq_cons hp] at hnodup
  exact (List.nodup_cons.1 hnodup).1

theorem ne_parent (hs : s.Linked) (hp : s.parent n = some p) : n ≠ p := by
  rintro rfl
  exact hs.notMem_lineage_parent hp (hs.mem_lineage_self (lt_size_of_parent hp))

theorem notMem_lineage_sibling (hs : s.Linked) (hp : s.parent n = some p) (hm : s.parent m = some p)
    (hne : n ≠ m) : n ∉ s.lineage m := by
  rw [hs.lineage_eq_cons hm, List.mem_cons]
  exact not_or.2 ⟨hne, hs.notMem_lineage_parent hp⟩

theorem parent_listed (hs : s.Linked) (hlist : s.children c = xs ++ n :: ys) : s.parent n = some c :=
  hs.parent_eq c n (by simp [hlist])

theorem notMem_listed (hs : s.Linked) (hlist : s.children c = xs ++ n :: ys) : n ∉ xs ++ ys := by
  have hnodup : (n :: (xs ++ ys)).Nodup := List.perm_middle.nodup (hlist ▸ hs.nodup c)
  exact (List.nodup_cons.1 hnodup).1

end Linked

/-! ## Confined changes -/

/-- Between `s` and `s'`, the container `c` has changed in its list of children at most, and other old
nodes only if they are at or below one of `ws`. -/
structure Confined (s s' : Sheet) (c : NodeId) (ws : List NodeId) : Prop where
  linked : s'.Linked
  size_le : s.size ≤ s'.size
  entry_eq : s'.entry c = s.entry c
  parent_eq : s'.parent c = s.parent c
  node_eq : ∀ m < s.size, m ≠ c → (∀ w ∈ ws, w ∉ s.lineage m) → s'.node m = s.node m

namespace Confined

theorem refl (hs : s.Linked) (c : NodeId) (ws : List NodeId) : Confined s s c ws :=
  ⟨hs, Nat.le_refl _, rfl, rfl, fun _ _ _ _ => rfl⟩

theorem mono (h : Confined s s' c ws) (hws : ws ⊆ ws') : Confined s s' c ws' where
  linked := h.linked
  size_le := h.size_le
  entry_eq := h.entry_eq
  parent_eq := h.parent_eq
  node_eq m hm hc hout := h.node_eq m hm hc fun w hw => hout w (hws hw)

theorem parent_eq_of_notMem (h : Confined s s' c ws) (hm : m < s.size)
    (hout : ∀ w ∈ ws, w ∉ s.lineage m) : s'.parent m = s.parent m := by
  by_cases hc : m = c
  · rw [hc, h.parent_eq]
  · rw [parent, parent, h.node_eq m hm hc hout]

/-- Nodes that are not below `ws` have the same ancestors. -/
theorem lineage_eq (h : Confined s s' c ws) (hs : s.Linked) (hm : m < s.size)
    (hout : ∀ w ∈ ws, w ∉ s.lineage m) : s'.lineage m = s.lineage m := by
  have hlineage : s'.Lineage m (s.lineage m) := (hs.lineage hm).congr fun n hn =>
    h.parent_eq_of_notMem (hs.lt_size_of_mem_lineage hm hn) fun w hw hmem =>
      hout w hw (hs.lineage_subset hm hn hmem)
  exact (h.linked.lineage (Nat.lt_of_lt_of_le hm h.size_le)).unique hlineage

/-- The second change may also concern nodes that are new since the first. -/
theorem trans (h : Confined s s' c ws) (h' : Confined s' s'' c ws') (hs : s.Linked)
    (hws : ∀ w ∈ ws', w ∈ ws ∨ s.size ≤ w) : Confined s s'' c ws where
  linked := h'.linked
  size_le := Nat.le_trans h.size_le h'.size_le
  entry_eq := h'.entry_eq.trans h.entry_eq
  parent_eq := h'.parent_eq.trans h.parent_eq
  node_eq m hm hc hout := by
    rw [h'.node_eq m (Nat.lt_of_lt_of_le hm h.size_le) hc fun w hw => ?_, h.node_eq m hm hc hout]
    rw [h.lineage_eq hs hm hout]
    rcases hws w hw with hw | hw
    · exact hout w hw
    · exact fun hmem => Nat.not_lt.2 hw (hs.lt_size_of_mem_lineage hm hmem)

theorem node_sibling (h : Confined s s' c ws) (hs : s.Linked) (hws : ∀ w ∈ ws, s.parent w = some c)
    (hm : s.parent m = some c) (hnot : m ∉ ws) : s'.node m = s.node m := by
  refine h.node_eq m (lt_size_of_parent hm) (hs.ne_parent hm) fun w hw => ?_
  refine hs.notMem_lineage_sibling (hws w hw) hm ?_
  rintro rfl
  exact hnot hw

/-- What is listed behind the nodes concerned is as it was. -/
theorem node_behind (h : Confined s s' c ws) (hs : s.Linked) (hlist : s.children c = xs ++ (ws ++ ys))
    (hm : m ∈ ys) : s'.node m = s.node m := by
  have hparent : ∀ w ∈ ws ++ ys, s.parent w = some c := fun w hw =>
    hs.parent_eq c w (hlist ▸ List.mem_append_right xs hw)
  have hnodup : (ws ++ ys).Nodup := (List.nodup_append.1 (hlist ▸ hs.nodup c)).2.1
  refine h.node_sibling hs (fun w hw => hparent w (List.mem_append_left ys hw))
    (hparent m (List.mem_append_right ws hm)) fun hmem => ?_
  exact (List.nodup_append.1 hnodup).2.2 m hmem m hm rfl

/-- A change below a node concerns no other node than this one, for a container that is not below it,
and leaves the container as it was. -/
theorem raise (h : Confined s s' q (s.children q)) (hs : s.Linked) (hc : c < s.size)
    (hout : q ∉ s.lineage c) : Confined s s' c [q] ∧ s'.node c = s.node c := by
  have hchild {m : NodeId} (hm : m < s.size) (hq : q ∉ s.lineage m) :
      ∀ w ∈ s.children q, w ∉ s.lineage m :=
    fun w hw hmem => hq (hs.parent_mem_lineage hm hmem (hs.parent_eq q w hw))
  have hne {m : NodeId} (hm : m < s.size) (hq : q ∉ s.lineage m) : m ≠ q := by
    rintro rfl
    exact hq (hs.mem_lineage_self hm)
  have hnode : s'.node c = s.node c := h.node_eq c hc (hne hc hout) (hchild hc hout)
  refine ⟨⟨h.linked, h.size_le, ?_, ?_, fun m hm _ hq => ?_⟩, hnode⟩
  · rw [entry, entry, hnode]
  · rw [parent, parent, hnode]
  · have hq := hq q (by simp)
    exact h.node_eq m hm (hne hm hq) (hchild hm hq)

/-- After a change below a child of `c`, no old child of `c` stands below that child. -/
theorem notMem_children (h : Confined s s' q (s.children q)) (hs : s.Linked)
    (hq : s.parent q = some c) (hm : m ∈ s'.children q) : m ∉ s.children c := by
  intro hmem
  have hparent : s'.parent m = some q := h.linked.parent_eq q m hm
  have hmq : m ∉ [q] := by
    rw [List.mem_singleton]
    exact h.linked.ne_parent hparent
  have hnode := (h.raise hs (hs.parent_lt q c hq) (hs.notMem_lineage_parent hq)).1.node_sibling hs
    (by simpa using hq) (hs.parent_eq c m hmem) hmq
  rw [parent, hnode] at hparent
  exact hs.ne_parent hq (Option.some.inj (hparent.symm.trans (hs.parent_eq c m hmem)))

/-! ## Single changes -/

theorem setContent (hs : s.Linked) (hp : s.parent n = some c) (content : Content) :
    Confined s (s.setContent n content) c [n] where
  linked := hs.setContent n content
  size_le := Nat.le_of_eq (size_setContent ..).symm
  entry_eq := entry_setContent_of_ne s content (hs.ne_parent hp)
  parent_eq := parent_setContent ..
  node_eq m hm _ hout := by
    refine node_setContent_of_ne s content ?_
    rintro rfl
    exact hout n (by simp) (hs.mem_lineage_self hm)

theorem remove (hs : s.Linked) (hp : s.parent n = some c) : Confined s (s.remove n) c [n] where
  linked := hs.remove n
  size_le := Nat.le_of_eq (size_remove ..).symm
  entry_eq := entry_remove ..
  parent_eq := by rw [parent_remove, if_neg (hs.ne_parent hp)]
  node_eq m hm hc hout := by
    have hne : n ≠ m := by
      rintro rfl
      exact hout n (by simp) (hs.mem_lineage_self hm)
    refine node_ext (entry_remove s n m) ?_ ?_
    · rw [parent_remove, if_neg hne]
    · rw [children_remove, hp, if_neg fun heq => hc (Option.some.inj heq).symm]

theorem clone (hs : s.Linked) (hc : c < s.size) (n : NodeId) :
    Confined s (s.clone n (some c)).2 c [] where
  linked := hs.clone n (by simpa using hc)
  size_le := by
    rw [(Extends.clone s n (some c)).size_eq]
    exact Nat.le_add_right ..
  entry_eq := (Extends.clone s n (some c)).entry_eq hc
  parent_eq := (Extends.clone s n (some c)).parent_eq hc
  node_eq m hm _ _ := (Extends.clone s n (some c)).node_eq m hm

end Confined

namespace Linked

theorem children_remove (hs : s.Linked) (hlist : s.children c = xs ++ n :: ys) :
    (s.remove n).children c = xs ++ ys := by
  have hothers : ∀ m ∈ xs ++ ys, (m != n) = true := by
    intro m hm
    rw [bne_iff_ne]
    rintro rfl
    exact hs.notMem_listed hlist hm
  rw [Sheet.children_remove, if_pos (hs.parent_listed hlist), hlist, List.filter_append,
    List.filter_cons_of_neg (by simp), ← List.filter_append, List.filter_eq_self.2 hothers]

/-- The children of a node `q` with the same parent are put before a child, whether `q` is the child
itself, another one, or in no list. -/
theorem insert_children (hs : s.Linked) (hlist : s.children c = xs ++ n :: ys)
    (hq : s.parent q = some c) :
    let found := s.insertBefore n (s.children q)
    found.1 = (s.children q).length ∧ Confined s found.2 c [q] ∧
      found.2.children c = xs ++ s.children q ++ n :: ys := by
  intro found
  have hqc := hs.ne_parent hq
  -- what `q` lists has `q` for its parent, so it is neither a child of `c` nor above one
  have hother {m p : NodeId} (hm : s.parent m = some p) (hp : p ≠ q) : m ∉ s.children q := fun hmem =>
    hp (Option.some.inj (hm.symm.trans (hs.parent_eq q m hmem)))
  have hkept {l : List NodeId} {p : NodeId} (hl : ∀ m ∈ l, s.parent m = some p) (hp : p ≠ q) :
      l.filter (· ∉ s.children q) = l :=
    List.filter_eq_self.2 fun m hm => by simpa using hother (hl m hm) hp
  have hsibling : ∀ m ∈ xs ++ n :: ys, s.parent m = some c := fun m hm =>
    hs.parent_eq c m (hlist ▸ hm)
  have hn := hs.parent_listed hlist
  obtain ⟨hcount, hins⟩ := hs.insertBefore_inserts hlist (hother hn hqc.symm)
  rw [hkept (fun m hm => hsibling m (by simp [hm])) hqc.symm,
    hkept (fun m hm => hsibling m (by simp [hm])) hqc.symm] at hins
  have habove : ∀ m ∈ s.children q, m ∉ s.lineage c := fun m hm hmem =>
    hs.notMem_lineage_parent hq
      (hs.parent_mem_lineage (hs.parent_lt q c hq) hmem (hs.parent_eq q m hm))
  refine ⟨hcount, ⟨?_, Nat.le_of_eq hins.size_eq.symm, hins.entry_eq c, ?_, ?_⟩, hins.children_self⟩
  · refine hs.insertBefore (fun m hm => lt_size_of_parent (hs.parent_eq q m hm)) (hs.nodup q) ?_
    rw [hs.lineage_eq_cons hn]
    exact habove
  · exact hins.parent_eq c fun hmem => habove c hmem (hs.mem_lineage_self (hs.parent_lt q c hq))
  · intro m hm hc hout
    have hmq : q ∉ s.lineage m := hout q (by simp)
    refine node_ext (hins.entry_eq m) (hins.parent_eq m fun hmem => hmq ?_) ?_
    · exact hs.parent_mem_lineage hm (hs.mem_lineage_self hm) (hs.parent_eq q m hmem)
    · rw [hins.children_eq m hc, hs.children_removeAll]
      refine hkept (hs.parent_eq m) ?_
      rintro rfl
      exact hmq (hs.mem_lineage_self hm)

end Linked

end StyleExpand.Sheet

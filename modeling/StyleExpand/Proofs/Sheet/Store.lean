import StyleExpand.Sheet.Basic

/-!
# What each change does to the nodes of a stylesheet

One lemma for each change and each field of a node:

* `setContent`, `setParent`, `setChildren` : one field of one node;
* `alloc` : a node behind all others;
* `remove`, `removeAll` : parent links go, and child lists lose what is taken out of them;
* `insertBefore_eq` : the nodes taken out, given their new parent, and listed before the anchor;
* `Inserts`, `insertBefore_inserts` : what that does to each field.
-/

namespace StyleExpand.Sheet

/-! ## Places outside the store -/

theorem node_of_size_le {s : Sheet} {n : NodeId} (h : s.size ≤ n) : s.node n = default := by
  unfold node
  rw [Array.getD_eq_getD_getElem?, Array.getElem?_eq_none h, Option.getD_none]

theorem lt_size_of_parent {s : Sheet} {n p : NodeId} (h : s.parent n = some p) : n < s.size := by
  refine Nat.lt_of_not_le fun hn => ?_
  rw [parent, node_of_size_le hn] at h
  exact absurd h (by simp [default])

theorem lt_size_of_mem_children {s : Sheet} {n c : NodeId} (h : c ∈ s.children n) : n < s.size := by
  refine Nat.lt_of_not_le fun hn => ?_
  rw [children, node_of_size_le hn] at h
  exact absurd h (by simp [default])

/-! ## One field of one node -/

@[simp] theorem size_setContent (s : Sheet) (n : NodeId) (c : Content) :
    (s.setContent n c).size = s.size := size_modify ..

@[simp] theorem size_setParent (s : Sheet) (n : NodeId) (p : Option NodeId) :
    (s.setParent n p).size = s.size := size_modify ..

@[simp] theorem size_setChildren (s : Sheet) (n : NodeId) (cs : List NodeId) :
    (s.setChildren n cs).size = s.size := size_modify ..

theorem node_setContent_of_ne (s : Sheet) {n m : NodeId} (c : Content) (h : n ≠ m) :
    (s.setContent n c).node m = s.node m := by
  rw [setContent, node_modify, if_neg fun hm => h hm.1]

@[simp] theorem parent_setContent (s : Sheet) (n m : NodeId) (c : Content) :
    (s.setContent n c).parent m = s.parent m := by
  rw [parent, parent, setContent, node_modify]
  split <;> rfl

@[simp] theorem children_setContent (s : Sheet) (n m : NodeId) (c : Content) :
    (s.setContent n c).children m = s.children m := by
  rw [children, children, setContent, node_modify]
  split <;> rfl

theorem entry_setContent_of_ne (s : Sheet) {n m : NodeId} (c : Content) (h : n ≠ m) :
    (s.setContent n c).entry m = s.entry m := by
  rw [entry, entry, node_setContent_of_ne s c h]

theorem entry_setContent_self {s : Sheet} {n : NodeId} (c : Content) (h : n < s.size) :
    (s.setContent n c).entry n = ⟨c, s.position n⟩ := by
  rw [entry, setContent, node_modify, if_pos ⟨rfl, h⟩]
  rfl

@[simp] theorem entry_setParent (s : Sheet) (n m : NodeId) (p : Option NodeId) :
    (s.setParent n p).entry m = s.entry m := by
  rw [entry, entry, setParent, node_modify]
  split <;> rfl

@[simp] theorem children_setParent (s : Sheet) (n m : NodeId) (p : Option NodeId) :
    (s.setParent n p).children m = s.children m := by
  rw [children, children, setParent, node_modify]
  split <;> rfl

theorem parent_setParent (s : Sheet) (n m : NodeId) (p : Option NodeId) :
    (s.setParent n p).parent m = if n = m ∧ m < s.size then p else s.parent m := by
  rw [parent, setParent, node_modify]
  split <;> rfl

@[simp] theorem entry_setChildren (s : Sheet) (n m : NodeId) (cs : List NodeId) :
    (s.setChildren n cs).entry m = s.entry m := by
  rw [entry, entry, setChildren, node_modify]
  split <;> rfl

@[simp] theorem parent_setChildren (s : Sheet) (n m : NodeId) (cs : List NodeId) :
    (s.setChildren n cs).parent m = s.parent m := by
  rw [parent, parent, setChildren, node_modify]
  split <;> rfl

theorem children_setChildren (s : Sheet) (n m : NodeId) (cs : List NodeId) :
    (s.setChildren n cs).children m = if n = m ∧ m < s.size then cs else s.children m := by
  rw [children, setChildren, node_modify]
  split <;> rfl

theorem node_setChildren_of_ne (s : Sheet) {n m : NodeId} (cs : List NodeId) (h : n ≠ m) :
    (s.setChildren n cs).node m = s.node m := by
  rw [setChildren, node_modify, if_neg fun hm => h hm.1]

theorem node_ext {s t : Sheet} {n m : NodeId} (he : s.entry n = t.entry m)
    (hp : s.parent n = t.parent m) (hc : s.children n = t.children m) : s.node n = t.node m := by
  unfold entry parent children at *
  cases hs : s.node n
  cases ht : t.node m
  simp only [hs, ht] at he hp hc
  rw [he, hp, hc]

theorem eq_of_node_eq {s s' : Sheet} (hsize : s'.size = s.size) (h : ∀ m, s'.node m = s.node m) : s' = s := by
  obtain ⟨nodes⟩ := s
  obtain ⟨nodes'⟩ := s'
  have hnodes : nodes' = nodes := by
    apply Array.ext hsize
    intro i hi hi'
    have hnode := h i
    unfold node at hnode
    rwa [Array.getD_eq_getD_getElem?, Array.getD_eq_getD_getElem?, Array.getElem?_eq_getElem hi,
      Array.getElem?_eq_getElem hi'] at hnode
  rw [hnodes]

/-! ## New nodes -/

@[simp] theorem size_alloc (s : Sheet) (e : Entry) (p : Option NodeId) :
    (s.alloc e p).2.size = s.size + 1 := by
  simp [alloc, size]

theorem node_alloc_of_lt (s : Sheet) (e : Entry) (p : Option NodeId) {n : NodeId} (h : n < s.size) :
    (s.alloc e p).2.node n = s.node n := by
  unfold alloc node
  simp only [Array.getD_eq_getD_getElem?]
  rw [Array.getElem?_push_lt h, Array.getElem?_eq_getElem h]

theorem node_alloc_self (s : Sheet) (e : Entry) (p : Option NodeId) :
    (s.alloc e p).2.node s.size = ⟨e, p, []⟩ := by
  unfold alloc node size
  simp only [Array.getD_eq_getD_getElem?, Array.getElem?_push_size, Option.getD_some]

/-! ## Taking nodes out -/

@[simp] theorem size_remove (s : Sheet) (n : NodeId) : (s.remove n).size = s.size := by
  unfold remove
  split <;> simp

@[simp] theorem entry_remove (s : Sheet) (n m : NodeId) : (s.remove n).entry m = s.entry m := by
  unfold remove
  split <;> simp

theorem parent_remove (s : Sheet) (n m : NodeId) :
    (s.remove n).parent m = if n = m then none else s.parent m := by
  unfold remove
  split
  · rename_i hp
    split
    · rename_i h
      rw [← h, hp]
    · rfl
  · rename_i p hp
    have hn := lt_size_of_parent hp
    rw [parent_setChildren, parent_setParent]
    by_cases h : n = m
    · subst h
      rw [if_pos ⟨rfl, hn⟩, if_pos rfl]
    · rw [if_neg fun hm => h hm.1, if_neg h]

theorem children_remove (s : Sheet) (n m : NodeId) :
    (s.remove n).children m =
      if s.parent n = some m then (s.children m).filter (· != n) else s.children m := by
  unfold remove
  split
  · rename_i hp
    simp [hp]
  · rename_i p hp
    rw [children_setChildren, children_setParent, children_setParent, hp]
    by_cases h : p = m
    · subst h
      by_cases hsize : p < s.size
      · simp [hsize]
      · have hnil : s.children p = [] := by
          rw [children, node_of_size_le (Nat.le_of_not_lt hsize)]
          rfl
        simp [hnil]
    · simp [h]

def removeAll (s : Sheet) (ns : List NodeId) : Sheet := ns.foldl remove s

@[simp] theorem removeAll_nil (s : Sheet) : s.removeAll [] = s := rfl

@[simp] theorem removeAll_cons (s : Sheet) (n : NodeId) (ns : List NodeId) :
    s.removeAll (n :: ns) = (s.remove n).removeAll ns := rfl

@[simp] theorem size_removeAll (s : Sheet) (ns : List NodeId) :
    (s.removeAll ns).size = s.size := by
  induction ns generalizing s with
  | nil => rfl
  | cons n ns ih => rw [removeAll_cons, ih, size_remove]

@[simp] theorem entry_removeAll (s : Sheet) (ns : List NodeId) (m : NodeId) :
    (s.removeAll ns).entry m = s.entry m := by
  induction ns generalizing s with
  | nil => rfl
  | cons n ns ih => rw [removeAll_cons, ih, entry_remove]

theorem parent_removeAll (s : Sheet) (ns : List NodeId) (m : NodeId) :
    (s.removeAll ns).parent m = if m ∈ ns then none else s.parent m := by
  induction ns generalizing s with
  | nil => simp
  | cons n ns ih =>
    rw [removeAll_cons, ih, parent_remove]
    by_cases hn : n = m
    · simp [hn]
    · simp [hn, Ne.symm hn]

theorem children_removeAll (s : Sheet) (ns : List NodeId) (m : NodeId) :
    (s.removeAll ns).children m =
      (s.children m).filter fun c => !decide (c ∈ ns ∧ s.parent c = some m) := by
  induction ns generalizing s with
  | nil =>
    rw [removeAll_nil, List.filter_eq_self.2]
    simp
  | cons n ns ih =>
    rw [removeAll_cons, ih, children_remove]
    split
    · rename_i hn
      rw [List.filter_filter]
      apply List.filter_congr
      intro c _
      by_cases hc : n = c
      · subst hc
        simp [parent_remove, hn]
      · simp [parent_remove, hc, Ne.symm hc]
    · rename_i hn
      apply List.filter_congr
      intro c _
      by_cases hc : n = c
      · subst hc
        simp [parent_remove, hn]
      · simp [parent_remove, hc, Ne.symm hc]

/-! ## Putting nodes elsewhere -/

def setParents (s : Sheet) (ns : List NodeId) (p : NodeId) : Sheet :=
  ns.foldl (fun s n => s.setParent n (some p)) s

@[simp] theorem setParents_nil (s : Sheet) (p : NodeId) : s.setParents [] p = s := rfl

@[simp] theorem setParents_cons (s : Sheet) (n : NodeId) (ns : List NodeId) (p : NodeId) :
    s.setParents (n :: ns) p = (s.setParent n (some p)).setParents ns p := rfl

@[simp] theorem size_setParents (s : Sheet) (ns : List NodeId) (p : NodeId) :
    (s.setParents ns p).size = s.size := by
  induction ns generalizing s with
  | nil => rfl
  | cons n ns ih => rw [setParents_cons, ih, size_setParent]

@[simp] theorem entry_setParents (s : Sheet) (ns : List NodeId) (p m : NodeId) :
    (s.setParents ns p).entry m = s.entry m := by
  induction ns generalizing s with
  | nil => rfl
  | cons n ns ih => rw [setParents_cons, ih, entry_setParent]

@[simp] theorem children_setParents (s : Sheet) (ns : List NodeId) (p m : NodeId) :
    (s.setParents ns p).children m = s.children m := by
  induction ns generalizing s with
  | nil => rfl
  | cons n ns ih => rw [setParents_cons, ih, children_setParent]

theorem parent_setParents (s : Sheet) (ns : List NodeId) (p m : NodeId) :
    (s.setParents ns p).parent m = if m ∈ ns ∧ m < s.size then some p else s.parent m := by
  induction ns generalizing s with
  | nil => simp
  | cons n ns ih =>
    rw [setParents_cons, ih, parent_setParent, size_setParent]
    by_cases hn : n = m
    · subst hn
      by_cases hsize : n < s.size <;> simp [hsize]
    · simp [hn, Ne.symm hn]

/-- Where the anchor stays in its list, the nodes are put right before it. -/
theorem insertBefore_eq {s : Sheet} {anchor p : NodeId} {ns before after : List NodeId}
    (hp : s.parent anchor = some p) (hanchor : anchor ∉ ns)
    (hlist : (s.removeAll ns).children p = before ++ anchor :: after) (hbefore : anchor ∉ before) :
    s.insertBefore anchor ns =
      (ns.length,
        ((s.removeAll ns).setParents ns p).setChildren p (before ++ ns ++ anchor :: after)) := by
  have hparent : (s.removeAll ns).parent anchor = some p := by
    rw [parent_removeAll, if_neg hanchor, hp]
  have hindex : (s.removeAll ns).index? anchor = some before.length := by
    unfold index?
    rw [hparent]
    simp only
    rw [hlist, List.findIdx?_append, List.findIdx?_eq_none_iff.2, List.findIdx?_cons]
    · simp
    · intro c hc
      have : c ≠ anchor := fun h => hbefore (h ▸ hc)
      simpa using this
  have hset : ns.foldl (fun s n => s.setParent n (some p)) (s.removeAll ns) =
      (s.removeAll ns).setParents ns p := rfl
  unfold insertBefore
  simp only [hp]
  rw [← removeAll, hindex]
  simp only [hset, children_setParents, hlist, List.take_left', List.drop_left']

/-- The nodes `ns` were taken out and have become children of `p`, whose list is now `list`. -/
structure Inserts (s s' : Sheet) (p : NodeId) (ns list : List NodeId) : Prop where
  size_eq : s'.size = s.size
  entry_eq : ∀ m, s'.entry m = s.entry m
  children_self : s'.children p = list
  children_eq : ∀ m, m ≠ p → s'.children m = (s.removeAll ns).children m
  parent_moved : ∀ n ∈ ns, n < s.size → s'.parent n = some p
  parent_eq : ∀ m, m ∉ ns → s'.parent m = s.parent m

theorem insertBefore_inserts {s : Sheet} {anchor p : NodeId} {ns before after : List NodeId}
    (hp : s.parent anchor = some p) (hanchor : anchor ∉ ns)
    (hlist : (s.removeAll ns).children p = before ++ anchor :: after) (hbefore : anchor ∉ before) :
    (s.insertBefore anchor ns).1 = ns.length ∧
      Inserts s (s.insertBefore anchor ns).2 p ns (before ++ ns ++ anchor :: after) := by
  have hsize : p < (s.removeAll ns).size :=
    lt_size_of_mem_children (hlist ▸ by simp : anchor ∈ (s.removeAll ns).children p)
  rw [insertBefore_eq hp hanchor hlist hbefore]
  refine ⟨rfl, ⟨by simp, fun m => by simp, ?_, ?_, ?_, ?_⟩⟩
  · rw [children_setChildren, if_pos ⟨rfl, by simpa using hsize⟩]
  · intro m hm
    rw [children_setChildren, if_neg fun h => hm h.1.symm, children_setParents]
  · intro n hn hlt
    rw [parent_setChildren, parent_setParents, if_pos ⟨hn, by simpa using hlt⟩]
  · intro m hm
    rw [parent_setChildren, parent_setParents, if_neg fun h => hm h.1, parent_removeAll, if_neg hm]

end StyleExpand.Sheet

import StyleExpand.Proofs.Sheet.Linked

/-!
# Insertions, carried out and refused

Nodes that are put before an anchor are first taken out of their places. In a linked store that is
all that happens to other lists, whether the nodes come from before or behind the anchor, from below
it, from elsewhere or from nowhere.

* `Sheet.insertBefore_exact` : what an insertion does to every list and every parent link;
* `Sheet.Linked.insertBefore_eq_zero_iff` : when none is put anywhere;
* `Sheet.insertBefore_refused` : what is left then; nodes are lost to their parents, unless the anchor
  has no parent itself.
-/

namespace StyleExpand.Sheet

variable {s : Sheet} {anchor n p : NodeId} {ns before after : List NodeId}

/-- Where child lists and parent links agree, every list loses all that is taken out. -/
theorem Linked.children_removeAll (hs : s.Linked) (ns : List NodeId) (m : NodeId) :
    (s.removeAll ns).children m = (s.children m).filter (· ∉ ns) := by
  rw [Sheet.children_removeAll]
  apply List.filter_congr
  intro c hc
  simp [hs.parent_eq m c hc]

/-! ## Insertions -/

theorem Linked.insertBefore_inserts (hs : s.Linked) (hlist : s.children p = before ++ anchor :: after)
    (hanchor : anchor ∉ ns) :
    (s.insertBefore anchor ns).1 = ns.length ∧
      Inserts s (s.insertBefore anchor ns).2 p ns
        (before.filter (· ∉ ns) ++ ns ++ anchor :: after.filter (· ∉ ns)) := by
  have hparent : s.parent anchor = some p := hs.parent_eq p anchor (by simp [hlist])
  have hremoved : (s.removeAll ns).children p =
      before.filter (· ∉ ns) ++ anchor :: after.filter (· ∉ ns) := by
    rw [hs.children_removeAll, hlist, List.filter_append,
      List.filter_cons_of_pos (by simpa using hanchor)]
  -- the anchor is listed once, so what stands before it is what the index counts
  have hbefore : anchor ∉ before.filter (· ∉ ns) := by
    intro hmem
    have hnodup := hs.nodup p
    rw [hlist, List.nodup_append] at hnodup
    exact hnodup.2.2 anchor (List.mem_filter.1 hmem).1 anchor (by simp) rfl
  exact Sheet.insertBefore_inserts hparent hanchor hremoved hbefore

/-- Nodes put before an anchor stand there in their order, the other siblings stay on their sides,
every other list only loses what is moved, and nothing else is different. The nodes need not be in any
list. -/
theorem insertBefore_exact (hs : s.Linked) (hlist : s.children p = before ++ anchor :: after)
    (hanchor : anchor ∉ ns) (hsize : ∀ n ∈ ns, n < s.size) :
    let s' := (s.insertBefore anchor ns).2
    (s.insertBefore anchor ns).1 = ns.length ∧
      s'.children p = before.filter (· ∉ ns) ++ ns ++ [anchor] ++ after.filter (· ∉ ns) ∧
      (∀ m, m ≠ p → s'.children m = (s.children m).filter (· ∉ ns)) ∧
      (∀ n ∈ ns, s'.parent n = some p) ∧ (∀ m, m ∉ ns → s'.parent m = s.parent m) ∧
      s'.size = s.size ∧ ∀ m, s'.entry m = s.entry m := by
  intro s'
  obtain ⟨hcount, hins⟩ := hs.insertBefore_inserts hlist hanchor
  refine ⟨hcount, ?_, ?_, ?_, hins.parent_eq, hins.size_eq, hins.entry_eq⟩
  · rw [hins.children_self, List.append_assoc _ [anchor], List.singleton_append]
  · intro m hm
    rw [hins.children_eq m hm, hs.children_removeAll]
  · intro n hn
    exact hins.parent_moved n hn (hsize n hn)

/-- Nodes from behind and below the anchor, a copy that no list holds, and nodes from before the anchor
and from elsewhere, the copy pointing to one of them. -/
theorem insertBefore_exact_gathered :
    let trees := [.node ⟨.rule "a", none⟩ [], .node ⟨.rule "b", none⟩ [.node ⟨.rule "c", none⟩ []],
      .node ⟨.rule "d", none⟩ [], .node ⟨.rule "e", none⟩ [.node ⟨.rule "f", none⟩ []]]
    let s := ((ofForest trees).clone 3 (some 1)).2
    let ns := [4, 3, 7, 1, 6]
    let s' := (s.insertBefore 2 ns).2
    s.Linked ∧ s.children root = [1] ++ 2 :: [4, 5] ∧ s.parent 7 = some 1 ∧ 7 ∉ s.children 1 ∧
      2 ∉ ns ∧ (∀ n ∈ ns, n < s.size) ∧ s'.children root = [4, 3, 7, 1, 6, 2, 5] ∧
      (s.insertBefore 2 ns).1 = ns.length ∧
      s'.children root = [1].filter (· ∉ ns) ++ ns ++ [2] ++ [4, 5].filter (· ∉ ns) ∧
      (∀ m, m ≠ root → s'.children m = (s.children m).filter (· ∉ ns)) ∧
      (∀ n ∈ ns, s'.parent n = some root) ∧ (∀ m, m ∉ ns → s'.parent m = s.parent m) ∧
      s'.size = s.size ∧ ∀ m, s'.entry m = s.entry m := by
  intro trees s ns s'
  have hs : s.Linked := (Linked.ofForest trees).clone 3 (by decide)
  have hlist : s.children root = [1] ++ 2 :: [4, 5] := by decide +kernel
  have hsize : ∀ n ∈ ns, n < s.size := by decide +kernel
  exact ⟨hs, hlist, by decide +kernel, by decide +kernel, by decide, hsize, by decide +kernel,
    insertBefore_exact hs hlist (by decide) hsize⟩

/-! ## Refusals -/

theorem remove_of_parent_none (h : s.parent n = none) : s.remove n = s := by
  unfold remove
  rw [h]

/-- Taking out nodes does nothing exactly if none of them has a parent. -/
theorem removeAll_eq_self_iff : s.removeAll ns = s ↔ ∀ n ∈ ns, s.parent n = none := by
  constructor
  · intro h n hn
    have hparent := parent_removeAll s ns n
    rwa [h, if_pos hn] at hparent
  · intro h
    induction ns with
    | nil => rfl
    | cons n ns ih =>
      rw [removeAll_cons, remove_of_parent_none (h n (by simp))]
      exact ih fun m hm => h m (by simp [hm])

theorem index?_eq_none_iff : s.index? n = none ↔ ∀ p, s.parent n = some p → n ∉ s.children p := by
  unfold index?
  cases s.parent n with
  | none => simp
  | some p =>
    simp only [List.findIdx?_eq_none_iff, beq_eq_false_iff_ne, Option.some.injEq, forall_eq']
    exact ⟨fun h hn => h n hn rfl, fun h m hm heq => h (heq ▸ hm)⟩

/-- An anchor that is not listed, or is to be moved itself, has no place once the nodes are out. -/
theorem Linked.index?_removeAll (hs : s.Linked) :
    (s.removeAll ns).index? anchor = none ↔ anchor ∈ ns ∨ s.index? anchor = none := by
  rw [index?_eq_none_iff, index?_eq_none_iff]
  by_cases hanchor : anchor ∈ ns
  · simp [parent_removeAll, hanchor]
  · simp [parent_removeAll, hs.children_removeAll, hanchor]

theorem Linked.insertBefore_of_unlisted (hs : s.Linked) (h : anchor ∈ ns ∨ s.index? anchor = none) :
    s.insertBefore anchor ns = (0, if s.parent anchor = none then s else s.removeAll ns) := by
  unfold Sheet.insertBefore
  cases s.parent anchor with
  | none => rfl
  | some p =>
    dsimp only
    rw [← Sheet.removeAll, hs.index?_removeAll.2 h]
    rfl

theorem exists_list_of_index? (h : s.index? anchor ≠ none) :
    ∃ p before after, s.children p = before ++ anchor :: after := by
  rw [Ne, index?_eq_none_iff] at h
  obtain ⟨p, hp⟩ := Classical.not_forall.1 h
  obtain ⟨-, hmem⟩ := Classical.not_imp.1 hp
  obtain ⟨before, after, hlist⟩ := List.mem_iff_append.1 (Classical.not_not.1 hmem)
  exact ⟨p, before, after, hlist⟩

/-- None is put anywhere exactly if there is none, or the anchor has no place of its own. -/
theorem Linked.insertBefore_eq_zero_iff (hs : s.Linked) :
    (s.insertBefore anchor ns).1 = 0 ↔ ns = [] ∨ anchor ∈ ns ∨ s.index? anchor = none := by
  by_cases h : anchor ∈ ns ∨ s.index? anchor = none
  · rw [hs.insertBefore_of_unlisted h]
    exact ⟨fun _ => .inr h, fun _ => rfl⟩
  · obtain ⟨hanchor, hindex⟩ := not_or.1 h
    obtain ⟨p, before, after, hlist⟩ := exists_list_of_index? hindex
    rw [(hs.insertBefore_inserts hlist hanchor).1, List.length_eq_zero_iff]
    exact ⟨.inl, fun h' => h'.resolve_right h⟩

/-- A refused insertion has taken out the nodes, if the anchor has a parent. -/
theorem Linked.insertBefore_of_eq_zero (hs : s.Linked) (h : (s.insertBefore anchor ns).1 = 0) :
    (s.insertBefore anchor ns).2 = if s.parent anchor = none then s else s.removeAll ns := by
  by_cases hunlisted : anchor ∈ ns ∨ s.index? anchor = none
  · rw [hs.insertBefore_of_unlisted hunlisted]
  · obtain rfl := (hs.insertBefore_eq_zero_iff.1 h).resolve_right hunlisted
    obtain ⟨hanchor, hindex⟩ := not_or.1 hunlisted
    obtain ⟨p, before, after, hlist⟩ := exists_list_of_index? hindex
    obtain ⟨-, hins⟩ := hs.insertBefore_inserts hlist hanchor
    have hall : ∀ l : List NodeId, l.filter (· ∉ ([] : List NodeId)) = l := fun l =>
      List.filter_eq_self.2 (by simp)
    rw [removeAll_nil, ite_self]
    refine eq_of_node_eq hins.size_eq fun m => node_ext (hins.entry_eq m) (hins.parent_eq m (by simp)) ?_
    by_cases hm : m = p
    · rw [hm, hins.children_self, hall, hall, List.append_nil, hlist]
    · rw [hins.children_eq m hm, removeAll_nil]

/-- An insertion that puts no node anywhere has none to put, or an anchor without a place of its own.
If the anchor has a parent, the nodes have been taken out all the same: the store is as it was exactly
if it has none, or none of the nodes has one. -/
theorem insertBefore_refused (hs : s.Linked) (h : (s.insertBefore anchor ns).1 = 0) :
    let s' := (s.insertBefore anchor ns).2
    (ns = [] ∨ anchor ∈ ns ∨ s.index? anchor = none) ∧
      (s.parent anchor = none → s' = s) ∧
      (s.parent anchor ≠ none →
        (∀ m, s'.children m = (s.children m).filter (· ∉ ns)) ∧
        (∀ m, s'.parent m = if m ∈ ns then none else s.parent m) ∧
        s'.size = s.size ∧ ∀ m, s'.entry m = s.entry m) ∧
      (s' = s ↔ s.parent anchor = none ∨ ∀ n ∈ ns, s.parent n = none) := by
  intro s'
  have heq : s' = if s.parent anchor = none then s else s.removeAll ns :=
    hs.insertBefore_of_eq_zero h
  refine ⟨hs.insertBefore_eq_zero_iff.1 h, ?_, ?_, ?_⟩
  · intro hp
    rw [heq, if_pos hp]
  · intro hp
    rw [heq, if_neg hp]
    exact ⟨hs.children_removeAll ns, parent_removeAll s ns, size_removeAll s ns, entry_removeAll s ns⟩
  · rw [heq]
    by_cases hp : s.parent anchor = none
    · simp [hp]
    · rw [if_neg hp, removeAll_eq_self_iff]
      exact ⟨.inr, fun h' => h'.resolve_left hp⟩

/-- Before a copy that no list holds, nothing can be put, but a rule is lost that should be. -/
theorem insertBefore_refused_copy :
    let trees := [.node ⟨.rule "a", none⟩ [], .node ⟨.rule "b", none⟩ []]
    let s := ((ofForest trees).clone 1 (some root)).2
    let s' := (s.insertBefore 3 [2]).2
    s.Linked ∧ (s.insertBefore 3 [2]).1 = 0 ∧ s.parent 3 = some root ∧ s'.children root = [1] ∧
      ([2] = [] ∨ 3 ∈ [2] ∨ s.index? 3 = none) ∧
      (s.parent 3 = none → s' = s) ∧
      (s.parent 3 ≠ none →
        (∀ m, s'.children m = (s.children m).filter (· ∉ [2])) ∧
        (∀ m, s'.parent m = if m ∈ [2] then none else s.parent m) ∧
        s'.size = s.size ∧ ∀ m, s'.entry m = s.entry m) ∧
      (s' = s ↔ s.parent 3 = none ∨ ∀ n ∈ [2], s.parent n = none) := by
  intro trees s s'
  have hs : s.Linked := (Linked.ofForest trees).clone 1 (by decide)
  have hzero : (s.insertBefore 3 [2]).1 = 0 := by decide +kernel
  exact ⟨hs, hzero, by decide +kernel, by decide +kernel, insertBefore_refused hs hzero⟩

/-- Two refused insertions that leave the store another one: before a copy that no list holds, and of
a node before itself. -/
theorem refused_not_intact :
    let trees := [.node ⟨.rule "a", none⟩ [], .node ⟨.rule "b", none⟩ []]
    let s := ((ofForest trees).clone 1 (some root)).2
    s.Linked ∧ s.children root = [1, 2] ∧
      (2 ∉ (s.lineage 3).tail ∧ (s.insertBefore 3 [2]).1 = 0 ∧
        (s.insertBefore 3 [2]).2.children root = [1] ∧ (s.insertBefore 3 [2]).2.parent 2 = none) ∧
      (1 ∉ (s.lineage 1).tail ∧ (s.insertBefore 1 [1]).1 = 0 ∧
        (s.insertBefore 1 [1]).2.children root = [2] ∧ (s.insertBefore 1 [1]).2.parent 1 = none) := by
  intro trees s
  have hs : s.Linked := (Linked.ofForest trees).clone 1 (by decide)
  exact ⟨hs, by decide +kernel, by decide +kernel, by decide +kernel⟩

end StyleExpand.Sheet

import StyleExpand.Proofs.Sheet.Graft

/-!
# Linked stylesheets

Child lists and parent links are two views of one forest of nodes. In a linked stylesheet they agree
as far as child lists go: a copy may point to a parent that does not list it, and even the root may
stand below another node. For what is above a node, `Sheet.Acyclic` is enough.

* `Sheet.Lineage.unique`, `Sheet.Lineage.nodup` : parent links lead one way, without return;
* `Sheet.Acyclic.lineage`, `Sheet.Linked.holds` : the ancestors of a node and the shape below it are
  read off in full;
* `Sheet.Linked.region`, `Sheet.Linked.region_root` : a node that does not stand above the root, and
  the root itself, is the container of a region;
* `Sheet.Linked.remove`, `Sheet.Linked.clone`, `Sheet.Linked.insertBefore` and the like : every
  change of the store keeps it linked.
-/

namespace StyleExpand.Sheet

open StyleExpand.Tree

/-- Parents exist, and parent links lead to an end from every node. -/
structure Acyclic (s : Sheet) : Prop where
  parent_lt : ∀ n p, s.parent n = some p → p < s.size
  ends : ∀ n, ∃ l, s.Lineage n l

/-- Moreover, a listed child points back to its parent and is listed once, and there is a root. -/
structure Linked (s : Sheet) : Prop extends Acyclic s where
  parent_eq : ∀ p, ∀ c ∈ s.children p, s.parent c = some p
  nodup : ∀ p, (s.children p).Nodup
  root_lt : root < s.size

variable {s s' : Sheet} {n m p : NodeId} {q : Option NodeId} {l l' ns : List NodeId}

/-! ## Lineages -/

namespace Lineage

theorem unique (h : s.Lineage n l) (h' : s.Lineage n l') : l = l' := by
  induction h generalizing l' with
  | top hp =>
    cases h' with
    | top _ => rfl
    | step hp' _ => rw [hp] at hp'; cases hp'
  | step hp _ ih =>
    cases h' with
    | top hp' => rw [hp] at hp'; cases hp'
    | step hp' h' =>
      rw [hp] at hp'
      cases hp'
      rw [ih h']

theorem split (h : s.Lineage n l) (hm : m ∈ l) : ∃ front rest, l = front ++ rest ∧ s.Lineage m rest := by
  induction h with
  | top hp =>
    rw [List.mem_singleton] at hm
    subst hm
    exact ⟨[], _, rfl, .top hp⟩
  | @step n p l hp hl ih =>
    rcases List.mem_cons.1 hm with rfl | hm
    · exact ⟨[], _, rfl, .step hp hl⟩
    · obtain ⟨front, rest, rfl, hrest⟩ := ih hm
      exact ⟨n :: front, rest, rfl, hrest⟩

theorem nodup (h : s.Lineage n l) : l.Nodup := by
  induction h with
  | top _ => simp
  | step hp hl ih =>
    refine List.nodup_cons.2 ⟨fun hmem => ?_, ih⟩
    -- a node above itself would have two lineages of different lengths
    obtain ⟨front, rest, rfl, hrest⟩ := hl.split hmem
    have := congrArg List.length (hrest.unique (.step hp hl))
    simp at this
    omega

theorem lt_size (h : s.Lineage n l) (hs : s.Acyclic) (hn : n < s.size) : ∀ m ∈ l, m < s.size := by
  induction h with
  | top _ => simpa using hn
  | step hp _ ih =>
    intro m hm
    rcases List.mem_cons.1 hm with rfl | hm
    · exact hn
    · exact ih (hs.parent_lt _ _ hp) m hm

theorem length_le_size (h : s.Lineage n l) (hs : s.Acyclic) (hn : n < s.size) :
    l.length ≤ s.size := by
  have := h.nodup.length_le_of_subset fun m hm => List.mem_range.2 (h.lt_size hs hn m hm)
  rwa [List.length_range] at this

end Lineage

theorem Acyclic.lineage (hs : s.Acyclic) (hn : n < s.size) : s.Lineage n (s.lineage n) := by
  obtain ⟨l, hl⟩ := hs.ends n
  rwa [Sheet.lineage, hl.lineageTo_eq (hl.length_le_size hs hn)]

/-! ## Shapes -/

theorem label_shapeTo (s : Sheet) (n : NodeId) : ∀ depth : Nat, (s.shapeTo depth n).label = n
  | 0 => rfl
  | _ + 1 => rfl

theorem shape_eq_node (s : Sheet) (n : NodeId) : s.shape n = .node n (s.shape n).children := by
  rw [← eta (s.shape n), shape, label_shapeTo, children_node]

namespace Linked

/-- With as many levels as parent links leave room for, the shape of a node is all of it. -/
theorem holds_shapeTo (hs : s.Linked) : ∀ (depth : Nat) {n : NodeId} {l : List NodeId},
    s.Lineage n l → n < s.size → s.size ≤ depth + l.length → s.Holds (s.shapeTo depth n)
  | 0, n, l, hl, hn, hd => by
    have hnil : s.children n = [] := by
      refine List.eq_nil_iff_forall_not_mem.2 fun c hc => ?_
      have hparent := hs.parent_eq n c hc
      have hlen := (Lineage.step hparent hl).length_le_size hs.toAcyclic (lt_size_of_parent hparent)
      rw [List.length_cons] at hlen
      omega
    rw [shapeTo, holds_node, hnil]
    exact ⟨rfl, holdsUnder_nil⟩
  | depth + 1, n, l, hl, hn, hd => by
    rw [shapeTo, holds_node, List.map_map]
    refine ⟨?_, ?_⟩
    · have hlabel : Tree.label ∘ s.shapeTo depth = id := funext fun c => label_shapeTo s c depth
      rw [hlabel, List.map_id]
    · have hall : ∀ cs : List NodeId, (∀ c ∈ cs, s.parent c = some n) →
          s.HoldsUnder n (cs.map (s.shapeTo depth)) := by
        intro cs
        induction cs with
        | nil => exact fun _ => holdsUnder_nil
        | cons c cs ih =>
          intro hcs
          have hparent := hcs c (by simp)
          rw [List.map_cons, holdsUnder_cons, label_shapeTo]
          refine ⟨hparent, ?_, ih fun d hd => hcs d (by simp [hd])⟩
          refine hs.holds_shapeTo depth (.step hparent hl) (lt_size_of_parent hparent) ?_
          rw [List.length_cons]
          omega
      exact hall _ (hs.parent_eq n)

/-- The way up from a node of a shape goes through the top of the shape. -/
theorem lineage_of_mem_shapeTo (hs : s.Linked) : ∀ (depth : Nat) {n m : NodeId} {l : List NodeId},
    s.Lineage n l → m ∈ (s.shapeTo depth n).preorder → ∃ front, s.Lineage m (front ++ l)
  | 0, n, m, l, hl, hm => by
    rw [shapeTo, preorder_node, preorderAll_nil, List.mem_singleton] at hm
    exact ⟨[], hm ▸ hl⟩
  | depth + 1, n, m, l, hl, hm => by
    rw [shapeTo, preorder_node, List.mem_cons, preorderAll_eq_flatMap, List.mem_flatMap] at hm
    rcases hm with rfl | ⟨t, ht, hm⟩
    · exact ⟨[], hl⟩
    · obtain ⟨c, hc, rfl⟩ := List.mem_map.1 ht
      obtain ⟨front, hfront⟩ :=
        hs.lineage_of_mem_shapeTo depth (.step (hs.parent_eq n c hc) hl) hm
      exact ⟨front ++ [c], by simpa using hfront⟩

theorem nodup_shapeTo (hs : s.Linked) : ∀ (depth : Nat) {n : NodeId} {l : List NodeId},
    s.Lineage n l → (s.shapeTo depth n).preorder.Nodup
  | 0, n, l, _ => by
    rw [shapeTo, preorder_node, preorderAll_nil]
    simp
  | depth + 1, n, l, hl => by
    have hchild : ∀ c ∈ s.children n, s.Lineage c (c :: l) := fun c hc =>
      .step (hs.parent_eq n c hc) hl
    rw [shapeTo, preorder_node, preorderAll_eq_flatMap, List.flatMap_map, List.nodup_cons]
    refine ⟨fun hmem => ?_, List.pairwise_flatMap.2 ⟨fun c hc => ?_, ?_⟩⟩
    · obtain ⟨c, hc, hm⟩ := List.mem_flatMap.1 hmem
      obtain ⟨front, hfront⟩ := hs.lineage_of_mem_shapeTo depth (hchild c hc) hm
      have := congrArg List.length (hfront.unique hl)
      simp at this
      omega
    · exact hs.nodup_shapeTo depth (hchild c hc)
    · refine (hs.nodup n).imp_of_mem fun {c d} hc hd hcd => ?_
      -- a node below two siblings would have both at the same place of its lineage
      rintro a ha b hb rfl
      obtain ⟨front, hfront⟩ := hs.lineage_of_mem_shapeTo depth (hchild c hc) ha
      obtain ⟨front', hfront'⟩ := hs.lineage_of_mem_shapeTo depth (hchild d hd) hb
      have htails := List.append_inj_right' (hfront.unique hfront') (by simp)
      exact hcd (List.cons.inj htails).1

theorem lineage_of_mem_shape (hs : s.Linked) (hl : s.Lineage n l) (hn : n < s.size)
    (hm : m ∈ preorderAll (s.shape n).children) : ∃ front c, s.Lineage m (front ++ c :: l) := by
  have hsize : 0 < s.size := Nat.lt_of_le_of_lt (Nat.zero_le n) hn
  obtain ⟨depth, hdepth⟩ := Nat.exists_eq_succ_of_ne_zero (Nat.ne_of_gt hsize)
  rw [shape, hdepth, shapeTo, children_node, preorderAll_eq_flatMap, List.flatMap_map,
    List.mem_flatMap] at hm
  obtain ⟨c, hc, hm⟩ := hm
  obtain ⟨front, hfront⟩ := hs.lineage_of_mem_shapeTo depth (.step (hs.parent_eq n c hc) hl) hm
  exact ⟨front, c, hfront⟩

theorem holds (hs : s.Linked) (hn : n < s.size) : s.Holds (s.shape n) :=
  hs.holds_shapeTo s.size (hs.lineage hn) hn (Nat.le_add_right _ _)

/-- A node that does not stand above the root is the container of a region. -/
theorem region (hs : s.Linked) (hn : n < s.size) (hroot : root ∉ preorderAll (s.shape n).children) :
    ∃ above ts, s.lineage n = n :: above ∧ s.shape n = .node n ts ∧ s.Region above n ts := by
  have hl := hs.lineage hn
  obtain ⟨above, habove⟩ := hl.head_eq
  rw [habove] at hl
  have hholds := hs.holds hn
  have hnodup := hs.nodup_shapeTo s.size hl
  rw [shape_eq_node] at hholds
  refine ⟨above, (s.shape n).children, habove, shape_eq_node s n, hl, hholds, ?_,
    hl.lt_size hs.toAcyclic hn, hroot⟩
  rw [← shape, preorder_eq, List.nodup_cons] at hnodup
  refine List.nodup_append.2 ⟨hl.nodup, hnodup.2, ?_⟩
  rintro a ha b hb rfl
  obtain ⟨front, c, hfront⟩ := hs.lineage_of_mem_shape hl hn hb
  obtain ⟨front', rest, hsplit, hrest⟩ := hl.split ha
  have h₁ := congrArg List.length (hfront.unique hrest)
  have h₂ := congrArg List.length hsplit
  simp at h₁ h₂
  omega

theorem region_root (hs : s.Linked) :
    ∃ above ts, s.lineage root = root :: above ∧ s.shape root = .node root ts ∧
      s.Region above root ts := by
  refine hs.region hs.root_lt fun hmem => ?_
  have hnodup := hs.nodup_shapeTo s.size (hs.lineage hs.root_lt)
  rw [← shape, shape_eq_node, preorder_node, List.nodup_cons] at hnodup
  exact hnodup.1 hmem

end Linked

theorem nodup_labels {us : List (Tree NodeId)} (h : (preorderAll us).Nodup) :
    (us.map Tree.label).Nodup := by
  induction us with
  | nil => simp
  | cons u us ih =>
    rw [preorderAll_cons] at h
    obtain ⟨-, hus, hdisj⟩ := List.nodup_append.1 h
    rw [List.map_cons, List.nodup_cons]
    exact ⟨fun hmem => hdisj _ u.label_mem_preorder _ (labels_subset_preorderAll us hmem) rfl, ih hus⟩

/-! ## Changes of the store -/

/-- The nodes of grafted trees may be listed by the parent they point to. -/
theorem graftAll_listed (s : Sheet) (p : NodeId) (ts : List (Tree Entry)) :
    (∀ n ∈ (s.graftAll p ts).1, (s.graftAll p ts).2.parent n = some p) ∧
      (s.graftAll p ts).1.Nodup := by
  rw [graftAll_fst]
  refine ⟨fun n hn => ?_, nodup_labels ?_⟩
  · obtain ⟨t, ht, rfl⟩ := List.mem_map.1 hn
    exact (graftAll_holdsUnder s p ts).parent_eq ht
  · rw [preorderAll_numberAll]
    exact List.nodup_range'

namespace Linked

/-- Only links count. -/
theorem congr (h : s.Linked) (hsize : s'.size = s.size) (hparent : ∀ m, s'.parent m = s.parent m)
    (hchildren : ∀ m, s'.children m = s.children m) : s'.Linked where
  parent_lt n p hp := by
    rw [hsize]
    exact h.parent_lt n p (by rwa [hparent] at hp)
  parent_eq p c hc := by
    rw [hparent]
    exact h.parent_eq p c (by rwa [hchildren] at hc)
  nodup p := by
    rw [hchildren]
    exact h.nodup p
  ends n := by
    obtain ⟨l, hl⟩ := h.ends n
    exact ⟨l, hl.congr fun m _ => hparent m⟩
  root_lt := by
    rw [hsize]
    exact h.root_lt

theorem setContent (h : s.Linked) (n : NodeId) (c : Content) : (s.setContent n c).Linked :=
  h.congr (size_setContent ..) (fun _ => parent_setContent ..) fun _ => children_setContent ..

theorem setPosition (h : s.Linked) (n : NodeId) (position : Position) :
    (s.setPosition n position).Linked := by
  refine h.congr (size_modify ..) (fun m => ?_) fun m => ?_
  · unfold parent Sheet.setPosition
    rw [node_modify]
    split <;> rfl
  · unfold children Sheet.setPosition
    rw [node_modify]
    split <;> rfl

theorem setChildren (h : s.Linked) (hns : ∀ n ∈ ns, s.parent n = some p) (hnodup : ns.Nodup) :
    (s.setChildren p ns).Linked where
  parent_lt n p' hp := by
    rw [parent_setChildren] at hp
    rw [size_setChildren]
    exact h.parent_lt n p' hp
  parent_eq p' c hc := by
    rw [children_setChildren] at hc
    rw [parent_setChildren]
    split at hc
    · rename_i heq
      rw [← heq.1]
      exact hns c hc
    · exact h.parent_eq p' c hc
  nodup p' := by
    rw [children_setChildren]
    split
    · exact hnodup
    · exact h.nodup p'
  ends n := by
    obtain ⟨l, hl⟩ := h.ends n
    exact ⟨l, hl.congr fun m _ => parent_setChildren ..⟩
  root_lt := by
    rw [size_setChildren]
    exact h.root_lt

/-! ### New nodes -/

theorem empty : Sheet.empty.Linked := by
  have hnode : ∀ n, Sheet.empty.parent n = none ∧ Sheet.empty.children n = [] := by
    intro n
    by_cases hn : n < Sheet.empty.size
    · obtain rfl : n = 0 := Nat.lt_one_iff.1 hn
      exact ⟨rfl, rfl⟩
    · rw [parent, children, node_of_size_le (Nat.le_of_not_lt hn)]
      exact ⟨rfl, rfl⟩
  refine ⟨⟨fun n p hp => ?_, fun n => ⟨[n], .top (hnode n).1⟩⟩, fun p c hc => ?_, fun p => ?_, by decide⟩
  · rw [(hnode n).1] at hp
    cases hp
  · rw [(hnode p).2] at hc
    cases hc
  · rw [(hnode p).2]
    exact List.nodup_nil

theorem alloc (h : s.Linked) (e : Entry) (hq : ∀ p ∈ q, p < s.size) : (s.alloc e q).2.Linked := by
  have hext := Extends.alloc s e q
  have hself : (s.alloc e q).2.parent s.size = q ∧ (s.alloc e q).2.children s.size = [] := by
    rw [parent, children, node_alloc_self]
    exact ⟨rfl, rfl⟩
  -- an id is old, the new one, or not there
  have hcases : ∀ n, (s.alloc e q).2.node n = s.node n ∨ n = s.size := by
    intro n
    rcases Nat.lt_trichotomy n s.size with hn | hn | hn
    · exact .inl (hext.node_eq n hn)
    · exact .inr hn
    · refine .inl ?_
      rw [node_of_size_le (Nat.le_of_lt hn), node_of_size_le]
      rw [size_alloc]
      omega
  have hold : ∀ {n l}, s.Lineage n l → n < s.size → (s.alloc e q).2.Lineage n l := fun hl hn =>
    hl.congr fun m hm => hext.parent_eq (hl.lt_size h.toAcyclic hn m hm)
  refine ⟨⟨fun n p hp => ?_, fun n => ?_⟩, fun p c hc => ?_, fun p => ?_, ?_⟩
  · rw [size_alloc]
    rcases hcases n with hn | rfl
    · rw [parent, hn] at hp
      exact Nat.lt_succ_of_lt (h.parent_lt n p hp)
    · rw [hself.1] at hp
      exact Nat.lt_succ_of_lt (hq p hp)
  · rcases hcases n with hn | rfl
    · by_cases hlt : n < s.size
      · obtain ⟨l, hl⟩ := h.ends n
        exact ⟨l, hold hl hlt⟩
      · refine ⟨[n], .top ?_⟩
        rw [parent, hn, node_of_size_le (Nat.le_of_not_lt hlt)]
        rfl
    · cases hp : q with
      | none => exact ⟨[s.size], .top (by rw [← hp]; exact hself.1)⟩
      | some p =>
        obtain ⟨l, hl⟩ := h.ends p
        subst hp
        exact ⟨s.size :: l, .step hself.1 (hold hl (hq p rfl))⟩
  · rcases hcases p with hp | rfl
    · rw [children, hp] at hc
      have hparent := h.parent_eq p c hc
      rw [hext.parent_eq (lt_size_of_parent hparent), hparent]
    · rw [hself.2] at hc
      cases hc
  · rcases hcases p with hp | rfl
    · rw [children, hp]
      exact h.nodup p
    · rw [hself.2]
      exact List.nodup_nil
  · rw [size_alloc]
    exact Nat.lt_succ_of_lt h.root_lt

theorem append (h : s.Linked) (hp : p < s.size) (c : Content) : (s.append p c).2.Linked := by
  have hext := Extends.alloc s ⟨c, none⟩ (some p)
  have hnew := h.alloc ⟨c, none⟩ (q := some p) (by simpa using hp)
  show ((s.alloc ⟨c, none⟩ (some p)).2.setChildren p
    ((s.alloc ⟨c, none⟩ (some p)).2.children p ++ [s.size])).Linked
  rw [hext.children_eq hp]
  refine hnew.setChildren (fun n hn => ?_) ?_
  · rcases List.mem_append.1 hn with hn | hn
    · have hparent := h.parent_eq p n hn
      rw [hext.parent_eq (lt_size_of_parent hparent), hparent]
    · rw [List.mem_singleton.1 hn, parent, node_alloc_self]
  · refine List.nodup_append.2 ⟨h.nodup p, by simp, ?_⟩
    rintro a ha b hb rfl
    rw [List.mem_singleton.1 hb] at ha
    exact Nat.lt_irrefl _ (lt_size_of_parent (h.parent_eq p _ ha))

mutual

theorem graft : ∀ {s : Sheet} {q : Option NodeId} (t : Tree Entry), s.Linked →
    (∀ p ∈ q, p < s.size) → (s.graft q t).2.Linked
  | s, q, .node e ts, h, hq => by
    rw [graft_node]
    obtain ⟨hparent, hnodup⟩ := graftAll_listed (s.alloc e q).2 s.size ts
    exact (Linked.graftAll ts (h.alloc e hq) (by simp)).setChildren hparent hnodup

theorem graftAll : ∀ {s : Sheet} {p : NodeId} (ts : List (Tree Entry)), s.Linked → p < s.size →
    (s.graftAll p ts).2.Linked
  | s, p, [], h, _ => by rwa [graftAll_nil]
  | s, p, t :: ts, h, hp => by
    rw [graftAll_cons]
    refine Linked.graftAll ts (Linked.graft t h (by simpa using hp)) ?_
    rw [(graft_extends s (some p) t).size_eq]
    exact Nat.lt_add_right _ hp

end

theorem clone (h : s.Linked) (n : NodeId) (hq : ∀ p ∈ q, p < s.size) : (s.clone n q).2.Linked :=
  h.graft (s.tree n) hq

theorem ofForest (trees : List (Tree Entry)) : (ofForest trees).Linked := by
  obtain ⟨hparent, hnodup⟩ := graftAll_listed Sheet.empty root trees
  exact (Linked.empty.graftAll trees (by decide)).setChildren hparent hnodup

/-! ### Moving nodes -/

theorem remove (h : s.Linked) (n : NodeId) : (s.remove n).Linked where
  parent_lt m p hp := by
    rw [parent_remove] at hp
    rw [size_remove]
    split at hp
    · cases hp
    · exact h.parent_lt m p hp
  parent_eq p c hc := by
    rw [children_remove] at hc
    have hlisted : c ∈ s.children p ∧ n ≠ c := by
      split at hc
      · obtain ⟨hc, hne⟩ := List.mem_filter.1 hc
        exact ⟨hc, fun heq => by simp [heq] at hne⟩
      · rename_i hn
        refine ⟨hc, ?_⟩
        rintro rfl
        exact hn (h.parent_eq p n hc)
    rw [parent_remove, if_neg hlisted.2, h.parent_eq p c hlisted.1]
  nodup p := by
    rw [children_remove]
    split
    · exact (h.nodup p).filter _
    · exact h.nodup p
  ends m := by
    obtain ⟨l, hl⟩ := h.ends m
    induction hl with
    | @top m hm =>
      refine ⟨[m], .top ?_⟩
      rw [parent_remove, hm, ite_self]
    | @step m p l hm _ ih =>
      obtain ⟨l', hl'⟩ := ih
      by_cases heq : n = m
      · exact ⟨[m], .top (by rw [parent_remove, if_pos heq])⟩
      · exact ⟨m :: l', .step (by rw [parent_remove, if_neg heq, hm]) hl'⟩
  root_lt := by
    rw [size_remove]
    exact h.root_lt

theorem removeAll (h : s.Linked) : ∀ ns : List NodeId, (s.removeAll ns).Linked := by
  intro ns
  induction ns generalizing s with
  | nil => exact h
  | cons n ns ih => exact ih (h.remove n)

/-- Nodes without a parent may be given one that does not stand below any of them. -/
theorem setParents (h : s.Linked) (hfree : ∀ n ∈ ns, s.parent n = none) (hp : p < s.size)
    (hl : s.Lineage p l) (hns : ∀ n ∈ ns, n ∉ l) : (s.setParents ns p).Linked where
  parent_lt n p' hp' := by
    rw [parent_setParents] at hp'
    rw [size_setParents]
    split at hp'
    · cases hp'
      exact hp
    · exact h.parent_lt n p' hp'
  parent_eq p' c hc := by
    rw [children_setParents] at hc
    have hparent := h.parent_eq p' c hc
    rw [parent_setParents, if_neg, hparent]
    intro hmem
    rw [hfree c hmem.1] at hparent
    cases hparent
  nodup p' := by
    rw [children_setParents]
    exact h.nodup p'
  ends n := by
    have hl' : (s.setParents ns p).Lineage p l := hl.congr fun m hm => by
      rw [parent_setParents, if_neg fun hmem => hns m hmem.1 hm]
    obtain ⟨k, hk⟩ := h.ends n
    induction hk with
    | @top n hn =>
      by_cases hmem : n ∈ ns ∧ n < s.size
      · exact ⟨n :: l, .step (by rw [parent_setParents, if_pos hmem]) hl'⟩
      · exact ⟨[n], .top (by rw [parent_setParents, if_neg hmem, hn])⟩
    | @step n p' k hn _ ih =>
      obtain ⟨k', hk'⟩ := ih
      refine ⟨n :: k', .step ?_ hk'⟩
      rw [parent_setParents, if_neg, hn]
      intro hmem
      rw [hfree n hmem.1] at hn
      cases hn
  root_lt := by
    rw [size_setParents]
    exact h.root_lt

/-- Different nodes may be put before any node that does not stand below one of them. -/
theorem insertBefore {anchor : NodeId} (h : s.Linked) (hsize : ∀ n ∈ ns, n < s.size)
    (hnodup : ns.Nodup) (habove : ∀ n ∈ ns, n ∉ (s.lineage anchor).tail) :
    (s.insertBefore anchor ns).2.Linked := by
  unfold Sheet.insertBefore
  cases hparent : s.parent anchor with
  | none => exact h
  | some p =>
    have hremoved := h.removeAll ns
    have hfree : ∀ n ∈ ns, (s.removeAll ns).parent n = none := fun n hn => by
      rw [parent_removeAll, if_pos hn]
    dsimp only
    rw [← Sheet.removeAll]
    cases (s.removeAll ns).index? anchor with
    | none => exact hremoved
    | some i =>
      have hp := h.parent_lt anchor p hparent
      obtain ⟨l, hl⟩ := h.ends p
      -- the way up from the parent is that from the anchor, so none of the nodes is on it
      have hout : ∀ n ∈ ns, n ∉ l := by
        have hanchor := lt_size_of_parent hparent
        rw [(h.lineage hanchor).unique (.step hparent hl)] at habove
        exact habove
      have hl' : (s.removeAll ns).Lineage p l := hl.congr fun m hm => by
        rw [parent_removeAll, if_neg fun hmem => hout m hmem hm]
      have hset := hremoved.setParents hfree (by simpa using hp) hl' hout
      have hlisted : ∀ n ∈ (s.removeAll ns).children p, n ∉ ns := by
        intro n hn hmem
        have := hremoved.parent_eq p n hn
        rw [hfree n hmem] at this
        cases this
      have hperm : ((s.removeAll ns).children p ++ ns).Perm
          (((s.removeAll ns).children p).take i ++ ns ++ ((s.removeAll ns).children p).drop i) := by
        refine List.perm_iff_count.2 fun a => ?_
        have := congrArg (List.count a) (List.take_append_drop i ((s.removeAll ns).children p))
        simp only [List.count_append] at this ⊢
        omega
      dsimp only
      rw [← Sheet.setParents, children_setParents]
      refine hset.setChildren (fun n hn => ?_) (hperm.nodup ?_)
      · rcases List.mem_append.1 (hperm.mem_iff.2 hn) with hn | hn
        · rw [parent_setParents, if_neg fun hmem => hlisted n hn hmem.1, hremoved.parent_eq p n hn]
        · rw [parent_setParents, if_pos ⟨hn, by simpa using hsize n hn⟩]
      · refine List.nodup_append.2 ⟨hremoved.nodup p, hnodup, ?_⟩
        rintro a ha b hb rfl
        exact hlisted a ha hb

end Linked

end StyleExpand.Sheet

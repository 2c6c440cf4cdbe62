import StyleExpand.Proofs.Sheet.Store
import StyleExpand.Proofs.Tree

/-!
# Regions of a stylesheet

A region is a node, the ancestors above it, and the trees of identities below it.

* `Sheet.Holds s t` : child lists and parent links of `s` are those of the tree `t`;
* `Sheet.Lineage s n l` : following parent links from `n` leads through `l` and ends;
* `Sheet.Region s above c ts` : `c` has the ancestors `above` and the trees `ts` below it, and no
  node stands in two places; `Region.shape_eq`, `Region.lineage_eq` read it off the store.
-/

namespace StyleExpand.Sheet

open StyleExpand.Tree

/-! ## Trees of identities -/

mutual

/-- The links of a store at the nodes of a tree are those of the tree. -/
def Holds (s : Sheet) : Tree NodeId → Prop
  | .node n ts => s.children n = ts.map Tree.label ∧ s.HoldsUnder n ts

/-- Trees that stand in a store, with their tops linked to one parent. -/
def HoldsUnder (s : Sheet) (p : NodeId) : List (Tree NodeId) → Prop
  | [] => True
  | t :: ts => s.parent t.label = some p ∧ s.Holds t ∧ s.HoldsUnder p ts

end

variable {s s' : Sheet} {n m p c : NodeId} {t : Tree NodeId} {ts us xs ys : List (Tree NodeId)}
  {above : List NodeId}

@[simp] theorem holds_node : s.Holds (.node n ts) ↔
    s.children n = ts.map Tree.label ∧ s.HoldsUnder n ts := by rw [Holds]

@[simp] theorem holdsUnder_nil : s.HoldsUnder p [] := by
  rw [HoldsUnder]
  trivial

@[simp] theorem holdsUnder_cons : s.HoldsUnder p (t :: ts) ↔
    s.parent t.label = some p ∧ s.Holds t ∧ s.HoldsUnder p ts := by rw [HoldsUnder]

@[simp] theorem holdsUnder_append : s.HoldsUnder p (ts ++ us) ↔
    s.HoldsUnder p ts ∧ s.HoldsUnder p us := by
  induction ts with
  | nil => simp
  | cons t ts ih => simp [ih, and_assoc]

theorem HoldsUnder.parent_eq (h : s.HoldsUnder p ts) (ht : t ∈ ts) : s.parent t.label = some p := by
  induction ts with
  | nil => simp at ht
  | cons u us ih =>
    rw [holdsUnder_cons] at h
    rcases List.mem_cons.1 ht with rfl | ht
    · exact h.1
    · exact ih h.2.2 ht

theorem HoldsUnder.holds (h : s.HoldsUnder p ts) (ht : t ∈ ts) : s.Holds t := by
  induction ts with
  | nil => simp at ht
  | cons u us ih =>
    rw [holdsUnder_cons] at h
    rcases List.mem_cons.1 ht with rfl | ht
    · exact h.2.1
    · exact ih h.2.2 ht

mutual

theorem Holds.lt_size : ∀ {t : Tree NodeId}, s.Holds t →
    ∀ n ∈ preorderAll t.children, n < s.size
  | .node _ _, h => by
    rw [holds_node] at h
    exact HoldsUnder.lt_size h.2

theorem HoldsUnder.lt_size : ∀ {p : NodeId} {ts : List (Tree NodeId)}, s.HoldsUnder p ts →
    ∀ n ∈ preorderAll ts, n < s.size
  | _, [], _ => by simp
  | _, t :: ts, h => by
    rw [holdsUnder_cons] at h
    intro n hn
    rw [preorderAll_cons, preorder_eq, List.cons_append, List.mem_cons, List.mem_append] at hn
    rcases hn with rfl | hn | hn
    · exact lt_size_of_parent h.1
    · exact h.2.1.lt_size n hn
    · exact HoldsUnder.lt_size h.2.2 n hn

end

mutual

/-- Only the child lists of a tree and the parent links below its top matter. -/
theorem Holds.congr : ∀ {t : Tree NodeId}, s.Holds t →
    (∀ n ∈ t.preorder, s'.children n = s.children n) →
    (∀ n ∈ preorderAll t.children, s'.parent n = s.parent n) → s'.Holds t
  | .node n ts, h, hc, hp => by
    rw [holds_node] at h ⊢
    rw [hc n (by simp)]
    exact ⟨h.1, HoldsUnder.congr h.2 (fun m hm => hc m (by simp [hm])) fun m hm => hp m (by simpa)⟩

theorem HoldsUnder.congr : ∀ {p : NodeId} {ts : List (Tree NodeId)}, s.HoldsUnder p ts →
    (∀ n ∈ preorderAll ts, s'.children n = s.children n) →
    (∀ n ∈ preorderAll ts, s'.parent n = s.parent n) → s'.HoldsUnder p ts
  | _, [], _, _, _ => holdsUnder_nil
  | _, t :: ts, h, hc, hp => by
    rw [holdsUnder_cons] at h ⊢
    refine ⟨?_, ?_, ?_⟩
    · rw [hp t.label (by simp [label_mem_preorder]), h.1]
    · refine h.2.1.congr (fun n hn => hc n (by simp [hn])) fun n hn => hp n ?_
      rw [preorderAll_cons]
      exact List.mem_append_left _ (preorderAll_children_subset t hn)
    · exact HoldsUnder.congr h.2.2 (fun n hn => hc n (by simp [hn])) fun n hn => hp n (by simp [hn])

end

/-- Trees with the links of a store may be given another parent at their tops. -/
theorem HoldsUnder.reparent {q : NodeId} (h : s.HoldsUnder p ts)
    (hc : ∀ n ∈ preorderAll ts, s'.children n = s.children n)
    (hq : ∀ t ∈ ts, s'.parent t.label = some q)
    (hp : ∀ t ∈ ts, ∀ n ∈ preorderAll t.children, s'.parent n = s.parent n) :
    s'.HoldsUnder q ts := by
  induction ts with
  | nil => exact holdsUnder_nil
  | cons t ts ih =>
    rw [holdsUnder_cons] at h ⊢
    refine ⟨hq t (by simp), h.2.1.congr (fun n hn => hc n (by simp [hn])) (hp t (by simp)), ?_⟩
    exact ih h.2.2 (fun n hn => hc n (by simp [hn])) (fun u hu => hq u (by simp [hu]))
      fun u hu => hp u (by simp [hu])

mutual

/-- A store shows the tree that stands in it, if it is asked for enough levels. -/
theorem Holds.shapeTo_eq : ∀ {t : Tree NodeId} {depth : Nat}, s.Holds t → t.height ≤ depth + 1 →
    s.shapeTo depth t.label = t
  | .node n ts, 0, _, hd => by
    rw [height_eq, children_node] at hd
    cases ts with
    | nil => rfl
    | cons u us =>
      rw [heightAll_cons, height_eq] at hd
      omega
  | .node n ts, depth + 1, h, hd => by
    rw [height_eq, children_node] at hd
    rw [holds_node] at h
    rw [label_node, shapeTo, h.1, List.map_map,
      HoldsUnder.map_shapeTo_eq h.2 (Nat.le_of_succ_le_succ hd)]

theorem HoldsUnder.map_shapeTo_eq : ∀ {p : NodeId} {ts : List (Tree NodeId)} {depth : Nat},
    s.HoldsUnder p ts → heightAll ts ≤ depth + 1 → ts.map (s.shapeTo depth ∘ Tree.label) = ts
  | _, [], _, _, _ => rfl
  | _, t :: ts, depth, h, hd => by
    rw [holdsUnder_cons] at h
    rw [heightAll_cons] at hd
    rw [List.map_cons, Function.comp_apply, h.2.1.shapeTo_eq (by omega),
      HoldsUnder.map_shapeTo_eq h.2.2 (by omega)]

end

/-! ## Lineages -/

theorem exists_lineage_eq_cons (hn : n < s.size) : ∃ up, s.lineage n = n :: up := by
  unfold lineage
  cases hsize : s.size with
  | zero => exact absurd (hsize ▸ hn) (Nat.not_lt_zero n)
  | succ depth => exact ⟨_, rfl⟩

/-- Parent links lead from a node through the nodes of a list, and end. -/
inductive Lineage (s : Sheet) : NodeId → List NodeId → Prop
  | top {n : NodeId} : s.parent n = none → Lineage s n [n]
  | step {n p : NodeId} {l : List NodeId} : s.parent n = some p → Lineage s p l →
      Lineage s n (n :: l)

namespace Lineage

variable {l l' : List NodeId}

theorem head_eq (h : s.Lineage n l) : ∃ up, l = n :: up := by
  cases h with
  | top _ => exact ⟨[], rfl⟩
  | step _ _ => exact ⟨_, rfl⟩

theorem lineageTo_eq (h : s.Lineage n l) : ∀ {depth : Nat}, l.length ≤ depth →
    s.lineageTo depth n = l := by
  induction h with
  | top hp =>
    intro depth hd
    cases depth with
    | zero => simp at hd
    | succ depth => rw [lineageTo, hp]
  | step hp _ ih =>
    intro depth hd
    cases depth with
    | zero => simp at hd
    | succ depth =>
      rw [lineageTo, hp]
      simp only [ih (Nat.le_of_succ_le_succ hd)]

theorem congr (h : s.Lineage n l) (hp : ∀ m ∈ l, s'.parent m = s.parent m) : s'.Lineage n l := by
  induction h with
  | top hn => exact .top (by rw [hp _ (by simp), hn])
  | step hn _ ih =>
    exact .step (by rw [hp _ (by simp), hn]) (ih fun m hm => hp m (by simp [hm]))

end Lineage

/-! ## Regions -/

/-- A container `c` with its ancestors, the nearest first, and the trees below it, which do not hold
the root. -/
structure Region (s : Sheet) (above : List NodeId) (c : NodeId) (ts : List (Tree NodeId)) : Prop where
  lineage : s.Lineage c (c :: above)
  holds : s.Holds (.node c ts)
  nodup : (c :: above ++ preorderAll ts).Nodup
  lt_size : ∀ n ∈ c :: above, n < s.size
  root_notMem_below : root ∉ preorderAll ts

namespace Region

theorem children_eq (h : s.Region above c ts) : s.children c = ts.map Tree.label :=
  (holds_node.1 h.holds).1

theorem holdsUnder (h : s.Region above c ts) : s.HoldsUnder c ts := (holds_node.1 h.holds).2

theorem lt_size_below (h : s.Region above c ts) : ∀ n ∈ preorderAll ts, n < s.size :=
  h.holds.lt_size

theorem container_lt (h : s.Region above c ts) : c < s.size := h.lt_size c (by simp)

theorem nodup_below (h : s.Region above c ts) : (preorderAll ts).Nodup :=
  (List.nodup_append.1 h.nodup).2.1

theorem container_notMem_below (h : s.Region above c ts) : c ∉ preorderAll ts := fun hc =>
  (List.nodup_append.1 h.nodup).2.2 c (by simp) c hc rfl

theorem above_notMem_below (h : s.Region above c ts) (hn : n ∈ above) : n ∉ preorderAll ts :=
  fun hc => (List.nodup_append.1 h.nodup).2.2 n (by simp [hn]) n hc rfl

theorem container_notMem_above (h : s.Region above c ts) : c ∉ above :=
  (List.nodup_cons.1 (List.nodup_append.1 h.nodup).1).1

theorem length_le_size (h : s.Region above c ts) :
    (c :: above ++ preorderAll ts).length ≤ s.size := by
  have hsub : c :: above ++ preorderAll ts ⊆ List.range s.size := by
    intro n hn
    rw [List.mem_range]
    rcases List.mem_append.1 hn with hn | hn
    · exact h.lt_size n hn
    · exact h.lt_size_below n hn
  have := h.nodup.length_le_of_subset hsub
  rwa [List.length_range] at this

theorem lineage_eq (h : s.Region above c ts) : s.lineage c = c :: above := by
  have := h.length_le_size
  rw [List.length_append] at this
  exact h.lineage.lineageTo_eq (by omega)

theorem shape_eq (h : s.Region above c ts) : s.shape c = .node c ts := by
  have hlen := h.length_le_size
  have hheight := heightAll_le_length ts
  rw [List.length_append, List.length_cons] at hlen
  refine h.holds.shapeTo_eq ?_
  rw [height_eq, children_node]
  omega

theorem tree_eq (h : s.Region above c ts) : s.tree c = .node (s.entry c) (mapAll s.entry ts) := by
  rw [tree, h.shape_eq, map_node]

theorem forest_eq (h : s.Region above root ts) : s.forest = mapAll s.entry ts := by
  rw [forest, h.tree_eq, children_node]

theorem descendants_eq (h : s.Region above c ts) : s.descendants c = preorderAll ts := by
  rw [descendants, h.shape_eq]
  rfl

theorem heightAll_le_size (h : s.Region above c ts) : heightAll ts ≤ s.size := by
  have hlen := h.length_le_size
  have hheight := heightAll_le_length ts
  rw [List.length_append] at hlen
  omega

theorem child (h : s.Region above c (xs ++ t :: ys)) : s.Region (c :: above) t.label t.children where
  lineage := .step (h.holdsUnder.parent_eq (by simp)) h.lineage
  holds := by
    rw [eta]
    exact h.holdsUnder.holds (by simp)
  nodup := by
    have hsub : (t.preorder ++ (c :: above)).Perm (t.label :: c :: above ++ preorderAll t.children) := by
      rw [preorder_eq, List.cons_append, List.cons_append]
      exact List.Perm.cons _ List.perm_append_comm
    refine hsub.nodup ?_
    refine List.nodup_append.2 ⟨?_, (List.nodup_append.1 h.nodup).1, ?_⟩
    · have := h.nodup_below
      simp only [preorderAll_append, preorderAll_cons] at this
      exact (List.nodup_append.1 (List.nodup_append.1 this).2.1).1
    · intro a ha b hb hab
      refine (List.nodup_append.1 h.nodup).2.2 b hb a ?_ hab.symm
      simp [ha]
  lt_size := by
    intro n hn
    rcases List.mem_cons.1 hn with rfl | hn
    · exact h.lt_size_below _ (by simp [label_mem_preorder])
    · exact h.lt_size n hn
  root_notMem_below hr := h.root_notMem_below (by
    rw [preorderAll_append, preorderAll_cons, preorder_eq]
    simp [hr])

theorem congr (h : s.Region above c ts) (hsize : s.size ≤ s'.size)
    (hparent : ∀ n ∈ c :: above, s'.parent n = s.parent n) (hholds : s'.Holds (.node c us))
    (hnodup : (c :: above ++ preorderAll us).Nodup) (hroot : root ∉ preorderAll us) :
    s'.Region above c us where
  lineage := h.lineage.congr hparent
  holds := hholds
  nodup := hnodup
  lt_size n hn := Nat.lt_of_lt_of_le (h.lt_size n hn) hsize
  root_notMem_below := hroot

end Region

end StyleExpand.Sheet

import StyleExpand.Sheet.Tree

/-!
# Labels, heights and numberings of trees

* `Tree.preorder_map`, `Tree.map_congr`: document order and mapping;
* `Tree.height` : the number of levels, at most the number of labels;
* `Tree.number` : the tree of the same shape whose labels count up in document order;
* `Tree.number_eq_map` : for a tree of different labels, each is replaced by its place in that order.
-/

namespace StyleExpand.Tree

variable {α β γ : Type}

@[simp] theorem map_node (f : α → β) (a : α) (ts : List (Tree α)) :
    (Tree.node a ts).map f = .node (f a) (mapAll f ts) := by rw [map]

@[simp] theorem mapAll_nil (f : α → β) : mapAll f [] = [] := rfl

@[simp] theorem mapAll_cons (f : α → β) (t : Tree α) (ts : List (Tree α)) :
    mapAll f (t :: ts) = t.map f :: mapAll f ts := by rw [mapAll]

@[simp] theorem mapAll_append (f : α → β) (ts us : List (Tree α)) :
    mapAll f (ts ++ us) = mapAll f ts ++ mapAll f us := by
  simp only [mapAll_eq_map, List.map_append]

@[simp] theorem length_mapAll (f : α → β) (ts : List (Tree α)) :
    (mapAll f ts).length = ts.length := by
  rw [mapAll_eq_map, List.length_map]

@[simp] theorem label_node (a : α) (ts : List (Tree α)) : (Tree.node a ts).label = a := rfl

@[simp] theorem children_node (a : α) (ts : List (Tree α)) : (Tree.node a ts).children = ts := rfl

theorem eta : ∀ t : Tree α, .node t.label t.children = t
  | .node _ _ => rfl

theorem label_map (f : α → β) : ∀ t : Tree α, (t.map f).label = f t.label
  | .node a ts => by rw [map_node, label_node, label_node]

theorem children_map (f : α → β) : ∀ t : Tree α, (t.map f).children = mapAll f t.children
  | .node a ts => by rw [map_node, children_node, children_node]

/-! ## Document order -/

@[simp] theorem preorder_node (a : α) (ts : List (Tree α)) :
    (Tree.node a ts).preorder = a :: preorderAll ts := by rw [preorder]

@[simp] theorem preorderAll_nil : preorderAll ([] : List (Tree α)) = [] := rfl

@[simp] theorem preorderAll_cons (t : Tree α) (ts : List (Tree α)) :
    preorderAll (t :: ts) = t.preorder ++ preorderAll ts := by rw [preorderAll]

@[simp] theorem preorderAll_append (ts us : List (Tree α)) :
    preorderAll (ts ++ us) = preorderAll ts ++ preorderAll us := by
  simp only [preorderAll_eq_flatMap, List.flatMap_append]

theorem preorder_eq (t : Tree α) : t.preorder = t.label :: preorderAll t.children := by
  rw [← preorder_node, eta]

theorem label_mem_preorder (t : Tree α) : t.label ∈ t.preorder := by
  rw [preorder_eq]
  exact List.mem_cons_self

theorem preorder_subset_preorderAll {t : Tree α} {ts : List (Tree α)} (h : t ∈ ts) :
    t.preorder ⊆ preorderAll ts := by
  intro a ha
  rw [preorderAll_eq_flatMap]
  exact List.mem_flatMap.2 ⟨t, h, ha⟩

theorem label_mem_preorderAll {t : Tree α} {ts : List (Tree α)} (h : t ∈ ts) :
    t.label ∈ preorderAll ts :=
  preorder_subset_preorderAll h t.label_mem_preorder

theorem labels_subset_preorderAll (ts : List (Tree α)) : ts.map label ⊆ preorderAll ts := by
  intro a ha
  obtain ⟨t, ht, rfl⟩ := List.mem_map.1 ha
  exact label_mem_preorderAll ht

theorem preorderAll_children_subset (t : Tree α) : preorderAll t.children ⊆ t.preorder := by
  rw [preorder_eq]
  exact List.subset_cons_self _ _

mutual

theorem preorder_map (f : α → β) : ∀ t : Tree α, (t.map f).preorder = t.preorder.map f
  | .node a ts => by
    rw [map_node, preorder_node, preorder_node, preorderAll_mapAll f ts, List.map_cons]

theorem preorderAll_mapAll (f : α → β) : ∀ ts : List (Tree α),
    preorderAll (mapAll f ts) = (preorderAll ts).map f
  | [] => rfl
  | t :: ts => by
    rw [mapAll_cons, preorderAll_cons, preorderAll_cons, preorder_map f t,
      preorderAll_mapAll f ts, List.map_append]

end

mutual

theorem map_congr {f g : α → β} : ∀ {t : Tree α}, (∀ a ∈ t.preorder, f a = g a) → t.map f = t.map g
  | .node a ts, h => by
    rw [map_node, map_node, h a (by simp), mapAll_congr fun b hb => h b (by simp [hb])]

theorem mapAll_congr {f g : α → β} : ∀ {ts : List (Tree α)},
    (∀ a ∈ preorderAll ts, f a = g a) → mapAll f ts = mapAll g ts
  | [], _ => rfl
  | t :: ts, h => by
    rw [mapAll_cons, mapAll_cons, map_congr (t := t) fun a ha => h a (by simp [ha]),
      mapAll_congr fun a ha => h a (by simp [ha])]

end

mutual

theorem map_map (f : α → β) (g : β → γ) : ∀ t : Tree α, (t.map f).map g = t.map fun a => g (f a)
  | .node a ts => by rw [map_node, map_node, map_node, mapAll_mapAll f g ts]

theorem mapAll_mapAll (f : α → β) (g : β → γ) : ∀ ts : List (Tree α),
    mapAll g (mapAll f ts) = mapAll (fun a => g (f a)) ts
  | [] => rfl
  | t :: ts => by rw [mapAll_cons, mapAll_cons, mapAll_cons, map_map f g t, mapAll_mapAll f g ts]

end

/-! ## Heights -/

mutual

def height : Tree α → Nat
  | .node _ ts => heightAll ts + 1

def heightAll : List (Tree α) → Nat
  | [] => 0
  | t :: ts => max t.height (heightAll ts)

end

@[simp] theorem heightAll_cons (t : Tree α) (ts : List (Tree α)) :
    heightAll (t :: ts) = max t.height (heightAll ts) := by rw [heightAll]

theorem height_eq : ∀ t : Tree α, t.height = heightAll t.children + 1
  | .node _ _ => by rw [height, children_node]

theorem heightAll_children_lt {ts : List (Tree α)} {t : Tree α} (h : t ∈ ts) :
    heightAll t.children < heightAll ts := by
  induction ts with
  | nil => simp at h
  | cons u ts ih =>
    rw [heightAll_cons, height_eq]
    rcases List.mem_cons.1 h with rfl | h
    · omega
    · have := ih h
      omega

mutual

theorem height_le_length : ∀ t : Tree α, t.height ≤ t.preorder.length
  | .node a ts => by
    have h := heightAll_le_length ts
    rw [height_eq, preorder_node, List.length_cons]
    exact Nat.succ_le_succ h

theorem heightAll_le_length : ∀ ts : List (Tree α), heightAll ts ≤ (preorderAll ts).length
  | [] => Nat.le_refl 0
  | t :: ts => by
    have ht := height_le_length t
    have hts := heightAll_le_length ts
    rw [heightAll_cons, preorderAll_cons, List.length_append]
    omega

end

/-! ## Numberings -/

mutual

/-- The shape of a tree, with numbers from `k` on as labels in document order. -/
def number (k : Nat) : Tree α → Tree Nat
  | .node _ ts => .node k (numberAll (k + 1) ts)

def numberAll (k : Nat) : List (Tree α) → List (Tree Nat)
  | [] => []
  | t :: ts => t.number k :: numberAll (k + t.preorder.length) ts

end

@[simp] theorem label_number (k : Nat) : ∀ t : Tree α, (t.number k).label = k
  | .node _ _ => by rw [number, label_node]

mutual

theorem preorder_number (k : Nat) : ∀ t : Tree α,
    (t.number k).preorder = List.range' k t.preorder.length
  | .node a ts => by
    rw [number, preorder_node, preorder_node, preorderAll_numberAll (k + 1) ts, List.length_cons,
      List.range'_succ]

theorem preorderAll_numberAll (k : Nat) : ∀ ts : List (Tree α),
    preorderAll (numberAll k ts) = List.range' k (preorderAll ts).length
  | [] => rfl
  | t :: ts => by
    rw [numberAll, preorderAll_cons, preorderAll_cons, preorder_number k t,
      preorderAll_numberAll _ ts, List.length_append, ← List.range'_append_1]

end

mutual

theorem number_map (f : α → β) : ∀ (k : Nat) (t : Tree α), (t.map f).number k = t.number k
  | k, .node a ts => by rw [map_node, number, number, numberAll_mapAll f (k + 1) ts]

theorem numberAll_mapAll (f : α → β) : ∀ (k : Nat) (ts : List (Tree α)),
    numberAll k (mapAll f ts) = numberAll k ts
  | _, [] => rfl
  | k, t :: ts => by
    rw [mapAll_cons, numberAll, numberAll, number_map f k t, numberAll_mapAll f _ ts, preorder_map,
      List.length_map]

end

mutual

theorem number_eq_map [DecidableEq α] (k : Nat) : ∀ t : Tree α, t.preorder.Nodup →
    t.number k = t.map fun a => k + t.preorder.idxOf a
  | .node a ts, h => by
    rw [preorder_node, List.nodup_cons] at h
    rw [number, map_node, preorder_node, List.idxOf_cons_self, Nat.add_zero,
      numberAll_eq_mapAll (k + 1) ts h.2]
    congr 1
    apply mapAll_congr
    intro b hb
    have hne : a ≠ b := fun heq => h.1 (heq ▸ hb)
    rw [List.idxOf_cons, beq_eq_false_iff_ne.2 hne, cond_false]
    omega

theorem numberAll_eq_mapAll [DecidableEq α] (k : Nat) : ∀ ts : List (Tree α), (preorderAll ts).Nodup →
    numberAll k ts = mapAll (fun a => k + (preorderAll ts).idxOf a) ts
  | [], _ => rfl
  | t :: ts, h => by
    rw [preorderAll_cons, List.nodup_append] at h
    obtain ⟨ht, hts, hdisj⟩ := h
    rw [numberAll, mapAll_cons, preorderAll_cons, number_eq_map k t ht, numberAll_eq_mapAll _ ts hts]
    congr 1
    · apply map_congr
      intro a ha
      rw [List.idxOf_append, if_pos ha]
    · apply mapAll_congr
      intro a ha
      rw [List.idxOf_append, if_neg fun hmem => hdisj a hmem a ha rfl]
      omega

end

mutual

theorem height_number (k : Nat) : ∀ t : Tree α, (t.number k).height = t.height
  | .node a ts => by
    rw [number, height_eq, height_eq, children_node, children_node, heightAll_numberAll _ ts]

theorem heightAll_numberAll (k : Nat) : ∀ ts : List (Tree α),
    heightAll (numberAll k ts) = heightAll ts
  | [] => rfl
  | t :: ts => by
    rw [numberAll, heightAll_cons, heightAll_cons, height_number k t, heightAll_numberAll _ ts]

end

end StyleExpand.Tree

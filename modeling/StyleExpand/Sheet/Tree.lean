/-!
# Trees with labels

Ordered trees of any width, their labels in document order, and the path of child indices that
leads to each of them.
-/

namespace StyleExpand

/-- A label over an ordered list of trees. -/
inductive Tree (α : Type) where
  | node (label : α) (children : List (Tree α))

namespace Tree

variable {α β : Type}

instance [Inhabited α] : Inhabited (Tree α) := ⟨.node default []⟩

def label : Tree α → α
  | .node a _ => a

def children : Tree α → List (Tree α)
  | .node _ ts => ts

/-! ## Mapping -/

mutual

def map (f : α → β) : Tree α → Tree β
  | .node a ts => .node (f a) (mapAll f ts)

def mapAll (f : α → β) : List (Tree α) → List (Tree β)
  | [] => []
  | t :: ts => t.map f :: mapAll f ts

end

theorem mapAll_eq_map (f : α → β) : ∀ ts : List (Tree α), mapAll f ts = ts.map (map f)
  | [] => rfl
  | t :: ts => by rw [mapAll, mapAll_eq_map f ts, List.map_cons]

/-! ## Document order -/

mutual

/-- The labels in document order: a node before its children. -/
def preorder : Tree α → List α
  | .node a ts => a :: preorderAll ts

def preorderAll : List (Tree α) → List α
  | [] => []
  | t :: ts => t.preorder ++ preorderAll ts

end

theorem preorderAll_eq_flatMap : ∀ ts : List (Tree α), preorderAll ts = ts.flatMap preorder
  | [] => rfl
  | t :: ts => by rw [preorderAll, preorderAll_eq_flatMap ts, List.flatMap_cons]

/-- The labels below the root of a tree, in document order. -/
def labelsBelow (t : Tree α) : List α := preorderAll t.children

/-! ## Paths -/

mutual

/-- Every label in document order with the child indices that lead to it. -/
def withPaths (path : List Nat) : Tree α → List (List Nat × α)
  | .node a ts => (path, a) :: withPathsFrom path 0 ts

def withPathsFrom (path : List Nat) (index : Nat) : List (Tree α) → List (List Nat × α)
  | [] => []
  | t :: ts => t.withPaths (path ++ [index]) ++ withPathsFrom path (index + 1) ts

end

end Tree

end StyleExpand

import StyleExpand.Sheet.Entry
import StyleExpand.Sheet.Tree

/-!
# Stylesheets

A stylesheet is a store of nodes that keep their identity: a node has a parent link and a list of
children, it can be taken out and put elsewhere, and a node that was taken out stays in the store.
A copy may even point to a parent that does not list it.

* `Sheet.append`, `Sheet.graft`, `Sheet.clone`: new nodes;
* `Sheet.remove`, `Sheet.insertBefore`: moving nodes;
* `Sheet.lineage`: a node and its ancestors;
* `Sheet.shape` and `Sheet.tree`: what hangs below a node, as a tree.
-/

namespace StyleExpand

/-- The identity of a node in its stylesheet. Nodes are numbered in the order they were made. -/
abbrev NodeId := Nat

structure Node extends Entry where
  parent : Option NodeId
  children : List NodeId
  deriving DecidableEq

instance : Inhabited Node := ⟨⟨default, none, []⟩⟩

structure Sheet where
  nodes : Array Node
  deriving DecidableEq

namespace Sheet

def root : NodeId := 0

/-- The stylesheet with nothing but its root. -/
def empty : Sheet := ⟨#[⟨⟨.root, none⟩, none, []⟩]⟩

instance : Inhabited Sheet := ⟨empty⟩

def size (s : Sheet) : Nat := s.nodes.size

/-! ## Looking at nodes -/

def node (s : Sheet) (n : NodeId) : Node := s.nodes.getD n default

def entry (s : Sheet) (n : NodeId) : Entry := (s.node n).toEntry

def content (s : Sheet) (n : NodeId) : Content := (s.node n).content

def position (s : Sheet) (n : NodeId) : Option Position := (s.node n).position

def parent (s : Sheet) (n : NodeId) : Option NodeId := (s.node n).parent

def children (s : Sheet) (n : NodeId) : List NodeId := (s.node n).children

/-! ## Changing nodes -/

def modify (s : Sheet) (n : NodeId) (f : Node → Node) : Sheet := ⟨s.nodes.modify n f⟩

@[simp] theorem size_modify (s : Sheet) (n : NodeId) (f : Node → Node) :
    (s.modify n f).size = s.size := by simp [modify, size]

theorem node_modify (s : Sheet) (n m : NodeId) (f : Node → Node) :
    (s.modify n f).node m = if n = m ∧ m < s.size then f (s.node m) else s.node m := by
  unfold modify node size
  by_cases hm : m < s.nodes.size
  · by_cases hn : n = m <;> simp [Array.getElem_modify, hm, hn]
  · simp [hm]

def setContent (s : Sheet) (n : NodeId) (content : Content) : Sheet :=
  s.modify n fun node => { node with content := content }

def setPosition (s : Sheet) (n : NodeId) (position : Position) : Sheet :=
  s.modify n fun node => { node with position := some position }

def setParent (s : Sheet) (n : NodeId) (parent : Option NodeId) : Sheet :=
  s.modify n fun node => { node with parent := parent }

def setChildren (s : Sheet) (n : NodeId) (children : List NodeId) : Sheet :=
  s.modify n fun node => { node with children := children }

/-! ## New nodes -/

/-- A new node with a parent link, in no list of children. -/
def alloc (s : Sheet) (entry : Entry) (parent : Option NodeId) : NodeId × Sheet :=
  (s.size, ⟨s.nodes.push ⟨entry, parent, []⟩⟩)

/-- A new last child. -/
def append (s : Sheet) (parent : NodeId) (content : Content) : NodeId × Sheet :=
  let (n, s) := s.alloc ⟨content, none⟩ (some parent)
  (n, s.setChildren parent (s.children parent ++ [n]))

mutual

/-- New nodes for a whole tree, numbered in document order; the top one is in no list of children. -/
def graft (s : Sheet) (parent : Option NodeId) : Tree Entry → NodeId × Sheet
  | .node entry trees =>
    let (n, s) := s.alloc entry parent
    let (ns, s) := s.graftAll n trees
    (n, s.setChildren n ns)

def graftAll (s : Sheet) (parent : NodeId) : List (Tree Entry) → List NodeId × Sheet
  | [] => ([], s)
  | t :: ts =>
    let (n, s) := s.graft (some parent) t
    let (ns, s) := s.graftAll parent ts
    (n :: ns, s)

end

/-- The stylesheet with the given trees below its root. -/
def ofForest (trees : List (Tree Entry)) : Sheet :=
  let (ns, s) := empty.graftAll root trees
  s.setChildren root ns

/-! ## Trees below a node -/

/-- The identities at and below a node, `depth` levels down. -/
def shapeTo (s : Sheet) : Nat → NodeId → Tree NodeId
  | 0, n => .node n []
  | depth + 1, n => .node n ((s.children n).map (s.shapeTo depth))

/-- The identities at and below a node. No branch is longer than the store. -/
def shape (s : Sheet) (n : NodeId) : Tree NodeId := s.shapeTo s.size n

/-- The tree at a node. -/
def tree (s : Sheet) (n : NodeId) : Tree Entry := (s.shape n).map s.entry

/-- The nodes below a node in document order. -/
def descendants (s : Sheet) (n : NodeId) : List NodeId := (s.shape n).labelsBelow

/-- The trees below the root. -/
def forest (s : Sheet) : List (Tree Entry) := (s.tree root).children

/-- A copy of everything at and below a node; the copy has a parent link but is in no list. -/
def clone (s : Sheet) (n : NodeId) (parent : Option NodeId) : NodeId × Sheet :=
  s.graft parent (s.tree n)

/-! ## Ancestors and siblings -/

/-- A node and at most `depth - 1` of its ancestors, the nearest first. -/
def lineageTo (s : Sheet) : Nat → NodeId → List NodeId
  | 0, _ => []
  | depth + 1, n =>
    n :: match s.parent n with
      | some p => s.lineageTo depth p
      | none => []

/-- A node and its ancestors, the nearest first. -/
def lineage (s : Sheet) (n : NodeId) : List NodeId := s.lineageTo s.size n

/-- The place of a node in the list of its parent. -/
def index? (s : Sheet) (n : NodeId) : Option Nat :=
  match s.parent n with
  | some p => (s.children p).findIdx? (· == n)
  | none => none

def nextSibling? (s : Sheet) (n : NodeId) : Option NodeId :=
  match s.parent n, s.index? n with
  | some p, some i => (s.children p)[i + 1]?
  | _, _ => none

/-- Whether the parent of a node lists it; the root always counts. -/
def isAttached (s : Sheet) (n : NodeId) : Bool := n == root || (s.index? n).isSome

/-! ## Moving nodes -/

/-- Takes a node out of its place. -/
def remove (s : Sheet) (n : NodeId) : Sheet :=
  match s.parent n with
  | none => s
  | some p =>
    let s := s.setParent n none
    s.setChildren p ((s.children p).filter (· != n))

/--
Moves nodes in front of an anchor and says how many were put there. They are taken out of their
places first; without a place for the anchor after that, none is put anywhere.
-/
def insertBefore (s : Sheet) (anchor : NodeId) (nodes : List NodeId) : Nat × Sheet :=
  match s.parent anchor with
  | none => (0, s)
  | some p =>
    let s := nodes.foldl remove s
    match s.index? anchor with
    | none => (0, s)
    | some i =>
      let s := nodes.foldl (fun s n => s.setParent n (some p)) s
      let siblings := s.children p
      (nodes.length, s.setChildren p (siblings.take i ++ nodes ++ siblings.drop i))

end Sheet

end StyleExpand

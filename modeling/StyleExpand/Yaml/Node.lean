import StyleExpand.Yaml.Token

/-!
# Documents of YAML

A document is one node: a scalar, a sequence, a mapping, or an alias of a node with an anchor.

* `Document.read?`: the document of a text that holds at most one;
* `Document.follow?`: the node that an alias stands for.

Anchors are numbered. A new anchor takes the number of different names that were given before it, so
a name that is given again, and the next new name after it, have one number.
-/

namespace StyleExpand.Yaml

/-- What may stand in front of a node. -/
structure Properties where
  anchor : Option Nat
  tag : Option String

inductive Node where
  | alias (anchor : Nat)
  | scalar (properties : Properties) (text : String) (style : Style)
  | sequence (properties : Properties) (items : List Node)
  | mapping (properties : Properties) (entries : List (Node × Node))

namespace Node

/-- The scalar where a node is left out. -/
def empty : Node := .scalar ⟨none, none⟩ "" .plain

/-- The number of a node's anchor. -/
def anchor? : Node → Option Nat
  | .alias _ => none
  | .scalar p _ _ => p.anchor
  | .sequence p _ => p.anchor
  | .mapping p _ => p.anchor

mutual

/-- A node and all nodes in it, in the order in which they start. -/
def preorder : Node → List Node
  | .alias n => [.alias n]
  | .scalar p text style => [.scalar p text style]
  | .sequence p items => .sequence p items :: preorderItems items
  | .mapping p entries => .mapping p entries :: preorderEntries entries

def preorderItems : List Node → List Node
  | [] => []
  | item :: items => preorder item ++ preorderItems items

def preorderEntries : List (Node × Node) → List Node
  | [] => []
  | (key, value) :: entries => preorder key ++ preorder value ++ preorderEntries entries

end

end Node

/-! ## Nodes from tokens -/

/-- Tokens that are left, and the anchors so far. -/
structure Builder where
  tokens : List Token
  /-- The latest number of each name. -/
  anchors : List (List Char × Nat)

/-- A step that takes tokens, or fails. -/
abbrev Build := StateT Builder Option

namespace Build

def fail {α : Type} : Build α := fun _ => none

def peek : Build (Option Token) := return (← get).tokens.head?

def drop : Build Unit := modify fun b => { b with tokens := b.tokens.tail }

/-- Whether the next token is one of some tokens. -/
def at? (tokens : List Token) : Build Bool := return (← peek).any (· ∈ tokens)

/-- Takes the next token if it is the given one. -/
def take? (token : Token) : Build Bool := do
  if ← at? [token] then
    drop
    return true
  else return false

/-- Numbers a new anchor. -/
def declare (name : List Char) : Build Nat := do
  let b ← get
  let number := b.anchors.length
  set { b with anchors := (name, number) :: b.anchors.filter (·.1 != name) }
  return number

/-- The number of an anchor that was given before. -/
def number (name : List Char) : Build Nat := do
  match (← get).anchors.lookup name with
  | some n => return n
  | none => fail

def anchor? : Build (Option (List Char)) := do
  match ← peek with
  | some (.anchor name) => drop; return some name
  | _ => return none

def tag? : Build (Option Tag) := do
  match ← peek with
  | some (.tag tag) => drop; return some tag
  | _ => return none

/-- An anchor and a tag in either order, both of them optional. -/
def properties (handles : Handles) : Build Properties := do
  let before ← anchor?
  let tag ← tag?
  let anchor ← if before.isSome then pure before else anchor?
  let full ← match tag with
    | some tag =>
      match handles.expand? tag with
      | some name => pure (some name)
      | none => fail
    | none => pure none
  let number ← match anchor with
    | some name => some <$> declare name
    | none => pure none
  return ⟨number, full⟩

/-- The tag of a scalar that has content: a mark alone counts as none. -/
def scalarTag (tag : Option String) : Option String := tag.filter (· != "!")

/-- The ends of an entry in a block mapping. -/
def entryEnds : List Token := [.key, .value, .blockEnd]

variable (handles : Handles)

mutual

/-- A node; block collections only where `block` holds, and bare entries where `bare` does. -/
def node : Nat → (block bare : Bool) → Build Node
  | 0, _, _ => fail
  | fuel + 1, block, bare => do
    if let some (.alias name) ← peek then
      drop
      return .alias (← number name)
    else
      let p ← properties handles
      match ← peek with
      | some (.scalar text style) =>
        drop
        return .scalar { p with tag := scalarTag p.tag } (String.ofList text) style
      | some .flowSequence => drop; return .sequence p (← flowItems fuel true)
      | some .flowMapping => drop; return .mapping p (← flowEntries fuel true)
      | next =>
        if bare && next == some .blockEntry then return .sequence p (← bareItems fuel)
        else if block && next == some .blockSequence then
          drop
          return .sequence p (← blockItems fuel)
        else if block && next == some .blockMapping then
          drop
          return .mapping p (← blockEntries fuel)
        else if p.anchor.isSome || p.tag.isSome then return .scalar p "" .plain
        else fail

/-- A node, or the empty one if one of some tokens is next. -/
def nodeUnless : Nat → List Token → (block bare : Bool) → Build Node
  | 0, _, _, _ => fail
  | fuel + 1, ends, block, bare => do
    if ← at? ends then return .empty else node fuel block bare

/-- A node behind a colon, or the empty one. -/
def valueUnless : Nat → List Token → (block : Bool) → Build Node
  | 0, _, _ => fail
  | fuel + 1, ends, block => do
    if ← take? .value then nodeUnless fuel ends block block else return .empty

/-- The items of a block sequence. -/
def blockItems : Nat → Build (List Node)
  | 0 => fail
  | fuel + 1 => do
    if ← take? .blockEntry then
      let item ← nodeUnless fuel [.blockEntry, .blockEnd] true false
      return item :: (← blockItems fuel)
    else if ← take? .blockEnd then return []
    else fail

/-- The items of a sequence that stands at the column of its mapping. -/
def bareItems : Nat → Build (List Node)
  | 0 => fail
  | fuel + 1 => do
    if ← take? .blockEntry then
      let item ← nodeUnless fuel (.blockEntry :: entryEnds) true false
      return item :: (← bareItems fuel)
    else return []

/-- The entries of a block mapping. -/
def blockEntries : Nat → Build (List (Node × Node))
  | 0 => fail
  | fuel + 1 => do
    if ← take? .key then
      let key ← nodeUnless fuel entryEnds true true
      let value ← valueUnless fuel entryEnds true
      return (key, value) :: (← blockEntries fuel)
    else if ← take? .blockEnd then return []
    else fail

/-- The items of a sequence in brackets; a comma stands between two of them and may end them. -/
def flowItems : Nat → (first : Bool) → Build (List Node)
  | 0, _ => fail
  | fuel + 1, first => do
    if ← take? .flowSequenceEnd then return []
    else if first || (← take? .flowEntry) then
      if ← take? .flowSequenceEnd then return []
      else if ← take? .key then
        let entry ← singleEntry fuel
        return .mapping ⟨none, none⟩ [entry] :: (← flowItems fuel false)
      else
        let item ← node fuel false false
        return item :: (← flowItems fuel false)
    else fail

/-- The entry of a mapping without brackets in a sequence. An empty key takes the next token. -/
def singleEntry : Nat → Build (Node × Node)
  | 0 => fail
  | fuel + 1 => do
    let ends := [Token.flowEntry, Token.flowSequenceEnd]
    let key ←
      if ← at? (.value :: ends) then
        drop
        pure Node.empty
      else node fuel false false
    return (key, ← valueUnless fuel ends false)

/-- The entries of a mapping in brackets. -/
def flowEntries : Nat → (first : Bool) → Build (List (Node × Node))
  | 0, _ => fail
  | fuel + 1, first => do
    let ends := [Token.flowEntry, Token.flowMappingEnd]
    if ← take? .flowMappingEnd then return []
    else if first || (← take? .flowEntry) then
      if ← take? .flowMappingEnd then return []
      else if ← take? .key then
        let key ← nodeUnless fuel (.value :: ends) false false
        let value ← valueUnless fuel ends false
        return (key, value) :: (← flowEntries fuel false)
      else
        let key ← node fuel false false
        return (key, .empty) :: (← flowEntries fuel false)
    else fail

end

end Build

/-! ## Documents -/

structure Document where
  root : Node

namespace Document

/-- The directives at the start, and the tokens behind them. -/
def directives : List Token → List Directive × List Token
  | .directive d :: tokens =>
    let (more, rest) := directives tokens
    (d :: more, rest)
  | tokens => ([], tokens)

/-- The root of a document whose tokens start here. -/
def rootFrom (handles : Handles) (marked : Bool) (tokens : List Token) : Option (Node × Builder) :=
  let leftOut := match tokens with
    | [] => true
    | .directive _ :: _ => true
    | .documentStart :: _ => true
    | .documentEnd :: _ => true
    | _ => false
  if marked && leftOut then some (.empty, ⟨tokens, []⟩)
  else (Build.node handles (4 * tokens.length + 4) true false).run ⟨tokens, []⟩

/--
The document that tokens hold, if there is one. Directives need a mark behind them, and nothing but
marks may follow the document.
-/
def ofTokens? (tokens : List Token) : Option (Option Document) := do
  if tokens.isEmpty then return none
  let (lines, rest) := directives tokens
  let handles ← Handles.ofDirectives? lines
  let (node, b) ← match rest with
    | .documentStart :: rest => rootFrom handles true rest
    | rest => if lines.isEmpty then rootFrom handles false rest else none
  if b.tokens.all (· == .documentEnd) then return some ⟨node⟩ else none

/-- The document of a text that holds at most one. -/
def read? (cs : List Char) : Option (Option Document) := (Token.scan? cs).bind ofTokens?

/-- A node itself, or the one that it is an alias of: the last node whose anchor has that number. -/
def follow? (d : Document) : Node → Option Node
  | .alias n => d.root.preorder.reverse.find? (·.anchor? == some n)
  | node => some node

end Document

end StyleExpand.Yaml

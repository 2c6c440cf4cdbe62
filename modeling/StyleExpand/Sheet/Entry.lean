/-!
# What stands at a node of a stylesheet

The content of a node, and the place in the source where it starts.
-/

namespace StyleExpand

/-- A place in a source: a line and a column, both counted from one in characters. They have no bound
here; in a source of fewer than `2 ^ 32 - 1` characters both fit in 32 bits. -/
structure Position where
  line : Nat
  column : Nat
  deriving DecidableEq

namespace Position

def start : Position := ⟨1, 1⟩

/-- The place after a character: a line feed starts a line. -/
def step (p : Position) (c : Char) : Position :=
  if c = '\n' then ⟨p.line + 1, 1⟩ else ⟨p.line, p.column + 1⟩

/-- The place after a text. -/
def advance (p : Position) (cs : List Char) : Position := cs.foldl step p

@[simp] theorem advance_nil (p : Position) : p.advance [] = p := rfl

@[simp] theorem advance_cons (p : Position) (c : Char) (cs : List Char) :
    p.advance (c :: cs) = (p.step c).advance cs := rfl

theorem advance_append (p : Position) (xs ys : List Char) :
    p.advance (xs ++ ys) = (p.advance xs).advance ys :=
  List.foldl_append ..

def text (p : Position) : String := toString p.line ++ ":" ++ toString p.column

end Position

/-- The content of a node; an at-rule ends in a semicolon or has a block. -/
inductive Content where
  | root
  | rule (selector : String)
  | atRule (name params : String) (block : Bool)
  | declaration (property value : String)
  | comment (text : String)
  deriving DecidableEq

namespace Content

instance : Inhabited Content := ⟨.root⟩

/-- The short name of a kind of content. -/
def label : Content → String
  | .root => "root"
  | .rule _ => "rule"
  | .atRule _ _ _ => "atrule"
  | .declaration _ _ => "decl"
  | .comment _ => "comment"

def atRuleName? : Content → Option String
  | .atRule name _ _ => some name
  | _ => none

end Content

/-- The content of a node and where it was found, if it was found anywhere. -/
structure Entry where
  content : Content
  position : Option Position
  deriving DecidableEq

instance : Inhabited Entry := ⟨⟨.root, none⟩⟩

end StyleExpand

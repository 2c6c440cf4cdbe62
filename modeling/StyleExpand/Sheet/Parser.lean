import StyleExpand.Sheet.Basic
import StyleExpand.Sheet.Token

/-!
# Reading a stylesheet

`nest` builds the trees of a row of tokens, with the open blocks on a stack. `Sheet.parse` reads a
source into a stylesheet whose nodes are numbered in the order of the source.
-/

namespace StyleExpand

/-- An open block: what opened it, and the trees before it in the block around, the last one first. -/
structure Frame where
  entry : Entry
  before : List (Tree Entry)

/--
The trees of the remaining tokens. `done` holds the finished trees of the innermost open block, the
last one first, and `frames` the open blocks, the innermost first.
-/
def nest (ending : Ending) : List Located → List (Tree Entry) → List Frame →
    Except ParseError (List (Tree Entry))
  | [], done, frames =>
    match ending, frames with
    | .failed error, _ => .error error
    | .finished _, [] => .ok done.reverse
    | .finished p, _ :: _ => .error ⟨p, .unclosedBlock⟩
  | ⟨p, .leaf content⟩ :: tokens, done, frames =>
    nest ending tokens (.node ⟨content, some p⟩ [] :: done) frames
  | ⟨p, .opening content⟩ :: tokens, done, frames =>
    nest ending tokens [] (⟨⟨content, some p⟩, done⟩ :: frames)
  | ⟨p, .closing⟩ :: _, _, [] => .error ⟨p, .unexpectedClose⟩
  | ⟨_, .closing⟩ :: tokens, done, frame :: frames =>
    nest ending tokens (.node frame.entry done.reverse :: frame.before) frames

/-- The trees of a source. -/
def parseForest (cs : List Char) : Except ParseError (List (Tree Entry)) :=
  let (tokens, ending) := Token.scan .start cs
  nest ending tokens [] []

/-- The stylesheet of a source. -/
def Sheet.parse (source : String) : Except ParseError Sheet :=
  (parseForest source.toList).map Sheet.ofForest

end StyleExpand

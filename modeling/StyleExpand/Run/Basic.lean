import StyleExpand.Reference
import StyleExpand.Report
import StyleExpand.Scope

/-!
# The state of a run

A run holds the stylesheet it works on, the scopes and the events so far.

* `Run.interpolate`: a text with its references resolved at a node;
* `Run.assign`: an assignment at a node;
* the other changes of the stylesheet and of the scopes, each touching one part of the state.
-/

namespace StyleExpand

structure Run where
  sheet : Sheet
  scopes : Scopes
  events : Array Event

namespace Run

instance : Inhabited Run := ⟨⟨default, default, #[]⟩⟩

/-- A stylesheet before anything happened to it. -/
def start (sheet : Sheet) : Run := ⟨sheet, .empty, #[]⟩

/-- The warnings so far, in order. -/
def warnings (r : Run) : List Warning := r.events.toList.filterMap Event.warning?

/-! ## Changes -/

def report (r : Run) (event : Event) : Run := { r with events := r.events.push event }

def note (r : Run) (n : Note) : Run := r.report (.note n)

def setContent (r : Run) (n : NodeId) (content : Content) : Run :=
  { r with sheet := r.sheet.setContent n content }

/-- Takes a node out of the stylesheet. -/
def remove (r : Run) (n : NodeId) : Run := { r with sheet := r.sheet.remove n }

def discard (r : Run) (n : NodeId) : Run := { r with scopes := r.scopes.discard n }

def bind (r : Run) (n : NodeId) (name : String) (value : Value) : Run :=
  { r with scopes := r.scopes.bind n name value }

/-- Moves nodes in front of an anchor and says how many were put there. -/
def insertBefore (r : Run) (anchor : NodeId) (nodes : List NodeId) : Nat × Run :=
  let (count, sheet) := r.sheet.insertBefore anchor nodes
  (count, { r with sheet := sheet })

/-! ## Texts -/

/-- The value of a name at a node. -/
def lookup (r : Run) (n : NodeId) (name : String) : Option Value := r.scopes.lookup r.sheet n name

def warn (r : Run) (location : NodeId) (text name : String) : Run :=
  r.report (.warning ⟨name, text, location, r.sheet.position location⟩)

/-- Resolves the references of a text at the node `scope`, and warns of the others at `location`. -/
def interpolate (r : Run) (warns : Bool) (scope location : NodeId) (text : String) : String × Run :=
  let done := substitute (r.lookup scope) text.toList
  (String.ofList done.text,
    if warns then done.unresolved.foldl (fun r name => r.warn location text name) r else r)

/-- Assigns a text to a name at a node. -/
def assign (r : Run) (n : NodeId) (name raw : String) : Run :=
  let (scopes, assigned) := r.scopes.assign r.sheet n name raw
  if assigned then { r with scopes := scopes } else r.note (.keptValue name)

end Run

end StyleExpand

import Std.Data.TreeMap
import StyleExpand.Sheet.Basic
import StyleExpand.Value.Basic

/-!
# Scopes

Variables are bound at nodes and looked up at a node, then at its ancestors. Which nodes those are
is read from the stylesheet at the time of the look-up.

* `Scopes.lookup`: the nearest binding of a name;
* `Scopes.bind`, `Scopes.install`, `Scopes.discard`: changes at one node;
* `Scopes.assign`: an assignment, which a `!default` marker makes yield to any earlier one.
-/

namespace StyleExpand

/-- The bindings at one node, sorted by name. -/
abbrev Scope := Std.TreeMap String Value

/-- The nodes that have bindings. -/
structure Scopes where
  table : Std.TreeMap NodeId Scope

namespace Scopes

def empty : Scopes := ⟨∅⟩

instance : Inhabited Scopes := ⟨empty⟩

/-- The scope at a node, if anything was ever bound there. -/
def scope? (t : Scopes) (n : NodeId) : Option Scope := t.table[n]?

/-- The number of nodes with a scope. -/
def size (t : Scopes) : Nat := t.table.size

/-- The value of a name at one node. -/
def at? (t : Scopes) (n : NodeId) (name : String) : Option Value :=
  (t.scope? n).bind fun scope => scope[name]?

/-- The value of a name at a node or at its nearest ancestor that binds it. -/
def lookup (t : Scopes) (s : Sheet) (n : NodeId) (name : String) : Option Value :=
  (s.lineage n).findSome? fun m => t.at? m name

/-! ## Changes -/

/-- A copy of the bindings at a node, empty where there is no scope. -/
def snapshot (t : Scopes) (n : NodeId) : Scope := (t.scope? n).getD ∅

/-- Gives a node the scope `scope` in place of any that it had. -/
def install (t : Scopes) (n : NodeId) (scope : Scope) : Scopes := ⟨t.table.insert n scope⟩

def bind (t : Scopes) (n : NodeId) (name : String) (value : Value) : Scopes :=
  t.install n ((t.snapshot n).insert name value)

def discard (t : Scopes) (n : NodeId) : Scopes := ⟨t.table.erase n⟩

theorem scope?_install (t : Scopes) (n m : NodeId) (scope : Scope) :
    (t.install n scope).scope? m = if n = m then some scope else t.scope? m := by
  unfold install scope?
  rw [Std.TreeMap.getElem?_insert]
  simp only [Std.LawfulEqCmp.compare_eq_iff_eq]

theorem scope?_discard (t : Scopes) (n m : NodeId) :
    (t.discard n).scope? m = if n = m then none else t.scope? m := by
  unfold discard scope?
  rw [Std.TreeMap.getElem?_erase]
  simp only [Std.LawfulEqCmp.compare_eq_iff_eq]

theorem at?_bind (t : Scopes) (n m : NodeId) (x y : String) (v : Value) :
    (t.bind n x v).at? m y = if n = m ∧ x = y then some v else t.at? m y := by
  unfold bind at? snapshot
  rw [scope?_install]
  by_cases hn : n = m
  · subst hn
    simp only [↓reduceIte, Option.bind_some, Std.TreeMap.getElem?_insert,
      Std.LawfulEqCmp.compare_eq_iff_eq, true_and]
    cases t.scope? n <;> simp
  · simp [hn]

/-! ## Assignments -/

def defaultMarker : List Char := "!default".toList

/-- The text before a marker at the very end that blanks set apart, without those blanks. -/
def beforeMarker? (cs : List Char) : Option (List Char) :=
  match Text.beforeEnd defaultMarker cs with
  | none => none
  | some front =>
    let value := Text.trimEnd front
    if value.length < front.length then some value else none

/--
Assigns a text to a name at a node, read as a list literal, and says whether the assignment took
place: a default one does not where the name already has a value.
-/
def assign (t : Scopes) (s : Sheet) (n : NodeId) (name : String) (raw : String) : Scopes × Bool :=
  match beforeMarker? raw.toList with
  | none => (t.bind n name (.ofText raw), true)
  | some value =>
    if (t.lookup s n name).isSome then (t, false)
    else (t.bind n name (.literal true value), true)

end Scopes

end StyleExpand

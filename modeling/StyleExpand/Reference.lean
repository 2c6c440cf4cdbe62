import StyleExpand.Text.Word
import StyleExpand.Value.Basic

/-!
# References to variables

A text refers to a variable as `#{$name}`, `$(name)` or `$name`. References are found from left to
right and do not overlap; a backslash before one makes it plain text.

* `Reference.read?`: the reference at the start of a text;
* `segments`: a text cut into references and the characters between them;
* `substitute`: the text with the values in place, and the names that have none.
-/

namespace StyleExpand

/-- The three ways to write a reference. -/
inductive ReferenceForm where
  | braced
  | parenthesized
  | bare
  deriving DecidableEq

structure Reference where
  form : ReferenceForm
  name : List Char
  deriving DecidableEq

namespace Reference

/-- A reference as it is written. -/
def write (r : Reference) : List Char :=
  match r.form with
  | .braced => '#' :: '{' :: '$' :: (r.name ++ ['}'])
  | .parenthesized => '$' :: '(' :: (r.name ++ [')'])
  | .bare => '$' :: r.name

/-- The longest name at the start of a text, and what follows. -/
def name? : List Char → Option (List Char × List Char)
  | [] => none
  | c :: cs =>
    if Text.isNameStart c then
      some (c :: cs.takeWhile Text.isNameChar, cs.dropWhile Text.isNameChar)
    else none

/-- A reference in the given form, if what follows its name is the closing character. -/
def closed? (form : ReferenceForm) (closer : Char) (cs : List Char) :
    Option (Reference × List Char) :=
  match name? cs with
  | some (name, c :: rest) => if c = closer then some (⟨form, name⟩, rest) else none
  | _ => none

/-- The reference at the start of a text, and what follows it. -/
def read? : List Char → Option (Reference × List Char)
  | '#' :: '{' :: '$' :: cs => closed? .braced '}' cs
  | '$' :: '(' :: cs => closed? .parenthesized ')' cs
  | '$' :: cs => (name? cs).map fun found => (⟨.bare, found.1⟩, found.2)
  | _ => none

theorem name?_append {cs name rest : List Char} (h : name? cs = some (name, rest)) :
    name ++ rest = cs := by
  cases cs with
  | nil => simp [name?] at h
  | cons c cs =>
    rw [name?] at h
    split at h
    · obtain ⟨rfl, rfl⟩ := Prod.mk.inj (Option.some.inj h)
      rw [List.cons_append, List.takeWhile_append_dropWhile]
    · simp at h

theorem closed?_append {form : ReferenceForm} {closer : Char} {cs rest : List Char} {r : Reference}
    (h : closed? form closer cs = some (r, rest)) :
    r.form = form ∧ r.name ++ closer :: rest = cs := by
  unfold closed? at h
  split at h
  · rename_i hname
    split at h
    · rename_i hc
      obtain ⟨rfl, rfl⟩ := Prod.mk.inj (Option.some.inj h)
      subst hc
      exact ⟨rfl, name?_append hname⟩
    · simp at h
  · simp at h

/-- A reference as it is written, and what follows it, make up the text. -/
theorem read?_append {cs rest : List Char} {r : Reference} (h : read? cs = some (r, rest)) :
    r.write ++ rest = cs := by
  unfold read? at h
  split at h
  · obtain ⟨hform, hcs⟩ := closed?_append h
    simp [write, hform, ← hcs]
  · obtain ⟨hform, hcs⟩ := closed?_append h
    simp [write, hform, ← hcs]
  · obtain ⟨found, hfound, heq⟩ := Option.map_eq_some_iff.1 h
    obtain ⟨rfl, rfl⟩ := Prod.mk.inj heq
    simp [write, name?_append hfound]
  · simp at h

theorem write_ne_nil (r : Reference) : r.write ≠ [] := by
  unfold write
  split <;> simp

theorem length_rest_lt {cs rest : List Char} {r : Reference} (h : read? cs = some (r, rest)) :
    rest.length < cs.length := by
  have hpos := List.length_pos_iff.2 r.write_ne_nil
  rw [← read?_append h, List.length_append]
  omega

end Reference

/-! ## Segments -/

/-- A part of a text: characters that stand for themselves, or a reference. -/
inductive Segment where
  | plain (text : List Char)
  | reference (r : Reference)
  deriving DecidableEq

def Segment.write : Segment → List Char
  | .plain text => text
  | .reference r => r.write

/-- The segments of a text; `escaped` says that a backslash stands right before it. -/
def segments (escaped : Bool) : List Char → List Segment
  | [] => []
  | c :: cs =>
    match hread : Reference.read? (c :: cs) with
    | none => .plain [c] :: segments (c == '\\') cs
    | some (r, rest) =>
      have : rest.length < cs.length + 1 := Reference.length_rest_lt hread
      (if escaped then .plain r.write else .reference r) :: segments false rest
termination_by cs => cs.length

/-! ## Substitution -/

/-- A text after substitution, and the names in it that had no value, in order. -/
structure Substitution where
  text : List Char
  unresolved : List String
  deriving DecidableEq

/-- Puts the text of its value in the place of each reference; one without a value stays. -/
def substituteAll (lookup : String → Option Value) : List Segment → Substitution
  | [] => ⟨[], []⟩
  | .plain text :: rest =>
    let done := substituteAll lookup rest
    ⟨text ++ done.text, done.unresolved⟩
  | .reference r :: rest =>
    let done := substituteAll lookup rest
    let name := String.ofList r.name
    match lookup name with
    | some value => ⟨value.write ++ done.text, done.unresolved⟩
    | none => ⟨r.write ++ done.text, name :: done.unresolved⟩

def substitute (lookup : String → Option Value) (cs : List Char) : Substitution :=
  substituteAll lookup (segments false cs)

end StyleExpand

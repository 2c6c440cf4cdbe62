import StyleExpand.Value.Nesting

/-!
# Values of variables

A variable holds a text or a list of values. `Value.literal` reads a list literal such as
`(a, b), c`, `Value.render` writes a value where it is referred to, and `Value.elements` are the
values that a loop over it visits.
-/

namespace StyleExpand

/-- A text, or a list of values. -/
inductive Value where
  | scalar (text : String)
  | list (items : List Value)

namespace Value

instance : Inhabited Value := ⟨.scalar ""⟩

mutual

def beq : Value → Value → Bool
  | .scalar a, .scalar b => a == b
  | .list xs, .list ys => beqList xs ys
  | _, _ => false

def beqList : List Value → List Value → Bool
  | [], [] => true
  | x :: xs, y :: ys => beq x y && beqList xs ys
  | _, _ => false

end

mutual

theorem eq_of_beq : ∀ {v w : Value}, beq v w = true → v = w
  | .scalar _, .scalar _, h => by rw [beq, beq_iff_eq] at h; rw [h]
  | .list _, .list _, h => by rw [beq] at h; rw [eq_of_beqList h]
  | .scalar _, .list _, h => by simp [beq] at h
  | .list _, .scalar _, h => by simp [beq] at h

theorem eq_of_beqList : ∀ {vs ws : List Value}, beqList vs ws = true → vs = ws
  | [], [], _ => rfl
  | _ :: _, _ :: _, h => by
    rw [beqList, Bool.and_eq_true] at h
    rw [eq_of_beq h.1, eq_of_beqList h.2]
  | [], _ :: _, h => by simp [beqList] at h
  | _ :: _, [], h => by simp [beqList] at h

end

mutual

theorem beq_self : ∀ v : Value, beq v v = true
  | .scalar _ => by simp [beq]
  | .list items => by rw [beq, beqList_self items]

theorem beqList_self : ∀ vs : List Value, beqList vs vs = true
  | [] => rfl
  | v :: vs => by rw [beqList, beq_self v, beqList_self vs, Bool.and_self]

end

instance : DecidableEq Value := fun v w =>
  decidable_of_iff (beq v w = true) ⟨eq_of_beq, fun h => h ▸ beq_self v⟩

/-! ## Reading -/

/-- A list of items; with `collapse`, one item alone stands for itself. -/
def ofItems (collapse : Bool) : List Value → Value
  | [v] => if collapse then v else .list [v]
  | vs => .list vs

/--
The value of a comma separated literal: an item in parentheses is a list of its own, and any other
item is a text. With `collapse`, a literal of one item is that item.
-/
def literal (collapse : Bool) (cs : List Char) : Value :=
  ofItems collapse <| (splitComma cs).attach.map fun ⟨item, hitem⟩ =>
    match hinner : unwrap? item with
    | some inner =>
      have : inner.length < cs.length :=
        Nat.lt_of_lt_of_le (length_unwrap?_lt hinner) (length_le_of_mem_splitComma hitem)
      literal false inner
    | none => .scalar (String.ofList item)
termination_by cs.length

/-- The value of one item of a literal. -/
def ofItem (item : List Char) : Value :=
  match unwrap? item with
  | some inner => literal false inner
  | none => .scalar (String.ofList item)

theorem literal_eq (collapse : Bool) (cs : List Char) :
    literal collapse cs = ofItems collapse ((splitComma cs).map ofItem) := by
  rw [literal, ← List.attach_map_val (l := splitComma cs) (f := ofItem)]
  congr 1
  apply List.map_congr_left
  rintro ⟨item, hitem⟩ _
  simp only [ofItem]
  split <;> simp_all

/-- The value that a declaration assigns: one item alone stands for itself. -/
def ofText (s : String) : Value := literal true s.toList

/-! ## Writing -/

mutual

/-- The text of a value: the items of a list are joined by commas, lists inside in parentheses. -/
def write : Value → List Char
  | .scalar text => text.toList
  | .list items => writeItems items

def writeItem : Value → List Char
  | .scalar text => text.toList
  | .list items => '(' :: writeItems items ++ [')']

def writeItems : List Value → List Char
  | [] => []
  | [item] => writeItem item
  | item :: next :: items => writeItem item ++ ',' :: ' ' :: writeItems (next :: items)

end

def render (v : Value) : String := String.ofList v.write

/-! ## Iteration -/

/-- The values that a loop visits: a text is a list of one, save the empty text, which has none. -/
def elements : Value → List Value
  | .scalar text => if text.isEmpty then [] else [.scalar text]
  | .list items => items

end Value

end StyleExpand

import StyleExpand.Proofs.Run.Resolved

/-!
# Declared names and references to them

A declaration may use any characters of names behind its dollar sign, but a reference only finds a
name that starts with a Latin letter or an underscore.

* `declaredName?_eq_some_iff` : the names that can be declared;
* `Run.exists_lookup_assign` : behind an assignment, a name has a value;
* `Run.interpolate_declared` : what each form of reference to a declared name comes to.
-/

namespace StyleExpand

theorem declaredName?_eq_some_iff {property name : String} :
    declaredName? property = some name ↔
      property.toList = '$' :: name.toList ∧ name.toList ≠ [] ∧
        name.toList.all Text.isNameChar = true := by
  unfold declaredName?
  constructor
  · intro h
    split at h
    · rename_i cs hcs
      split at h
      · rename_i hchars
        obtain rfl := Option.some.inj h
        simpa [hcs] using hchars
      · cases h
    · cases h
  · rintro ⟨hproperty, hne, hchars⟩
    simp [hproperty, hne, hchars]

namespace Run

variable {r : Run} {c n : NodeId} {name : String}

/-! ## Values of declared names -/

theorem lookup_remove_child (hs : r.sheet.Linked) (hn : n ∈ r.sheet.children c) :
    (r.remove n).lookup c = r.lookup c := by
  have hc := Sheet.lt_size_of_mem_children hn
  have hlineage := hs.lineage hc
  have hchild : n ∉ r.sheet.lineage c :=
    (List.nodup_cons.1 (Sheet.Lineage.step (hs.parent_eq c n hn) hlineage).nodup).1
  have hremove : (r.remove n).sheet.lineage c = r.sheet.lineage c := by
    refine Sheet.Lineage.lineageTo_eq (hlineage.congr fun m hm => ?_) ?_
    · rw [Run.remove, Sheet.parent_remove, if_neg]
      rintro rfl
      exact hchild hm
    · rw [Run.remove, Sheet.size_remove]
      exact hlineage.length_le_size hs.toAcyclic hc
  funext name
  rw [lookup, lookup, Scopes.lookup, Scopes.lookup, hremove]
  rfl

/-- Behind an assignment at a node, the name has a value there, be it an older one. -/
theorem exists_lookup_assign (hn : n < r.sheet.size) (name raw : String) :
    ∃ v, (r.assign n name raw).lookup n name = some v := by
  have hbind : ∀ v, (r.scopes.bind n name v).lookup r.sheet n name = some v := fun v =>
    Scopes.lookup_of_at? hn (by rw [Scopes.at?_bind, if_pos ⟨rfl, rfl⟩])
  unfold assign Scopes.assign
  cases Scopes.beforeMarker? raw.toList with
  | none => exact ⟨_, hbind _⟩
  | some value =>
    dsimp only
    cases hold : r.scopes.lookup r.sheet n name with
    | some v => exact ⟨v, hold⟩
    | none => exact ⟨_, hbind _⟩

theorem sheet_assign (r : Run) (n : NodeId) (name raw : String) :
    (r.assign n name raw).sheet = r.sheet := by
  unfold assign
  dsimp only
  split <;> rfl

/-- Behind a declaration of a variable, its container has a value of that name in sight. -/
theorem exists_lookup_declared (hs : r.sheet.Linked) (hn : n ∈ r.sheet.children c)
    {property : String} (hname : declaredName? property = some name) (warns : Bool) (value : String) :
    ∃ v, (visitDeclaration warns c n property value r).2.lookup c name = some v := by
  simp only [visitDeclaration, hname]
  generalize hr₁ : (r.interpolate warns c n value).2 = r₁
  have hsheet : r₁.sheet = r.sheet := hr₁ ▸ interpolate_sheet ..
  rw [← hsheet] at hs hn
  have hassign := sheet_assign r₁ c name (r.interpolate warns c n value).1
  rw [lookup_remove_child (by rwa [hassign]) (by rwa [hassign])]
  exact exists_lookup_assign (Sheet.lt_size_of_mem_children hn) name _

/-! ## References to declared names -/

theorem interpolate_write {v : Value} {warns : Bool} (h : Reference.isName name.toList = true)
    (hv : r.lookup c name = some v) (form : ReferenceForm) (location : NodeId) :
    r.interpolate warns c location (String.ofList (Reference.write ⟨form, name.toList⟩)) =
      (v.render, r) := by
  have hdone : substitute (r.lookup c) (Reference.write ⟨form, name.toList⟩) = ⟨v.write, []⟩ :=
    substitute_write h (by simpa using hv)
  rw [interpolate, String.toList_ofList, hdone]
  cases warns <;> rfl

/-- Behind a declaration of a variable, a text that refers to it in any form becomes its value if the
name starts with a Latin letter or an underscore; if it does not, the text stays, without a warning.
-/
theorem interpolate_declared (hs : r.sheet.Linked) (hn : n ∈ r.sheet.children c) {property : String}
    (hname : declaredName? property = some name) (warns : Bool) (value : String) :
    let r' := (visitDeclaration warns c n property value r).2
    ∃ v, r'.lookup c name = some v ∧ ∀ (reports : Bool) (form : ReferenceForm) (location : NodeId),
      let text := String.ofList (Reference.write ⟨form, name.toList⟩)
      r'.interpolate reports c location text =
        (if Reference.isName name.toList then v.render else text, r') := by
  intro r'
  obtain ⟨v, hv⟩ := exists_lookup_declared hs hn hname warns value
  obtain ⟨-, hne, hchars⟩ := declaredName?_eq_some_iff.1 hname
  refine ⟨v, hv, fun reports form location => ?_⟩
  cases h : Reference.isName name.toList with
  | true => exact interpolate_write h hv form location
  | false =>
    refine interpolate_of_references_nil ?_ c location
    rw [String.toList_ofList]
    exact references_write_of_not_isName form hne hchars h

/-- A name with a hyphen, a digit and a letter that is not Latin, declared below a rule as a default,
with a value that refers to a name without one. -/
theorem interpolate_declared_default :
    let s := Sheet.ofForest [.node ⟨.rule "a", none⟩
      [.node ⟨.declaration "$x-1é" "b, ($y) !default", none⟩ []]]
    let r := (visitDeclaration true 1 2 "$x-1é" "b, ($y) !default" (start s)).2
    s.Linked ∧ 2 ∈ s.children 1 ∧ declaredName? "$x-1é" = some "x-1é" ∧
      (r.lookup 1 "x-1é").map Value.render = some "b, ($y)" ∧
      ∃ v, r.lookup 1 "x-1é" = some v ∧ ∀ (reports : Bool) (form : ReferenceForm) (location : NodeId),
        let text := String.ofList (Reference.write ⟨form, "x-1é".toList⟩)
        r.interpolate reports 1 location text =
          (if Reference.isName "x-1é".toList then v.render else text, r) := by
  intro s r
  have hs : s.Linked := .ofForest _
  have hn : 2 ∈ s.children 1 := by decide +kernel
  have hname : declaredName? "$x-1é" = some "x-1é" := by decide +kernel
  exact ⟨hs, hn, hname, by decide +kernel,
    interpolate_declared (r := start s) hs hn hname true "b, ($y) !default"⟩

/-- A digit can be declared, and has a value then, but no form of reference finds it. -/
theorem digit_declared_not_referable :
    let s := Sheet.ofForest [.node ⟨.declaration "$1" "red", none⟩ []]
    let r := (visitDeclaration true Sheet.root 1 "$1" "red" (start s)).2
    declaredName? "$1" = some "1" ∧ r.lookup Sheet.root "1" = some (.scalar "red") ∧
      (∀ form, (r.interpolate true Sheet.root 1
        (String.ofList (Reference.write ⟨form, ['1']⟩))).1 ≠ "red") ∧
      (expand .default "$1: red; a \x7b b: $1 $(1) #\x7b$1\x7d; \x7d").toOption =
        some ("a \x7b\n  b: $1 $(1) #\x7b$1\x7d;\n\x7d\n", []) := by
  intro s r
  refine ⟨by decide +kernel, by decide +kernel, fun form => ?_, by decide +kernel⟩
  cases form <;> decide +kernel

end Run

end StyleExpand

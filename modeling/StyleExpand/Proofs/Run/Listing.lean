import StyleExpand.Proofs.Run.Declared
import StyleExpand.Proofs.Value.Rereading

/-!
# Loops over the list of a variable

A loop over a variable gets the text of its value, and reads that text again as a list.

* `Text.isNameChar_of_isBlank` : no character of a name is a blank;
* `Run.expandEach_variable` : the values that a loop over a variable visits, and when they are the
  elements of the value that it holds.
-/

namespace StyleExpand

namespace Text

/-! ## Names and blanks -/

def Ranges.apart (as bs : Ranges) : Bool := as.all fun a => bs.all fun b => a.2 < b.1 || b.2 < a.1

theorem Ranges.holds_of_apart {as bs : Ranges} {c : Char} (h : as.apart bs = true)
    (hc : as.holds c = true) : bs.holds c = false := by
  obtain ⟨a, ha, hin⟩ := List.any_eq_true.1 hc
  refine List.any_eq_false.2 fun b hb => ?_
  have := List.all_eq_true.1 (List.all_eq_true.1 h a ha) b hb
  simp only [Bool.and_eq_true, Bool.or_eq_true, decide_eq_true_eq] at this hin ⊢
  omega

theorem isNameChar_of_isBlank {c : Char} (h : isBlank c = true) : isNameChar c = false := by
  have hapart : blanks.apart connectors = true ∧ blanks.apart decimalDigits = true ∧
      blanks.apart alphabetic = true ∧ blanks.apart marks = true ∧ blanks.apart joiners = true := by
    decide +kernel
  have hhyphen : c ≠ '-' := by
    rintro rfl
    exact absurd h (by decide)
  simp [isNameChar, isWord, hhyphen, Ranges.holds_of_apart hapart.1 h,
    Ranges.holds_of_apart hapart.2.1 h, Ranges.holds_of_apart hapart.2.2.1 h,
    Ranges.holds_of_apart hapart.2.2.2.1 h, Ranges.holds_of_apart hapart.2.2.2.2 h]

theorem words_of_no_blank {cs : List Char} (hne : cs ≠ []) (h : ∀ c ∈ cs, isBlank c = false) :
    words cs = [cs] := by
  rw [words, List.splitOnP_eq_singleton h]
  simp [hne]

end Text

namespace Run

variable {r : Run} {node : NodeId} {e x : String}

/-! ## The parameters of a loop over a variable -/

/-- The parameters of a loop that binds `e` to the elements of `x`. -/
def eachOver (e x : String) (form : ReferenceForm) : String :=
  "$" ++ e ++ " in " ++ String.ofList (Reference.write ⟨form, x.toList⟩)

theorem isBlank_of_binder (he : e.toList.all Text.isNameChar = true) :
    ∀ c ∈ '$' :: e.toList, Text.isBlank c = false := by
  intro c hc
  rcases List.mem_cons.1 hc with rfl | hc
  · decide
  · rw [← Bool.not_eq_true]
    intro hblank
    have hname := List.all_eq_true.1 he c hc
    rw [Text.isNameChar_of_isBlank hblank] at hname
    cases hname

theorem eachParts_eachOver (he : e.toList.all Text.isNameChar = true) (form : ReferenceForm) :
    eachParts (eachOver e x form) = ('$' :: e.toList, Reference.write ⟨form, x.toList⟩) := by
  have htext : (eachOver e x form).toList =
      '$' :: e.toList ++ " in ".toList ++ Reference.write ⟨form, x.toList⟩ := by
    simp [eachOver]
  have hcut : Text.cutOnce " in ".toList
      ('$' :: e.toList ++ " in ".toList ++ Reference.write ⟨form, x.toList⟩) =
        some ('$' :: e.toList, Reference.write ⟨form, x.toList⟩) := by
    refine Text.cutOnce_append (by decide) ?_ _
    rintro as bs hsplit hne ⟨rest, hrest⟩
    -- the binder would have to go on with the blank before `in`
    obtain ⟨b, bs, rfl⟩ := List.exists_cons_of_ne_nil hne
    have hb := isBlank_of_binder he b (by rw [hsplit]; simp)
    obtain rfl : ' ' = b := (List.cons.inj hrest).1
    exact absurd hb (by decide)
  rw [eachParts, htext, hcut]
  rfl

theorem words_binder (he : e.toList.all Text.isNameChar = true) :
    (Text.words ('$' :: e.toList)).map bindingName = [e] := by
  have htrim : Text.trim ('$' :: e.toList) = '$' :: e.toList := by
    refine Text.trim_eq_self_iff.2 ⟨fun c hc => ?_, fun c hc => ?_⟩
    · exact isBlank_of_binder he c (List.mem_of_mem_head? hc)
    · exact isBlank_of_binder he c (List.mem_reverse.1 (List.mem_of_mem_head? hc))
  rw [Text.words_of_no_blank (by simp) (isBlank_of_binder he), List.map_singleton, bindingName, htrim]
  simp

/-! ## The values that it visits -/

variable (warns : Bool) (descend : NodeId → Run → Run)

/-- A loop over a variable has a round for each element of the text of its value. They are the
elements of the value itself exactly if that is iterable. -/
theorem expandEach_variable {raw : String} (he : e.toList.all Text.isNameChar = true)
    (hx : Reference.isName x.toList = true) (hv : r.lookup node x = some (.ofText raw))
    (container : NodeId) (form : ReferenceForm) :
    let visited := (Value.ofText (Value.ofText raw).render).elements
    Loops descend container node e visited (.eachExpanded e visited.length) r
        (expandEach warns descend container node (eachOver e x form) r) ∧
      (visited = (Value.ofText raw).elements ↔ (Value.ofText raw).iterable = true) := by
  intro visited
  refine ⟨?_, Value.elements_ofText_iff raw⟩
  have hrows : (visited.zipIdx.map fun value => [(e, value.1)]) =
      visited.map fun value => [(e, value)] := by
    calc (visited.zipIdx.map fun value => [(e, value.1)])
        = (visited.zipIdx.map Prod.fst).map fun value => [(e, value)] := by
          rw [List.map_map]
          rfl
      _ = visited.map fun value => [(e, value)] := by rw [List.zipIdx_map_fst]
  have hloops : Loops descend container node e visited (.eachExpanded e visited.length) r _ :=
    iterate_loops e visited _ r
  rw [← hrows] at hloops
  unfold expandEach
  rw [eachParts_eachOver he form]
  dsimp only
  rw [words_binder he]
  dsimp only
  rw [interpolate_write hx hv form node]
  exact hloops

/-- A list of pairs, the last of which ends in a blank behind a backslash. -/
theorem expandEach_variable_pairs :
    let raw := "(small, 10px), (large, 20px\\ )"
    let body : Tree Entry := .node ⟨.rule "a", none⟩ [.node ⟨.declaration "w" "$pair", none⟩ []]
    let r := (start (Sheet.ofForest [.node ⟨.atRule "each" "$pair in $sizes" true, none⟩ [body]])).assign
      Sheet.root "sizes" raw
    let visited : List Value := [.list [.scalar "small", .scalar "10px"],
      .list [.scalar "large", .scalar "20px\\"]]
    let found := expandEach true (walk true 3) Sheet.root 1 (eachOver "pair" "sizes" .bare) r
    r.lookup 1 "sizes" = some (.ofText raw) ∧ (Value.ofText raw).iterable = true ∧
      (Value.ofText raw).elements = visited ∧
      Loops (walk true 3) Sheet.root 1 "pair" visited (.eachExpanded "pair" 2) r found ∧
      found.2.sheet.print =
        "a \x7b\n  w: small, 10px;\n\x7d\na \x7b\n  w: large, 20px\\;\n\x7d\n" := by
  intro raw body r visited found
  have hv : r.lookup 1 "sizes" = some (.ofText raw) := by decide +kernel
  have hiterable : (Value.ofText raw).iterable = true := by decide +kernel
  have helements : (Value.ofText raw).elements = visited := by decide +kernel
  have hprint : found.2.sheet.print =
      "a \x7b\n  w: small, 10px;\n\x7d\na \x7b\n  w: large, 20px\\;\n\x7d\n" := by decide +kernel
  obtain ⟨hloops, hiff⟩ := expandEach_variable (e := "pair") true (walk true 3) (by decide +kernel)
    (by decide +kernel) hv Sheet.root .bare
  rw [hiff.2 hiterable, helements] at hloops
  exact ⟨hv, hiterable, helements, hloops, hprint⟩

/-- The elements of the one list in a list are visited, a blank item in front of others is lost, and a
blank trimmed away behind a backslash makes two items one. -/
theorem lists_not_iterated :
    let visited (raw : String) := (Value.ofText (Value.ofText raw).render).elements
    (Value.ofText "((a, b))").elements = [.list [.scalar "a", .scalar "b"]] ∧
      visited "((a, b))" = [.scalar "a", .scalar "b"] ∧
      (Value.ofText "( , a), b").elements = [.list [.scalar "", .scalar "a"], .scalar "b"] ∧
      visited "( , a), b" = [.list [.scalar "a"], .scalar "b"] ∧
      (Value.ofText "a\\ , b").elements = [.scalar "a\\", .scalar "b"] ∧
      visited "a\\ , b" = [.scalar "a\\, b"] ∧
      (expand .default "$x: ((a, b)); @each $e in $x \x7b c \x7b d: $e; \x7d \x7d").toOption =
        some ("c \x7b\n  d: a;\n\x7d\nc \x7b\n  d: b;\n\x7d\n", []) ∧
      (expand .default "@each $e in ((a, b)) \x7b c \x7b d: $e; \x7d \x7d").toOption =
        some ("c \x7b\n  d: a, b;\n\x7d\n", []) := by
  decide +kernel

end Run

end StyleExpand

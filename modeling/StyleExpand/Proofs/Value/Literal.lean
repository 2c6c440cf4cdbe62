import StyleExpand.Proofs.Value.RoundTrip

/-!
# What is read from a literal

* `avoids_pieces` : a piece meets no separator, and of other characters none that the text does not meet;
* `Value.legible_ofItem`, `Value.forall_legible` : what is read from a text is legible;
* `solids` : how many characters of a text are neither blanks nor commas, and
  `Value.solids_writeItem_ofItem` : reading an item and writing it again keeps their number.
-/

namespace StyleExpand

open Nesting

/-! ## Pieces and items -/

section Pieces

variable {sep p : Char → Bool} {n : Nesting} {cs item : List Char}

/-- The first piece of a text is read where the text starts, and the others where nothing is open. -/
theorem avoids_pieces (hsep : ∀ c, sep c = true → Nesting.top.step c = .top)
    (h : n.avoids (fun c => p c && !sep c) cs = true) :
    ∃ first others, pieces sep n cs = first :: others ∧ n.avoids p first = true ∧
      ∀ piece ∈ others, Nesting.top.avoids p piece = true := by
  induction cs generalizing n with
  | nil => exact ⟨[], [], rfl, rfl, by simp⟩
  | cons c cs ih =>
    rw [avoids_cons] at h
    obtain ⟨first, others, heq, hfirst, hothers⟩ := ih h.2
    rw [pieces]
    split
    · rename_i hc
      obtain ⟨rfl, hc⟩ := hc
      rw [hsep c hc] at heq hfirst
      refine ⟨[], first :: others, by rw [heq], rfl, ?_⟩
      simpa using ⟨hfirst, hothers⟩
    · rename_i hc
      refine ⟨c :: first, others, by rw [heq, List.modifyHead_cons], ?_, hothers⟩
      rw [avoids_cons]
      refine ⟨fun htop => ?_, hfirst⟩
      have hp := h.1 htop
      simp only [htop, true_and, Bool.not_eq_true] at hc
      simpa [hc] using hp

theorem exists_of_mem_trimItems : ∀ {ps : List (List Char)}, item ∈ trimItems ps →
    ∃ piece ∈ ps, Text.trim piece = item
  | [], h => by simp [trimItems] at h
  | [p], h => ⟨p, by simp, by simpa [trimItems, eq_comm] using h⟩
  | p :: q :: ps, h => by
    have hrest (h : item ∈ trimItems (q :: ps)) : ∃ piece ∈ p :: q :: ps, Text.trim piece = item := by
      obtain ⟨piece, hmem, heq⟩ := exists_of_mem_trimItems h
      exact ⟨piece, List.mem_cons_of_mem p hmem, heq⟩
    rw [trimItems] at h
    split at h
    · exact hrest h
    · rcases List.mem_cons.1 h with h | h
      · exact ⟨p, by simp, h.symm⟩
      · exact hrest h

theorem trimItems_ne_nil : ∀ {ps : List (List Char)}, ps ≠ [] → trimItems ps ≠ []
  | [p], _ => by simp [trimItems]
  | p :: q :: ps, _ => by
    rw [trimItems]
    split
    · exact trimItems_ne_nil (by simp)
    · simp

theorem splitComma_ne_nil (cs : List Char) : splitComma cs ≠ [] :=
  trimItems_ne_nil (pieces_ne_nil _ _ cs)

theorem avoids_of_mem_splitComma (h : Nesting.top.avoids (fun c => p c && !isComma c) cs = true)
    (hitem : item ∈ splitComma cs) : Nesting.top.avoids p item = true := by
  have hcomma : ∀ c, isComma c = true → Nesting.top.step c = .top := fun c hc => by
    obtain rfl : c = ',' := by simpa [isComma] using hc
    decide
  obtain ⟨first, others, heq, hfirst, hothers⟩ := avoids_pieces hcomma h
  obtain ⟨piece, hmem, rfl⟩ := exists_of_mem_trimItems hitem
  have hpieces : pieces (· == ',') .top cs = first :: others := heq
  rw [hpieces] at hmem
  rcases List.mem_cons.1 hmem with rfl | hmem
  · exact avoids_trim hfirst
  · exact avoids_trim (hothers piece hmem)

/-- Nothing that is nowhere can be met. -/
theorem Nesting.avoids_of_forall (h : ∀ c, p c = false) : n.avoids p cs = true := by
  induction cs generalizing n with
  | nil => rfl
  | cons c cs ih => exact avoids_cons.2 ⟨fun _ => h c, ih⟩

theorem trim_of_mem_splitComma (hitem : item ∈ splitComma cs) : Text.trim item = item := by
  obtain ⟨piece, -, rfl⟩ := exists_of_mem_trimItems hitem
  exact Text.trim_trim piece

theorem avoids_comma_of_mem_splitComma (hitem : item ∈ splitComma cs) :
    Nesting.top.avoids isComma item = true :=
  avoids_of_mem_splitComma (avoids_of_forall fun c => by cases isComma c <;> rfl) hitem

theorem avoids_closing_of_mem_splitComma (h : Nesting.top.avoids isClosing cs = true)
    (hitem : item ∈ splitComma cs) : Nesting.top.avoids isClosing item = true :=
  avoids_of_mem_splitComma (avoids_mono (fun _ hc => (Bool.and_eq_true_iff.1 hc).1) h) hitem

end Pieces

namespace Value

/-! ## Legible values -/

theorem literal_false (cs : List Char) : literal false cs = .list ((splitComma cs).map ofItem) := by
  rw [literal_eq, ofItems_false]

theorem legible_ofItem {nested : Bool} {item : List Char} (htrim : Text.trim item = item)
    (hwhole : Nesting.top.avoids isComma item = true)
    (hcontained : nested = true → Nesting.top.avoids isClosing item = true) :
    Legible nested (ofItem item) := by
  unfold ofItem
  split
  · rename_i inner hinner
    have hinside : Nesting.top.avoids isClosing inner = true := by
      rw [eq_of_unwrap? hinner] at hinner
      exact unwrap?_parens.1 hinner
    rw [literal_false]
    refine .list (by simpa using splitComma_ne_nil inner) (List.forall_mem_map.2 fun part hpart => ?_)
    have hlength : part.length < item.length :=
      Nat.lt_of_le_of_lt (length_le_of_mem_splitComma hpart) (length_unwrap?_lt hinner)
    exact legible_ofItem (trim_of_mem_splitComma hpart) (avoids_comma_of_mem_splitComma hpart)
      fun _ => avoids_closing_of_mem_splitComma hinside hpart
  · rename_i hnone
    have htext : (String.ofList item).toList = item := String.toList_ofList
    exact .scalar (by rwa [htext]) (by rwa [htext]) (by rwa [htext]) (by rwa [htext])
termination_by item.length

theorem forall_legible (cs : List Char) : ∀ v ∈ (splitComma cs).map ofItem, Legible false v :=
  List.forall_mem_map.2 fun _ hitem => legible_ofItem (trim_of_mem_splitComma hitem)
    (avoids_comma_of_mem_splitComma hitem) (by simp)

end Value

/-! ## Characters that reading keeps -/

/-- What reading and writing a list never take away or add. -/
def isSolid (c : Char) : Bool := !Text.isBlank c && !isComma c

def solids (cs : List Char) : Nat := cs.countP isSolid

@[simp] theorem solids_nil : solids [] = 0 := rfl

@[simp] theorem solids_append (cs ds : List Char) : solids (cs ++ ds) = solids cs + solids ds :=
  List.countP_append

theorem solids_cons (c : Char) (cs : List Char) :
    solids (c :: cs) = solids cs + if isSolid c then 1 else 0 := List.countP_cons

theorem filter_trimItems {p : Char → Bool} (hp : ∀ c, Text.isBlank c = true → p c = false) :
    ∀ ps : List (List Char), (trimItems ps).flatten.filter p = ps.flatten.filter p
  | [] => rfl
  | [q] => by simp [trimItems, Text.filter_trim hp]
  | q :: t :: ts => by
    have hrest := filter_trimItems hp (t :: ts)
    rw [trimItems, List.flatten_cons, List.filter_append]
    split
    · rename_i hq
      rw [hrest, List.isEmpty_iff.1 hq, List.filter_nil, List.nil_append]
    · rw [List.flatten_cons, List.filter_append, hrest, Text.filter_trim hp]

theorem solids_parens (cs : List Char) : solids ('(' :: (cs ++ [')'])) = solids cs + 2 := by
  have hopen : isSolid '(' = true := by decide
  have hclose : solids [')'] = 1 := by decide
  rw [solids_cons, solids_append, hopen, hclose]
  rfl

theorem solids_map_flatten {f : List Char → List Char} : ∀ {ts : List (List Char)},
    (∀ t ∈ ts, solids (f t) = solids t) → solids (ts.map f).flatten = solids ts.flatten
  | [], _ => rfl
  | t :: ts, h => by
    rw [List.map_cons, List.flatten_cons, List.flatten_cons, solids_append, solids_append,
      h t (by simp), solids_map_flatten fun u hu => h u (List.mem_cons_of_mem t hu)]

theorem solids_pieces (n : Nesting) (cs : List Char) :
    solids (pieces isComma n cs).flatten = solids cs := by
  induction cs generalizing n with
  | nil => rfl
  | cons c cs ih =>
    rw [pieces]
    split
    · rename_i hc
      rw [List.flatten_cons, List.nil_append, ih, solids_cons, isSolid, hc.2]
      simp
    · have hrest := ih (n.step c)
      obtain ⟨first, others, heq⟩ := List.exists_cons_of_ne_nil (pieces_ne_nil isComma (n.step c) cs)
      rw [heq, List.flatten_cons] at hrest
      rw [heq, List.modifyHead_cons, List.flatten_cons, List.cons_append, solids_cons, solids_cons,
        hrest]

theorem solids_trimItems (ps : List (List Char)) :
    solids (trimItems ps).flatten = solids ps.flatten := by
  rw [solids, solids, List.countP_eq_length_filter, List.countP_eq_length_filter,
    filter_trimItems fun c hc => by simp [isSolid, hc]]

theorem solids_splitComma (cs : List Char) : solids (splitComma cs).flatten = solids cs :=
  (solids_trimItems _).trans (solids_pieces .top cs)

theorem solids_intercalate : ∀ ts : List (List Char),
    solids (itemSeparator.intercalate ts) = solids ts.flatten
  | [] => rfl
  | [t] => by simp
  | t :: u :: us => by
    have hseparator : solids [',', ' '] = 0 := by decide
    have hrest := solids_intercalate (u :: us)
    have hsplit : ',' :: ' ' :: itemSeparator.intercalate (u :: us) =
        [',', ' '] ++ itemSeparator.intercalate (u :: us) := rfl
    have hflatten : (t :: u :: us).flatten = t ++ (u :: us).flatten := rfl
    rw [intercalate_cons (by simp), hsplit, solids_append, solids_append, hseparator, hrest,
      Nat.zero_add, hflatten, solids_append]

namespace Value

/-- An item, read and written again, holds what it held. -/
theorem solids_writeItem_ofItem (item : List Char) : solids (writeItem (ofItem item)) = solids item := by
  unfold ofItem
  split
  · rename_i inner hinner
    have hparts : ∀ part ∈ splitComma inner, solids (writeItem (ofItem part)) = solids part :=
      fun part hpart =>
        have : part.length < item.length :=
          Nat.lt_of_le_of_lt (length_le_of_mem_splitComma hpart) (length_unwrap?_lt hinner)
        solids_writeItem_ofItem part
    have hitem : solids item = solids inner + 2 := by rw [eq_of_unwrap? hinner, solids_parens]
    rw [literal_false, writeItem_list, solids_parens, writeItems_eq_intercalate, solids_intercalate,
      List.map_map, hitem, ← solids_splitComma inner]
    congr 1
    exact solids_map_flatten hparts
  · rw [writeItem_scalar, String.toList_ofList]
termination_by item.length

end Value

end StyleExpand

import StyleExpand.Proofs.Value.Literal

/-!
# Nothing but commas and blanks is lost between the items of a list

A scan of a list goes on across its commas, and each item is trimmed on its own. That takes away
blanks and top-level commas only, and no item can be split again, whatever is left open in the text.

* `Nesting.without` : a text without the characters of a class that stand where nothing is open;
* `pieces_append_separator` : a top-level separator divides a text into two that are cut by themselves;
* `flatten_pieces` : the pieces of a text, put together again;
* `splitComma_exact` : what the items of a list are made of.
-/

namespace StyleExpand

namespace Nesting

/-- A text without the characters of the class `p` that a scan from `n` meets where nothing is open. -/
def without (p : Char → Bool) : Nesting → List Char → List Char
  | _, [] => []
  | n, c :: cs => if n = .top ∧ p c then without p (n.step c) cs else c :: without p (n.step c) cs

theorem step_top_comma {c : Char} (hc : isComma c = true) : top.step c = top := by
  obtain rfl : c = ',' := by simpa [isComma] using hc
  decide

end Nesting

open Nesting

/-! ## Pieces, put together again -/

section Pieces

variable {sep : Char → Bool} {n : Nesting} {c : Char} {cs ds : List Char}

theorem pieces_append_separator (hsep : ∀ c, sep c = true → Nesting.top.step c = .top)
    (hrun : n.run cs = .top) (hc : sep c = true) :
    pieces sep n (cs ++ c :: ds) = pieces sep n cs ++ pieces sep .top ds := by
  induction cs generalizing n with
  | nil =>
    obtain rfl : n = .top := hrun
    have hfirst : pieces sep .top (c :: ds) = [] :: pieces sep .top ds := by
      rw [pieces, if_pos ⟨rfl, hc⟩]
    exact hfirst
  | cons d cs ih =>
    rw [run_cons] at hrun
    rw [List.cons_append, pieces, pieces]
    split
    · rename_i hd
      obtain ⟨rfl, hd⟩ := hd
      rw [hsep d hd] at hrun
      rw [ih hrun, List.cons_append]
    · obtain ⟨first, others, heq⟩ := List.exists_cons_of_ne_nil (pieces_ne_nil sep (n.step d) cs)
      rw [ih hrun, heq, List.cons_append, List.modifyHead_cons, List.modifyHead_cons, List.cons_append]

/-- The pieces of a text are the text without its top-level separators. -/
theorem flatten_pieces (hsep : ∀ c, sep c = true → Nesting.top.step c = .top) (n : Nesting)
    (cs : List Char) : (pieces sep n cs).flatten = n.without sep cs := by
  induction cs generalizing n with
  | nil => rfl
  | cons c cs ih =>
    rw [pieces, without]
    split
    · rename_i hc
      obtain ⟨rfl, hc⟩ := hc
      rw [List.flatten_cons, List.nil_append, ih, hsep c hc]
    · obtain ⟨first, others, heq⟩ := List.exists_cons_of_ne_nil (pieces_ne_nil sep (n.step c) cs)
      rw [← ih (n.step c), heq, List.modifyHead_cons, List.flatten_cons, List.flatten_cons,
        List.cons_append]

end Pieces

/-! ## What is not blank -/

def inked (cs : List Char) : List Char := cs.filter (!Text.isBlank ·)

@[simp] theorem inked_append (cs ds : List Char) : inked (cs ++ ds) = inked cs ++ inked ds :=
  List.filter_append ..

@[simp] theorem inked_trim (cs : List Char) : inked (Text.trim cs) = inked cs :=
  Text.filter_trim (fun c hc => by simp [hc]) cs

/-! ## Items -/

def trimFilled (ps : List (List Char)) : List (List Char) := (ps.filter (!·.isEmpty)).map Text.trim

@[simp] theorem trimFilled_nil : trimFilled [] = [] := rfl

@[simp] theorem trimFilled_append (ps qs : List (List Char)) :
    trimFilled (ps ++ qs) = trimFilled ps ++ trimFilled qs := by
  rw [trimFilled, List.filter_append, List.map_append]
  rfl

@[simp] theorem trimFilled_cons_nil (ps : List (List Char)) : trimFilled ([] :: ps) = trimFilled ps := rfl

theorem trimFilled_cons {p : List Char} (hp : p ≠ []) (ps : List (List Char)) :
    trimFilled (p :: ps) = Text.trim p :: trimFilled ps := by
  rw [trimFilled, List.filter_cons_of_pos (by simpa using hp), List.map_cons]
  rfl

theorem trimItems_append {qs : List (List Char)} (hqs : qs ≠ []) : ∀ ps : List (List Char),
    trimItems (ps ++ qs) = trimFilled ps ++ trimItems qs
  | [] => rfl
  | p :: ps => by
    obtain ⟨q, others, heq⟩ := List.exists_cons_of_ne_nil (List.append_ne_nil_of_right_ne_nil ps hqs)
    rw [List.cons_append, heq, trimItems, ← heq, trimItems_append hqs ps]
    by_cases hp : p = []
    · rw [hp, trimFilled_cons_nil]
      rfl
    · rw [if_neg (by simpa using hp), trimFilled_cons hp, List.cons_append]

theorem inked_trimFilled (ps : List (List Char)) :
    inked (trimFilled ps).flatten = inked ps.flatten := by
  induction ps with
  | nil => rfl
  | cons p ps ih =>
    rw [List.flatten_cons, inked_append, ← ih]
    by_cases hp : p = []
    · rw [hp, trimFilled_cons_nil]
      rfl
    · rw [trimFilled_cons hp, List.flatten_cons, inked_append, inked_trim]

theorem inked_trimItems (ps : List (List Char)) :
    inked (trimItems ps).flatten = inked ps.flatten :=
  filter_trimItems (fun c hc => by simp [hc]) ps

/-- A trimmed text without top-level commas is its only item. -/
theorem splitComma_of_avoids {item : List Char} (htrim : Text.trim item = item)
    (h : Nesting.top.avoids isComma item = true) : splitComma item = [item] := by
  have hpieces : pieces (· == ',') .top item = [item] := pieces_eq_singleton h
  rw [splitComma, hpieces, trimItems, htrim]

theorem splitComma_append_comma {xs ys : List Char} (hrun : Nesting.top.run xs = .top) :
    splitComma (xs ++ ',' :: ys) = trimFilled (pieces isComma .top xs) ++ splitComma ys := by
  have hpieces : pieces (· == ',') .top (xs ++ ',' :: ys) =
      pieces isComma .top xs ++ pieces isComma .top ys :=
    pieces_append_separator (fun _ => step_top_comma) hrun (by decide)
  rw [splitComma, hpieces, trimItems_append (pieces_ne_nil isComma .top ys)]
  rfl

/-- The items of a list hold all of its text but blanks and top-level commas, in order. No item can be
split again, and every such comma divides. That is so for any text, also one that closes too much or
leaves something open. -/
theorem splitComma_exact (cs : List Char) :
    inked (splitComma cs).flatten = inked (Nesting.top.without isComma cs) ∧
      (∀ item ∈ splitComma cs, splitComma item = [item]) ∧
      ∀ xs ys, cs = xs ++ ',' :: ys → Nesting.top.run xs = .top →
        ∃ front, splitComma cs = front ++ splitComma ys ∧
          inked front.flatten = inked (Nesting.top.without isComma xs) := by
  have hpieces (xs : List Char) :
      (pieces isComma .top xs).flatten = Nesting.top.without isComma xs :=
    flatten_pieces (fun _ => step_top_comma) .top xs
  refine ⟨?_, fun item hitem => ?_, ?_⟩
  · calc inked (splitComma cs).flatten
        = inked (pieces isComma .top cs).flatten := inked_trimItems _
      _ = inked (Nesting.top.without isComma cs) := by rw [hpieces]
  · exact splitComma_of_avoids (trim_of_mem_splitComma hitem) (avoids_comma_of_mem_splitComma hitem)
  · rintro xs ys rfl hrun
    refine ⟨_, splitComma_append_comma hrun, ?_⟩
    rw [inked_trimFilled, hpieces]

/-- A comma in a quote, one behind a backslash, an empty item, a blank one whose escape is cut off, a
parenthesis too many and one that stays open. -/
theorem splitComma_exact_open :
    let cs := "a\\, ',' ,, \\ , b), (c, d\\".toList
    splitComma cs = ["a\\, ','".toList, "\\".toList, "b)".toList, "(c, d\\".toList] ∧
      Nesting.top.without isComma cs = "a\\, ','  \\  b) (c, d\\".toList ∧
      inked (splitComma cs).flatten = inked (Nesting.top.without isComma cs) ∧
      (∀ item ∈ splitComma cs, splitComma item = [item]) ∧
      ∀ xs ys, cs = xs ++ ',' :: ys → Nesting.top.run xs = .top →
        ∃ front, splitComma cs = front ++ splitComma ys ∧
          inked front.flatten = inked (Nesting.top.without isComma xs) := by
  intro cs
  exact ⟨by decide +kernel, by decide +kernel, splitComma_exact cs⟩

end StyleExpand

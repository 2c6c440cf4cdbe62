import StyleExpand.Proofs.Value.Literal

/-!
# Which items are taken for lists

An item in parentheses is read as a list if the first parenthesis is open up to the last character.
That the last character closes it is not looked at: it may be escaped, in a quote, or close another
parenthesis.

* `Nesting.EnclosedIn` : all of a text behind its first character is in parentheses;
* `Nesting.ClosedAtEnd` : the last character closes the first, and no other does;
* `unwrap?_exact` : which items are unwrapped, and which of them are closed at the end;
* `unwrap?_not_closed` : items that are unwrapped and not closed at the end.
-/

namespace StyleExpand

namespace Nesting

variable {n : Nesting} {cs inner : List Char}

/-! ## The depth along a text -/

/-- Between the first and the last character of a text, the depth of a scan does not come back to
zero. -/
def EnclosedIn (cs : List Char) : Prop :=
  ∀ front rest, cs = front ++ rest → front ≠ [] → rest ≠ [] → (top.run front).depth ≠ 0

/-- The depth of a scan first comes back to zero at the last character of a text. -/
def ClosedAtEnd (cs : List Char) : Prop := EnclosedIn cs ∧ (top.run cs).depth = 0

theorem staysOpen_iff :
    staysOpen n cs = true ↔
      ∀ front rest, cs = front ++ rest → front ≠ [] → (n.run front).depth ≠ 0 := by
  induction cs generalizing n with
  | nil =>
    refine iff_of_true rfl fun front rest heq hne => absurd ?_ hne
    exact (List.append_eq_nil_iff.1 heq.symm).1
  | cons c cs ih =>
    rw [staysOpen, Bool.and_eq_true, bne_iff_ne, ih]
    constructor
    · rintro ⟨hfirst, hrest⟩ front rest heq hne
      obtain ⟨d, front, rfl⟩ := List.exists_cons_of_ne_nil hne
      obtain ⟨rfl, rfl⟩ := List.cons.inj heq
      rw [run_cons]
      by_cases hfront : front = []
      · rwa [hfront, run_nil]
      · exact hrest front rest rfl hfront
    · intro h
      refine ⟨h [c] cs rfl (by simp), fun front rest heq _ => ?_⟩
      exact h (c :: front) rest (by rw [heq, List.cons_append]) (by simp)

theorem enclosedIn_parens :
    EnclosedIn ('(' :: (inner ++ [')'])) ↔ staysOpen (top.deepen 1) inner = true := by
  have hopen : top.step '(' = top.deepen 1 := by decide
  rw [staysOpen_iff]
  constructor
  · intro h front rest heq _
    have hdepth := h ('(' :: front) (rest ++ [')']) (by simp [heq]) (by simp) (by simp)
    rwa [run_cons, hopen] at hdepth
  · intro h front rest heq hfront hrest
    obtain ⟨c, front, rfl⟩ := List.exists_cons_of_ne_nil hfront
    rw [List.cons_append] at heq
    obtain ⟨rfl, htail⟩ := List.cons.inj heq
    -- the last character is not in front
    obtain ⟨rest, d, rfl⟩ := (List.eq_nil_or_concat rest).resolve_left hrest
    rw [List.concat_eq_append, ← List.append_assoc] at htail
    have hinner : inner = front ++ rest := (List.append_inj' htail rfl).1
    rw [run_cons, hopen]
    by_cases hnil : front = []
    · subst hnil
      decide
    · exact h front rest hinner hnil

/-- A parenthesis leads out of all others only if it closes one that stands alone. -/
theorem depth_step_closing (hdepth : n.depth ≠ 0) : (n.step ')').depth = 0 ↔ n = top.deepen 1 := by
  obtain ⟨depth, quote, escaped⟩ := n
  unfold step deepen top
  dsimp only at hdepth ⊢
  cases escaped with
  | true => simpa using hdepth
  | false =>
    cases quote with
    | none =>
      simp
      omega
    | some q =>
      by_cases hq : ')' = q
      · subst hq
        simpa using hdepth
      · simpa [hq] using hdepth

end Nesting

open Nesting

/-! ## Wrapped items -/

variable {item inner : List Char}

theorem unwrap?_eq_some_iff :
    unwrap? item = some inner ↔ item = '(' :: (inner ++ [')']) ∧ EnclosedIn item := by
  constructor
  · intro h
    obtain rfl := eq_of_unwrap? h
    exact ⟨rfl, enclosedIn_parens.2 (staysOpen_deepen.2 (unwrap?_parens.1 h))⟩
  · rintro ⟨rfl, h⟩
    exact unwrap?_parens.2 (staysOpen_deepen.1 (enclosedIn_parens.1 h))

/-- In front of the last character of an unwrapped item, its first parenthesis is open. -/
theorem depth_ne_zero_of_unwrap? (h : unwrap? item = some inner) :
    (Nesting.top.run ('(' :: inner)).depth ≠ 0 := by
  obtain ⟨hitem, henclosed⟩ := unwrap?_eq_some_iff.1 h
  exact henclosed ('(' :: inner) [')'] hitem (by simp) (by simp)

/-- An unwrapped item is closed at its end if nothing but its first parenthesis is open there. -/
theorem closedAtEnd_iff (h : unwrap? item = some inner) :
    ClosedAtEnd item ↔ Nesting.top.run ('(' :: inner) = Nesting.top.deepen 1 := by
  obtain ⟨hitem, henclosed⟩ := unwrap?_eq_some_iff.1 h
  have hrun : Nesting.top.run item = (Nesting.top.run ('(' :: inner)).step ')' := by
    rw [hitem, ← List.cons_append, run_append]
    rfl
  rw [ClosedAtEnd, hrun, depth_step_closing (depth_ne_zero_of_unwrap? h)]
  exact and_iff_right henclosed

theorem Value.ofItem_eq_list_iff :
    (∃ vs, Value.ofItem item = .list vs) ↔ ∃ inner, unwrap? item = some inner := by
  unfold Value.ofItem
  cases hunwrap : unwrap? item with
  | none => simp
  | some inner =>
    refine iff_of_true ⟨_, Value.literal_false inner⟩ ⟨inner, rfl⟩

/-- An item is unwrapped exactly if it stands in parentheses of which the first is open in front of
every later character. Whether the last one closes it makes no difference, so some items are unwrapped
that are not closed at their end. -/
theorem unwrap?_exact (item inner : List Char) :
    (unwrap? item = some inner ↔ item = '(' :: (inner ++ [')']) ∧ EnclosedIn item) ∧
      (item = '(' :: (inner ++ [')']) ∧ ClosedAtEnd item ↔
        unwrap? item = some inner ∧ Nesting.top.run ('(' :: inner) = Nesting.top.deepen 1) ∧
      ((∃ vs, Value.ofItem item = .list vs) ↔
        ∃ inner, item = '(' :: (inner ++ [')']) ∧ EnclosedIn item) := by
  refine ⟨unwrap?_eq_some_iff, ?_, ?_⟩
  · constructor
    · rintro ⟨hitem, hclosed⟩
      have h := unwrap?_eq_some_iff.2 ⟨hitem, hclosed.1⟩
      exact ⟨h, (closedAtEnd_iff h).1 hclosed⟩
    · rintro ⟨h, hrun⟩
      exact ⟨eq_of_unwrap? h, (closedAtEnd_iff h).2 hrun⟩
  · rw [Value.ofItem_eq_list_iff]
    exact exists_congr fun _ => unwrap?_eq_some_iff

/-- Items that are read as lists although their last parenthesis closes another one, is escaped or
stands in a quote. -/
theorem unwrap?_not_closed :
    (unwrap? "((a)".toList = some "(a".toList ∧ ¬ ClosedAtEnd "((a)".toList) ∧
      (unwrap? "(a\\)".toList = some "a\\".toList ∧ ¬ ClosedAtEnd "(a\\)".toList) ∧
      (unwrap? "('a)".toList = some "'a".toList ∧ ¬ ClosedAtEnd "('a)".toList) ∧
      Value.ofText "((a)" = .list [.scalar "(a"] ∧ Value.ofText "(a\\)" = .list [.scalar "a\\"] ∧
      Value.ofText "('a)" = .list [.scalar "'a"] := by
  have hread (item inner : List Char) (hitems : splitComma item = [item])
      (hunwrap : unwrap? item = some inner) (hinner : splitComma inner = [inner])
      (hscalar : unwrap? inner = none) :
      Value.ofText (String.ofList item) = .list [.scalar (String.ofList inner)] := by
    rw [Value.ofText, String.toList_ofList, Value.literal_eq, hitems, List.map_singleton, Value.ofItem,
      hunwrap]
    dsimp only [Value.ofItems]
    rw [if_pos rfl, Value.literal_false, hinner, List.map_singleton, Value.ofItem, hscalar]
  refine ⟨⟨by decide, fun h => absurd h.2 (by decide)⟩, ⟨by decide, fun h => absurd h.2 (by decide)⟩,
    ⟨by decide, fun h => absurd h.2 (by decide)⟩, ?_, ?_, ?_⟩
  · exact hread "((a)".toList "(a".toList (by decide) (by decide) (by decide) (by decide)
  · exact hread "(a\\)".toList "a\\".toList (by decide) (by decide) (by decide) (by decide)
  · exact hread "('a)".toList "'a".toList (by decide) (by decide) (by decide) (by decide)

end StyleExpand

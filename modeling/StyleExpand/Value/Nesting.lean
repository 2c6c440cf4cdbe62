import StyleExpand.Text.Blank

/-!
# Top-level separators

The text of a list is read one character at a time with a `Nesting`: the open parentheses, the open
quote and a pending escape. A separator counts only where nothing is open.

* `pieces`: the parts between the top-level separators, just as they stand;
* `splitComma` and `splitSpace`: those parts trimmed, less the empty ones;
* `unwrap?`: what stands between a parenthesis and the one that closes it.
-/

namespace StyleExpand

/-- What is open at a place of a text. -/
structure Nesting where
  depth : Nat
  quote : Option Char
  escaped : Bool
  deriving DecidableEq

namespace Nesting

/-- Nothing is open. -/
def top : Nesting := ⟨0, none, false⟩

/-- The nesting after one more character; a closing parenthesis too many changes nothing. -/
def step (n : Nesting) (c : Char) : Nesting :=
  if n.escaped then { n with escaped := false }
  else if c = '\\' then { n with escaped := true }
  else
    match n.quote with
    | some q => if c = q then { n with quote := none } else n
    | none =>
      if c = '"' ∨ c = '\'' then { n with quote := some c }
      else if c = '(' then { n with depth := n.depth + 1 }
      else if c = ')' then { n with depth := n.depth - 1 }
      else n

/-- The nesting after a whole text. -/
def run (n : Nesting) (cs : List Char) : Nesting := cs.foldl step n

@[simp] theorem run_nil (n : Nesting) : n.run [] = n := rfl

@[simp] theorem run_cons (n : Nesting) (c : Char) (cs : List Char) :
    n.run (c :: cs) = (n.step c).run cs := rfl

theorem run_append (n : Nesting) (xs ys : List Char) : n.run (xs ++ ys) = (n.run xs).run ys :=
  List.foldl_append ..

end Nesting

/-! ## Pieces -/

/-- The parts of a text between its top-level separators, in order and just as they stand. -/
def pieces (sep : Char → Bool) : Nesting → List Char → List (List Char)
  | _, [] => [[]]
  | n, c :: cs =>
    if n = .top ∧ sep c then [] :: pieces sep n cs
    else (pieces sep (n.step c) cs).modifyHead (c :: ·)

theorem pieces_ne_nil (sep : Char → Bool) : ∀ (n : Nesting) (cs : List Char), pieces sep n cs ≠ []
  | _, [] => by simp [pieces]
  | n, c :: cs => by
    rw [pieces]
    split
    · simp
    · have h := pieces_ne_nil sep (n.step c) cs
      cases hp : pieces sep (n.step c) cs with
      | nil => exact absurd hp h
      | cons p ps => simp

theorem length_le_of_mem_pieces (sep : Char → Bool) : ∀ (n : Nesting) (cs p : List Char),
    p ∈ pieces sep n cs → p.length ≤ cs.length
  | _, [], p, h => by
    simp only [pieces, List.mem_singleton] at h
    simp [h]
  | n, c :: cs, p, h => by
    rw [pieces] at h
    split at h
    · rcases List.mem_cons.1 h with rfl | h
      · simp
      · have := length_le_of_mem_pieces sep n cs p h
        simp only [List.length_cons]
        omega
    · cases hp : pieces sep (n.step c) cs with
      | nil => exact absurd hp (pieces_ne_nil sep _ cs)
      | cons q qs =>
        rw [hp, List.modifyHead_cons] at h
        simp only [List.length_cons]
        rcases List.mem_cons.1 h with rfl | h
        · have := length_le_of_mem_pieces sep (n.step c) cs q (by simp [hp])
          simp only [List.length_cons]
          omega
        · have := length_le_of_mem_pieces sep (n.step c) cs p (by simp [hp, h])
          omega

/-! ## Lists and tokens -/

/-- The items of a list: of its pieces the empty ones are left out, save the last. -/
def trimItems : List (List Char) → List (List Char)
  | [] => []
  | [p] => [Text.trim p]
  | p :: q :: ps =>
    if p.isEmpty then trimItems (q :: ps) else Text.trim p :: trimItems (q :: ps)

/-- The trimmed items of a comma separated list; the last one is always kept. -/
def splitComma (cs : List Char) : List (List Char) :=
  trimItems (pieces (· == ',') .top cs)

def isTokenSeparator (c : Char) : Bool := c == ' ' || c == '\n' || c == '\t'

/-- The tokens between spaces, line feeds and tabs; a piece is empty or not before it is trimmed. -/
def splitSpace (cs : List Char) : List (List Char) :=
  ((pieces isTokenSeparator .top cs).filter (!·.isEmpty)).map Text.trim

theorem length_le_of_mem_trimItems : ∀ (ps : List (List Char)) (bound : Nat),
    (∀ p ∈ ps, p.length ≤ bound) → ∀ item ∈ trimItems ps, item.length ≤ bound
  | [], _, _, item, h => by simp [trimItems] at h
  | [p], bound, hb, item, h => by
    simp only [trimItems, List.mem_singleton] at h
    subst h
    exact Nat.le_trans (Text.length_trim_le p) (hb p (by simp))
  | p :: q :: ps, bound, hb, item, h => by
    have hrest : ∀ r ∈ q :: ps, r.length ≤ bound := fun r hr => hb r (by simp [List.mem_cons.1 hr])
    rw [trimItems] at h
    split at h
    · exact length_le_of_mem_trimItems (q :: ps) bound hrest item h
    · rcases List.mem_cons.1 h with rfl | h
      · exact Nat.le_trans (Text.length_trim_le p) (hb p (by simp))
      · exact length_le_of_mem_trimItems (q :: ps) bound hrest item h

theorem length_le_of_mem_splitComma {cs item : List Char} (h : item ∈ splitComma cs) :
    item.length ≤ cs.length :=
  length_le_of_mem_trimItems _ cs.length (fun p hp => length_le_of_mem_pieces _ _ cs p hp) item h

/-! ## Wrapped items -/

/-- Whether a text keeps the parenthesis before it open all the way. -/
def staysOpen : Nesting → List Char → Bool
  | _, [] => true
  | n, c :: cs => (n.step c).depth != 0 && staysOpen (n.step c) cs

/-- The text between an opening parenthesis and a final closing one that no earlier one closes. -/
def unwrap? : List Char → Option (List Char)
  | '(' :: cs =>
    match Text.beforeEnd [')'] cs with
    | some inner => if staysOpen ⟨1, none, false⟩ inner then some inner else none
    | none => none
  | _ => none

theorem eq_of_unwrap? {cs inner : List Char} (h : unwrap? cs = some inner) :
    cs = '(' :: (inner ++ [')']) := by
  unfold unwrap? at h
  split at h
  · split at h
    · rename_i hi
      split at h
      · obtain rfl := Option.some.inj h
        rw [Text.append_of_beforeEnd hi]
      · simp at h
    · simp at h
  · simp at h

theorem length_unwrap?_lt {cs inner : List Char} (h : unwrap? cs = some inner) :
    inner.length < cs.length := by
  rw [eq_of_unwrap? h]
  simp only [List.length_cons, List.length_append, List.length_nil]
  omega

end StyleExpand

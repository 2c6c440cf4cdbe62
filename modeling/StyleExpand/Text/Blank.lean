import StyleExpand.Text.Ranges

/-!
# Blank characters

The characters with the Unicode property `White_Space`, and what is cut at them:

* `trim`: a text without the blanks at its two ends;
* `words`: the longest blank-free parts of a text.
-/

namespace StyleExpand.Text

/-- Tabs, line ends, spaces and the blanks of other scripts. -/
def blanks : Ranges :=
  [(0x9, 0xD), (0x20, 0x20), (0x85, 0x85), (0xA0, 0xA0), (0x1680, 0x1680), (0x2000, 0x200A),
    (0x2028, 0x2029), (0x202F, 0x202F), (0x205F, 0x205F), (0x3000, 0x3000)]

def isBlank (c : Char) : Bool := blanks.holds c

/-! ## Trimming -/

def trimStart (cs : List Char) : List Char := cs.dropWhile isBlank

def trimEnd (cs : List Char) : List Char := (cs.reverse.dropWhile isBlank).reverse

def trim (cs : List Char) : List Char := trimEnd (trimStart cs)

@[simp] theorem trimStart_nil : trimStart [] = [] := rfl

@[simp] theorem trimEnd_nil : trimEnd [] = [] := rfl

@[simp] theorem trim_nil : trim [] = [] := rfl

theorem length_trimStart_le (cs : List Char) : (trimStart cs).length ≤ cs.length :=
  (List.dropWhile_suffix isBlank).length_le

theorem length_trimEnd_le (cs : List Char) : (trimEnd cs).length ≤ cs.length := by
  have h := (List.dropWhile_suffix (l := cs.reverse) isBlank).length_le
  simpa [trimEnd] using h

theorem length_trim_le (cs : List Char) : (trim cs).length ≤ cs.length :=
  Nat.le_trans (length_trimEnd_le _) (length_trimStart_le cs)

/-! ## Words -/

/-- The longest blank-free parts of a text. -/
def words (cs : List Char) : List (List Char) := (cs.splitOnP isBlank).filter (!·.isEmpty)

/-! ## Cutting at a given text -/

/-- What follows a text that stands at the start of another one. -/
def afterStart : List Char → List Char → Option (List Char)
  | [], cs => some cs
  | _ :: _, [] => none
  | p :: ps, c :: cs => if p = c then afterStart ps cs else none

/-- What stands before a text that ends another one. -/
def beforeEnd (suffix cs : List Char) : Option (List Char) :=
  (afterStart suffix.reverse cs.reverse).map List.reverse

/-- The two sides of the first occurrence of `sep`. -/
def cutOnce (sep : List Char) : List Char → Option (List Char × List Char)
  | [] => if sep.isEmpty then some ([], []) else none
  | c :: cs =>
    match afterStart sep (c :: cs) with
    | some rest => some ([], rest)
    | none => (cutOnce sep cs).map fun sides => (c :: sides.1, sides.2)

theorem append_of_afterStart : ∀ {p cs rest : List Char},
    afterStart p cs = some rest → cs = p ++ rest
  | [], _, _, h => by simpa [afterStart] using h
  | _ :: _, [], _, h => by simp [afterStart] at h
  | p :: ps, c :: cs, rest, h => by
    by_cases hpc : p = c
    · subst hpc
      simp only [afterStart, ↓reduceIte] at h
      simp [append_of_afterStart h]
    · simp [afterStart, hpc] at h

theorem append_of_cutOnce {sep : List Char} : ∀ {cs before after : List Char},
    cutOnce sep cs = some (before, after) → cs = before ++ sep ++ after
  | [], before, after, h => by
    simp only [cutOnce, List.isEmpty_iff] at h
    split at h
    · simp_all
    · simp at h
  | c :: cs, before, after, h => by
    rw [cutOnce] at h
    split at h
    · rename_i hafter
      obtain ⟨rfl, rfl⟩ := Prod.mk.inj (Option.some.inj h)
      exact append_of_afterStart hafter
    · obtain ⟨sides, hsides, heq⟩ := Option.map_eq_some_iff.1 h
      obtain ⟨rfl, rfl⟩ := Prod.mk.inj heq
      rw [append_of_cutOnce hsides]
      simp

theorem append_of_beforeEnd {suffix cs front : List Char} (h : beforeEnd suffix cs = some front) :
    cs = front ++ suffix := by
  obtain ⟨r, hr, rfl⟩ := Option.map_eq_some_iff.1 h
  have := congrArg List.reverse (append_of_afterStart hr)
  simpa using this

end StyleExpand.Text

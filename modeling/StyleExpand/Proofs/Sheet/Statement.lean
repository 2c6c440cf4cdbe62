import StyleExpand.Proofs.Text.Trim
import StyleExpand.Sheet.Token

/-!
# Scanning statements

What the scanner of statements and the search for a colon do with texts put together from parts.

* `Scan.Spans s cs` : no character of `cs`, scanned from `s` on, ends a statement;
* `Scan.spans_append`, `Scan.statement_of_spans` : part after part;
* `Scan.after_plain` : blanks and colons only settle a pending backslash or hash;
* `cutAtColon_append` : the colon that is found does not hang on blanks before it, nor on what follows.
-/

namespace StyleExpand

namespace Scan

def after (s : Scan) (cs : List Char) : Scan := cs.foldl step s

@[simp] theorem after_nil (s : Scan) : s.after [] = s := rfl

@[simp] theorem after_cons (s : Scan) (c : Char) (cs : List Char) :
    s.after (c :: cs) = (s.step c).after cs := rfl

theorem after_append (s : Scan) (as bs : List Char) : s.after (as ++ bs) = (s.after as).after bs :=
  List.foldl_append ..

/-- Nothing is open, and no backslash is pending. -/
def Closed (s : Scan) : Prop :=
  s.parens = 0 ∧ s.holes = 0 ∧ s.quote = none ∧ s.escaped = false

instance (s : Scan) : Decidable s.Closed := inferInstanceAs (Decidable (_ ∧ _ ∧ _ ∧ _))

/-- No character of a text, scanned from here on, ends a statement. -/
def Spans (s : Scan) (cs : List Char) : Prop := s.statement cs = (cs, [])

instance (s : Scan) (cs : List Char) : Decidable (s.Spans cs) :=
  inferInstanceAs (Decidable (_ = _))

theorem spans_nil (s : Scan) : s.Spans [] := rfl

theorem spans_cons {s : Scan} {c : Char} {cs : List Char} :
    s.Spans (c :: cs) ↔ s.ends c = false ∧ (s.step c).Spans cs := by
  unfold Spans
  rw [statement]
  cases s.ends c
  · simp [Prod.ext_iff]
  · simp

theorem spans_append {s : Scan} {as bs : List Char} :
    s.Spans (as ++ bs) ↔ s.Spans as ∧ (s.after as).Spans bs := by
  induction as generalizing s with
  | nil => simp [spans_nil]
  | cons a as ih => rw [List.cons_append, spans_cons, ih, spans_cons, after_cons, and_assoc]

theorem statement_of_spans {s : Scan} {cs : List Char} (h : s.Spans cs) (rest : List Char) :
    s.statement (cs ++ rest) =
      (cs ++ ((s.after cs).statement rest).1, ((s.after cs).statement rest).2) := by
  induction cs generalizing s with
  | nil => rfl
  | cons c cs ih =>
    rw [spans_cons] at h
    rw [List.cons_append, statement, h.1, ih h.2]
    rfl

theorem statement_of_ends {s : Scan} {c : Char} (h : s.ends c = true) (rest : List Char) :
    s.statement (c :: rest) = ([], c :: rest) := by
  rw [statement, if_pos h]

/-- A statement is a text that nothing in it ends. -/
theorem spans_statement (s : Scan) (cs : List Char) : s.Spans (s.statement cs).1 := by
  induction cs generalizing s with
  | nil => exact spans_nil s
  | cons c cs ih =>
    rw [statement]
    split
    · exact spans_nil s
    · rename_i h
      exact spans_cons.2 ⟨by simpa using h, ih (s.step c)⟩

theorem spans_of_statement {s : Scan} {cs text rest : List Char}
    (h : s.statement cs = (text, rest)) : s.Spans text := by
  have hspans := s.spans_statement cs
  rwa [h] at hspans

theorem isPrefix_of_statement {s : Scan} {cs text rest : List Char}
    (h : s.statement cs = (text, rest)) : text <+: cs :=
  ⟨rest, by rw [← s.statement_append cs, h]⟩

theorem ends_of_statement {s : Scan} {cs text rest : List Char} {c : Char}
    (h : s.statement cs = (text, c :: rest)) : (s.after text).ends c = true := by
  induction cs generalizing s text with
  | nil => simp [statement] at h
  | cons d cs ih =>
    rw [statement] at h
    split at h
    · rename_i hends
      cases h
      exact hends
    · obtain ⟨rfl, hrest⟩ := Prod.mk.inj h
      exact ih (s := s.step d) (Prod.ext rfl hrest)

theorem closed_of_ends {s : Scan} {c : Char} (h : s.ends c = true) : s.Closed := by
  unfold ends at h
  simp only [Bool.and_eq_true, beq_iff_eq, Option.isNone_iff_eq_none, Bool.not_eq_true'] at h
  exact ⟨h.1.1.1.1, h.1.1.1.2, h.1.1.2, h.1.2⟩

theorem ends_of_closed {s : Scan} {c : Char} (h : s.Closed)
    (hc : (c == ';' || c == '}' || (c == '{' && !s.hash)) = true) : s.ends c = true := by
  obtain ⟨hparens, hholes, hquote, hescaped⟩ := h
  rw [ends, hparens, hholes, hquote, hescaped, hc]
  rfl

/-! ## Characters without a meaning -/

def isPlain (c : Char) : Bool := c ∉ ['\\', '"', '\'', '#', '{', '}', '(', ')', ';']

theorem isPlain_of_isBlank {c : Char} (h : Text.isBlank c = true) : isPlain c = true := by
  simp only [isPlain, List.mem_cons, List.not_mem_nil, or_false, not_or, decide_eq_true_eq]
  refine ⟨?_, ?_, ?_, ?_, ?_, ?_, ?_, ?_, ?_⟩ <;> rintro rfl <;> revert h <;> decide

def settle (s : Scan) : Scan := { s with escaped := false, hash := false }

theorem Closed.settle {s : Scan} (h : s.Closed) : s.settle.Closed := ⟨h.1, h.2.1, h.2.2.1, rfl⟩

/-- Quotes are one of two characters; a hash is not pending in quotes or behind a backslash. -/
structure Sound (s : Scan) : Prop where
  quote_eq : ∀ q, s.quote = some q → q = '"' ∨ q = '\''
  hash_of_quote : s.quote ≠ none → s.hash = false
  hash_of_escaped : s.escaped = true → s.hash = false

theorem sound_start : start.Sound := ⟨by simp [start], fun _ => rfl, fun _ => rfl⟩

theorem Sound.step {s : Scan} (h : s.Sound) (c : Char) : (s.step c).Sound := by
  obtain ⟨hquote, hhash, hescaped⟩ := h
  constructor <;> unfold Scan.step <;> grind

theorem Sound.after {s : Scan} (h : s.Sound) (cs : List Char) : (s.after cs).Sound := by
  induction cs generalizing s with
  | nil => exact h
  | cons c cs ih => exact ih (h.step c)

theorem step_of_isPlain {s : Scan} (h : s.Sound) {c : Char} (hc : isPlain c = true) :
    s.step c = s.settle := by
  obtain ⟨parens, holes, quote, escaped, hash⟩ := s
  obtain ⟨hquote, hhash, hescaped⟩ := h
  simp only [isPlain, List.mem_cons, List.not_mem_nil, or_false, not_or, decide_eq_true_eq] at hc
  cases escaped with
  | true =>
    obtain rfl := hescaped rfl
    rfl
  | false =>
    cases quote with
    | some q =>
      obtain rfl : hash = false := hhash (by simp)
      have hq : c ≠ q := by
        rintro rfl
        rcases hquote c rfl with h | h <;> simp [h] at hc
      simp [step, settle, hc, hq]
    | none => simp [step, settle, hc]

theorem ends_of_isPlain {s : Scan} {c : Char} (hc : isPlain c = true) : s.ends c = false := by
  simp only [isPlain, List.mem_cons, List.not_mem_nil, or_false, not_or, decide_eq_true_eq] at hc
  simp [ends, hc]

theorem Sound.settle {s : Scan} (h : s.Sound) : s.settle.Sound :=
  ⟨h.quote_eq, fun _ => rfl, fun _ => rfl⟩

/-- Characters without a meaning only settle what is pending. -/
theorem after_plain {s : Scan} (h : s.Sound) : ∀ {cs : List Char}, (∀ c ∈ cs, isPlain c = true) →
    s.after cs = if cs = [] then s else s.settle
  | [], _ => rfl
  | c :: cs, hcs => by
    rw [after_cons, step_of_isPlain h (hcs c (by simp)),
      after_plain h.settle fun d hd => hcs d (by simp [hd])]
    simp only [reduceCtorEq, if_false]
    split <;> rfl

theorem spans_plain (s : Scan) {cs : List Char} (hcs : ∀ c ∈ cs, isPlain c = true) : s.Spans cs := by
  induction cs generalizing s with
  | nil => exact spans_nil s
  | cons c cs ih =>
    exact spans_cons.2 ⟨ends_of_isPlain (hcs c (by simp)), ih _ fun d hd => hcs d (by simp [hd])⟩

theorem plain_of_blank {bs : List Char} (hb : Text.Blank bs) :
    ∀ c ∈ bs, isPlain c = true := fun c hc => isPlain_of_isBlank (hb c hc)

/-- A colon with blanks around it settles what is pending, as the written colon does. -/
theorem after_colon {s : Scan} (hs : s.Sound) {as bs : List Char} (ha : Text.Blank as)
    (hb : Text.Blank bs) : s.after (as ++ ':' :: bs) = s.settle := by
  have hplain : ∀ c ∈ as ++ ':' :: bs, isPlain c = true := by
    intro c hc
    rcases List.mem_append.1 hc with hc | hc
    · exact plain_of_blank ha c hc
    · rcases List.mem_cons.1 hc with rfl | hc
      · decide
      · exact plain_of_blank hb c hc
  rw [after_plain hs hplain, if_neg (by simp)]

/-- Blanks before a statement leave nothing pending. -/
theorem after_blank_append {bs : List Char} (hb : Text.Blank bs) (cs : List Char) :
    start.after (bs ++ cs) = start.after cs := by
  rw [after_append, after_plain sound_start fun c hc => isPlain_of_isBlank (hb c hc)]
  split <;> rfl

theorem spans_blank_append {bs : List Char} (hb : Text.Blank bs) (cs : List Char) :
    start.Spans (bs ++ cs) ↔ start.Spans cs := by
  have hafter := after_blank_append hb []
  rw [List.append_nil, after_nil] at hafter
  rw [spans_append, hafter]
  exact and_iff_right (spans_plain _ fun c hc => isPlain_of_isBlank (hb c hc))

end Scan

/-! ## Colons -/

/-- What the search for a colon knows behind a character that it passes. -/
def colonStep (depth : Nat) (hash : Bool) (c : Char) : Nat × Bool :=
  if c = '#' then (depth, true)
  else if c = '{' ∧ hash then (depth + 1, false)
  else if c = '(' then (depth + 1, false)
  else if c = '}' ∨ c = ')' then (depth - 1, false)
  else (depth, false)

theorem cutAtColon_cons (depth : Nat) (hash : Bool) (c : Char) (cs : List Char) :
    cutAtColon depth hash (c :: cs) =
      if c = ':' ∧ depth = 0 then some ([], cs)
      else (cutAtColon (colonStep depth hash c).1 (colonStep depth hash c).2 cs).map fun sides =>
        (c :: sides.1, sides.2) := by
  rw [cutAtColon, colonStep]
  grind

theorem append_of_cutAtColon {cs left right : List Char} : ∀ {depth : Nat} {hash : Bool},
    cutAtColon depth hash cs = some (left, right) → cs = left ++ ':' :: right := by
  induction cs generalizing left with
  | nil => simp [cutAtColon]
  | cons c cs ih =>
    intro depth hash h
    rw [cutAtColon_cons] at h
    split at h
    · rename_i hc
      cases h
      rw [hc.1]
      rfl
    · obtain ⟨sides, hsides, heq⟩ := Option.map_eq_some_iff.1 h
      cases heq
      rw [ih hsides, List.cons_append]

theorem colonStep_of_isBlank {c : Char} (h : Text.isBlank c = true) (depth : Nat) (hash : Bool) :
    c ≠ ':' ∧ colonStep depth hash c = (depth, false) := by
  have hne : ∀ d, Text.isBlank d = false → c ≠ d := by
    rintro d hd rfl
    rw [h] at hd
    simp at hd
  refine ⟨hne ':' (by decide), ?_⟩
  rw [colonStep, if_neg (hne '#' (by decide)), if_neg fun hc => hne '{' (by decide) hc.1,
    if_neg (hne '(' (by decide)), if_neg]
  rintro (hc | hc)
  · exact hne '}' (by decide) hc
  · exact hne ')' (by decide) hc

/-- The colon that is found does not hang on blanks right before it, nor on what follows it. -/
theorem cutAtColon_append {left bs right : List Char} (hb : Text.Blank bs) (right' : List Char) :
    ∀ {depth : Nat} {hash : Bool},
      cutAtColon depth hash (left ++ bs ++ ':' :: right) = some (left ++ bs, right) →
      cutAtColon depth hash (left ++ ':' :: right') = some (left, right') := by
  induction left with
  | nil =>
    -- blanks do not change the depth, so the colon is at depth zero without them too
    induction bs with
    | nil =>
      intro depth hash h
      rw [List.nil_append, List.nil_append, cutAtColon_cons] at h
      rw [List.nil_append, cutAtColon_cons]
      split at h
      · rename_i hc
        rw [if_pos hc]
      · simp at h
    | cons b bs ih =>
      intro depth hash h
      have hblank := colonStep_of_isBlank (hb b (by simp)) depth hash
      rw [List.nil_append, List.cons_append, cutAtColon_cons, if_neg fun hc => hblank.1 hc.1,
        hblank.2] at h
      obtain ⟨sides, hsides, heq⟩ := Option.map_eq_some_iff.1 h
      obtain ⟨rfl, rfl⟩ : sides.1 = bs ∧ sides.2 = right := by simpa using heq
      have hrest : cutAtColon depth false ([] ++ ':' :: right') = some ([], right') :=
        ih (fun c hc => hb c (by simp [hc])) hsides
      rw [List.nil_append, cutAtColon_cons] at hrest ⊢
      split at hrest
      · rename_i hc
        rw [if_pos hc]
      · simp at hrest
  | cons c left ih =>
    intro depth hash h
    rw [List.cons_append, List.cons_append, cutAtColon_cons] at h
    rw [List.cons_append, cutAtColon_cons]
    split at h
    · simp at h
    · rename_i hc
      obtain ⟨sides, hsides, heq⟩ := Option.map_eq_some_iff.1 h
      obtain ⟨hleft, rfl⟩ : sides.1 = left ++ bs ∧ sides.2 = right := by simpa using heq
      rw [if_neg hc, ih (hsides.trans (by rw [← hleft]))]
      rfl

end StyleExpand

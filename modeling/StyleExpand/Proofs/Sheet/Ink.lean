import StyleExpand.Proofs.Sheet.Graft
import StyleExpand.Proofs.Sheet.Parsed

/-!
# No ink is lost

The ink of a text is what is left of it without blanks and semicolons. Reading a source and writing
it again moves blanks and semicolons about, and all the rest stays in its place, whether or not
quotes, parentheses and escapes are closed.

* `Text.ink_trim` : trimming takes no ink away;
* `Token.ink` : the ink of what is written for a token;
* `Lexeme.ink_text`, `Token.ink_scan` : the ink of a source is that of its tokens, in order;
* `Nested.ink_writeAll` : the ink of written trees is that of their tokens;
* `Sheet.ink_print` : the ink of a stylesheet that was read is that of its source.
-/

namespace StyleExpand

open StyleExpand.Tree

/-! ## Texts -/

namespace Text

def isInk (c : Char) : Bool := !isBlank c && c != ';'

def ink (cs : List Char) : List Char := cs.filter isInk

@[simp] theorem ink_nil : ink [] = [] := rfl

@[simp] theorem ink_append (as bs : List Char) : ink (as ++ bs) = ink as ++ ink bs :=
  List.filter_append ..

theorem ink_cons_of_ink {c : Char} (h : isInk c = true) (cs : List Char) :
    ink (c :: cs) = c :: ink cs :=
  List.filter_cons_of_pos h

theorem ink_cons_of_not_ink {c : Char} (h : isInk c = false) (cs : List Char) :
    ink (c :: cs) = ink cs :=
  List.filter_cons_of_neg (by simp [h])

theorem ink_of_blank {bs : List Char} (h : Blank bs) : ink bs = [] := by
  unfold ink
  rw [List.filter_eq_nil_iff]
  intro c hc
  simp [isInk, h c hc]

theorem ink_trim (cs : List Char) : ink (trim cs) = ink cs :=
  filter_trim (fun c hc => by simp [isInk, hc]) cs

end Text

open Text (ink_nil ink_append ink_cons_of_ink ink_cons_of_not_ink ink_of_blank)

theorem ink_trimText (cs : List Char) : Text.ink (trimText cs).toList = Text.ink cs := by
  rw [toList_trimText, Text.ink_trim]

/-! ## Tokens -/

def Token.ink : Token → List Char
  | .opening c => Text.ink c.written
  | .closing => ['}']
  | .leaf c => Text.ink c.written

namespace Content

variable (name params : List Char)

theorem ink_written_atRule (block : Bool) :
    Text.ink (atRule (String.ofList name) (trimText params) block).written =
      '@' :: (Text.ink name ++ Text.ink params ++ if block then ['{'] else []) := by
  cases block <;>
    simp (disch := decide) [written, atRuleHead_eq, ink_cons_of_ink, ink_cons_of_not_ink,
      ink_trimText, ink_of_blank (blank_gap _)]

/-- The two sides of a declaration have the ink of its statement. -/
theorem ink_written_declaration {text : List Char} {c : Content} (h : declaration? text = some c) :
    Text.ink c.written = Text.ink text := by
  obtain ⟨⟨left, right⟩, hcut, rfl⟩ := Option.map_eq_some_iff.1 h
  rw [append_of_cutAtColon hcut]
  simp (disch := decide) [written, ink_cons_of_ink, ink_cons_of_not_ink, ink_trimText]

end Content

namespace Lexeme

theorem ink_text_atRule (cs : List Char) :
    Text.ink (atRule cs).text = (atRule cs).token.elim [] Token.ink := by
  unfold atRule
  dsimp only
  split
  all_goals
    simp (disch := decide) [Token.ink, Content.ink_written_atRule, ink_cons_of_ink,
      ink_cons_of_not_ink]

theorem ink_text_ruleOrDeclaration {cs : List Char} {l : Lexeme} (h : ruleOrDeclaration cs = .ok l) :
    Text.ink l.text = l.token.elim [] Token.ink := by
  unfold ruleOrDeclaration at h
  dsimp only at h
  split at h
  · cases h
    simp (disch := decide) [Token.ink, Content.written, ink_trimText, ink_cons_of_not_ink]
  · split at h
    · cases h
    · rename_i c hdecl
      have hink := Content.ink_written_declaration hdecl
      split at h
      · cases h
        simp (disch := decide) [Token.ink, hink, ink_cons_of_not_ink]
      · cases h
        simp [Token.ink, hink]

theorem ink_text {cs : List Char} {l : Lexeme} (h : read cs = .ok l) :
    Text.ink l.text = l.token.elim [] Token.ink := by
  unfold read at h
  split at h
  · cases h
    rfl
  · cases h
    rfl
  · split at h
    · cases h
    · cases h
      simp [Token.ink, Content.written]
  · cases h
    exact ink_text_atRule _
  · exact ink_text_ruleOrDeclaration h

end Lexeme

/-- The ink of a source is that of its first token and that of the rest. -/
theorem Lexeme.ink_source {cs front : List Char} {l : Lexeme} (hrest : cs.dropWhile Text.isBlank = front)
    (h : read front = .ok l) : Text.ink cs = l.token.elim [] Token.ink ++ Text.ink l.rest := by
  calc Text.ink cs = Text.ink (cs.takeWhile Text.isBlank ++ front) := by
        rw [← hrest, List.takeWhile_append_dropWhile]
    _ = Text.ink front := by rw [ink_append, ink_of_blank (Text.blank_takeWhile cs), List.nil_append]
    _ = _ := by rw [← ink_text h, ← ink_append, read_append h]

/-- The ink of a source that has an end is that of its tokens. -/
theorem Token.ink_scan {q : Position} (p : Position) (cs : List Char)
    (h : (Token.scan p cs).2 = .finished q) :
    Text.ink cs = (Token.scan p cs).1.flatMap fun l => l.token.ink := by
  fun_induction Token.scan p cs with
  | case1 p cs here hrest =>
    rw [← List.takeWhile_append_dropWhile (p := Text.isBlank) (l := cs), hrest, List.append_nil,
      ink_of_blank (Text.blank_takeWhile cs)]
    rfl
  | case2 => cases h
  | case3 p cs here c rest hrest lexeme hread hlt tokens ending hscan token htoken ih =>
    rw [hscan] at ih
    rw [Lexeme.ink_source hrest hread, htoken, ih h, List.flatMap_cons]
    rfl
  | case4 p cs here c rest hrest lexeme hread hlt tokens ending hscan htoken ih =>
    rw [hscan] at ih
    rw [Lexeme.ink_source hrest hread, htoken, ih h]
    rfl

/-! ## Trees -/

theorem Printer.ink_write (depth : Nat) (e : Entry) (ts : List (Tree Entry)) (he : e.content ≠ .root) :
    Text.ink (write depth (.node e ts)) = Text.ink e.content.written ++
      if e.content.opens then Text.ink (writeAll (depth + 1) ts) ++ ['}'] else [] := by
  rw [write_eq depth e ts he, ink_append, ink_append, ink_of_blank (blank_indent depth), List.nil_append]
  congr 1
  cases hopens : e.content.opens with
  | false => simp (disch := decide) [behind, hopens, ink_cons_of_not_ink]
  | true =>
    cases ts with
    | nil => simp (disch := decide) [behind, hopens, writeAll, ink_cons_of_ink, ink_cons_of_not_ink]
    | cons t ts =>
      simp (disch := decide) [behind, hopens, ink_of_blank (blank_indent depth), ink_cons_of_ink,
        ink_cons_of_not_ink]

theorem Content.ne_root_of_legible {c : Content} (h : c.Settled → c.Legible) : c ≠ .root := by
  rintro rfl
  exact h trivial

theorem Nested.ink_writeAll {row : List Located} {ts : List (Tree Entry)} (h : Nested row ts)
    (htokens : ∀ l ∈ row, l.token.Legible) (depth : Nat) :
    Text.ink (Printer.writeAll depth ts) = row.flatMap fun l => l.token.ink := by
  induction h generalizing depth with
  | nil => rfl
  | @leaf p c row ts _ ih =>
    have htoken : (Token.leaf c).Legible := htokens ⟨p, .leaf c⟩ (by simp)
    rw [Printer.writeAll, ink_append, Printer.ink_write _ _ _ (Content.ne_root_of_legible htoken.2),
      ih fun l hl => htokens l (by simp [hl])]
    simp [htoken.1, Token.ink]
  | @block p q c inner row us ts _ _ ihinner ih =>
    have htoken : (Token.opening c).Legible := htokens ⟨p, .opening c⟩ (by simp)
    rw [Printer.writeAll, ink_append, Printer.ink_write _ _ _ (Content.ne_root_of_legible htoken.2),
      ihinner fun l hl => htokens l (by simp [hl]), ih fun l hl => htokens l (by simp [hl])]
    simp [htoken.1, Token.ink]

/-! ## Stylesheets -/

/-- Reading a source and writing what was read keeps every character but blanks and semicolons, each
as often as it was there and all in their order. -/
theorem Sheet.ink_print {source : String} {s : Sheet} (h : parse source = .ok s) :
    Text.ink s.print.toList = Text.ink source.toList := by
  obtain ⟨ts, hforest, rfl⟩ := exists_forest_of_parse h
  obtain ⟨row, q, hscan, hnested⟩ := nested_of_parseForest hforest
  have hlegible := Token.legible_of_scan .start source.toList
  have hsource := Token.ink_scan (q := q) .start source.toList (by rw [hscan])
  rw [hscan] at hlegible hsource
  rw [print, String.toList_ofList, forest_ofForest, hnested.ink_writeAll hlegible 0, hsource]

/-- A comment, a block without a semicolon at its end, and a quote and a parenthesis that stay open. -/
theorem Sheet.ink_print_unclosed : ∃ s, parse " /* ; */a\\ \x7b b :(c;d)\x7d;;@x  '(;\x7d" = .ok s ∧
    Text.ink s.print.toList = "/**/a\\\x7bb:(cd)\x7d@x'(\x7d".toList := by
  have hparse : parse " /* ; */a\\ \x7b b :(c;d)\x7d;;@x  '(;\x7d" = .ok (ofForest
      [.node ⟨.comment " ; ", some ⟨1, 2⟩⟩ [],
        .node ⟨.rule "a\\", some ⟨1, 9⟩⟩ [.node ⟨.declaration "b" "(c;d)", some ⟨1, 14⟩⟩ []],
        .node ⟨.atRule "x" "'(;\x7d" false, some ⟨1, 25⟩⟩ []]) := by
    have hscan : Token.scan .start " /* ; */a\\ \x7b b :(c;d)\x7d;;@x  '(;\x7d".toList =
        ([⟨⟨1, 2⟩, .leaf (.comment " ; ")⟩, ⟨⟨1, 9⟩, .opening (.rule "a\\")⟩,
          ⟨⟨1, 14⟩, .leaf (.declaration "b" "(c;d)")⟩, ⟨⟨1, 22⟩, .closing⟩,
          ⟨⟨1, 25⟩, .leaf (.atRule "x" "'(;\x7d" false)⟩], .finished ⟨1, 33⟩) := by
      decide +kernel
    rw [parse, parseForest, hscan]
    rfl
  refine ⟨_, hparse, (ink_print hparse).trans ?_⟩
  decide +kernel

end StyleExpand

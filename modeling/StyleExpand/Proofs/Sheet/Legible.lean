import StyleExpand.Proofs.Sheet.Reading

/-!
# Legible contents

What the parts of a content have to be like for its text to be read as that content again. The
conditions are about the parts alone and can be decided.

* `Content.Legible` : the conditions, one case for each kind of content;
* `Content.Legible.readable` : a legible content is readable.
-/

namespace StyleExpand

open Scan (start)

/-! ## Statements that are no at-rule and no comment -/

/-- A text does not start as an at-rule or a comment does. -/
def Begins (cs : List Char) : Prop := ¬ ['@'] <+: cs ∧ ¬ ['/', '*'] <+: cs

instance (cs : List Char) : Decidable (Begins cs) := inferInstanceAs (Decidable (_ ∧ _))

theorem Begins.append {cs rest : List Char} (h : Begins cs) (hcs : cs ≠ [])
    (hrest : rest.head? ≠ some '*') : Begins (cs ++ rest) := by
  cases cs with
  | nil => exact absurd rfl hcs
  | cons c cs =>
    cases cs with
    | nil =>
      cases rest with
      | nil => rwa [List.append_nil]
      | cons d rest =>
        simp only [Begins, List.cons_append, List.nil_append, List.cons_prefix_cons, List.nil_prefix,
          and_true, List.head?_cons, ne_eq, Option.some.injEq] at h hrest ⊢
        exact ⟨h.1, fun hd => hrest hd.2.symm⟩
    | cons d cs => simpa [Begins, List.cons_prefix_cons] using h

namespace Lexeme

theorem read_of_begins {cs : List Char} (h : Begins cs)
    (hends : ∀ c ∈ cs.head?, c ≠ '}' ∧ c ≠ ';') : read cs = ruleOrDeclaration cs := by
  unfold read
  split
  · exact absurd rfl (hends '}' rfl).1
  · exact absurd rfl (hends ';' rfl).2
  · exact absurd (List.prefix_append ['/', '*'] _) h.2
  · exact absurd (List.prefix_append ['@'] _) h.1
  · rfl

theorem ruleOrDeclaration_of_brace {cs text rest : List Char}
    (h : start.statement cs = (text, '{' :: rest)) :
    ruleOrDeclaration cs = .ok ⟨some (.opening (.rule (trimText text))), text ++ ['{'], rest⟩ := by
  rw [ruleOrDeclaration, h]
  rfl

theorem ruleOrDeclaration_of_semicolon {cs text rest : List Char} {content : Content}
    (h : start.statement cs = (text, ';' :: rest)) (hd : declaration? text = some content) :
    ruleOrDeclaration cs = .ok ⟨some (.leaf content), text ++ [';'], rest⟩ := by
  simp only [ruleOrDeclaration, h, hd]
  rfl

theorem atRule_of_statement {name cs params rest : List Char} {block : Bool}
    (hname : name.all isAtNameChar = true) (hcs : ∀ c ∈ cs.head?, isAtNameChar c = false)
    (h : start.statement cs = (params, (if block then '{' else ';') :: rest)) :
    ∃ text, atRule (name ++ cs) =
      ⟨some (Content.atRule (String.ofList name) (trimText params) block).token, text, rest⟩ := by
  have htake : (name ++ cs).takeWhile isAtNameChar = name := by
    rw [List.takeWhile_append_of_pos (List.all_eq_true.1 hname)]
    cases cs with
    | nil => simp
    | cons c cs => simp [hcs c rfl]
  have hdrop : (name ++ cs).dropWhile isAtNameChar = cs := by
    rw [List.dropWhile_append_of_pos (List.all_eq_true.1 hname)]
    cases cs with
    | nil => rfl
    | cons c cs => simp [hcs c rfl]
  rw [atRule, htake, hdrop, h]
  cases block <;> exact ⟨_, rfl⟩

end Lexeme

/-! ## Contents -/

namespace Content

def sides (property value : String) : List Char := property.toList ++ [':', ' '] ++ value.toList

/--
The parts of a content are trimmed and hold nothing that would end them too early, and nothing is
open behind them. A blank stands before a brace but not before a semicolon, so what is pending before
a brace does not matter.
-/
def Legible : Content → Prop
  | .root => False
  | .rule selector =>
    Text.trim selector.toList = selector.toList ∧ Begins selector.toList ∧
      start.Spans selector.toList ∧ (start.after selector.toList).settle.Closed
  | .atRule name params block =>
    name.toList.all Lexeme.isAtNameChar = true ∧ Text.trim params.toList = params.toList ∧
      start.Spans params.toList ∧
        if block then (start.after params.toList).settle.Closed
        else (start.after params.toList).Closed
  | .declaration property value =>
    Text.trim property.toList = property.toList ∧ Text.trim value.toList = value.toList ∧
      Begins (sides property value) ∧ start.Spans (sides property value) ∧
      (start.after (sides property value)).Closed ∧
      cutAtColon 0 false (sides property value) = some (property.toList, ' ' :: value.toList)
  | .comment text =>
    ∀ as bs, text.toList = as ++ bs → bs ≠ [] → ¬ ['*', '/'] <+: bs ++ ['*', '/']

end Content

theorem statement_brace {cs : List Char} (h : start.Spans cs)
    (hclosed : (start.after cs).settle.Closed) (rest : List Char) :
    start.statement (cs ++ ' ' :: '{' :: rest) = (cs ++ [' '], '{' :: rest) := by
  have hspans : start.Spans (cs ++ [' ']) :=
    Scan.spans_append.2 ⟨h, Scan.spans_plain _ (Scan.plain_of_blank Text.blank_space)⟩
  have hafter : start.after (cs ++ [' ']) = (start.after cs).settle := by
    rw [Scan.after_append, Scan.after_plain (Scan.sound_start.after cs) (Scan.plain_of_blank Text.blank_space)]
    rfl
  have hends : (start.after (cs ++ [' '])).ends '{' = true := by
    rw [hafter]
    exact Scan.ends_of_closed hclosed rfl
  rw [List.append_cons, Scan.statement_of_spans hspans, Scan.statement_of_ends hends, List.append_nil]

theorem statement_semicolon {cs : List Char} (h : start.Spans cs) (hclosed : (start.after cs).Closed)
    (rest : List Char) : start.statement (cs ++ ';' :: rest) = (cs, ';' :: rest) := by
  rw [Scan.statement_of_spans h, Scan.statement_of_ends (Scan.ends_of_closed hclosed rfl),
    List.append_nil]

theorem ne_of_spans_cons {c : Char} {cs : List Char} (h : start.Spans (c :: cs)) :
    c ≠ '}' ∧ c ≠ ';' := by
  have hends := (Scan.spans_cons.1 h).1
  constructor <;> rintro rfl <;> revert hends <;> decide

/-- A content is readable if its text starts with no blank and is read as its token. -/
theorem Content.readable_of_read {c : Content}
    (h : ∀ rest, Text.Leads (c.written ++ rest) ∧
      ∃ text, Lexeme.read (c.written ++ rest) = .ok ⟨some c.token, text, rest⟩) : c.Readable :=
  fun rest => ⟨[], c.written ++ rest, rfl, Text.blank_nil, h rest⟩

theorem readable_rule {selector : String} (h : (Content.rule selector).Legible) :
    (Content.rule selector).Readable := by
  obtain ⟨htrim, hbegins, hspans, hclosed⟩ := h
  have htoken : ∀ bs, Text.Blank bs →
      Token.opening (.rule (trimText (selector.toList ++ bs))) = Content.token (.rule selector) := by
    intro bs hb
    have htext := Text.trim_blanks Text.blank_nil hb htrim
    rw [List.nil_append] at htext
    rw [trimText, htext, String.ofList_toList]
    rfl
  cases hcs : selector.toList with
  | nil =>
    -- the blank before the brace is skipped with the blanks before the statement
    intro rest
    refine ⟨[' '], '{' :: rest, by rw [Content.written, hcs]; rfl, Text.blank_space,
      fun c hc => by cases hc; decide, ['{'], ?_⟩
    rw [← htoken [] Text.blank_nil, hcs]
    rfl
  | cons c cs =>
    refine Content.readable_of_read fun rest => ?_
    have hstatement := statement_brace hspans hclosed rest
    rw [hcs] at hbegins hspans hstatement htrim
    have hread : Lexeme.read (c :: cs ++ ' ' :: '{' :: rest) =
        Lexeme.ruleOrDeclaration (c :: cs ++ ' ' :: '{' :: rest) := by
      refine Lexeme.read_of_begins (hbegins.append (by simp) (by simp)) ?_
      intro d hd
      cases hd
      exact ne_of_spans_cons hspans
    rw [← htoken [' '] Text.blank_space, Content.written, hcs, List.append_assoc]
    exact ⟨fun d hd => (Text.trim_eq_self_iff.1 htrim).1 d hd, _,
      hread.trans (Lexeme.ruleOrDeclaration_of_brace hstatement)⟩

def gap (params : String) : List Char := if params.isEmpty then [] else [' ']

theorem blank_gap (params : String) : Text.Blank (gap params) := by
  unfold gap
  split
  · exact Text.blank_nil
  · exact Text.blank_space

theorem atRuleHead_eq (name params : String) :
    Printer.atRuleHead name params = '@' :: (name.toList ++ (gap params ++ params.toList)) := by
  unfold Printer.atRuleHead gap
  by_cases h : params.isEmpty
  · rw [if_pos h, if_pos h, String.isEmpty_iff.1 h]
    simp
  · rw [if_neg h, if_neg h]
    rfl

theorem isAtNameChar_space : Lexeme.isAtNameChar ' ' = false := by decide +kernel

theorem isAtNameChar_semicolon : Lexeme.isAtNameChar ';' = false := by decide +kernel

/-- The name of an at-rule ends before the gap, or before what ends an at-rule without parameters. -/
theorem head_gap_append (params : String) {c : Char} (hc : Lexeme.isAtNameChar c = false)
    (rest : List Char) :
    ∀ d ∈ (gap params ++ params.toList ++ c :: rest).head?, Lexeme.isAtNameChar d = false := by
  unfold gap
  intro d hd
  split at hd
  · rename_i h
    rw [String.isEmpty_iff.1 h] at hd
    cases hd
    exact hc
  · cases hd
    exact isAtNameChar_space

theorem readable_atRule {name params : String} {block : Bool}
    (h : (Content.atRule name params block).Legible) :
    (Content.atRule name params block).Readable := by
  obtain ⟨hname, htrim, hspans, hclosed⟩ := h
  refine Content.readable_of_read fun rest => ?_
  have hspans : start.Spans (gap params ++ params.toList) :=
    (Scan.spans_blank_append (blank_gap params) _).2 hspans
  have hafter : start.after (gap params ++ params.toList) = start.after params.toList :=
    Scan.after_blank_append (blank_gap params) _
  rw [← hafter] at hclosed
  have htoken : ∀ bs, Text.Blank bs → Content.token (.atRule name params block) =
      Content.token (.atRule (String.ofList name.toList)
        (trimText (gap params ++ params.toList ++ bs)) block) := by
    intro bs hb
    rw [trimText, Text.trim_blanks (blank_gap params) hb htrim, String.ofList_toList,
      String.ofList_toList]
  -- what is written behind the parameters, and how much of it belongs to the statement
  obtain ⟨tail, bs, hwritten, hhead, hb, hstatement⟩ : ∃ tail bs,
      (Content.atRule name params block).written ++ rest =
        '@' :: (name.toList ++ (gap params ++ params.toList ++ tail)) ∧
      (∀ c ∈ (gap params ++ params.toList ++ tail).head?, Lexeme.isAtNameChar c = false) ∧
      Text.Blank bs ∧ start.statement (gap params ++ params.toList ++ tail) =
        (gap params ++ params.toList ++ bs, (if block then '{' else ';') :: rest) := by
    cases block with
    | true =>
      refine ⟨' ' :: '{' :: rest, [' '], ?_, head_gap_append params isAtNameChar_space _, Text.blank_space, ?_⟩
      · simp [Content.written, atRuleHead_eq]
      · exact statement_brace hspans hclosed rest
    | false =>
      refine ⟨';' :: rest, [], ?_, head_gap_append params isAtNameChar_semicolon _, Text.blank_nil, ?_⟩
      · simp [Content.written, atRuleHead_eq]
      · rw [List.append_nil]
        exact statement_semicolon hspans hclosed rest
  obtain ⟨text, hread⟩ := Lexeme.atRule_of_statement hname hhead hstatement
  rw [hwritten, htoken bs hb]
  exact ⟨fun c hc => by cases hc; decide, text, by rw [Lexeme.read, hread]⟩

theorem readable_declaration {property value : String}
    (h : (Content.declaration property value).Legible) :
    (Content.declaration property value).Readable := by
  obtain ⟨hproperty, hvalue, hbegins, hspans, hclosed, hcolon⟩ := h
  refine Content.readable_of_read fun rest => ?_
  have hwritten : (Content.declaration property value).written ++ rest =
      Content.sides property value ++ ';' :: rest := by simp [Content.written, Content.sides]
  have hne : Content.sides property value ≠ [] := by simp [Content.sides]
  have htext : declaration? (Content.sides property value) = some (.declaration property value) := by
    have htrim := Text.trim_blanks Text.blank_space Text.blank_nil hvalue
    rw [List.append_nil, List.singleton_append] at htrim
    rw [declaration?, hcolon, Option.map_some, trimText, trimText, hproperty, htrim,
      String.ofList_toList, String.ofList_toList]
  have hread : Lexeme.read (Content.sides property value ++ ';' :: rest) =
      Lexeme.ruleOrDeclaration (Content.sides property value ++ ';' :: rest) := by
    refine Lexeme.read_of_begins (hbegins.append hne (by simp)) ?_
    cases hcs : Content.sides property value with
    | nil => exact absurd hcs hne
    | cons d cs =>
      rw [hcs] at hspans
      intro c hc
      cases hc
      exact ne_of_spans_cons hspans
  rw [hwritten]
  refine ⟨?_, _, hread.trans (Lexeme.ruleOrDeclaration_of_semicolon
    (statement_semicolon hspans hclosed rest) htext)⟩
  have hleads := (Text.trim_eq_self_iff.1 hproperty).1
  rw [Content.sides]
  cases hcs : property.toList with
  | nil =>
    intro c hc
    cases hc
    decide
  | cons d cs =>
    rw [hcs] at hleads
    exact fun c hc => hleads c hc

theorem readable_comment {text : String} (h : (Content.comment text).Legible) :
    (Content.comment text).Readable := by
  refine Content.readable_of_read fun rest => ?_
  have hcut := Text.cutOnce_append (by simp) h rest
  have hwritten : (Content.comment text).written ++ rest =
      '/' :: '*' :: (text.toList ++ ['*', '/'] ++ rest) := by simp [Content.written]
  rw [hwritten]
  refine ⟨fun c hc => by cases hc; decide, '/' :: '*' :: (text.toList ++ ['*', '/']), ?_⟩
  simp only [Lexeme.read, hcut, String.ofList_toList]
  rfl

theorem Content.Legible.readable {c : Content} (h : c.Legible) : c.Readable := by
  cases c with
  | root => exact h.elim
  | rule selector => exact readable_rule h
  | atRule name params block => exact readable_atRule h
  | declaration property value => exact readable_declaration h
  | comment text => exact readable_comment h

end StyleExpand

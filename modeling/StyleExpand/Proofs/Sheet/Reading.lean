import StyleExpand.Proofs.Sheet.Statement
import StyleExpand.Proofs.Tree
import StyleExpand.Sheet.Parser
import StyleExpand.Sheet.Printer

/-!
# Reading what was written

A content is readable if what is written for it is read as one token again, whatever follows. Trees
of readable contents are read back from their text.

* `Content.Readable` : one content;
* `Scans` : a text is a row of tokens;
* `scans_writeAll` : the text of trees is the row of their tokens;
* `nest_tokensAll` : the tokens of trees are nested into such trees again;
* `parseForest_writeAll` : the text of trees is read into such trees again;
* `Sheet.exists_parse_print` : the same of a stylesheet.
-/

namespace StyleExpand

open StyleExpand.Tree

/-! ## Contents -/

namespace Content

def opens : Content → Bool
  | .rule _ => true
  | .atRule _ _ block => block
  | .root | .declaration _ _ | .comment _ => false

def written : Content → List Char
  | .root => []
  | .rule selector => selector.toList ++ [' ', '{']
  | .atRule name params true => Printer.atRuleHead name params ++ [' ', '{']
  | .atRule name params false => Printer.atRuleHead name params ++ [';']
  | .declaration property value => property.toList ++ [':', ' '] ++ value.toList ++ [';']
  | .comment text => ['/', '*'] ++ text.toList ++ ['*', '/']

def token (c : Content) : Token := if c.opens then .opening c else .leaf c

/-- What is written for a content is read as its token, whatever follows. -/
def Readable (c : Content) : Prop :=
  ∀ rest, ∃ bs cs, c.written ++ rest = bs ++ cs ∧ Text.Blank bs ∧ Text.Leads cs ∧
    ∃ text, Lexeme.read cs = .ok ⟨some c.token, text, rest⟩

end Content

/-! ## Rows of tokens -/

theorem scan_of_blank {bs : List Char} (p : Position) (hb : Text.Blank bs) :
    ∃ q, Token.scan p bs = ([], .finished q) := by
  rw [Token.scan]
  split
  · exact ⟨_, rfl⟩
  · rename_i heq
    have hnil : bs.dropWhile Text.isBlank = [] := by
      rw [← List.append_nil bs, List.dropWhile_append_of_pos hb, List.dropWhile_nil]
    rw [hnil] at heq
    cases heq

theorem scan_of_read {cs rest : List Char} {c : Char} {lexeme : Lexeme} (p : Position)
    (h : cs.dropWhile Text.isBlank = c :: rest) (hread : Lexeme.read (c :: rest) = .ok lexeme) :
    Token.scan p cs =
      let here := p.advance (cs.takeWhile Text.isBlank)
      let further := Token.scan (here.advance lexeme.text) lexeme.rest
      match lexeme.token with
      | some token => (⟨here, token⟩ :: further.1, further.2)
      | none => further := by
  rw [Token.scan]
  split
  · rename_i heq
    rw [h] at heq
    cases heq
  · rename_i heq
    rw [h] at heq
    cases heq
    split
    · rename_i hread'
      rw [hread] at hread'
      cases hread'
    · rename_i hread'
      rw [hread] at hread'
      cases hread'
      rfl

/-- A text is a row of tokens up to its end, wherever it stands and whatever blanks are before it. -/
def Scans (cs : List Char) (tokens : List Token) : Prop :=
  ∀ bs, Text.Blank bs → ∀ p, ∃ located q,
    Token.scan p (bs ++ cs) = (located, .finished q) ∧ located.map Located.token = tokens

namespace Scans

theorem nil : Scans [] [] := by
  intro bs hb p
  obtain ⟨q, hscan⟩ := scan_of_blank p hb
  exact ⟨[], q, by rw [List.append_nil, hscan], rfl⟩

theorem blank {bs cs : List Char} {tokens : List Token} (hb : Text.Blank bs) (h : Scans cs tokens) :
    Scans (bs ++ cs) tokens := by
  intro as ha p
  rw [← List.append_assoc]
  exact h _ (Text.blank_append ha hb) p

theorem cons {cs text rest : List Char} {token : Token} {tokens : List Token}
    (hleads : Text.Leads cs) (hread : Lexeme.read cs = .ok ⟨some token, text, rest⟩)
    (h : Scans rest tokens) : Scans cs (token :: tokens) := by
  intro bs hb p
  cases cs with
  | nil =>
    simp [Lexeme.read, Lexeme.ruleOrDeclaration, Scan.statement, declaration?, cutAtColon] at hread
  | cons c cs =>
    have hdrop : Text.trimStart (bs ++ c :: cs) = c :: cs := by
      rw [Text.trimStart_blank_append hb, Text.trimStart_of_leads hleads]
    have hscan := scan_of_read p hdrop hread
    obtain ⟨located, q, hrest, hmap⟩ :=
      h [] Text.blank_nil ((p.advance ((bs ++ c :: cs).takeWhile Text.isBlank)).advance text)
    rw [List.nil_append] at hrest
    simp only [hrest] at hscan
    exact ⟨_, q, hscan, by rw [List.map_cons, hmap]⟩

theorem closing {rest : List Char} {tokens : List Token} (h : Scans rest tokens) :
    Scans ('}' :: rest) (.closing :: tokens) :=
  cons (fun c hc => by cases hc; decide) rfl h

theorem written {c : Content} (hc : c.Readable) {rest : List Char} {tokens : List Token}
    (h : Scans rest tokens) : Scans (c.written ++ rest) (c.token :: tokens) := by
  obtain ⟨bs, cs, heq, hb, hleads, text, hread⟩ := hc rest
  rw [heq]
  exact blank hb (cons hleads hread h)

end Scans

/-! ## Trees and their tokens -/

mutual

/-- Only what opens a block has trees below it. -/
def Nests : Tree Entry → Prop
  | .node e ts => (e.content.opens = false → ts = []) ∧ NestsAll ts

def NestsAll : List (Tree Entry) → Prop
  | [] => True
  | t :: ts => Nests t ∧ NestsAll ts

end

theorem nestsAll_iff {ts : List (Tree Entry)} : NestsAll ts ↔ ∀ t ∈ ts, Nests t := by
  induction ts with
  | nil => simp [NestsAll]
  | cons t ts ih => simp [NestsAll, ih]

mutual

def tokens : Tree Entry → List Token
  | .node e ts => e.content.token :: if e.content.opens then tokensAll ts ++ [.closing] else []

def tokensAll : List (Tree Entry) → List Token
  | [] => []
  | t :: ts => tokens t ++ tokensAll ts

end

theorem blank_indent (depth : Nat) : Text.Blank (Printer.indent depth) := by
  intro c hc
  rw [Printer.indent, List.mem_replicate] at hc
  rw [hc.2]
  decide

/-- What is written behind a content: the block, if it has one, and a new line. -/
def Printer.behind (depth : Nat) (e : Entry) (ts : List (Tree Entry)) : List Char :=
  if e.content.opens then
    if ts.isEmpty then ['}', '\n']
    else '\n' :: (writeAll (depth + 1) ts ++ (indent depth ++ ['}', '\n']))
  else ['\n']

theorem write_eq (depth : Nat) (e : Entry) (ts : List (Tree Entry)) (he : e.content ≠ .root) :
    Printer.write depth (.node e ts) =
      Printer.indent depth ++ (e.content.written ++ Printer.behind depth e ts) := by
  obtain ⟨content, position⟩ := e
  cases content with
  | root => exact absurd rfl he
  | rule selector =>
    cases ts <;> simp [Printer.write, Printer.block, Printer.behind, Content.opens, Content.written]
  | atRule name params block =>
    cases block <;> cases ts <;>
      simp [Printer.write, Printer.block, Printer.behind, Content.opens, Content.written]
  | declaration property value =>
    simp [Printer.write, Printer.behind, Content.opens, Content.written]
  | comment text => simp [Printer.write, Printer.behind, Content.opens, Content.written]

theorem Content.Readable.ne_root {c : Content} (h : c.Readable) : c ≠ .root := by
  rintro rfl
  obtain ⟨bs, cs, heq, -, -, text, hread⟩ := h []
  have hcs : cs = [] := (List.append_eq_nil_iff.1 heq.symm).2
  subst hcs
  simp [Lexeme.read, Lexeme.ruleOrDeclaration, Scan.statement, declaration?, cutAtColon] at hread

mutual

theorem scans_write {rest : List Char} {more : List Token} (h : Scans rest more) :
    ∀ (depth : Nat) (t : Tree Entry), Nests t → (∀ e ∈ t.preorder, e.content.Readable) →
      Scans (Printer.write depth t ++ rest) (tokens t ++ more)
  | depth, .node e ts, hn, hr => by
    have he := hr e (by simp)
    have hnewline : Scans ('\n' :: rest) more := h.blank (Text.blank_cons (by decide) Text.blank_nil)
    rw [write_eq depth e ts he.ne_root, List.append_assoc, List.append_assoc, tokens]
    refine Scans.blank (blank_indent depth) (Scans.written he ?_)
    cases hopens : e.content.opens with
    | false => simpa [Printer.behind, hopens] using hnewline
    | true =>
      have hbelow := scans_writeAll ((hnewline.closing).blank (blank_indent depth)) (depth + 1) ts
        hn.2 (fun e he => hr e (by simp [he]))
      cases ts with
      | nil => simpa [Printer.behind, hopens, tokensAll] using hnewline.closing
      | cons t ts =>
        simpa [Printer.behind, hopens] using
          Scans.blank (Text.blank_cons (c := '\n') (by decide) Text.blank_nil) hbelow

theorem scans_writeAll {rest : List Char} {more : List Token} (h : Scans rest more) :
    ∀ (depth : Nat) (ts : List (Tree Entry)), NestsAll ts →
      (∀ e ∈ preorderAll ts, e.content.Readable) →
      Scans (Printer.writeAll depth ts ++ rest) (tokensAll ts ++ more)
  | _, [], _, _ => h
  | depth, t :: ts, hn, hr => by
    rw [Printer.writeAll, tokensAll, List.append_assoc, List.append_assoc]
    exact scans_write (scans_writeAll h depth ts hn.2 fun e he => hr e (by simp [he])) depth t hn.1
      fun e he => hr e (by simp [he])

end

/-! ## Nesting tokens -/

section

variable (ending : Ending)

mutual

theorem nest_tokens : ∀ (t : Tree Entry) (located more : List Located) (done : List (Tree Entry))
    (frames : List Frame), Nests t → located.map Located.token = tokens t →
    ∃ u : Tree Entry, u.map Entry.content = t.map Entry.content ∧
      nest ending (located ++ more) done frames = nest ending more (u :: done) frames
  | .node e ts, located, more, done, frames, hn, hmap => by
    rw [tokens, Content.token] at hmap
    cases hopens : e.content.opens with
    | false =>
      simp only [hopens, Bool.false_eq_true, ↓reduceIte] at hmap
      obtain ⟨⟨p, token⟩, rfl, rfl⟩ := List.map_eq_singleton_iff.1 hmap
      refine ⟨.node ⟨e.content, some p⟩ [], ?_, ?_⟩
      · rw [hn.1 hopens]
        rfl
      · rw [List.singleton_append, nest]
    | true =>
      simp only [hopens, ↓reduceIte] at hmap
      obtain ⟨⟨p, token⟩, located, rfl, rfl, hblock⟩ := List.map_eq_cons_iff.1 hmap
      obtain ⟨below, last, rfl, hbelow, hlast⟩ := List.map_eq_append_iff.1 hblock
      obtain ⟨⟨q, token⟩, rfl, rfl⟩ := List.map_eq_singleton_iff.1 hlast
      obtain ⟨us, hus, hnest⟩ := nest_tokensAll ts below (⟨q, .closing⟩ :: more) []
        (⟨⟨e.content, some p⟩, done⟩ :: frames) hn.2 hbelow
      refine ⟨.node ⟨e.content, some p⟩ us, ?_, ?_⟩
      · rw [map_node, map_node, hus]
      · rw [List.cons_append, nest, List.append_assoc, List.singleton_append, hnest, nest,
          List.append_nil, List.reverse_reverse]

theorem nest_tokensAll : ∀ (ts : List (Tree Entry)) (located more : List Located)
    (done : List (Tree Entry)) (frames : List Frame), NestsAll ts →
    located.map Located.token = tokensAll ts →
    ∃ us : List (Tree Entry), mapAll Entry.content us = mapAll Entry.content ts ∧
      nest ending (located ++ more) done frames = nest ending more (us.reverse ++ done) frames
  | [], located, more, done, frames, _, hmap => by
    rw [tokensAll, List.map_eq_nil_iff] at hmap
    exact ⟨[], rfl, by rw [hmap]; rfl⟩
  | t :: ts, located, more, done, frames, hn, hmap => by
    rw [tokensAll] at hmap
    obtain ⟨first, others, rfl, hfirst, hothers⟩ := List.map_eq_append_iff.1 hmap
    obtain ⟨u, hu, hnest⟩ := nest_tokens t first (others ++ more) done frames hn.1 hfirst
    obtain ⟨us, hus, hnests⟩ := nest_tokensAll ts others more (u :: done) frames hn.2 hothers
    refine ⟨u :: us, by rw [mapAll_cons, mapAll_cons, hu, hus], ?_⟩
    rw [List.append_assoc, hnest, hnests, List.reverse_cons, List.append_assoc, List.singleton_append]

end

end

/-- The text of trees is read into trees with the same contents. -/
theorem parseForest_writeAll {ts : List (Tree Entry)} (hn : NestsAll ts)
    (hr : ∀ e ∈ preorderAll ts, e.content.Readable) :
    ∃ us, parseForest (Printer.writeAll 0 ts) = .ok us ∧
      mapAll Entry.content us = mapAll Entry.content ts := by
  have hscans := scans_writeAll Scans.nil 0 ts hn hr
  obtain ⟨located, q, hscan, hmap⟩ := hscans [] Text.blank_nil .start
  rw [List.append_nil] at hmap
  rw [List.append_nil, List.nil_append] at hscan
  obtain ⟨us, hus, hnest⟩ := nest_tokensAll (.finished q) ts located [] [] [] hn hmap
  refine ⟨us, ?_, hus⟩
  rw [List.append_nil, List.append_nil] at hnest
  rw [parseForest, hscan]
  simp only [hnest, nest, List.reverse_reverse]

/-- The text of a stylesheet is read into trees with the same contents. -/
theorem Sheet.exists_parse_print {s : Sheet} (hn : NestsAll s.forest)
    (hr : ∀ e ∈ preorderAll s.forest, e.content.Readable) :
    ∃ us, Sheet.parse s.print = .ok (Sheet.ofForest us) ∧
      mapAll Entry.content us = mapAll Entry.content s.forest := by
  obtain ⟨us, hparse, hcontents⟩ := parseForest_writeAll hn hr
  refine ⟨us, ?_, hcontents⟩
  rw [Sheet.parse, Sheet.print, String.toList_ofList, hparse]
  rfl

end StyleExpand

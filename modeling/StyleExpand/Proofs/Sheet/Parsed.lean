import StyleExpand.Proofs.Sheet.Blocks
import StyleExpand.Proofs.Sheet.Legible

/-!
# What reading yields

What is read from a source is legible, unless something is open at its end. Trimming takes away a
blank that a backslash stood before, and leaves the backslash pending; the end of the source ends a
statement whatever is open in it. A semicolon that is written there would be taken as part of the
statement.

* `Content.Settled` : nothing is open where a semicolon will be written;
* `Lexeme.legible_of_read` : a content that is read and settled is legible;
* `parsed_of_parseForest` : the same of all contents of a source, and where they stand.
-/

namespace StyleExpand

open StyleExpand.Tree
open Scan (start)

namespace Content

/-- Nothing is open or pending behind what is written before a semicolon. -/
def Settled : Content → Prop
  | .declaration property value => (start.after (sides property value)).Closed
  | .atRule _ params false => (start.after params.toList).Closed
  | .root | .rule _ | .atRule _ _ true | .comment _ => True

instance : ∀ c : Content, Decidable c.Settled
  | .declaration property value =>
    inferInstanceAs (Decidable (start.after (sides property value)).Closed)
  | .atRule _ params false => inferInstanceAs (Decidable (start.after params.toList).Closed)
  | .root | .rule _ | .atRule _ _ true | .comment _ => inferInstanceAs (Decidable True)

end Content

/-! ## Statements without the blanks around them -/

theorem toList_trimText (cs : List Char) : (trimText cs).toList = Text.trim cs :=
  String.toList_ofList

theorem spans_trim {cs : List Char} (h : start.Spans cs) : start.Spans (Text.trim cs) := by
  obtain ⟨as, bs, ha, hb, heq⟩ := Text.exists_eq_trim cs
  rw [heq, List.append_assoc, Scan.spans_blank_append ha, Scan.spans_append] at h
  exact h.1

theorem closed_settle_trim {cs : List Char} (h : (start.after cs).Closed) :
    (start.after (Text.trim cs)).settle.Closed := by
  obtain ⟨as, bs, ha, hb, heq⟩ := Text.exists_eq_trim cs
  rw [heq, List.append_assoc, Scan.after_blank_append ha, Scan.after_append,
    Scan.after_plain (Scan.sound_start.after _) (Scan.plain_of_blank hb)] at h
  split at h
  · exact h.settle
  · exact h

theorem Begins.of_isPrefix {as cs : List Char} (h : Begins cs) (hcs : as <+: cs) : Begins as :=
  ⟨fun hat => h.1 (hat.trans hcs), fun hcomment => h.2 (hcomment.trans hcs)⟩

/-! ## Contents -/

theorem legible_rule {cs text rest : List Char} (hleads : Text.Leads cs) (hbegins : Begins cs)
    (h : start.statement cs = (text, '{' :: rest)) : (Content.rule (trimText text)).Legible := by
  have htaken := Scan.isPrefix_of_statement h
  have hclosed := Scan.closed_of_ends (Scan.ends_of_statement h)
  rw [Content.Legible, toList_trimText]
  exact ⟨Text.trim_trim text,
    hbegins.of_isPrefix (((hleads.of_isPrefix htaken).trim_isPrefix).trans htaken),
    spans_trim (Scan.spans_of_statement h), closed_settle_trim hclosed⟩

theorem legible_atRule (cs : List Char) : ∃ c : Content,
    (Lexeme.atRule cs).token = some c.token ∧ (c.Settled → c.Legible) := by
  have hname : (String.ofList (cs.takeWhile Lexeme.isAtNameChar)).toList.all
      Lexeme.isAtNameChar = true := by
    rw [String.toList_ofList]
    exact List.all_takeWhile
  generalize hbehind : cs.dropWhile Lexeme.isAtNameChar = behind
  have hspans := Scan.spans_statement start behind
  unfold Lexeme.atRule
  rw [hbehind]
  generalize hparams : start.statement behind = params at hspans ⊢
  obtain ⟨params, rest⟩ := params
  have hlegible : ∀ block, (if block then (start.after (trimText params).toList).settle.Closed
      else (start.after (trimText params).toList).Closed) →
      (Content.atRule (String.ofList (cs.takeWhile Lexeme.isAtNameChar)) (trimText params)
        block).Legible := by
    intro block hclosed
    refine ⟨hname, ?_, ?_, hclosed⟩
    · rw [toList_trimText, Text.trim_trim]
    · rw [toList_trimText]
      exact spans_trim hspans
  dsimp only
  split
  · refine ⟨.atRule _ (trimText params) true, rfl, fun _ => hlegible true ?_⟩
    rw [if_pos rfl, toList_trimText]
    exact closed_settle_trim (Scan.closed_of_ends (Scan.ends_of_statement hparams))
  · exact ⟨.atRule _ (trimText params) false, rfl, fun h => hlegible false h⟩
  · exact ⟨.atRule _ (trimText params) false, rfl, fun h => hlegible false h⟩

/-- Nothing ends a declaration that is written from the trimmed sides of one that nothing ends. -/
theorem spans_sides {left as bs right ds : List Char} (ha : Text.Blank as) (hb : Text.Blank bs)
    (h : start.Spans (left ++ as ++ ':' :: (bs ++ right ++ ds))) :
    start.Spans (left ++ ':' :: ' ' :: right) := by
  have hsound := Scan.sound_start.after left
  have hparts : left ++ as ++ ':' :: (bs ++ right ++ ds) =
      left ++ ((as ++ ':' :: bs) ++ (right ++ ds)) := by simp
  rw [hparts, Scan.spans_append] at h
  obtain ⟨hleft, hbehind⟩ := h
  have hright := (Scan.spans_append.1 hbehind).2
  rw [Scan.after_colon hsound ha hb] at hright
  have hwritten : left ++ ':' :: ' ' :: right = left ++ ([':', ' '] ++ right) := rfl
  have hcolon : (start.after left).after [':', ' '] = (start.after left).settle :=
    Scan.after_colon hsound Text.blank_nil Text.blank_space
  rw [hwritten, Scan.spans_append]
  refine ⟨hleft, Scan.spans_append.2 ⟨Scan.spans_plain _ (by simp [Scan.isPlain]), ?_⟩⟩
  rw [hcolon]
  exact (Scan.spans_append.1 hright).1

theorem begins_sides {left : List Char} (h : Begins left) (rest : List Char) :
    Begins (left ++ ':' :: rest) := by
  cases left with
  | nil => simp [Begins, List.cons_prefix_cons]
  | cons c left => exact h.append (by simp) (by simp)

theorem legible_declaration {cs text rest : List Char} {c : Content} (hleads : Text.Leads cs)
    (hbegins : Begins cs) (h : start.statement cs = (text, rest)) (hd : declaration? text = some c) :
    c.opens = false ∧ (c.Settled → c.Legible) := by
  obtain ⟨⟨left, right⟩, hcut, rfl⟩ := Option.map_eq_some_iff.1 hd
  refine ⟨rfl, fun hsettled => ?_⟩
  have htaken := Scan.isPrefix_of_statement h
  have htext := append_of_cutAtColon hcut
  have hleft : left <+: cs := List.IsPrefix.trans ⟨':' :: right, htext.symm⟩ htaken
  -- the two sides and the blanks around them
  obtain ⟨as, ha, hleftEq⟩ : ∃ as, Text.Blank as ∧ left = Text.trim left ++ as := by
    obtain ⟨as, ha, heq⟩ := Text.exists_eq_trimEnd left
    exact ⟨as, ha, by rwa [Text.trim, Text.trimStart_of_leads (hleads.of_isPrefix hleft)]⟩
  obtain ⟨bs, ds, hb, -, hrightEq⟩ := Text.exists_eq_trim right
  have hsides : Content.sides (trimText left) (trimText right) =
      Text.trim left ++ ':' :: ' ' :: Text.trim right := by
    simp [Content.sides, toList_trimText]
  have hcutTrim : cutAtColon 0 false (Text.trim left ++ as ++ ':' :: right) =
      some (Text.trim left ++ as, right) := by
    rw [← hleftEq, ← htext, hcut]
  have hspansTrim : start.Spans (Text.trim left ++ as ++ ':' :: (bs ++ Text.trim right ++ ds)) := by
    rw [← hleftEq, ← hrightEq, ← htext]
    exact Scan.spans_of_statement h
  have hbeginsSides : Begins (Text.trim left ++ ':' :: ' ' :: Text.trim right) :=
    begins_sides (hbegins.of_isPrefix ((hleads.of_isPrefix hleft).trim_isPrefix.trans hleft)) _
  simp only [Content.Settled, Content.Legible, hsides, toList_trimText, Text.trim_trim] at hsettled ⊢
  exact ⟨trivial, trivial, hbeginsSides, spans_sides ha hb hspansTrim, hsettled,
    cutAtColon_append ha _ hcutTrim⟩

/-- A token opens a block if its content does, and its content is legible if it is settled. -/
def Token.Legible : Token → Prop
  | .closing => True
  | .opening c => c.opens = true ∧ (c.Settled → c.Legible)
  | .leaf c => c.opens = false ∧ (c.Settled → c.Legible)

theorem Content.legible_token {c : Content} (h : c.Settled → c.Legible) : c.token.Legible := by
  unfold Content.token
  cases hopens : c.opens with
  | false => exact ⟨hopens, h⟩
  | true => exact ⟨hopens, h⟩

theorem Lexeme.legible_of_read {cs : List Char} {l : Lexeme} {token : Token} (hleads : Text.Leads cs)
    (h : Lexeme.read cs = .ok l) (ht : l.token = some token) : token.Legible := by
  unfold Lexeme.read at h
  split at h
  · cases h
    cases ht
    trivial
  · cases h
    cases ht
  · split at h
    · cases h
    · rename_i hcut
      cases h
      cases ht
      refine Content.legible_token (c := .comment _) fun _ => ?_
      rw [Content.Legible, String.toList_ofList]
      exact Text.not_prefix_of_cutOnce (by simp) hcut
  · cases h
    obtain ⟨c, hc, hlegible⟩ := legible_atRule _
    rw [ht] at hc
    cases hc
    exact Content.legible_token hlegible
  · rename_i hcomment hat
    have hbegins : Begins cs := by
      constructor
      · rintro ⟨rest, rfl⟩
        exact hat rest rfl
      · rintro ⟨rest, rfl⟩
        exact hcomment rest rfl
    unfold Lexeme.ruleOrDeclaration at h
    generalize hstatement : start.statement cs = statement at h
    obtain ⟨text, rest⟩ := statement
    dsimp only at h
    split at h
    · cases h
      cases ht
      exact ⟨rfl, fun _ => legible_rule hleads hbegins hstatement⟩
    · split at h
      · cases h
      · rename_i c hd
        have hlegible := legible_declaration hleads hbegins hstatement hd
        split at h
        all_goals
          cases h
          cases ht
          exact hlegible

/-! ## Whole sources -/

theorem Token.legible_of_scan (p : Position) (cs : List Char) :
    ∀ located ∈ (Token.scan p cs).1, located.token.Legible := by
  fun_induction Token.scan p cs with
  | case1 => simp
  | case2 => simp
  | case3 p cs here c rest hrest lexeme hread hlt tokens ending hscan token htoken ih =>
    have hleads : Text.Leads (c :: rest) := by
      rw [← hrest]
      exact Text.leads_trimStart cs
    intro located hlocated
    rcases List.mem_cons.1 hlocated with rfl | hlocated
    · exact Lexeme.legible_of_read hleads hread htoken
    · rw [hscan] at ih
      exact ih located hlocated
  | case4 p cs here c rest hrest lexeme hread hlt tokens ending hscan htoken ih =>
    rw [hscan] at ih
    exact ih

/-- Trees that can be written, as far as their contents are settled. -/
structure Parsed (ts : List (Tree Entry)) : Prop where
  nests : NestsAll ts
  legible : ∀ e ∈ preorderAll ts, e.content.Settled → e.content.Legible

theorem parsed_nil : Parsed [] := ⟨trivial, by simp⟩

theorem Parsed.cons {e : Entry} {below ts : List (Tree Entry)}
    (he : e.content.Settled → e.content.Legible) (hopens : e.content.opens = false → below = [])
    (hbelow : Parsed below) (h : Parsed ts) : Parsed (.node e below :: ts) where
  nests := ⟨⟨hopens, hbelow.nests⟩, h.nests⟩
  legible := by
    intro d hd
    simp only [preorderAll_cons, preorder_node, List.cons_append, List.mem_cons, List.mem_append] at hd
    rcases hd with rfl | hd | hd
    · exact he
    · exact hbelow.legible d hd
    · exact h.legible d hd

theorem Nested.parsed {row : List Located} {ts : List (Tree Entry)} (h : Nested row ts)
    (htokens : ∀ l ∈ row, l.token.Legible) : Parsed ts := by
  induction h with
  | nil => exact parsed_nil
  | @leaf p c row ts _ ih =>
    have htoken : (Token.leaf c).Legible := htokens ⟨p, .leaf c⟩ (by simp)
    exact .cons htoken.2 (fun _ => rfl) parsed_nil (ih fun l hl => htokens l (by simp [hl]))
  | @block p q c inner row us ts _ _ ihinner ih =>
    have htoken : (Token.opening c).Legible := htokens ⟨p, .opening c⟩ (by simp)
    refine .cons htoken.2 (fun hopens => ?_) (ihinner fun l hl => htokens l (by simp [hl]))
      (ih fun l hl => htokens l (by simp [hl]))
    rw [htoken.1] at hopens
    cases hopens

/-- What is read from a source can be written, as far as it is settled. -/
theorem parsed_of_parseForest {cs : List Char} {ts : List (Tree Entry)}
    (h : parseForest cs = .ok ts) : Parsed ts := by
  obtain ⟨row, q, hscan, hnested⟩ := nested_of_parseForest h
  have hlegible := Token.legible_of_scan .start cs
  rw [hscan] at hlegible
  exact hnested.parsed hlegible

end StyleExpand

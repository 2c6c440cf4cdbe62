import StyleExpand.Proofs.Sheet.Graft
import StyleExpand.Proofs.Sheet.Parsed

/-!
# Where the nodes of a source stand

A position is counted on character by character while a source is read. Here it is computed from the
source and an offset, and every node and every error is found to have the position of the offset
where its text starts.

* `Position.ofOffset`, `Position.advance_start` : the line and column of an offset, and
  `Position.ofOffset_le` : how large they can be;
* `Token.mark`, `Lexeme.mark_isPrefix` : the text that a token starts with;
* `Fault.At`, `Lexeme.at_of_read` : what a source shows at an offset where it cannot be read on;
* `Token.Placed`, `Token.placed_scan` : the tokens of a source stand one behind the other;
* `Sheet.parse_position` : the positions of the nodes and of the error of a source.
-/

namespace StyleExpand

open StyleExpand.Tree

/-! ## Offsets -/

/-- One more than the line feeds before an offset, and one more than the characters between the last
of them and the offset. -/
def Position.ofOffset (source : List Char) (o : Nat) : Position :=
  ⟨1 + (source.take o).count '\n', 1 + ((source.take o).reverse.takeWhile (· ≠ '\n')).length⟩

theorem Position.advance_start_reverse (cs : List Char) :
    start.advance cs.reverse = ⟨1 + cs.count '\n', 1 + (cs.takeWhile (· ≠ '\n')).length⟩ := by
  induction cs with
  | nil => rfl
  | cons c cs ih =>
    rw [List.reverse_cons, advance_append, ih, advance_cons, advance_nil, step]
    by_cases hc : c = '\n'
    · subst hc
      simp [Nat.add_assoc]
    · simp [hc, Nat.add_assoc]

theorem Position.advance_start {source front cs : List Char} (h : front ++ cs = source) :
    start.advance front = ofOffset source front.length := by
  have hfront := advance_start_reverse front.reverse
  rw [List.reverse_reverse, List.count_reverse] at hfront
  rw [hfront, ofOffset, ← h, List.take_left]

/-- Neither number is beyond the length of the source, so that counters of 32 bits do for a source of
fewer than `2 ^ 32 - 1` characters. -/
theorem Position.ofOffset_le (source : List Char) (o : Nat) :
    (ofOffset source o).line ≤ source.length + 1 ∧ (ofOffset source o).column ≤ source.length + 1 := by
  have htake : (source.take o).length ≤ source.length := List.length_take_le' o source
  have hlines : (source.take o).count '\n' ≤ (source.take o).length := List.count_le_length
  have hline := (List.takeWhile_prefix (l := (source.take o).reverse) (· ≠ '\n')).length_le
  rw [List.length_reverse] at hline
  unfold ofOffset
  dsimp only
  omega

example : Position.ofOffset "a\nbc\n d".toList 5 = ⟨3, 1⟩ := by decide

/-- A place of a source: what was read up to it, and what follows. -/
structure Place (source front : List Char) (p : Position) (rest : List Char) : Prop where
  append : front ++ rest = source
  position : p = Position.start.advance front

namespace Place

variable {source front text rest : List Char} {p : Position}

theorem start (source : List Char) : Place source [] .start source := ⟨rfl, rfl⟩

theorem advance (h : Place source front p (text ++ rest)) :
    Place source (front ++ text) (p.advance text) rest where
  append := by rw [List.append_assoc, h.append]
  position := by rw [Position.advance_append, ← h.position]

theorem blanks (h : Place source front p rest) :
    Place source (front ++ rest.takeWhile Text.isBlank) (p.advance (rest.takeWhile Text.isBlank))
      (rest.dropWhile Text.isBlank) := by
  rw [← List.takeWhile_append_dropWhile (p := Text.isBlank) (l := rest)] at h
  exact h.advance

theorem eq_ofOffset (h : Place source front p rest) : p = .ofOffset source front.length := by
  rw [h.position, Position.advance_start h.append]

theorem drop_eq (h : Place source front p rest) : source.drop front.length = rest := by
  rw [← h.append, List.drop_left]

theorem length_add (h : Place source front p rest) : front.length + rest.length = source.length := by
  rw [← h.append, List.length_append]

end Place

/-! ## The text of a token -/

def Content.mark : Content → List Char
  | .root => []
  | .rule selector => selector.toList
  | .atRule name _ _ => '@' :: name.toList
  | .declaration property _ => property.toList
  | .comment text => '/' :: '*' :: (text.toList ++ ['*', '/'])

def Token.mark : Token → List Char
  | .opening c => c.mark
  | .closing => ['}']
  | .leaf c => c.mark

namespace Lexeme

theorem mark_atRule {cs : List Char} {token : Token} (h : (atRule cs).token = some token) :
    token.mark <+: '@' :: cs := by
  have hname : '@' :: (String.ofList (cs.takeWhile isAtNameChar)).toList <+: '@' :: cs := by
    rw [String.toList_ofList]
    exact (List.prefix_cons_inj '@').2 (List.takeWhile_prefix _)
  unfold atRule at h
  dsimp only at h
  split at h
  all_goals
    cases h
    exact hname

theorem mark_ruleOrDeclaration {cs : List Char} {l : Lexeme} {token : Token}
    (hleads : Text.Leads cs) (h : ruleOrDeclaration cs = .ok l) (htoken : l.token = some token) :
    token.mark <+: cs := by
  have htext : (Scan.start.statement cs).1 <+: cs := ⟨_, Scan.statement_append .start cs⟩
  -- what a statement starts with is trimmed at its end only
  have htrim : ∀ {as : List Char}, as <+: cs → (trimText as).toList <+: cs := by
    intro as has
    rw [toList_trimText]
    exact (hleads.of_isPrefix has).trim_isPrefix.trans has
  unfold ruleOrDeclaration at h
  dsimp only at h
  split at h
  · cases h
    cases htoken
    exact htrim htext
  · split at h
    · cases h
    · rename_i c hdecl
      have hmark : c.mark <+: cs := by
        obtain ⟨⟨left, right⟩, hcut, rfl⟩ := Option.map_eq_some_iff.1 hdecl
        have hleft : left <+: (Scan.start.statement cs).1 := ⟨_, (append_of_cutAtColon hcut).symm⟩
        exact htrim (hleft.trans htext)
      split at h
      all_goals
        cases h
        cases htoken
        exact hmark

theorem mark_isPrefix {cs : List Char} {l : Lexeme} {token : Token} (hleads : Text.Leads cs)
    (h : read cs = .ok l) (htoken : l.token = some token) : token.mark <+: cs := by
  unfold read at h
  split at h
  · cases h
    cases htoken
    exact ⟨_, rfl⟩
  · cases h
    cases htoken
  · split at h
    · cases h
    · rename_i text rest hcut
      cases h
      cases htoken
      refine ⟨rest, ?_⟩
      rw [Text.append_of_cutOnce hcut, Token.mark, Content.mark, String.toList_ofList]
      simp
  · cases h
    exact mark_atRule htoken
  · exact mark_ruleOrDeclaration hleads h htoken

end Lexeme

/-! ## Faults -/

def Stopped (front : List Char) : Prop :=
  front = [] ∨ ∃ stop ∈ [[';'], ['{'], ['}'], ['*', '/']], stop <:+ front

/-- A statement starts at an offset, behind the blanks after what came before. -/
def StartsAt (source : List Char) (o : Nat) : Prop :=
  ∃ front gap, source.take o = front ++ gap ∧ Stopped front ∧ Text.Blank gap

/-- What a source shows at an offset where it cannot be read on. A statement without a colon is quoted
from its first character on, without the blanks behind it. -/
def Fault.At (source : List Char) (o : Nat) : Fault → Prop
  | .unclosedBlock => o = source.length
  | .unexpectedClose => ['}'] <+: source.drop o
  | .unterminatedComment => ['/', '*'] <+: source.drop o ∧ ¬ ['*', '/'] <:+: source.drop (o + 2)
  | .missingColon statement =>
    let text := (Scan.start.statement (source.drop o)).1
    StartsAt source o ∧ text ≠ [] ∧ Text.Leads text ∧ cutAtColon 0 false text = none ∧
      statement = trimText text

namespace Lexeme

/-- A statement that does not start with its own end has some text. -/
theorem statement_ne_nil {c : Char} {cs : List Char}
    (h : c ≠ ';' ∧ c ≠ '}' ∧ c ≠ '{') : (Scan.start.statement (c :: cs)).1 ≠ [] := by
  have hends : Scan.start.ends c = false := by simp [Scan.ends, h]
  rw [Scan.statement, hends]
  simp

theorem at_of_ruleOrDeclaration {source : List Char} {o : Nat} {c : Char} {cs : List Char}
    {fault : Fault} (hstarts : StartsAt source o) (hdrop : source.drop o = c :: cs)
    (hleads : Text.Leads (c :: cs)) (hends : c ≠ ';' ∧ c ≠ '}')
    (h : ruleOrDeclaration (c :: cs) = .error fault) : fault.At source o := by
  have htext : (Scan.start.statement (c :: cs)).1 <+: c :: cs := ⟨_, Scan.statement_append .start _⟩
  unfold ruleOrDeclaration at h
  dsimp only at h
  split at h
  · cases h
  · rename_i hbrace
    have hne : c ≠ '{' := by
      rintro rfl
      exact hbrace cs rfl
    split at h
    · rename_i hdecl
      cases h
      rw [Fault.At, hdrop]
      exact ⟨hstarts, statement_ne_nil ⟨hends.1, hends.2, hne⟩, hleads.of_isPrefix htext,
        Option.map_eq_none_iff.1 hdecl, rfl⟩
    · split at h
      all_goals cases h

/-- A source that has no first token is at fault where it starts. -/
theorem at_of_read {source : List Char} {o : Nat} {c : Char} {cs : List Char} {fault : Fault}
    (hstarts : StartsAt source o) (hdrop : source.drop o = c :: cs) (hleads : Text.Leads (c :: cs))
    (h : read (c :: cs) = .error fault) : fault.At source o := by
  unfold read at h
  split at h
  · cases h
  · cases h
  · rename_i rest heq
    split at h
    · rename_i hcut
      cases h
      rw [heq] at hdrop
      refine ⟨⟨rest, hdrop.symm⟩, ?_⟩
      rw [← List.drop_drop, hdrop]
      exact Text.not_infix_of_cutOnce (by simp) hcut
    · cases h
  · cases h
  · rename_i hclose hsemi _ _
    refine at_of_ruleOrDeclaration hstarts hdrop hleads ⟨?_, ?_⟩ h
    · rintro rfl
      exact hsemi cs rfl
    · rintro rfl
      exact hclose cs rfl

/-- A statement that is not followed by its own end is followed by that of the block or source. -/
theorem rest_of_statement (cs : List Char) (hbrace : ∀ rest, (Scan.start.statement cs).2 ≠ '{' :: rest)
    (hsemi : ∀ rest, (Scan.start.statement cs).2 ≠ ';' :: rest) :
    (Scan.start.statement cs).2 = [] ∨ ['}'] <+: (Scan.start.statement cs).2 := by
  generalize hstatement : Scan.start.statement cs = statement at hbrace hsemi ⊢
  obtain ⟨text, rest⟩ := statement
  cases rest with
  | nil => exact .inl rfl
  | cons c rest =>
    have hends := Scan.ends_of_statement hstatement
    have hb : c ≠ '{' := fun h => hbrace rest (by rw [h])
    have hs : c ≠ ';' := fun h => hsemi rest (by rw [h])
    have hc : c = '}' := by
      simp only [Scan.ends, beq_eq_false_iff_ne.2 hb, beq_eq_false_iff_ne.2 hs, Bool.false_or,
        Bool.false_and, Bool.or_false, Bool.and_eq_true, beq_iff_eq] at hends
      exact hends.2
    exact .inr ⟨rest, by rw [hc]; rfl⟩

theorem stopped_append {text : List Char} (front stop : List Char)
    (hstop : stop ∈ [[';'], ['{'], ['}'], ['*', '/']]) (h : stop <:+ text) :
    Stopped (front ++ text) :=
  .inr ⟨stop, hstop, h.trans (List.suffix_append front text)⟩

/-- A token that was read is over, or what follows it ends the block or the source. -/
theorem stopped_of_read {cs : List Char} {l : Lexeme} (h : read cs = .ok l) (front : List Char) :
    Stopped (front ++ l.text) ∨ l.rest = [] ∨ ['}'] <+: l.rest := by
  unfold read at h
  split at h
  · cases h
    exact .inl (stopped_append front ['}'] (by simp) (List.suffix_refl _))
  · cases h
    exact .inl (stopped_append front [';'] (by simp) (List.suffix_refl _))
  · split at h
    · cases h
    · cases h
      exact .inl (stopped_append front ['*', '/'] (by simp) ⟨_ :: _ :: _, rfl⟩)
  · cases h
    unfold atRule
    dsimp only
    split
    · exact .inl (stopped_append front ['{'] (by simp) ⟨_ :: _, rfl⟩)
    · exact .inl (stopped_append front [';'] (by simp) ⟨_ :: _, rfl⟩)
    · rename_i hbrace hsemi
      exact .inr (rest_of_statement _ hbrace hsemi)
  · unfold ruleOrDeclaration at h
    dsimp only at h
    split at h
    · cases h
      exact .inl (stopped_append front ['{'] (by simp) ⟨_, rfl⟩)
    · rename_i hbrace
      split at h
      · cases h
      · split at h
        · cases h
          exact .inl (stopped_append front [';'] (by simp) ⟨_, rfl⟩)
        · rename_i hsemi
          cases h
          exact .inr (rest_of_statement _ hbrace hsemi)

end Lexeme

/-! ## Whole sources -/

/-- Tokens that stand one behind the other in a source, from an offset on. -/
inductive Token.Placed (source : List Char) : Nat → List Located → Prop where
  | nil {o : Nat} : Placed source o []
  | cons {o o' : Nat} {token : Token} {row : List Located} : o ≤ o' → o' < source.length →
      token.mark <+: source.drop o' → Placed source (o' + 1) row →
      Placed source o (⟨.ofOffset source o', token⟩ :: row)

theorem Token.Placed.mono {source : List Char} {o o' : Nat} {row : List Located}
    (h : Placed source o row) (hle : o' ≤ o) : Placed source o' row := by
  cases h with
  | nil => exact .nil
  | cons ho hlt hmark hrow => exact .cons (Nat.le_trans hle ho) hlt hmark hrow

def Ending.At (source : List Char) : Ending → Prop
  | .finished q => q = .ofOffset source source.length
  | .failed e => ∃ o, e.position = .ofOffset source o ∧ e.fault.At source o

/-- The tokens of the rest of a source stand behind what was read of it. -/
theorem Token.placed_scan {source : List Char} (p : Position) (cs front : List Char)
    (hplace : Place source front p cs) (hstopped : Stopped front ∨ cs = [] ∨ ['}'] <+: cs) :
    Placed source front.length (Token.scan p cs).1 ∧ (Token.scan p cs).2.At source := by
  fun_induction Token.scan p cs generalizing front with
  | case1 p cs here hrest =>
    have hhere := hplace.blanks
    rw [hrest] at hhere
    refine ⟨.nil, ?_⟩
    show here = .ofOffset source source.length
    rw [show here = _ from hhere.eq_ofOffset, ← hhere.append, List.append_nil]
  | case2 p cs here c rest hrest fault hread =>
    have hhere := hplace.blanks
    have hleads := Text.leads_trimStart cs
    rw [Text.trimStart] at hleads
    rw [hrest] at hhere hleads
    have hstarts : StartsAt source (front ++ cs.takeWhile Text.isBlank).length := by
      refine ⟨front, cs.takeWhile Text.isBlank, ?_, ?_, Text.blank_takeWhile cs⟩
      · rw [← hhere.append, List.take_left]
      · rcases hstopped with hfront | rfl | ⟨after, rfl⟩
        · exact hfront
        · cases hrest
        · -- the end of a block can be read
          cases hrest
          cases hread
    exact ⟨.nil, _, hhere.eq_ofOffset, Lexeme.at_of_read hstarts hhere.drop_eq hleads hread⟩
  | case3 p cs here c rest hrest lexeme hread hlt tokens ending hscan token htoken ih =>
    have hhere := hplace.blanks
    have hleads := Text.leads_trimStart cs
    rw [Text.trimStart] at hleads
    rw [hrest] at hhere hleads
    have hmark := Lexeme.mark_isPrefix hleads hread htoken
    have hlength := hhere.length_add
    rw [← hhere.drop_eq] at hmark
    rw [← Lexeme.read_append hread] at hhere
    have hnext := ih _ hhere.advance (Lexeme.stopped_of_read hread _)
    have hpos := List.length_pos_iff.2 (Lexeme.read_text_ne_nil hread)
    rw [hscan] at hnext
    refine ⟨?_, hnext.2⟩
    rw [show here = _ from hhere.eq_ofOffset]
    refine .cons ?_ ?_ hmark (hnext.1.mono ?_)
    · simp
    · rw [← hlength, List.length_cons]
      omega
    · simp only [List.length_append]
      omega
  | case4 p cs here c rest hrest lexeme hread hlt tokens ending hscan htoken ih =>
    have hhere := hplace.blanks
    rw [hrest, ← Lexeme.read_append hread] at hhere
    have hnext := ih _ hhere.advance (Lexeme.stopped_of_read hread _)
    rw [hscan] at hnext
    refine ⟨hnext.1.mono ?_, hnext.2⟩
    simp only [List.length_append]
    omega

/-! ## Nodes -/

def Entry.At (source : List Char) (o : Nat) (e : Entry) : Prop :=
  o < source.length ∧ e.position = some (.ofOffset source o) ∧ e.content.mark <+: source.drop o

theorem Located.entry?_eq (l : Located) : l.entry? = none ∨
    ∃ c : Content, l.entry? = some ⟨c, some l.position⟩ ∧ c.mark = l.token.mark := by
  obtain ⟨p, token⟩ := l
  cases token with
  | opening c => exact .inr ⟨c, rfl, rfl⟩
  | closing => exact .inl rfl
  | leaf c => exact .inr ⟨c, rfl, rfl⟩

/-- The entries of placed tokens, each with its offset. -/
theorem Token.Placed.exists_offsets {source : List Char} {o : Nat} {row : List Located}
    (h : Placed source o row) : ∃ places : List (Nat × Entry),
      places.map Prod.snd = row.filterMap Located.entry? ∧ (places.map Prod.fst).Pairwise (· < ·) ∧
        ∀ place ∈ places, o ≤ place.1 ∧ place.2.At source place.1 := by
  induction h with
  | nil => exact ⟨[], rfl, .nil, by simp⟩
  | @cons o o' token row ho hlt hmark _ ih =>
    obtain ⟨places, hentries, hincreasing, hplaces⟩ := ih
    have hlater : ∀ place ∈ places, o ≤ place.1 ∧ place.2.At source place.1 := by
      intro place hplace
      have := (hplaces place hplace).1
      exact ⟨by omega, (hplaces place hplace).2⟩
    rcases Located.entry?_eq ⟨.ofOffset source o', token⟩ with hentry | ⟨c, hentry, hc⟩
    · rw [List.filterMap_cons_none hentry]
      exact ⟨places, hentries, hincreasing, hlater⟩
    · rw [List.filterMap_cons_some hentry, ← hentries]
      refine ⟨(o', ⟨c, some (.ofOffset source o')⟩) :: places, rfl, .cons (fun k hk => ?_) hincreasing,
        List.forall_mem_cons.2 ⟨⟨ho, hlt, rfl, hc ▸ hmark⟩, hlater⟩⟩
      obtain ⟨place, hplace, rfl⟩ := List.mem_map.1 hk
      exact (hplaces place hplace).1

/-- A row of different names gets the first components of a row of pairs that has its values. -/
theorem exists_map_eq {α β : Type} [DecidableEq α] {f : α → β} : ∀ {xs : List α}
    {pairs : List (Nat × β)}, xs.Nodup → xs.map f = pairs.map Prod.snd →
    ∃ g : α → Nat, xs.map (fun x => (g x, f x)) = pairs
  | [], [], _, _ => ⟨fun _ => 0, rfl⟩
  | x :: xs, (k, b) :: pairs, hnodup, h => by
    obtain ⟨hx, hnodup⟩ := List.nodup_cons.1 hnodup
    obtain ⟨hb, h⟩ := List.cons.inj h
    obtain ⟨g, hg⟩ := exists_map_eq hnodup h
    refine ⟨fun y => if y = x then k else g y, ?_⟩
    have hold : xs.map (fun y => (if y = x then k else g y, f y)) = pairs := by
      rw [← hg]
      refine List.map_congr_left fun y hy => ?_
      rw [if_neg]
      rintro rfl
      exact hx hy
    simp [hold, hb]

namespace Sheet

theorem descendants_ofForest (ts : List (Tree Entry)) :
    (ofForest ts).descendants root = List.range' 1 (preorderAll ts).length := by
  rw [descendants, (region_ofForest ts).shape_eq, ← preorderAll_numberAll]
  rfl

theorem map_entry_descendants (ts : List (Tree Entry)) :
    ((ofForest ts).descendants root).map (ofForest ts).entry = preorderAll ts := by
  have hforest := forest_ofForest ts
  rw [(region_ofForest ts).forest_eq] at hforest
  rw [descendants_ofForest, ← preorderAll_numberAll, ← preorderAll_mapAll, hforest]

theorem exists_offset_of_forest {source : List Char} {ts : List (Tree Entry)}
    (h : parseForest source = .ok ts) : ∃ offset : NodeId → Nat,
      (∀ n < (ofForest ts).size, n ≠ root → ((ofForest ts).entry n).At source (offset n)) ∧
        (((ofForest ts).descendants root).map offset).Pairwise (· < ·) := by
  obtain ⟨row, q, hscan, hnested⟩ := nested_of_parseForest h
  have hplaced := (Token.placed_scan _ _ _ (.start source) (.inl (.inl rfl))).1
  rw [hscan] at hplaced
  obtain ⟨places, hentries, hincreasing, hplaces⟩ := hplaced.exists_offsets
  have hnodup : ((ofForest ts).descendants root).Nodup := by
    rw [descendants_ofForest]
    exact List.nodup_range'
  obtain ⟨offset, rfl⟩ := exists_map_eq hnodup
    ((map_entry_descendants ts).trans (hnested.preorderAll_eq.trans hentries.symm))
  refine ⟨offset, fun n hn hroot => ?_, ?_⟩
  · have hmem : n ∈ (ofForest ts).descendants root := by
      rw [descendants_ofForest, List.mem_range'_1, ← size_ofForest]
      exact ⟨Nat.pos_of_ne_zero hroot, hn⟩
    exact (hplaces _ (List.mem_map_of_mem hmem)).2
  · rw [List.map_map] at hincreasing
    exact hincreasing

end Sheet

end StyleExpand

import StyleExpand.Proofs.Reference
import StyleExpand.Proofs.Run.Refinement
import StyleExpand.Proofs.Sheet.Offset
import StyleExpand.Proofs.Value.Nesting

/-!
# Warnings quote the source

A warning names a variable and the text that refers to it. That text is part of the source: a text
that already went through a substitution, in a copy of a loop or anywhere else, is never searched for
references again.

* `Content.texts` : the texts of a node in which references may stand;
* `Eval.Quotes` : warnings about parts of one text;
* `Eval.IsAbout`, `Eval.tells_node` : the warnings of one node, apart from those of what is inside it;
* `Eval.exists_isAbout_of_forest` : the warnings of whole trees;
* `expand_warnings` : the warnings of a source.
-/

namespace StyleExpand

open StyleExpand.Tree

/-! ## Parts of texts -/

theorem Text.trim_infix (cs : List Char) : trim cs <:+: cs := by
  obtain ⟨as, bs, -, -, heq⟩ := exists_eq_trim cs
  exact ⟨as, bs, heq.symm⟩

theorem infix_of_mem_splitSpace {cs p : List Char} (h : p ∈ splitSpace cs) : p <:+: cs := by
  obtain ⟨q, hq, rfl⟩ := List.mem_map.1 h
  exact (Text.trim_infix q).trans (infix_of_mem_pieces (List.mem_filter.1 hq).1)

theorem Run.eachParts_infix (params : String) : (eachParts params).2 <:+: params.toList := by
  unfold eachParts
  cases hcut : Text.cutOnce " in ".toList params.toList with
  | none => exact List.nil_infix
  | some parts =>
    rw [Text.append_of_cutOnce hcut]
    exact (List.suffix_append _ parts.2).isInfix

/-! ## Warnings about a text -/

def Content.texts : Content → List String
  | .rule selector => [selector]
  | .declaration property value => [property, value]
  | .atRule _ params _ => [params]
  | .root | .comment _ => []

namespace Eval

/-- Warnings at one position about parts of one text, each of which refers to the name. -/
def Quotes (position : Option Position) (text : String) (notices : List Notice) : Prop :=
  ∀ w ∈ notices, w.position = position ∧ w.text.toList <:+: text.toList ∧
    RefersTo w.text.toList w.name

namespace Quotes

variable {position : Option Position} {part text : String} {ns ns' : List Notice}

theorem nil : Quotes position text [] := fun _ hw => by cases hw

theorem append (h : Quotes position text ns) (h' : Quotes position text ns') :
    Quotes position text (ns ++ ns') := fun w hw =>
  (List.mem_append.1 hw).elim (h w) (h' w)

theorem of_part (h : Quotes position part ns) (hpart : part.toList <:+: text.toList) :
    Quotes position text ns := fun w hw =>
  ⟨(h w hw).1, (h w hw).2.1.trans hpart, (h w hw).2.2⟩

end Quotes

variable (warns : Bool) (scopes above : List Bindings) (own : Bindings) (position : Option Position)

theorem quotes_interpolate (text : String) :
    Quotes position text (interpolate warns scopes position text).2 := by
  unfold interpolate
  cases warns with
  | false => exact Quotes.nil
  | true =>
    intro w hw
    obtain ⟨name, hname, rfl⟩ := List.mem_map.1 hw
    exact ⟨rfl, List.infix_refl _, refersTo_of_mem_unresolved hname⟩

theorem quotes_bound {tokens : List (List Char)} {params : String}
    (h : ∀ token ∈ tokens, token <:+: params.toList) (place : Nat) :
    Quotes position params (bound warns scopes position tokens place).2 := by
  unfold bound
  cases htoken : tokens[place]? with
  | none => exact Quotes.nil
  | some token =>
    refine (quotes_interpolate warns scopes position (String.ofList token)).of_part ?_
    rw [String.toList_ofList]
    exact h token (List.mem_of_getElem? htoken)

theorem quotes_countingRows (params : String) :
    Quotes position params (countingRows warns scopes position params).2 := by
  have htokens : ∀ token ∈ splitSpace params.toList, token <:+: params.toList :=
    fun token => infix_of_mem_splitSpace
  unfold countingRows
  cases hsplit : splitSpace params.toList with
  | nil => exact Quotes.nil
  | cons token tokens =>
    rw [hsplit] at htokens
    have hbound := quotes_bound warns scopes position htokens
    exact ((hbound 2).append (hbound 4)).append (hbound 6)

theorem quotes_listingRows (params : String) :
    Quotes position params (listingRows warns scopes position params).2 := by
  unfold listingRows
  dsimp only
  split
  · exact Quotes.nil
  · refine (quotes_interpolate warns scopes position _).of_part ?_
    rw [String.toList_ofList]
    exact Run.eachParts_infix params

theorem quotes_condition (params : String) :
    Quotes position params (condition warns scopes position params).2 := by
  unfold condition
  split
  · rename_i left operator right others hsplit
    have hside : ∀ side ∈ splitSpace params.toList,
        Quotes position params (interpolate warns scopes position (String.ofList side)).2 := by
      intro side hside
      refine (quotes_interpolate warns scopes position _).of_part ?_
      rw [String.toList_ofList]
      exact infix_of_mem_splitSpace hside
    have hsides := (hside left (by simp [hsplit])).append (hside right (by simp [hsplit]))
    dsimp only
    split
    · exact hsides
    · exact hsides
  · exact Quotes.nil

/-! ## Warnings of nodes and trees -/

/-- A warning at the position of a node, about a part of one of its texts. -/
def IsAbout (e : Entry) (w : Notice) : Prop :=
  w.position = e.position ∧ (∃ text ∈ e.content.texts, w.text.toList <:+: text.toList) ∧
    RefersTo w.text.toList w.name

theorem Quotes.isAbout {e : Entry} {text : String} {ns : List Notice}
    (h : Quotes e.position text ns) (htext : text ∈ e.content.texts) : ∀ w ∈ ns, IsAbout e w :=
  fun w hw => ⟨(h w hw).1, ⟨text, htext, (h w hw).2.1⟩, (h w hw).2.2⟩

/-- All warnings of an outcome are about a node, or of what is inside it. -/
def Tells (e : Entry) (inside : Bindings → Outcome) (o : Outcome) : Prop :=
  ∀ w ∈ o.notices, IsAbout e w ∨ ∃ b, w ∈ (inside b).notices

section Node

variable {own} {e : Entry} {inside : Bindings → Outcome} {ns : List Notice}

theorem tells_append {o : Outcome} (scopes : List Bindings)
    (ho : o.notices = ns ++ scopes.flatMap fun b => (inside b).notices)
    (h : ∀ w ∈ ns, IsAbout e w) : Tells e inside o := by
  intro w hw
  rw [ho] at hw
  refine (List.mem_append.1 hw).imp (h w) fun hw => ?_
  obtain ⟨b, -, hw⟩ := List.mem_flatMap.1 hw
  exact ⟨b, hw⟩

theorem tells_keep (e' : Entry) (h : ∀ w ∈ ns, IsAbout e w) :
    Tells e inside (keep own e' ns inside) := tells_append [.empty] (by simp [keep]) h

theorem tells_unwrap (after : Option Bool) (h : ∀ w ∈ ns, IsAbout e w) :
    Tells e inside (unwrap own ns after inside) := tells_append [.empty] (by simp [unwrap]) h

theorem tells_rounds (rows : List (List (String × Value))) (h : ∀ w ∈ ns, IsAbout e w) :
    Tells e inside (rounds own rows ns inside) := by
  refine tells_append (rows.map Bindings.empty.setAll) ?_ h
  simp only [rounds, gather, List.flatMap_map]

theorem tells_declaration {property value : String} (h : e.content = .declaration property value) :
    Tells e inside (declaration warns above own e.position property value inside) := by
  have htexts : e.content.texts = [property, value] := by rw [h, Content.texts]
  have hquotes := quotes_interpolate warns (own :: above) e.position
  have hproperty := (hquotes property).isAbout (by simp [htexts])
  have hvalue := (hquotes value).isAbout (by simp [htexts])
  unfold declaration
  split
  · exact fun w hw => .inl (hvalue w hw)
  · exact tells_keep _ fun w hw => (List.mem_append.1 hw).elim (hproperty w) (hvalue w)

theorem tells_atRule {name params : String} {block : Bool}
    (h : e.content = .atRule name params block) :
    Tells e inside (atRule warns above own e.position name params block inside) := by
  have hparams : params ∈ e.content.texts := by simp [h, Content.texts]
  have hquotes := (quotes_interpolate warns (own :: above) e.position params).isAbout hparams
  have hcondition := (quotes_condition warns (own :: above) e.position params).isAbout hparams
  unfold atRule
  cases Directive.ofName name with
  | counting =>
    exact tells_rounds _ ((quotes_countingRows warns (own :: above) e.position params).isAbout hparams)
  | listing =>
    exact tells_rounds _ ((quotes_listingRows warns (own :: above) e.position params).isAbout hparams)
  | condition =>
    dsimp only
    split
    · exact tells_unwrap _ hcondition
    · exact fun w hw => .inl (hcondition w hw)
  | media => exact tells_keep _ hquotes
  | keyframes => exact tells_keep _ hquotes
  | other => exact tells_keep _ (by simp)

theorem tells_plain : Tells e inside (plain warns above own e inside) := by
  unfold plain
  split
  · rename_i hcontent
    exact tells_declaration warns above hcontent
  · rename_i selector hcontent
    have hselector : selector ∈ e.content.texts := by simp [hcontent, Content.texts]
    exact tells_keep _ ((quotes_interpolate warns _ e.position selector).isAbout hselector)
  · rename_i hcontent
    exact tells_atRule warns above hcontent
  · exact tells_keep _ (by simp)
  · exact tells_keep _ (by simp)

/-- Each warning of a node is about a text of the node itself, or comes from inside it. -/
theorem tells_node (before : Option Bool) : Tells e inside (node warns above own before e inside) := by
  unfold node
  split
  · exact fun w hw => by cases hw
  · exact tells_unwrap _ (by simp)
  · exact tells_plain warns above

end Node

mutual

/-- Each warning of a tree is about one of its nodes. -/
theorem exists_isAbout_of_tree {w : Notice} : ∀ {above : List Bindings} {own : Bindings}
    {before : Option Bool} {t : Tree Entry}, w ∈ (tree warns above own before t).notices →
    ∃ e ∈ t.preorder, IsAbout e w
  | above, own, before, .node e ts, h => by
    rw [tree] at h
    rw [preorder_node]
    rcases tells_node warns above before w h with h | ⟨b, h⟩
    · exact ⟨e, by simp, h⟩
    · obtain ⟨e', he', h⟩ := exists_isAbout_of_forest h
      exact ⟨e', List.mem_cons_of_mem _ he', h⟩

theorem exists_isAbout_of_forest {w : Notice} : ∀ {above : List Bindings} {own : Bindings}
    {before : Option Bool} {ts : List (Tree Entry)},
    w ∈ (forest warns above own before ts).notices → ∃ e ∈ preorderAll ts, IsAbout e w
  | above, own, before, [], h => by
    rw [forest_nil] at h
    cases h
  | above, own, before, t :: ts, h => by
    rw [forest_cons] at h
    rw [preorderAll_cons]
    rcases List.mem_append.1 h with h | h
    · obtain ⟨e, he, h⟩ := exists_isAbout_of_tree h
      exact ⟨e, List.mem_append_left _ he, h⟩
    · obtain ⟨e, he, h⟩ := exists_isAbout_of_forest h
      exact ⟨e, List.mem_append_right _ he, h⟩

end

end Eval

/-! ## Warnings of a source -/

theorem exists_expand_of_forest (options : Options) {source : String} {ts : List (Tree Entry)}
    (h : parseForest source.toList = .ok ts) : ∃ css warnings,
      expand options source = .ok (css, warnings) ∧
        warnings.map Warning.notice = (Eval.stylesheet options .empty ts).notices := by
  have hexpand := expand_eq_stylesheet options source
  rw [h] at hexpand
  cases hresult : expand options source with
  | error e =>
    rw [hresult] at hexpand
    cases hexpand
  | ok result =>
    rw [hresult] at hexpand
    exact ⟨result.1, result.2, rfl, congrArg Prod.snd (Except.ok.inj hexpand)⟩

theorem Sheet.exists_position_of_forest {source : List Char} {ts : List (Tree Entry)} {n : NodeId}
    (h : parseForest source = .ok ts) (hn : n ∈ (ofForest ts).descendants root) :
    ∃ p, (ofForest ts).position n = some p := by
  obtain ⟨offset, hoffset, -⟩ := exists_offset_of_forest h
  rw [descendants_ofForest, List.mem_range'_1, ← size_ofForest] at hn
  obtain ⟨-, hposition, -⟩ := hoffset n hn.2 (Nat.ne_of_gt hn.1)
  exact ⟨_, hposition⟩

/-- A source that can be read is expanded, and each warning stands at the position of a node as it was
read, quotes a part of a text that this node had then, and names what that part refers to. -/
theorem expand_warnings (options : Options) {source : String} {s : Sheet}
    (h : Sheet.parse source = .ok s) : ∃ css warnings,
      expand options source = .ok (css, warnings) ∧
      ∀ w ∈ warnings, ∃ n ∈ s.descendants Sheet.root, ∃ p,
        w.position = some p ∧ s.position n = some p ∧
        w.message = "Could not resolve variable \"$" ++ w.name ++ "\" within \"" ++ w.text ++ "\"" ∧
        (∃ text ∈ (s.content n).texts, w.text.toList <:+: text.toList) ∧
        RefersTo w.text.toList w.name := by
  obtain ⟨ts, hts, rfl⟩ := Sheet.exists_forest_of_parse h
  obtain ⟨css, warnings, hexpand, hnotices⟩ := exists_expand_of_forest options hts
  refine ⟨css, warnings, hexpand, fun w hw => ?_⟩
  have hnotice : w.notice ∈ (Eval.stylesheet options .empty ts).notices := by
    rw [← hnotices]
    exact List.mem_map_of_mem hw
  obtain ⟨e, he, hposition, htext, hrefers⟩ := Eval.exists_isAbout_of_forest _ hnotice
  rw [← Sheet.map_entry_descendants] at he
  obtain ⟨n, hn, rfl⟩ := List.mem_map.1 he
  obtain ⟨p, hp⟩ := Sheet.exists_position_of_forest hts hn
  exact ⟨n, hn, p, hposition.trans hp, hp, rfl, htext, hrefers⟩

/-- Values that look like references are put into a selector and a declaration and not warned of
again; a condition is warned of in each round of the loop around it. -/
theorem expand_warnings_rounds :
    let source := "$v: $u;\n@each $x in a, $y \x7b\n  .$(x)-b \x7b w: $v \\$z \x7d\n" ++
      "  @if $x == $q \x7b c \x7b\x7d \x7d\n\x7d"
    ∃ s, Sheet.parse source = .ok s ∧ ∃ css warnings,
      expand .default source = .ok (css, warnings) ∧
      warnings.map (fun w => (w.position, w.name, w.text)) =
        [(some ⟨1, 1⟩, "u", "$u"), (some ⟨2, 1⟩, "y", "a, $y"), (some ⟨4, 3⟩, "q", "$q"),
          (some ⟨4, 3⟩, "q", "$q")] ∧
      ∀ w ∈ warnings, ∃ n ∈ s.descendants Sheet.root, ∃ p,
        w.position = some p ∧ s.position n = some p ∧
        w.message = "Could not resolve variable \"$" ++ w.name ++ "\" within \"" ++ w.text ++ "\"" ∧
        (∃ text ∈ (s.content n).texts, w.text.toList <:+: text.toList) ∧
        RefersTo w.text.toList w.name := by
  intro source
  have hparse : (Sheet.parse source).toOption.isSome = true := by decide +kernel
  have hfound : (expand .default source).toOption.map
      (fun result => result.2.map fun w => (w.position, w.name, w.text)) =
        some [(some ⟨1, 1⟩, "u", "$u"), (some ⟨2, 1⟩, "y", "a, $y"), (some ⟨4, 3⟩, "q", "$q"),
          (some ⟨4, 3⟩, "q", "$q")] := by decide +kernel
  cases hs : Sheet.parse source with
  | error e =>
    rw [hs] at hparse
    cases hparse
  | ok s =>
    obtain ⟨css, warnings, hexpand, habout⟩ := expand_warnings .default hs
    rw [hexpand] at hfound
    exact ⟨s, rfl, css, warnings, hexpand, Option.some.inj hfound, habout⟩

end StyleExpand

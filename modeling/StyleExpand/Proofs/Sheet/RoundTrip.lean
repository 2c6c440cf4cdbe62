import StyleExpand.Proofs.Sheet.Legible
import StyleExpand.Proofs.Sheet.Linked

/-!
# Reading undoes writing

A stylesheet whose contents are in canonical form is read back from its text, whatever way it was
made: the tree below the root of the new one has the same contents in the same places.

* `Scan.Neutral` : a text ends no statement and leaves nothing open;
* `Content.Canonical` : the canonical form of a content, part by part;
* `Sheet.parse_print` : the text of a canonical stylesheet is read as the same tree.
-/

namespace StyleExpand

open StyleExpand.Tree
open Scan (start)

/-! ## Canonical contents -/

/-- No character of a text ends a statement, and nothing is open or pending at its end. -/
def Scan.Neutral (cs : List Char) : Prop := start.Spans cs ∧ (start.after cs).Closed

instance (cs : List Char) : Decidable (Scan.Neutral cs) := inferInstanceAs (Decidable (_ ∧ _))

namespace Content

/-- Every part of a content is trimmed and neutral, and none looks like a part of another kind. -/
def Canonical : Content → Prop
  | .root => False
  | .rule selector =>
    Text.trim selector.toList = selector.toList ∧ Scan.Neutral selector.toList ∧
      Begins selector.toList
  | .atRule name params _ =>
    name.toList.all Lexeme.isAtNameChar = true ∧ Text.trim params.toList = params.toList ∧
      Scan.Neutral params.toList
  | .declaration property value =>
    Text.trim property.toList = property.toList ∧ Text.trim value.toList = value.toList ∧
      Scan.Neutral (sides property value) ∧
      (cutAtColon 0 false (sides property value)).map Prod.fst = some property.toList ∧
      Begins (sides property value)
  | .comment text => ¬ ['*', '/'] <:+: text.toList

instance : ∀ c : Content, Decidable c.Canonical
  | .root => inferInstanceAs (Decidable False)
  | .rule _ => inferInstanceAs (Decidable (_ ∧ _))
  | .atRule _ _ _ => inferInstanceAs (Decidable (_ ∧ _))
  | .declaration _ _ => inferInstanceAs (Decidable (_ ∧ _))
  | .comment _ => inferInstanceAs (Decidable (¬ _))

/-- A comment without its end marker has none that its own end would complete. -/
theorem legible_comment {text : String} (h : ¬ ['*', '/'] <:+: text.toList) :
    (Content.comment text).Legible := by
  rintro as bs hbs hne hstart
  cases bs with
  | nil => exact hne rfl
  | cons b bs =>
    cases bs with
    | nil => simp [List.cons_prefix_cons] at hstart
    | cons d bs =>
      refine h ⟨as, bs, ?_⟩
      simp only [List.cons_append, List.cons_prefix_cons, List.nil_prefix, and_true] at hstart
      rw [hbs, ← hstart.1, ← hstart.2]
      simp

theorem Canonical.legible {c : Content} (h : c.Canonical) : c.Legible := by
  cases c with
  | root => exact h
  | rule selector => exact ⟨h.1, h.2.2, h.2.1.1, h.2.1.2.settle⟩
  | atRule name params block =>
    obtain ⟨hname, htrim, hspans, hclosed⟩ := h
    refine ⟨hname, htrim, hspans, ?_⟩
    cases block
    · exact hclosed
    · exact hclosed.settle
  | declaration property value =>
    obtain ⟨hproperty, hvalue, hneutral, hcolon, hbegins⟩ := h
    refine ⟨hproperty, hvalue, hbegins, hneutral.1, hneutral.2, ?_⟩
    obtain ⟨⟨left, right⟩, hcut, rfl⟩ := Option.map_eq_some_iff.1 hcolon
    have htext := append_of_cutAtColon hcut
    rw [sides, List.append_assoc] at htext
    rw [hcut]
    cases List.append_cancel_left htext
    rfl
  | comment text => exact legible_comment h

end Content

/-! ## Stylesheets -/

namespace Sheet

theorem nests_shapeTo (s : Sheet) : ∀ (depth : Nat) (n : NodeId),
    (∀ m ∈ (s.shapeTo depth n).preorder, (s.content m).opens = false → s.children m = []) →
    Nests ((s.shapeTo depth n).map s.entry)
  | 0, _, _ => ⟨fun _ => rfl, trivial⟩
  | depth + 1, n, h => by
    rw [shapeTo, preorder_node] at h
    rw [shapeTo, map_node]
    refine ⟨fun hopens => ?_, nestsAll_iff.2 fun t ht => ?_⟩
    · have hnone : s.children n = [] := h n (by simp) hopens
      rw [hnone]
      rfl
    · rw [mapAll_eq_map, List.map_map, List.mem_map] at ht
      obtain ⟨m, hm, rfl⟩ := ht
      refine s.nests_shapeTo depth m fun k hk => h k ?_
      exact List.mem_cons_of_mem _ (preorder_subset_preorderAll (List.mem_map_of_mem hm) hk)

theorem nestsAll_forest {s : Sheet}
    (h : ∀ n ∈ s.descendants root, (s.content n).opens = false → s.children n = []) :
    NestsAll s.forest := by
  rw [nestsAll_iff, forest, tree, children_map, mapAll_eq_map]
  intro t ht
  obtain ⟨u, hu, rfl⟩ := List.mem_map.1 ht
  have hbelow : ∀ m ∈ u.preorder, m ∈ s.descendants root := fun m hm =>
    preorder_subset_preorderAll hu hm
  rw [shape] at hu
  cases hsize : s.size with
  | zero =>
    rw [hsize, shapeTo] at hu
    cases hu
  | succ depth =>
    rw [hsize, shapeTo, children_node, List.mem_map] at hu
    obtain ⟨n, -, rfl⟩ := hu
    exact s.nests_shapeTo depth n fun m hm => h m (hbelow m hm)

theorem content_root_ofForest (trees : List (Tree Entry)) : (ofForest trees).content root = .root := by
  have hentry : (ofForest trees).entry root = empty.entry root := by
    rw [ofForest, entry_setChildren, (graftAll_extends empty root trees).entry_eq (by decide)]
  exact congrArg Entry.content hentry

theorem map_tree_root (s : Sheet) :
    (s.tree root).map Entry.content = .node (s.content root) (mapAll Entry.content s.forest) := by
  have hlabel : (s.tree root).label = s.entry root := by
    rw [tree, label_map, shape, label_shapeTo]
  rw [← Tree.eta (s.tree root), map_node, hlabel]
  rfl

/-- The text of a stylesheet in canonical form is read as the tree that was written. -/
theorem parse_print (s : Sheet) (hroot : s.content root = .root)
    (hcanonical : ∀ n ∈ s.descendants root, (s.content n).Canonical)
    (hleaves : ∀ n ∈ s.descendants root, (s.content n).opens = false → s.children n = []) :
    ∃ t, parse s.print = .ok t ∧
      (t.tree root).map Entry.content = (s.tree root).map Entry.content := by
  have hreadable : ∀ e ∈ preorderAll s.forest, e.content.Readable := by
    intro e he
    rw [forest, tree, children_map, preorderAll_mapAll, List.mem_map] at he
    obtain ⟨n, hn, rfl⟩ := he
    exact (hcanonical n hn).legible.readable
  obtain ⟨trees, hparse, hcontents⟩ := exists_parse_print (nestsAll_forest hleaves) hreadable
  refine ⟨ofForest trees, hparse, ?_⟩
  rw [map_tree_root, map_tree_root, content_root_ofForest, forest_ofForest, hcontents, hroot]

/-- Contents of every kind, most of them with an empty part. -/
def sparse : Sheet := ofForest
  [.node ⟨.rule "", none⟩
    [.node ⟨.declaration "" "", none⟩ [], .node ⟨.atRule "" "" true, none⟩ [],
      .node ⟨.rule ".a #\x7b$x\x7d", none⟩ []],
    .node ⟨.atRule "import" "url(a;b) '\x7b'" false, none⟩ [], .node ⟨.comment "*", none⟩ [],
    .node ⟨.declaration "$w" "a:b", none⟩ []]

theorem parse_print_sparse : ∃ t, parse sparse.print = .ok t ∧
    (t.tree root).map Entry.content = (sparse.tree root).map Entry.content :=
  parse_print sparse rfl (by decide +kernel) (by decide +kernel)

end Sheet

end StyleExpand

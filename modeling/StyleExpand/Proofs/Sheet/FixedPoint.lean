import StyleExpand.Proofs.Sheet.Graft
import StyleExpand.Proofs.Sheet.Parsed

/-!
# Writing what was read

A stylesheet that was read from a source and is written again is read as the same store of nodes, but
for the positions; so writing and reading once more changes nothing.

* `Sheet.unplaced` : a stylesheet without its positions;
* `Sheet.unplaced_ofForest` : the store made from trees, without positions;
* `Sheet.parse_print_of_parse` : the text of a stylesheet that was read is read as that stylesheet.
-/

namespace StyleExpand

open StyleExpand.Tree

/-! ## Stylesheets without positions -/

def Entry.unplaced (e : Entry) : Entry := { e with position := none }

namespace Sheet

def unplaced (s : Sheet) : Sheet :=
  ⟨s.nodes.map fun node => { node with toEntry := node.toEntry.unplaced }⟩

@[simp] theorem size_unplaced (s : Sheet) : s.unplaced.size = s.size := by simp [unplaced, size]

theorem unplaced_alloc (s : Sheet) (e : Entry) (p : Option NodeId) :
    (s.alloc e p).2.unplaced = (s.unplaced.alloc e.unplaced p).2 := by
  simp [alloc, unplaced]

theorem unplaced_setChildren (s : Sheet) (n : NodeId) (cs : List NodeId) :
    (s.setChildren n cs).unplaced = s.unplaced.setChildren n cs := by
  simp only [unplaced, setChildren, modify, Sheet.mk.injEq]
  apply Array.ext
  · simp
  · intro i hi hi'
    simp only [Array.getElem_map, Array.getElem_modify]
    split <;> rfl

mutual

theorem unplaced_graft : ∀ (s : Sheet) (q : Option NodeId) (t : Tree Entry),
    (s.graft q t).2.unplaced = (s.unplaced.graft q (t.map Entry.unplaced)).2
  | s, q, .node e ts => by
    rw [map_node, graft_node, graft_node, graftAll_fst, graftAll_fst, numberAll_mapAll, size_alloc,
      size_alloc, size_unplaced, unplaced_setChildren, unplaced_graftAll, unplaced_alloc]

theorem unplaced_graftAll : ∀ (s : Sheet) (p : NodeId) (ts : List (Tree Entry)),
    (s.graftAll p ts).2.unplaced = (s.unplaced.graftAll p (mapAll Entry.unplaced ts)).2
  | s, p, [] => by rw [mapAll_nil, graftAll_nil, graftAll_nil]
  | s, p, t :: ts => by
    rw [mapAll_cons, graftAll_cons, graftAll_cons, unplaced_graftAll, unplaced_graft]

end

theorem unplaced_ofForest (ts : List (Tree Entry)) :
    (ofForest ts).unplaced = ofForest (mapAll Entry.unplaced ts) := by
  have hempty : empty.unplaced = empty := by simp [empty, unplaced, Entry.unplaced]
  have heq : ∀ vs, ofForest vs =
      (empty.graftAll root vs).2.setChildren root (empty.graftAll root vs).1 := fun _ => rfl
  rw [heq, heq, graftAll_fst, graftAll_fst, numberAll_mapAll, unplaced_setChildren,
    unplaced_graftAll, hempty]

end Sheet

theorem mapAll_unplaced_eq {ts us : List (Tree Entry)}
    (h : mapAll Entry.content us = mapAll Entry.content ts) :
    mapAll Entry.unplaced us = mapAll Entry.unplaced ts := by
  have hplace : ∀ vs : List (Tree Entry), mapAll Entry.unplaced vs =
      mapAll (fun c => (⟨c, none⟩ : Entry)) (mapAll Entry.content vs) := by
    intro vs
    rw [mapAll_mapAll]
    rfl
  rw [hplace, hplace, h]

namespace Printer

mutual

theorem write_unplaced (depth : Nat) : ∀ t : Tree Entry,
    write depth (t.map Entry.unplaced) = write depth t
  | .node ⟨content, position⟩ ts => by
    have hempty : (mapAll Entry.unplaced ts).isEmpty = ts.isEmpty := by cases ts <;> rfl
    rw [map_node, Entry.unplaced]
    cases content with
    | root => rw [write, write, writeAll_unplaced]
    | rule selector => rw [write, write, writeAll_unplaced, hempty]
    | atRule name params block =>
      cases block with
      | true => rw [write, write, writeAll_unplaced, hempty]
      | false => rw [write, write]
    | declaration property value => rw [write, write]
    | comment text => rw [write, write]

theorem writeAll_unplaced (depth : Nat) : ∀ ts : List (Tree Entry),
    writeAll depth (mapAll Entry.unplaced ts) = writeAll depth ts
  | [] => rfl
  | t :: ts => by rw [mapAll_cons, writeAll, writeAll, write_unplaced, writeAll_unplaced]

end

end Printer

/-! ## Reading and writing again -/

namespace Sheet

/-- The text of a stylesheet that was read is read as the same nodes, up to their positions, and is
the text of these too. -/
theorem parse_print_of_parse {source : String} {s : Sheet} (hparse : parse source = .ok s)
    (hsettled : ∀ n < s.size, (s.content n).Settled) :
    ∃ t, parse s.print = .ok t ∧ t.unplaced = s.unplaced ∧ t.print = s.print := by
  obtain ⟨ts, hforest, rfl⟩ := exists_forest_of_parse hparse
  have hparsed : Parsed (ofForest ts).forest := by
    rw [forest_ofForest]
    exact parsed_of_parseForest hforest
  have hreadable : ∀ e ∈ preorderAll (ofForest ts).forest, e.content.Readable := by
    intro e he
    refine (hparsed.legible e he ?_).readable
    have hregion := region_ofForest ts
    rw [hregion.forest_eq, preorderAll_mapAll, List.mem_map] at he
    obtain ⟨n, hn, rfl⟩ := he
    exact hsettled n (hregion.lt_size_below n hn)
  obtain ⟨us, hus, hcontents⟩ := exists_parse_print hparsed.nests hreadable
  rw [forest_ofForest] at hcontents
  have hunplaced := mapAll_unplaced_eq hcontents
  refine ⟨ofForest us, hus, ?_, ?_⟩
  · rw [unplaced_ofForest, unplaced_ofForest, hunplaced]
  · rw [print, print, forest_ofForest, forest_ofForest, ← Printer.writeAll_unplaced, hunplaced,
      Printer.writeAll_unplaced]

/-- Blanks go away, and an at-rule that the source ends gets a semicolon. -/
theorem parse_print_of_parse_blanks : ∃ s, parse " a\x7b b :c\x7d@x  y" = .ok s ∧
    s.print = "a \x7b\n  b: c;\n\x7d\n@x y;\n" ∧
    ∃ t, parse s.print = .ok t ∧ t.unplaced = s.unplaced ∧ t.print = s.print := by
  have hparse : parse " a\x7b b :c\x7d@x  y" = .ok (ofForest
      [.node ⟨.rule "a", some ⟨1, 2⟩⟩ [.node ⟨.declaration "b" "c", some ⟨1, 5⟩⟩ []],
        .node ⟨.atRule "x" "y" false, some ⟨1, 10⟩⟩ []]) := by
    have hscan : Token.scan .start " a\x7b b :c\x7d@x  y".toList =
        ([⟨⟨1, 2⟩, .opening (.rule "a")⟩, ⟨⟨1, 5⟩, .leaf (.declaration "b" "c")⟩, ⟨⟨1, 9⟩, .closing⟩,
          ⟨⟨1, 10⟩, .leaf (.atRule "x" "y" false)⟩], .finished ⟨1, 15⟩) := by
      decide +kernel
    rw [parse, parseForest, hscan]
    rfl
  exact ⟨_, hparse, by decide +kernel, parse_print_of_parse hparse (by decide +kernel)⟩

end Sheet

end StyleExpand

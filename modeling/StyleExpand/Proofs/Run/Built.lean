import StyleExpand.Proofs.Run.Refinement
import StyleExpand.Proofs.Sheet.Blocks

/-!
# Stylesheets over their whole life

A stylesheet comes about by reading a source or from nothing, is changed node by node and is expanded,
in any order. Its links are sound all the way.

* `Run.process_linked` : a run keeps the store linked, whatever is bound and whatever the options say;
* `Sheet.Built` : all stylesheets that come about;
* `Sheet.links_of_built` : their links are sound, and all ways up and down end.
-/

namespace StyleExpand

theorem Run.process_linked {r : Run} (options : Options) (h : r.sheet.Linked) :
    (r.process options).sheet.Linked := by
  obtain ⟨above, ts, -, -, hregion⟩ := h.region_root
  obtain ⟨us, hx⟩ := process_expands hregion options
  apply hx.linked
  rwa [(started_rebinds hregion options).sheet_eq]

namespace Sheet

/-- The stylesheets that come about by reading, changing and expanding. The anchor of an insertion
does not stand below any of the nodes; a copy may have any parent or none. -/
inductive Built : Sheet → Prop
  | empty : Built .empty
  | parse {source : String} {s : Sheet} : Sheet.parse source = .ok s → Built s
  | append {s : Sheet} {p : NodeId} (content : Content) : Built s → p < s.size →
      Built (s.append p content).2
  | clone {s : Sheet} {q : Option NodeId} (n : NodeId) : Built s → (∀ p ∈ q, p < s.size) →
      Built (s.clone n q).2
  | remove {s : Sheet} (n : NodeId) : Built s → Built (s.remove n)
  | setContent {s : Sheet} (n : NodeId) (content : Content) : Built s → Built (s.setContent n content)
  | setPosition {s : Sheet} (n : NodeId) (position : Position) : Built s →
      Built (s.setPosition n position)
  | insertBefore {s : Sheet} (anchor : NodeId) (ns : List NodeId) : Built s → (∀ n ∈ ns, n < s.size) →
      ns.Nodup → (∀ n ∈ ns, n ∉ (s.lineage anchor).tail) → Built (s.insertBefore anchor ns).2
  | process {r : Run} (options : Options) : Built r.sheet → Built (r.process options).sheet

theorem Built.linked {s : Sheet} (h : Built s) : s.Linked := by
  induction h with
  | empty => exact .empty
  | parse hparse =>
    obtain ⟨ts, -, rfl⟩ := exists_forest_of_parse hparse
    exact .ofForest ts
  | append content _ hp ih => exact ih.append hp content
  | clone n _ hq ih => exact ih.clone n hq
  | remove n _ ih => exact ih.remove n
  | setContent n content _ ih => exact ih.setContent n content
  | setPosition n position _ ih => exact ih.setPosition n position
  | insertBefore anchor ns _ hsize hnodup habove ih => exact ih.insertBefore hsize hnodup habove
  | process options _ ih => exact Run.process_linked options ih

/-- In every stylesheet that comes about, child lists and parent links agree and parent links lead to
an end. So the ancestors of a node and what is below it are read off in full. -/
theorem links_of_built {s : Sheet} (h : s.Built) :
    s.Linked ∧ (∀ p, ∀ c ∈ s.children p, c < s.size) ∧
      ∀ n < s.size, s.Lineage n (s.lineage n) ∧ s.Holds (s.shape n) := by
  have hs := h.linked
  refine ⟨hs, fun p c hc => ?_, fun n hn => ⟨hs.lineage hn, hs.holds hn⟩⟩
  exact lt_size_of_parent (hs.parent_eq p c hc)

/-- The root put below a copy of itself, with a loop below it that is then expanded. -/
theorem links_of_built_below_copy :
    let copied := ((empty.clone root none).2.append 1 (.rule "a")).2
    let below := (copied.insertBefore 2 [root]).2
    let loop := (below.append root (.atRule "each" "$x in a, b" true)).2
    let s := ((Run.start (loop.append 3 (.rule ".$x")).2).process .default).sheet
    s.Built ∧ s.parent root = some 1 ∧ s.children root = [6, 8] ∧
      s.Linked ∧ (∀ p, ∀ c ∈ s.children p, c < s.size) ∧
        ∀ n < s.size, s.Lineage n (s.lineage n) ∧ s.Holds (s.shape n) := by
  intro copied below loop s
  have hcopied : copied.Built := (Built.empty.clone root (by simp)).append _ (by decide)
  have hbelow : below.Built := hcopied.insertBefore 2 [root] (by decide) (by decide) (by decide)
  have hloop : loop.Built := hbelow.append _ (by decide)
  have hbuilt : s.Built := .process .default (hloop.append _ (by decide))
  exact ⟨hbuilt, by decide +kernel, by decide +kernel, links_of_built hbuilt⟩

end Sheet

end StyleExpand

import StyleExpand.Proofs.Evaluation
import StyleExpand.Proofs.Sheet.Move

/-!
# What a part of a run leaves, and what it means

A part of a run replaces some children of a container by others.

* `Run.Keeps r r' W` : old nodes outside `W`, and their scopes, are as they were;
* `Run.Clean r ts` : nothing is bound below, and nothing at nodes yet to come;
* `Run.Expanded o W above c xs ts ts' ys r r'` : below `c`, the trees `ts` between `xs` and `ys` have
  become `ts'`, and no loop or condition is left in them; if the run was clean there, its outcome is
  `o` (`Run.Means`), and if the store was linked, it still is;
* `Run.Expanded.trans`, `Run.Expanded.trans_outcome` : one part after another.
-/

namespace StyleExpand.Run

open StyleExpand.Tree

/-! ## Changes of the state -/

def notices (r : Run) : List Notice := r.warnings.map Warning.notice

@[simp] theorem notices_note (r : Run) (n : Note) : (r.note n).notices = r.notices := by
  simp [notices, warnings, note, report, Event.warning?]

theorem notices_warn (r : Run) (location : NodeId) (text name : String) :
    (r.warn location text name).notices =
      r.notices ++ [⟨name, text, r.sheet.position location⟩] := by
  simp [notices, warnings, warn, report, Event.warning?, Warning.notice]

theorem foldl_warn (location : NodeId) (text : String) : ∀ (names : List String) (r : Run),
    (names.foldl (fun r name => r.warn location text name) r).sheet = r.sheet ∧
    (names.foldl (fun r name => r.warn location text name) r).scopes = r.scopes ∧
    (names.foldl (fun r name => r.warn location text name) r).notices =
      r.notices ++ names.map fun name => ⟨name, text, r.sheet.position location⟩
  | [], r => by simp
  | name :: names, r => by
    obtain ⟨hsheet, hscopes, hnotices⟩ := foldl_warn location text names (r.warn location text name)
    rw [List.foldl_cons, hsheet, hscopes, hnotices, notices_warn]
    refine ⟨rfl, rfl, ?_⟩
    rw [List.append_assoc, List.map_cons, List.singleton_append]
    rfl

section Interpolation

variable (r : Run) (warns : Bool) (scope location : NodeId) (text : String)

@[simp] theorem interpolate_sheet : (r.interpolate warns scope location text).2.sheet = r.sheet := by
  unfold interpolate
  cases warns
  · rfl
  · exact (foldl_warn ..).1

@[simp] theorem interpolate_scopes :
    (r.interpolate warns scope location text).2.scopes = r.scopes := by
  unfold interpolate
  cases warns
  · rfl
  · exact (foldl_warn ..).2.1

variable {r scope}

theorem interpolate_fst {scopes : List Bindings} (h : r.lookup scope = Bindings.find scopes)
    (position : Option Position) :
    (r.interpolate warns scope location text).1 =
      (Eval.interpolate warns scopes position text).1 := by
  unfold interpolate Eval.interpolate
  rw [h]

theorem interpolate_notices {scopes : List Bindings} (h : r.lookup scope = Bindings.find scopes) :
    (r.interpolate warns scope location text).2.notices =
      r.notices ++ (Eval.interpolate warns scopes (r.sheet.position location) text).2 := by
  unfold interpolate Eval.interpolate
  rw [h]
  cases warns
  · simp
  · exact (foldl_warn ..).2.2

end Interpolation

theorem at?_of_scope?_none {t : Scopes} {n : NodeId} (h : t.scope? n = none) :
    t.at? n = Bindings.empty := by
  funext name
  rw [Scopes.at?, h]
  rfl

theorem at?_congr {t t' : Scopes} {n : NodeId} (h : t'.scope? n = t.scope? n) : t'.at? n = t.at? n := by
  funext name
  rw [Scopes.at?, Scopes.at?, h]

/-- At the container of a region, the scopes of the container and its ancestors are in sight. -/
theorem lookup_eq_find {r : Run} {above : List NodeId} {c : NodeId} {ts : List (Tree NodeId)}
    (h : r.sheet.Region above c ts) :
    r.lookup c = Bindings.find (r.scopes.at? c :: above.map r.scopes.at?) := by
  funext name
  rw [lookup, Scopes.lookup, h.lineage_eq, Bindings.find, ← List.map_cons, List.findSome?_map]
  rfl

/-! ## What a run leaves alone -/

/-- Old nodes outside `W` and the scopes at them are as they were. -/
structure Keeps (r r' : Run) (W : NodeId → Prop) : Prop where
  size_le : r.sheet.size ≤ r'.sheet.size
  node_eq : ∀ n, n < r.sheet.size → ¬ W n → r'.sheet.node n = r.sheet.node n
  scope_eq : ∀ n, n < r.sheet.size → ¬ W n → r'.scopes.scope? n = r.scopes.scope? n

namespace Keeps

variable {r r' r'' : Run} {W W' : NodeId → Prop} {n : NodeId}

theorem refl (r : Run) (W : NodeId → Prop) : Keeps r r W :=
  ⟨Nat.le_refl _, fun _ _ _ => rfl, fun _ _ _ => rfl⟩

theorem mono (h : Keeps r r' W) (hW : ∀ n, n < r.sheet.size → W n → W' n) : Keeps r r' W' :=
  ⟨h.size_le, fun n hn hw => h.node_eq n hn fun hw' => hw (hW n hn hw'),
    fun n hn hw => h.scope_eq n hn fun hw' => hw (hW n hn hw')⟩

/-- The second part may also change what the first one made. -/
theorem trans (h : Keeps r r' W) (h' : Keeps r' r'' W')
    (hW : ∀ n, n < r.sheet.size → W' n → W n) : Keeps r r'' W where
  size_le := Nat.le_trans h.size_le h'.size_le
  node_eq n hn hw := by
    rw [h'.node_eq n (Nat.lt_of_lt_of_le hn h.size_le) fun hw' => hw (hW n hn hw'),
      h.node_eq n hn hw]
  scope_eq n hn hw := by
    rw [h'.scope_eq n (Nat.lt_of_lt_of_le hn h.size_le) fun hw' => hw (hW n hn hw'),
      h.scope_eq n hn hw]

theorem entry_eq (h : Keeps r r' W) (hn : n < r.sheet.size) (hw : ¬ W n) :
    r'.sheet.entry n = r.sheet.entry n := by
  rw [Sheet.entry, Sheet.entry, h.node_eq n hn hw]

theorem parent_eq (h : Keeps r r' W) (hn : n < r.sheet.size) (hw : ¬ W n) :
    r'.sheet.parent n = r.sheet.parent n := by
  rw [Sheet.parent, Sheet.parent, h.node_eq n hn hw]

theorem children_eq (h : Keeps r r' W) (hn : n < r.sheet.size) (hw : ¬ W n) :
    r'.sheet.children n = r.sheet.children n := by
  rw [Sheet.children, Sheet.children, h.node_eq n hn hw]

theorem at?_eq (h : Keeps r r' W) (hn : n < r.sheet.size) (hw : ¬ W n) :
    r'.scopes.at? n = r.scopes.at? n :=
  at?_congr (h.scope_eq n hn hw)

theorem holdsUnder {p : NodeId} {ts : List (Tree NodeId)} (h : Keeps r r' W)
    (hts : r.sheet.HoldsUnder p ts) (hw : ∀ n ∈ preorderAll ts, ¬ W n) : r'.sheet.HoldsUnder p ts :=
  hts.congr (fun n hn => h.children_eq (hts.lt_size n hn) (hw n hn))
    fun n hn => h.parent_eq (hts.lt_size n hn) (hw n hn)

theorem map_at?_eq {l : List NodeId} (h : Keeps r r' W) (hl : ∀ n ∈ l, n < r.sheet.size)
    (hw : ∀ n ∈ l, ¬ W n) : l.map r'.scopes.at? = l.map r.scopes.at? :=
  List.map_congr_left fun n hn => h.at?_eq (hl n hn) (hw n hn)

/-- A region apart from all that changes stays. -/
theorem region {above : List NodeId} {c : NodeId} {ts : List (Tree NodeId)} (h : Keeps r r' W)
    (hr : r.sheet.Region above c ts) (hw : ∀ n ∈ c :: above ++ preorderAll ts, ¬ W n) :
    r'.sheet.Region above c ts := by
  refine hr.congr h.size_le (fun n hn => ?_) (Sheet.holds_node.2 ⟨?_, ?_⟩) hr.nodup
    hr.root_notMem_below
  · exact h.parent_eq (hr.lt_size n hn) (hw n (List.mem_append_left _ hn))
  · rw [h.children_eq hr.container_lt (hw c (by simp)), hr.children_eq]
  · exact h.holdsUnder hr.holdsUnder fun n hn => hw n (List.mem_append_right _ hn)

end Keeps

/-- Nothing but warnings and notes came, the warnings as `ns`. -/
structure Reports (r r' : Run) (ns : List Notice) : Prop where
  sheet_eq : r'.sheet = r.sheet
  scopes_eq : r'.scopes = r.scopes
  notices_eq : r'.notices = r.notices ++ ns

namespace Reports

variable {r r' r'' : Run} {ns ns' : List Notice}

theorem refl (r : Run) : Reports r r [] := ⟨rfl, rfl, (List.append_nil _).symm⟩

theorem trans (h : Reports r r' ns) (h' : Reports r' r'' ns') : Reports r r'' (ns ++ ns') :=
  ⟨h'.sheet_eq.trans h.sheet_eq, h'.scopes_eq.trans h.scopes_eq, by
    rw [h'.notices_eq, h.notices_eq, List.append_assoc]⟩

theorem note (r : Run) (n : Note) : Reports r (r.note n) [] := ⟨rfl, rfl, by simp⟩

theorem lookup_eq (h : Reports r r' ns) (n : NodeId) : r'.lookup n = r.lookup n := by
  funext name
  rw [lookup, lookup, h.sheet_eq, h.scopes_eq]

end Reports

/-- An answer was found as evaluation finds it, with nothing but reports on the way. -/
def Answers {α : Type} (r : Run) (found : α × Run) (said : α × List Notice) : Prop :=
  ∃ a r' ns, found = (a, r') ∧ said = (a, ns) ∧ Reports r r' ns

/-- The scopes that are in sight of one node, and the position of another. -/
structure Sight (r : Run) (scope location : NodeId) (scopes : List Bindings)
    (position : Option Position) : Prop where
  lookup_eq : r.lookup scope = Bindings.find scopes
  position_eq : r.sheet.position location = position

theorem Sight.after {r r' : Run} {scope location : NodeId} {scopes : List Bindings}
    {position : Option Position} {ns : List Notice} (h : Sight r scope location scopes position)
    (hns : Reports r r' ns) : Sight r' scope location scopes position :=
  ⟨(hns.lookup_eq scope).trans h.lookup_eq, by rw [hns.sheet_eq, h.position_eq]⟩

theorem Sight.interpolate {r : Run} {scope location : NodeId} {scopes : List Bindings}
    {position : Option Position} (h : Sight r scope location scopes position) (warns : Bool)
    (text : String) :
    Answers r (r.interpolate warns scope location text)
      (Eval.interpolate warns scopes position text) := by
  obtain ⟨hlookup, rfl⟩ := h
  refine ⟨_, _, _, rfl, Prod.ext (interpolate_fst warns location text hlookup _).symm rfl, ?_⟩
  exact ⟨interpolate_sheet .., interpolate_scopes .., interpolate_notices _ _ _ hlookup⟩

/-- Nothing but the scope at `n` changed, to the bindings `b`. -/
structure Rebinds (r r' : Run) (n : NodeId) (b : Bindings) : Prop where
  sheet_eq : r'.sheet = r.sheet
  notices_eq : r'.notices = r.notices
  at?_eq : r'.scopes.at? n = b
  scope_eq : ∀ m, m ≠ n → r'.scopes.scope? m = r.scopes.scope? m

namespace Rebinds

variable {r r' r'' : Run} {n : NodeId} {b b' : Bindings}

theorem refl (r : Run) (n : NodeId) : Rebinds r r n (r.scopes.at? n) := ⟨rfl, rfl, rfl, fun _ _ => rfl⟩

theorem trans (h : Rebinds r r' n b) (h' : Rebinds r' r'' n b') : Rebinds r r'' n b' :=
  ⟨h'.sheet_eq.trans h.sheet_eq, h'.notices_eq.trans h.notices_eq, h'.at?_eq,
    fun m hm => (h'.scope_eq m hm).trans (h.scope_eq m hm)⟩

theorem bind (r : Run) (n : NodeId) (name : String) (value : Value) :
    Rebinds r (r.bind n name value) n (Bindings.set (r.scopes.at? n) name value) := by
  refine ⟨rfl, rfl, funext fun y => ?_, fun m hm => ?_⟩
  · rw [Run.bind, Scopes.at?_bind, Bindings.set]
    simp
  · rw [Run.bind, Scopes.bind, Scopes.scope?_install, if_neg (Ne.symm hm)]

end Rebinds

/-! ## Expansions -/

/-- Nothing is bound at the nodes of some trees, or at nodes that are yet to be made. -/
def Clean (r : Run) (ts : List (Tree NodeId)) : Prop :=
  ∀ n, n ∈ preorderAll ts ∨ r.sheet.size ≤ n → r.scopes.scope? n = none

theorem Clean.at?_eq {r : Run} {ts : List (Tree NodeId)} {n : NodeId} (h : Clean r ts)
    (hn : n ∈ preorderAll ts) : r.scopes.at? n = Bindings.empty := at?_of_scope?_none (h n (.inl hn))

/-- The trees `ts` below `c` became `ts'` with the outcome `o`, and what went away has no scope. -/
structure Means (o : Eval.Outcome) (c : NodeId) (ts ts' : List (Tree NodeId)) (r r' : Run) : Prop where
  trees : mapAll r'.sheet.entry ts' = o.trees
  bindings : r'.scopes.at? c = o.bindings
  notices : r'.notices = r.notices ++ o.notices
  clean : ∀ n, n ∈ preorderAll ts ∨ r.sheet.size ≤ n → n ∉ preorderAll ts' →
    r'.scopes.scope? n = none

/-- What evaluation says of trees below a container, in the scopes of a run. -/
def outcome (warns : Bool) (r : Run) (above : List NodeId) (c : NodeId) (ts : List (Tree NodeId)) :
    Eval.Outcome :=
  Eval.forest warns (above.map r.scopes.at?) (r.scopes.at? c) none (mapAll r.sheet.entry ts)

def Below (c : NodeId) (ts : List (Tree NodeId)) (n : NodeId) : Prop := n = c ∨ n ∈ preorderAll ts

/-- Between `xs` and `ys`, the trees `ts` below `c` became `ts'`, with the outcome `o` if the run was
clean; old nodes outside `W` are as they were, and the store stays linked. -/
structure Expanded (o : Eval.Outcome) (W : NodeId → Prop) (above : List NodeId) (c : NodeId)
    (xs ts ts' ys : List (Tree NodeId)) (r r' : Run) : Prop where
  region : r'.sheet.Region above c (xs ++ ts' ++ ys)
  keeps : Keeps r r' W
  entry_eq : r'.sheet.entry c = r.sheet.entry c
  fresh : ∀ n ∈ preorderAll ts', n ∈ preorderAll ts ∨ r.sheet.size ≤ n
  settled : ∀ n ∈ preorderAll ts', (r'.sheet.entry n).isConstruct = false
  linked : r.sheet.Linked → r'.sheet.Linked
  means : Clean r ts → Means o c ts ts' r r'

namespace Expanded

variable {warns : Bool} {above : List NodeId} {c n : NodeId} {r r₁ r₂ : Run} {o o₁ o₂ : Eval.Outcome}
  {W W₁ W₂ : NodeId → Prop} {xs ts ts' us us' ys : List (Tree NodeId)}

theorem refl (h : r.sheet.Region above c (xs ++ ys)) (W : NodeId → Prop) (after : Option Bool) :
    Expanded ⟨[], r.scopes.at? c, [], after⟩ W above c xs [] [] ys r r where
  region := by simpa using h
  keeps := Keeps.refl r W
  entry_eq := rfl
  fresh := by simp
  settled := by simp
  linked := id
  means hclean := ⟨rfl, rfl, (List.append_nil _).symm, fun n hn _ => hclean n hn⟩

theorem nothing (warns : Bool) (h : r.sheet.Region above c (xs ++ ys)) :
    Expanded (outcome warns r above c []) (Below c []) above c xs [] [] ys r r := by
  have hout : outcome warns r above c [] = ⟨[], r.scopes.at? c, [], none⟩ := Eval.forest_nil ..
  rw [hout]
  exact refl h _ none

/-- Only the trees, the scope and the warnings of an outcome count, and only of a clean run. -/
theorem congr (h : Expanded o₁ W above c xs ts ts' ys r r₁)
    (ho : Clean r ts → o₁.trees = o₂.trees ∧ o₁.bindings = o₂.bindings ∧ o₁.notices = o₂.notices) :
    Expanded o₂ W above c xs ts ts' ys r r₁ where
  region := h.region
  keeps := h.keeps
  entry_eq := h.entry_eq
  fresh := h.fresh
  settled := h.settled
  linked := h.linked
  means hclean := by
    obtain ⟨htrees, hbindings, hnotices, hgone⟩ := h.means hclean
    obtain ⟨ht, hb, hn⟩ := ho hclean
    exact ⟨htrees.trans ht, hbindings.trans hb, hnotices.trans (by rw [hn]), hgone⟩

theorem after_reports {ns : List Notice} (hns : Reports r r₁ ns)
    (h : Expanded o W above c xs ts ts' ys r₁ r₂) :
    Expanded { o with notices := ns ++ o.notices } W above c xs ts ts' ys r r₂ := by
  obtain ⟨hsheet, hscopes, hnotices⟩ := hns
  obtain ⟨hregion, ⟨hsize, hnode, hscope⟩, hentry, hfresh, hsettled, hlinked, hmeans⟩ := h
  unfold Clean at hmeans
  rw [hsheet] at hsize hnode hscope hentry hfresh hlinked hmeans
  rw [hscopes] at hscope hmeans
  refine ⟨hregion, ⟨hsize, hnode, hscope⟩, hentry, hfresh, hsettled, hlinked, fun hclean => ?_⟩
  obtain ⟨htrees, hbindings, hnotices', hgone⟩ := hmeans hclean
  refine ⟨htrees, hbindings, ?_, by rwa [hsheet] at hgone⟩
  rw [hnotices', hnotices, List.append_assoc]

/-- Notes behind a part say nothing of it. -/
theorem before_notes (h : Expanded o W above c xs ts ts' ys r r₁) (hns : Reports r₁ r₂ []) :
    Expanded o W above c xs ts ts' ys r r₂ := by
  obtain ⟨hsheet, hscopes, hnotices⟩ := hns
  rw [List.append_nil] at hnotices
  refine ⟨hsheet ▸ h.region, ⟨hsheet ▸ h.keeps.size_le, hsheet ▸ h.keeps.node_eq,
    hscopes ▸ h.keeps.scope_eq⟩, hsheet ▸ h.entry_eq, h.fresh, hsheet ▸ h.settled, hsheet ▸ h.linked,
    fun hclean => ?_⟩
  obtain ⟨htrees, hbindings, hnotices', hgone⟩ := h.means hclean
  exact ⟨hsheet ▸ htrees, hscopes ▸ hbindings, hnotices.trans hnotices', hscopes ▸ hgone⟩

theorem mono (h : Expanded o W₁ above c xs ts ts' ys r r₁)
    (hW : ∀ n, n < r.sheet.size → W₁ n → W₂ n) : Expanded o W₂ above c xs ts ts' ys r r₁ :=
  ⟨h.region, h.keeps.mono hW, h.entry_eq, h.fresh, h.settled, h.linked, h.means⟩

/-- A part leaves what is behind it as clean as it was. -/
theorem clean_behind (h : r.sheet.Region above c (xs ++ (ts ++ us) ++ ys))
    (h₁ : Expanded o W above c xs ts ts' (us ++ ys) r r₁) (hus : ∀ n ∈ preorderAll us, ¬ W n)
    (hclean : Clean r (ts ++ us)) : Clean r₁ us := by
  intro n hn
  rcases hn with hn | hn
  · rw [h₁.keeps.scope_eq n (h.lt_size_below n (by simp [hn])) (hus n hn)]
    exact hclean n (.inl (by simp [hn]))
  · have hgone := (h₁.means fun n hn => hclean n (hn.imp (fun hn => by simp [hn]) id)).clean
    refine hgone n (.inr (Nat.le_trans h₁.keeps.size_le hn)) fun hmem => ?_
    exact Nat.not_lt.2 hn (h₁.region.lt_size_below n (by simp [hmem]))

/-- One part behind another. The second one may change what the first one made, but neither what
this left nor what went away. -/
theorem trans (h : r.sheet.Region above c (xs ++ (ts ++ us) ++ ys))
    (h₁ : Expanded o₁ W₁ above c xs ts ts' (us ++ ys) r r₁)
    (h₂ : Expanded o₂ W₂ above c (xs ++ ts') us us' ys r₁ r₂)
    (hus : ∀ n ∈ preorderAll us, ¬ W₁ n) (hts' : ∀ n ∈ preorderAll ts', ¬ W₂ n)
    (hgone : ∀ n, n ∈ preorderAll ts ∨ r.sheet.size ≤ n → n < r₁.sheet.size → n ∉ preorderAll us →
      ¬ W₂ n)
    (hW₁ : ∀ n, n < r.sheet.size → W₁ n → W n) (hW₂ : ∀ n, n < r.sheet.size → W₂ n → W n) :
    Expanded (o₁.andThen o₂) W above c xs (ts ++ us) (ts' ++ us') ys r r₂ where
  region := by simpa using h₂.region
  keeps := (h₁.keeps.mono hW₁).trans h₂.keeps hW₂
  entry_eq := h₂.entry_eq.trans h₁.entry_eq
  fresh n hn := by
    rw [preorderAll_append, List.mem_append] at hn ⊢
    rcases hn with hn | hn
    · exact (h₁.fresh n hn).imp .inl id
    · exact (h₂.fresh n hn).imp .inr fun hn => Nat.le_trans h₁.keeps.size_le hn
  settled n hn := by
    rw [preorderAll_append, List.mem_append] at hn
    rcases hn with hn | hn
    · rw [h₂.keeps.entry_eq (h₁.region.lt_size_below n (by simp [hn])) (hts' n hn)]
      exact h₁.settled n hn
    · exact h₂.settled n hn
  linked hs := h₂.linked (h₁.linked hs)
  means hclean := by
    have hr₁ : r₁.sheet.Region above c (xs ++ ts' ++ us ++ ys) := by simpa using h₁.region
    obtain ⟨htrees₁, hbindings₁, hnotices₁, hclean₁⟩ :=
      h₁.means fun n hn => hclean n (hn.imp (fun hn => by simp [hn]) id)
    obtain ⟨htrees₂, hbindings₂, hnotices₂, hclean₂⟩ := h₂.means (h₁.clean_behind h hus hclean)
    refine ⟨?_, hbindings₂, ?_, fun n hn hnot => ?_⟩
    · rw [mapAll_append, htrees₂]
      refine congrArg (· ++ _) (Eq.trans (mapAll_congr fun n hn => ?_) htrees₁)
      exact h₂.keeps.entry_eq (hr₁.lt_size_below n (by simp [hn])) (hts' n hn)
    · rw [hnotices₂, hnotices₁, List.append_assoc]
      rfl
    · rw [preorderAll_append, List.mem_append, not_or] at hnot
      by_cases hlater : n ∈ preorderAll us ∨ r₁.sheet.size ≤ n
      · exact hclean₂ n hlater hnot.2
      · rw [not_or, Nat.not_le] at hlater
        have hold : n ∈ preorderAll ts ∨ r.sheet.size ≤ n := by
          rw [preorderAll_append, List.mem_append, or_assoc] at hn
          exact hn.imp id fun hn => hn.resolve_left hlater.1
        rw [h₂.keeps.scope_eq n hlater.2 (hgone n hold hlater.2 hlater.1)]
        exact hclean₁ n hold hnot.1

end Expanded

/-! ### Parts below one container -/

section Siblings

variable {warns : Bool} {above : List NodeId} {c n : NodeId} {r r₁ r₂ : Run} {o : Eval.Outcome}
  {xs ts ts' us us' ys : List (Tree NodeId)}

theorem not_below_of_region (h : r.sheet.Region above c (xs ++ ts ++ ys))
    (hn : n ∈ preorderAll xs ∨ n ∈ preorderAll ys) : ¬ Below c ts n := by
  have hnodup := h.nodup_below
  simp only [preorderAll_append, List.append_assoc] at hnodup
  obtain ⟨-, hrest, hdisj⟩ := List.nodup_append.1 hnodup
  rintro (rfl | hts)
  · exact h.container_notMem_below (by rcases hn with hn | hn <;> simp [hn])
  · rcases hn with hn | hn
    · exact hdisj n hn n (by simp [hts]) rfl
    · exact (List.nodup_append.1 hrest).2.2 n hts n hn rfl

theorem above_not_below (h : r.sheet.Region above c (xs ++ ts ++ ys)) (hn : n ∈ above) :
    ¬ Below c ts n := by
  rintro (rfl | hts)
  · exact h.container_notMem_above hn
  · exact h.above_notMem_below hn (by simp [hts])

/-- The scopes above a part are as they were. -/
theorem Expanded.map_above_eq (h : r.sheet.Region above c (xs ++ ts ++ ys))
    (hx : Expanded o (Below c ts) above c xs ts ts' ys r r₁) :
    above.map r₁.scopes.at? = above.map r.scopes.at? :=
  hx.keeps.map_at?_eq (fun n hn => h.lt_size n (by simp [hn])) fun _ hn => above_not_below h hn

/-- What two parts come to one after the other is what both come to, unless a condition is parted
from its second branch. -/
theorem Expanded.trans_outcome (h : r.sheet.Region above c (xs ++ (ts ++ us) ++ ys))
    (h₁ : Expanded (outcome warns r above c ts) (Below c ts) above c xs ts ts' (us ++ ys) r r₁)
    (h₂ : Expanded (outcome warns r₁ above c us) (Below c us) above c (xs ++ ts') us us' ys r₁ r₂)
    (hcut : Eval.Severed (mapAll r.sheet.entry ts) (mapAll r.sheet.entry us)) :
    Expanded (outcome warns r above c (ts ++ us)) (Below c (ts ++ us)) above c xs (ts ++ us)
      (ts' ++ us') ys r r₂ := by
  have hr : r.sheet.Region above c (xs ++ ts ++ (us ++ ys)) := by simpa using h
  have hr₁ : r₁.sheet.Region above c (xs ++ ts' ++ us ++ ys) := by simpa using h₁.region
  have hus : ∀ n ∈ preorderAll us, n < r.sheet.size ∧ ¬ Below c ts n := fun n hn =>
    ⟨hr.lt_size_below n (by simp [hn]), not_below_of_region hr (.inr (by simp [hn]))⟩
  have hwhole := Expanded.trans (W := Below c (ts ++ us)) h h₁ h₂ (fun n hn => (hus n hn).2)
    (fun n hn => not_below_of_region hr₁ (.inl (by simp [hn])))
    (fun n hold _ hnot hw => ?_) (fun n _ hw => hw.imp id fun hw => by simp [hw])
    (fun n _ hw => hw.imp id fun hw => by simp [hw])
  · refine hwhole.congr fun hclean => ?_
    -- the second part is evaluated behind the first one, in the scope that this left
    have hbindings : r₁.scopes.at? c = (outcome warns r above c ts).bindings :=
      (h₁.means fun n hn => hclean n (hn.imp (fun hn => by simp [hn]) id)).bindings
    have hsecond : outcome warns r₁ above c us = Eval.forest warns (above.map r.scopes.at?)
        (outcome warns r above c ts).bindings none (mapAll r.sheet.entry us) := by
      rw [outcome, h₁.map_above_eq hr, hbindings,
        mapAll_congr fun n hn => h₁.keeps.entry_eq (hus n hn).1 (hus n hn).2]
    obtain ⟨after, hafter⟩ := Eval.forest_append_of_severed warns (above.map r.scopes.at?)
      (r.scopes.at? c) hcut
    rw [hsecond, outcome, outcome, mapAll_append, hafter]
    exact ⟨rfl, rfl, rfl⟩
  · rcases hw with rfl | hw
    · rcases hold with hold | hold
      · exact h.container_notMem_below (by simp [hold])
      · exact Nat.not_lt.2 hold h.container_lt
    · exact hnot hw

end Siblings

end StyleExpand.Run

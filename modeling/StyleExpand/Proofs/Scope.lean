import StyleExpand.Proofs.Sheet.Linked
import StyleExpand.Scope

/-!
# Nearest bindings

Where parent links lead to an end, a look-up finds the binding of a name that is nearest to a node.
A write at one node is seen from the nodes at and below it, as far as no nearer binding hides it.

* `Scopes.Nearest` : the value of a name at the first node, on the way up, that binds it;
* `Scopes.lookup_eq_some_iff`, `Scopes.lookup_eq_none_iff` : a look-up finds just that;
* `Sheet.Ancestor`, `Sheet.Lineage.ancestor_iff` : the nodes above a node;
* `Scopes.Shows` : from a node, nothing hides what another node binds;
* `Scopes.lookup_writeAll_filter` : writes at a node that is neither here nor above are not seen;
* `Scopes.lookup_after_write` : what a write and a copy of a scope do to every look-up.
-/

namespace StyleExpand

/-! ## Ancestors -/

namespace Sheet

inductive Ancestor (s : Sheet) : NodeId → NodeId → Prop
  | parent {n p : NodeId} : s.parent n = some p → Ancestor s p n
  | step {n p m : NodeId} : s.parent n = some p → Ancestor s m p → Ancestor s m n

theorem Lineage.ancestor_iff {s : Sheet} {n m : NodeId} {l : List NodeId} (h : s.Lineage n l) :
    s.Ancestor m n ↔ m ∈ l.tail := by
  induction h with
  | @top n hp =>
    refine ⟨fun habove => ?_, fun hm => by cases hm⟩
    cases habove with
    | parent hp' => rw [hp] at hp'; cases hp'
    | step hp' _ => rw [hp] at hp'; cases hp'
  | @step n p l hp hl ih =>
    obtain ⟨up, rfl⟩ := hl.head_eq
    rw [List.tail_cons] at ih ⊢
    rw [List.mem_cons, ← ih]
    constructor
    · intro habove
      cases habove with
      | parent hp' =>
        rw [hp] at hp'
        exact .inl (Option.some.inj hp').symm
      | step hp' habove =>
        rw [hp] at hp'
        cases hp'
        exact .inr habove
    · rintro (rfl | habove)
      · exact .parent hp
      · exact .step hp habove

theorem Lineage.mem_iff {s : Sheet} {n m : NodeId} {l : List NodeId} (h : s.Lineage n l) :
    m ∈ l ↔ m = n ∨ s.Ancestor m n := by
  rw [h.ancestor_iff]
  obtain ⟨up, rfl⟩ := h.head_eq
  rw [List.mem_cons, List.tail_cons]

end Sheet

namespace Scopes

variable {t u : Scopes} {s : Sheet} {n m : NodeId} {name x y : String} {v : Value}

/-! ## Look-ups -/

/-- Going up from a node, the first one that binds the name has this value for it. -/
def Nearest (t : Scopes) (s : Sheet) (n : NodeId) (name : String) (v : Value) : Prop :=
  ∃ nearer m rest, s.Lineage n (nearer ++ m :: rest) ∧ (∀ k ∈ nearer, t.at? k name = none) ∧
    t.at? m name = some v

theorem lookup_eq_some_iff (hs : s.Acyclic) (hn : n < s.size) {v : Value} :
    t.lookup s n name = some v ↔ t.Nearest s n name v := by
  have hlineage := hs.lineage hn
  unfold lookup Nearest
  rw [List.findSome?_eq_some_iff]
  constructor
  · rintro ⟨nearer, m, rest, hsplit, hm, hnearer⟩
    exact ⟨nearer, m, rest, hsplit ▸ hlineage, hnearer, hm⟩
  · rintro ⟨nearer, m, rest, hl, hnearer, hm⟩
    exact ⟨nearer, m, rest, hlineage.unique hl, hm, hnearer⟩

theorem lookup_eq_none_iff (hs : s.Acyclic) (hn : n < s.size) :
    t.lookup s n name = none ↔ ∀ v, ¬ t.Nearest s n name v := by
  rw [Option.eq_none_iff_forall_ne_some]
  exact forall_congr' fun v => not_congr (lookup_eq_some_iff hs hn)

theorem lookup_congr (h : ∀ k ∈ s.lineage n, u.at? k name = t.at? k name) :
    u.lookup s n name = t.lookup s n name := by
  have hmap : ∀ w : Scopes, w.lookup s n name =
      ((s.lineage n).map fun k => w.at? k name).findSome? id := fun w => by
    rw [List.findSome?_map]
    rfl
  rw [hmap, hmap, List.map_congr_left h]

theorem lookup_of_at? (hn : n < s.size) (h : t.at? n name = some v) :
    t.lookup s n name = some v := by
  obtain ⟨above, habove⟩ := Sheet.exists_lineage_eq_cons hn
  rw [lookup, habove, List.findSome?_cons, h]

/-! ## Writes -/

/-- From `m`, nothing hides what `n` binds to a name: `n` is `m` or an ancestor of it, and no node that
is nearer to `m` binds the name. -/
def Shows (t : Scopes) (s : Sheet) (m n : NodeId) (name : String) : Prop :=
  ∃ nearer rest, s.Lineage m (nearer ++ n :: rest) ∧ ∀ k ∈ nearer, t.at? k name = none

theorem lookup_bind_of_shows (hs : s.Acyclic) (hm : m < s.size) (h : t.Shows s m n x) (v : Value) :
    (t.bind n x v).lookup s m x = some v := by
  obtain ⟨nearer, rest, hl, hnearer⟩ := h
  have hn : n ∉ nearer := fun hmem =>
    (List.nodup_append.1 hl.nodup).2.2 n hmem n List.mem_cons_self rfl
  refine (lookup_eq_some_iff hs hm).2 ⟨nearer, n, rest, hl, fun k hk => ?_, ?_⟩
  · rw [at?_bind, if_neg, hnearer k hk]
    rintro ⟨rfl, -⟩
    exact hn hk
  · rw [at?_bind, if_pos ⟨rfl, rfl⟩]

/-- A new value at one place of a row is not found if another value stands before each such place. -/
theorem findSome?_update {f g : NodeId → Option Value} : ∀ {l : List NodeId},
    (∀ k ∈ l, k ≠ n → g k = f k) → (∀ nearer rest, l = nearer ++ n :: rest → ∃ k ∈ nearer, f k ≠ none) →
    l.findSome? g = l.findSome? f
  | [], _, _ => rfl
  | k :: l, hg, hidden => by
    have hk : k ≠ n := by
      rintro rfl
      obtain ⟨j, hj, -⟩ := hidden [] l rfl
      cases hj
    rw [List.findSome?_cons, List.findSome?_cons, hg k (by simp) hk]
    cases hfk : f k with
    | some w => rfl
    | none =>
      refine findSome?_update (fun j hj => hg j (by simp [hj])) fun nearer rest hl => ?_
      obtain ⟨j, hj, hfj⟩ := hidden (k :: nearer) rest (by rw [hl]; rfl)
      rcases List.mem_cons.1 hj with rfl | hj
      · exact absurd hfk hfj
      · exact ⟨j, hj, hfj⟩

theorem lookup_bind_of_hidden (hs : s.Acyclic) (hm : m < s.size)
    (h : ¬ (y = x ∧ t.Shows s m n x)) (v : Value) :
    (t.bind n x v).lookup s m y = t.lookup s m y := by
  by_cases hy : y = x
  · subst hy
    refine findSome?_update (n := n) (fun k _ hk => ?_) fun nearer rest hl => ?_
    · rw [at?_bind, if_neg fun hc => hk hc.1.symm]
    · -- otherwise nothing would hide the new value
      refine Classical.byContradiction fun hnone => h ⟨rfl, nearer, rest, hl ▸ hs.lineage hm, ?_⟩
      intro k hk
      exact Classical.byContradiction fun hsome => hnone ⟨k, hk, hsome⟩
  · refine lookup_congr fun k _ => ?_
    rw [at?_bind, if_neg fun hc => hy hc.2.symm]

/-! ## Copies -/

theorem at?_install (t : Scopes) (c m : NodeId) (scope : Scope) (name : String) :
    (t.install c scope).at? m name = if c = m then scope[name]? else t.at? m name := by
  unfold at?
  rw [scope?_install]
  split <;> rfl

theorem getElem?_snapshot (t : Scopes) (n : NodeId) (name : String) :
    (t.snapshot n)[name]? = t.at? n name := by
  unfold snapshot at?
  cases t.scope? n <;> simp

theorem lookup_copy {c : NodeId} (hc : c < s.size) (h : t.at? n y = some v) :
    (t.install c (t.snapshot n)).lookup s c y = some v := by
  refine lookup_of_at? hc ?_
  rw [at?_install, if_pos rfl, getElem?_snapshot, h]

structure Write where
  node : NodeId
  name : String
  value : Value

def writeAll (t : Scopes) (writes : List Write) : Scopes :=
  writes.foldl (fun t w => t.bind w.node w.name w.value) t

theorem at?_writeAll_filter (writes : List Write) (hagree : ∀ k, k ≠ n → ∀ y, u.at? k y = t.at? k y) :
    ∀ k, k ≠ n → ∀ y,
      (u.writeAll writes).at? k y = (t.writeAll (writes.filter (·.node ≠ n))).at? k y := by
  induction writes generalizing t u with
  | nil => exact hagree
  | cons w writes ih =>
    by_cases hw : w.node = n
    · rw [List.filter_cons_of_neg (by simpa using hw)]
      refine ih (u := u.bind w.node w.name w.value) fun k hk y => ?_
      rw [at?_bind, if_neg fun hc => hk (hc.1.symm.trans hw), hagree k hk]
    · rw [List.filter_cons_of_pos (by simpa using hw)]
      refine ih (u := u.bind w.node w.name w.value) (t := t.bind w.node w.name w.value) fun k hk y => ?_
      rw [at?_bind, at?_bind, hagree k hk]

/-- Writes at a node that is neither here nor above are not seen. -/
theorem lookup_writeAll_filter {c : NodeId} (hs : s.Acyclic) (hc : c < s.size) (hne : n ≠ c)
    (hn : ¬ s.Ancestor n c) (t : Scopes) (writes : List Write) (y : String) :
    (t.writeAll writes).lookup s c y = (t.writeAll (writes.filter (·.node ≠ n))).lookup s c y := by
  refine lookup_congr fun k hk => at?_writeAll_filter writes (fun _ _ _ => rfl) k ?_ y
  rintro rfl
  rcases (hs.lineage hc).mem_iff.1 hk with heq | habove
  · exact hne heq
  · exact hn habove

/-- A value bound at `n` is found by every look-up of the name from which nothing hides `n`, and no
other look-up changes. A copy of the scope at `n` has its values, and if neither node is above the
other, later writes at the one are not seen from the other. -/
theorem lookup_after_write (hs : s.Acyclic) (t : Scopes) :
    (∀ (n m : NodeId) (x y : String) (v : Value), m < s.size →
      (y = x ∧ t.Shows s m n x → (t.bind n x v).lookup s m y = some v) ∧
      (¬ (y = x ∧ t.Shows s m n x) → (t.bind n x v).lookup s m y = t.lookup s m y)) ∧
    ∀ n c : NodeId, n < s.size → c < s.size →
      let copied := t.install c (t.snapshot n)
      (∀ y v, t.at? n y = some v → copied.lookup s c y = some v) ∧
      (n ≠ c → ¬ s.Ancestor n c → ¬ s.Ancestor c n → ∀ (later : List Write) (y : String),
        (copied.writeAll later).lookup s c y =
          (copied.writeAll (later.filter (·.node ≠ n))).lookup s c y ∧
        (copied.writeAll later).lookup s n y =
          (copied.writeAll (later.filter (·.node ≠ c))).lookup s n y) := by
  refine ⟨fun n m x y v hm => ⟨?_, fun h => lookup_bind_of_hidden hs hm h v⟩, fun n c hn hc => ?_⟩
  · rintro ⟨rfl, h⟩
    exact lookup_bind_of_shows hs hm h v
  · intro copied
    refine ⟨fun y v h => lookup_copy hc h, fun hne hnc hcn later y => ⟨?_, ?_⟩⟩
    · exact lookup_writeAll_filter hs hc hne hnc copied later y
    · exact lookup_writeAll_filter hs hn hne.symm hcn copied later y

/-- A name bound at the root and at the first of two siblings; a write at their parent is seen from
the second one only, which then gets a copy of the scope of the first. -/
theorem lookup_after_write_siblings :
    let s := Sheet.ofForest [.node ⟨.rule "a", none⟩
      [.node ⟨.rule "b", none⟩ [], .node ⟨.rule "c", none⟩ []]]
    let t := (Scopes.empty.bind Sheet.root "x" (.scalar "far")).bind 2 "x" (.scalar "near")
    let copied := t.install 3 (t.snapshot 2)
    s.Acyclic ∧ t.Shows s 3 1 "x" ∧ ¬ t.Shows s 2 1 "x" ∧
      (t.bind 1 "x" (.scalar "new")).lookup s 3 "x" = some (.scalar "new") ∧
      (t.bind 1 "x" (.scalar "new")).lookup s 2 "x" = some (.scalar "near") ∧
      ¬ s.Ancestor 2 3 ∧ ¬ s.Ancestor 3 2 ∧ copied.lookup s 3 "x" = some (.scalar "near") ∧
      ∀ (later : List Write) (y : String),
        (copied.writeAll later).lookup s 3 y =
          (copied.writeAll (later.filter (·.node ≠ 2))).lookup s 3 y ∧
        (copied.writeAll later).lookup s 2 y =
          (copied.writeAll (later.filter (·.node ≠ 3))).lookup s 2 y := by
  intro s t copied
  have hs : s.Acyclic := (Sheet.Linked.ofForest _).toAcyclic
  have hb : s.Lineage 2 [2, 1, 0] :=
    .step (by decide +kernel) (.step (by decide +kernel) (.top (by decide +kernel)))
  have hc : s.Lineage 3 [3, 1, 0] :=
    .step (by decide +kernel) (.step (by decide +kernel) (.top (by decide +kernel)))
  have hshows : t.Shows s 3 1 "x" := ⟨[3], [0], hc, by decide +kernel⟩
  have hhidden : ¬ t.Shows s 2 1 "x" := by
    rintro ⟨nearer, rest, hl, hnearer⟩
    have hmem : 2 ∈ nearer := by
      have heq := hb.unique hl
      cases nearer with
      | nil => cases heq
      | cons k nearer => exact (List.cons.inj heq).1 ▸ List.mem_cons_self
    exact absurd (hnearer 2 hmem) (by decide +kernel)
  have hbc : ¬ s.Ancestor 2 3 := fun h => absurd (hc.ancestor_iff.1 h) (by decide)
  have hcb : ¬ s.Ancestor 3 2 := fun h => absurd (hb.ancestor_iff.1 h) (by decide)
  obtain ⟨hwrite, hcopy⟩ := lookup_after_write hs t
  obtain ⟨hcopied, hlater⟩ := hcopy 2 3 (by decide +kernel) (by decide +kernel)
  refine ⟨hs, hshows, hhidden, (hwrite 1 3 "x" "x" _ (by decide +kernel)).1 ⟨rfl, hshows⟩, ?_, hbc, hcb,
    hcopied "x" _ (by decide +kernel), hlater (by decide) hbc hcb⟩
  rw [(hwrite 1 2 "x" "x" _ (by decide +kernel)).2 fun h => hhidden h.2]
  decide +kernel

end Scopes

end StyleExpand

import StyleExpand.Proofs.Scope
import StyleExpand.Proofs.Text.Trim
import StyleExpand.Proofs.Value.Nesting

/-!
# Assignments and defaults

What a name stands for at a node after any row of assignments. A default counts only where the name
has no value yet; assignments to other names, and to the name at nodes that are not above, neither
make a default count nor keep one from it.

* `Marked`, `Scopes.beforeMarker?_eq_some_iff` : texts that end in the default marker;
* `Assignment.Apart`, `Scopes.at?_assign_of_apart` : assignments that a look-up does not see;
* `Scopes.settle`, `Scopes.lookup_assignAll` : of a row of assignments, a look-up sees those to its name
  at its node, one after the other;
* `Scopes.at?_assignAll_of_isDefault` : defaults alone change nothing where there is a value;
* `Scopes.assignAll_exact` : the value that a row of assignments leaves.
-/

namespace StyleExpand

/-! ## The default marker -/

/-- A text that ends in blanks and the default marker, and the text before them. -/
def Marked (raw value : List Char) : Prop :=
  ∃ gap, gap ≠ [] ∧ Text.Blank gap ∧ raw = value ++ gap ++ Scopes.defaultMarker ∧
    Text.Leads value.reverse

def IsDefault (raw : String) : Prop := ∃ value, Marked raw.toList value

theorem Text.leads_reverse_trimEnd (cs : List Char) : Leads (trimEnd cs).reverse := by
  rw [trimEnd_eq, List.reverse_reverse]
  exact leads_trimStart cs.reverse

theorem Scopes.beforeMarker?_eq_some_iff {cs value : List Char} :
    beforeMarker? cs = some value ↔ Marked cs value := by
  unfold beforeMarker?
  constructor
  · intro h
    split at h
    · cases h
    · rename_i front hfront
      dsimp only at h
      split at h
      · rename_i hlt
        cases h
        obtain ⟨gap, hblank, hgap⟩ := Text.exists_eq_trimEnd front
        refine ⟨gap, ?_, hblank, ?_, Text.leads_reverse_trimEnd front⟩
        · rintro rfl
          rw [List.append_nil] at hgap
          rw [← hgap] at hlt
          exact Nat.lt_irrefl _ hlt
        · rw [← hgap]
          exact Text.append_of_beforeEnd hfront
      · cases h
  · rintro ⟨gap, hne, hblank, rfl, hleads⟩
    have htrim : Text.trimEnd (value ++ gap) = value := by
      rw [Text.trimEnd_append_blank hblank, Text.trimEnd_of_leads hleads]
    have hlt : value.length < (value ++ gap).length := by
      have := List.length_pos_iff.2 hne
      rw [List.length_append]
      omega
    rw [beforeEnd_append]
    dsimp only
    rw [htrim, if_pos hlt]

theorem Scopes.beforeMarker?_eq_none_iff {raw : String} :
    beforeMarker? raw.toList = none ↔ ¬ IsDefault raw := by
  rw [Option.eq_none_iff_forall_ne_some, IsDefault, not_exists]
  exact forall_congr' fun value => not_congr beforeMarker?_eq_some_iff

/-! ## Rows of assignments -/

structure Assignment where
  node : NodeId
  name : String
  raw : String

namespace Assignment

def concerns (n : NodeId) (x : String) (a : Assignment) : Bool := a.node == n && a.name == x

/-- An assignment to another name, or at a node that is neither the given one nor above it. -/
def Apart (s : Sheet) (n : NodeId) (x : String) (a : Assignment) : Prop :=
  a.name ≠ x ∨ a.node ≠ n ∧ ¬ s.Ancestor a.node n

/-- What is not assigned to a name above a node is assigned to it there, or apart from it. -/
theorem here_or_apart {s : Sheet} {n : NodeId} {x : String} {a : Assignment}
    (h : a.name = x → ¬ s.Ancestor a.node n) : (∃ raw, a = ⟨n, x, raw⟩) ∨ a.Apart s n x := by
  obtain ⟨m, y, raw⟩ := a
  by_cases hname : y = x
  · by_cases hnode : m = n
    · exact .inl ⟨raw, by rw [hname, hnode]⟩
    · exact .inr (.inr ⟨hnode, h hname⟩)
  · exact .inr (.inl hname)

end Assignment

def textsAt (n : NodeId) (x : String) (row : List Assignment) : List String :=
  (row.filter (Assignment.concerns n x)).map Assignment.raw

namespace Scopes

variable {t : Scopes} {s : Sheet} {n : NodeId} {x : String} {a : Assignment} {row : List Assignment}

def assignAll (t : Scopes) (s : Sheet) (row : List Assignment) : Scopes :=
  row.foldl (fun t a => (t.assign s a.node a.name a.raw).1) t

theorem assignAll_cons (t : Scopes) (s : Sheet) (a : Assignment) (row : List Assignment) :
    t.assignAll s (a :: row) = ((t.assign s a.node a.name a.raw).1).assignAll s row := rfl

/-! ## One assignment -/

theorem assign_eq (t : Scopes) (s : Sheet) (n : NodeId) (x raw : String) :
    (t.assign s n x raw).1 = t ∨ ∃ v, (t.assign s n x raw).1 = t.bind n x v := by
  unfold assign
  split
  · exact .inr ⟨_, rfl⟩
  · split
    · exact .inl rfl
    · exact .inr ⟨_, rfl⟩

/-- An assignment apart from a name and a node is not seen on the way up from the node. -/
theorem at?_assign_of_apart (hs : s.Acyclic) (hn : n < s.size) (ha : a.Apart s n x) :
    ∀ k ∈ s.lineage n, (t.assign s a.node a.name a.raw).1.at? k x = t.at? k x := by
  intro k hk
  rcases assign_eq t s a.node a.name a.raw with heq | ⟨v, heq⟩
  · rw [heq]
  · rw [heq, at?_bind, if_neg]
    rintro ⟨rfl, hname⟩
    rcases ha with hne | ⟨hne, habove⟩
    · exact hne hname
    · rcases (hs.lineage hn).mem_iff.1 hk with hk | hk
      · exact hne hk
      · exact habove hk

theorem lookup_assign_of_apart (hs : s.Acyclic) (hn : n < s.size) (ha : a.Apart s n x) :
    (t.assign s a.node a.name a.raw).1.lookup s n x = t.lookup s n x :=
  lookup_congr (at?_assign_of_apart hs hn ha)

/-- What a name stands for after one more text is assigned to it: a default yields to any value. -/
def settle (old : Option Value) (raw : String) : Option Value :=
  match beforeMarker? raw.toList with
  | none => some (.ofText raw)
  | some value => old.or (some (.literal true value))

theorem settle_of_not_isDefault {raw : String} (h : ¬ IsDefault raw) (old : Option Value) :
    settle old raw = some (.ofText raw) := by
  rw [settle, beforeMarker?_eq_none_iff.2 h]

theorem settle_none_of_marked {raw : String} {value : List Char} (h : Marked raw.toList value) :
    settle none raw = some (.literal true value) := by
  rw [settle, beforeMarker?_eq_some_iff.2 h]
  rfl

theorem settle_some_of_isDefault {raw : String} (h : IsDefault raw) (v : Value) :
    settle (some v) raw = some v := by
  obtain ⟨value, hvalue⟩ := h
  rw [settle, beforeMarker?_eq_some_iff.2 hvalue]
  rfl

theorem lookup_assign (hn : n < s.size) (raw : String) :
    (t.assign s n x raw).1.lookup s n x = settle (t.lookup s n x) raw := by
  have hbind : ∀ v, (t.bind n x v).lookup s n x = some v := fun v =>
    lookup_of_at? hn (by rw [at?_bind, if_pos ⟨rfl, rfl⟩])
  unfold assign settle
  cases beforeMarker? raw.toList with
  | none => exact hbind _
  | some value =>
    dsimp only
    cases hold : t.lookup s n x with
    | none => exact hbind _
    | some v => exact hold

theorem assign_of_isDefault {raw : String} (h : IsDefault raw) (hv : (t.lookup s n x).isSome = true) :
    (t.assign s n x raw).1 = t := by
  obtain ⟨value, hvalue⟩ := h
  rw [assign, beforeMarker?_eq_some_iff.2 hvalue]
  simp only [hv, if_true]

/-! ## Whole rows -/

theorem textsAt_cons_of_concerns {raw : String} (row : List Assignment) :
    textsAt n x (⟨n, x, raw⟩ :: row) = raw :: textsAt n x row := by
  simp [textsAt, Assignment.concerns]

theorem textsAt_cons_of_apart (ha : a.Apart s n x) (row : List Assignment) :
    textsAt n x (a :: row) = textsAt n x row := by
  have hconcerns : a.concerns n x = false := by
    rw [Assignment.concerns, Bool.and_eq_false_iff, beq_eq_false_iff_ne, beq_eq_false_iff_ne]
    exact ha.elim .inr fun h => .inl h.1
  rw [textsAt, List.filter_cons_of_neg (by simp [hconcerns])]
  rfl

/-- Of a row, a look-up sees the assignments to its name at its node, one after the other. -/
theorem lookup_assignAll (hs : s.Acyclic) (hn : n < s.size)
    (hrow : ∀ a ∈ row, a.name = x → ¬ s.Ancestor a.node n) :
    (t.assignAll s row).lookup s n x = (textsAt n x row).foldl settle (t.lookup s n x) := by
  induction row generalizing t with
  | nil => rfl
  | cons a row ih =>
    have hlater : ∀ b ∈ row, b.name = x → ¬ s.Ancestor b.node n := fun b hb =>
      hrow b (List.mem_cons_of_mem a hb)
    rw [assignAll_cons, ih hlater]
    rcases Assignment.here_or_apart (hrow a List.mem_cons_self) with ⟨raw, rfl⟩ | ha
    · rw [lookup_assign hn, textsAt_cons_of_concerns, List.foldl_cons]
    · rw [lookup_assign_of_apart hs hn ha, textsAt_cons_of_apart ha]

theorem foldl_settle_of_isDefault {raws : List String} (h : ∀ raw ∈ raws, IsDefault raw) (v : Value) :
    raws.foldl settle (some v) = some v := by
  induction raws with
  | nil => rfl
  | cons raw raws ih =>
    rw [List.foldl_cons, settle_some_of_isDefault (h raw (by simp)),
      ih fun r hr => h r (by simp [hr])]

/-- Where a name has a value, a row with nothing but defaults for it changes no binding of it there or
above. -/
theorem at?_assignAll_of_isDefault (hs : s.Acyclic) (hn : n < s.size)
    (hrow : ∀ a ∈ row, a.name = x → ¬ s.Ancestor a.node n)
    (hv : (t.lookup s n x).isSome = true) (hraws : ∀ raw ∈ textsAt n x row, IsDefault raw) :
    ∀ k ∈ s.lineage n, (t.assignAll s row).at? k x = t.at? k x := by
  induction row generalizing t with
  | nil => exact fun _ _ => rfl
  | cons a row ih =>
    have hlater : ∀ b ∈ row, b.name = x → ¬ s.Ancestor b.node n := fun b hb =>
      hrow b (List.mem_cons_of_mem a hb)
    intro k hk
    rw [assignAll_cons]
    rcases Assignment.here_or_apart (hrow a List.mem_cons_self) with ⟨raw, rfl⟩ | ha
    · rw [textsAt_cons_of_concerns] at hraws
      rw [assign_of_isDefault (hraws raw (by simp)) hv]
      exact ih hlater hv (fun r hr => hraws r (by simp [hr])) k hk
    · rw [textsAt_cons_of_apart ha] at hraws
      rw [ih hlater (by rwa [lookup_assign_of_apart hs hn ha]) hraws k hk,
        at?_assign_of_apart hs hn ha k hk]

/-- What a name stands for at a node after a row of assignments to it there, among others that do not
concern it: the last text that is no default, or else the first one; and the value that it had, if all
are defaults. -/
theorem assignAll_exact (hs : s.Acyclic) (hn : n < s.size)
    (hrow : ∀ a ∈ row, a.name = x → ¬ s.Ancestor a.node n) (t : Scopes) :
    (t.lookup s n x = none →
      (∀ before raw after, textsAt n x row = before ++ raw :: after → ¬ IsDefault raw →
        (∀ r ∈ after, IsDefault r) → (t.assignAll s row).lookup s n x = some (.ofText raw)) ∧
      ∀ raw after value, textsAt n x row = raw :: after → (∀ r ∈ textsAt n x row, IsDefault r) →
        Marked raw.toList value →
        (t.assignAll s row).lookup s n x = some (.literal true value)) ∧
    ∀ v, t.lookup s n x = some v → (∀ r ∈ textsAt n x row, IsDefault r) →
      (t.assignAll s row).lookup s n x = some v ∧ (t.assignAll s row).at? n x = t.at? n x := by
  refine ⟨fun hnone => ⟨fun before raw after hraws hraw hafter => ?_,
    fun raw after value hraws hall hmarked => ?_⟩, fun v hv hall => ?_⟩
  · rw [lookup_assignAll hs hn hrow, hraws, List.foldl_append, List.foldl_cons,
      settle_of_not_isDefault hraw, foldl_settle_of_isDefault hafter]
  · rw [hraws] at hall
    rw [lookup_assignAll hs hn hrow, hraws, List.foldl_cons, hnone, settle_none_of_marked hmarked,
      foldl_settle_of_isDefault fun r hr => hall r (by simp [hr])]
  · have hkept := at?_assignAll_of_isDefault hs hn hrow (by rw [hv]; rfl) hall
    obtain ⟨above, habove⟩ := (hs.lineage hn).head_eq
    exact ⟨(lookup_congr hkept).trans hv, hkept n (by rw [habove]; exact List.mem_cons_self)⟩

/-- Two defaults and a plain text for a name, among assignments to it at a node below and at one
beside, and to another name above; with and without a value at the root. -/
theorem assignAll_exact_interleaved :
    let s := Sheet.ofForest [.node ⟨.rule "a", none⟩ [.node ⟨.rule "b", none⟩ []],
      .node ⟨.rule "c", none⟩ []]
    let row : List Assignment := [⟨3, "x", "beside"⟩, ⟨1, "x", "(p, q)\t !default"⟩,
      ⟨0, "y", "above !default"⟩, ⟨2, "x", "below"⟩]
    let more : List Assignment := [⟨1, "x", "r!default"⟩, ⟨1, "x", "s !default"⟩]
    let root := Scopes.empty.bind Sheet.root "x" (.scalar "set")
    s.Acyclic ∧ (∀ a ∈ row ++ more, a.name = "x" → ¬ s.Ancestor a.node 1) ∧
      Marked "(p, q)\t !default".toList "(p, q)".toList ∧ ¬ IsDefault "r!default" ∧
      (Scopes.empty.assignAll s row).lookup s 1 "x" = some (.list [.scalar "p", .scalar "q"]) ∧
      (Scopes.empty.assignAll s (row ++ more)).lookup s 1 "x" = some (.scalar "r!default") ∧
      (root.assignAll s row).lookup s 1 "x" = some (.scalar "set") ∧
      (root.assignAll s row).at? 1 "x" = none := by
  intro s row more root
  have hs : s.Acyclic := (Sheet.Linked.ofForest _).toAcyclic
  have hn : 1 < s.size := by decide +kernel
  have hlineage : s.Lineage 1 [1, 0] := .step (by decide +kernel) (.top (by decide +kernel))
  have hrow : ∀ a ∈ row ++ more, a.name = "x" → ¬ s.Ancestor a.node 1 := by
    intro a ha hx habove
    have hroot : ∀ b ∈ row ++ more, b.name = "x" → b.node ∉ [0] := by decide
    exact hroot a ha hx (hlineage.ancestor_iff.1 habove)
  have hfirst : Marked "(p, q)\t !default".toList "(p, q)".toList :=
    beforeMarker?_eq_some_iff.1 (by decide +kernel)
  have hplain : ¬ IsDefault "r!default" := beforeMarker?_eq_none_iff.1 (by decide +kernel)
  have hlast : IsDefault "s !default" :=
    ⟨"s".toList, beforeMarker?_eq_some_iff.1 (by decide +kernel)⟩
  have hdefaults : ∀ r ∈ textsAt 1 "x" row, IsDefault r := by
    rw [show textsAt 1 "x" row = ["(p, q)\t !default"] from rfl]
    exact List.forall_mem_singleton.2 ⟨_, hfirst⟩
  have hfront : ∀ a ∈ row, a.name = "x" → ¬ s.Ancestor a.node 1 := fun a ha =>
    hrow a (List.mem_append_left more ha)
  have hnone : Scopes.empty.lookup s 1 "x" = none := by decide +kernel
  have hunset := assignAll_exact hs hn hfront Scopes.empty
  have hset := (assignAll_exact hs hn hfront root).2 (.scalar "set") (by decide +kernel) hdefaults
  have hboth := ((assignAll_exact hs hn hrow Scopes.empty).1 hnone).1 ["(p, q)\t !default"]
    "r!default" ["s !default"] rfl hplain (List.forall_mem_singleton.2 hlast)
  refine ⟨hs, hrow, hfirst, hplain, ?_, ?_, hset.1, hset.2.trans (by decide +kernel)⟩
  · rw [(hunset.1 hnone).2 _ [] _ rfl hdefaults hfirst]
    decide +kernel
  · rw [hboth]
    decide +kernel

end Scopes

end StyleExpand

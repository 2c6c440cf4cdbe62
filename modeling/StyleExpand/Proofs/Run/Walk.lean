import StyleExpand.Proofs.Run.Visit

/-!
# Walks

A walk makes visits with a cursor that moves on by what each visit counted. Wherever the children of
a container may be cut, the cursor comes to stand at the cut, with all before it expanded.

* `Run.Advances` : some visits, from one place of the cursor to another;
* `Run.advances_through` : the visits of a row of children;
* `Run.walk_expands` : a walk that is deep enough expands all that is below a container.
-/

namespace StyleExpand.Run

open StyleExpand.Tree

variable {warns : Bool} {descend : NodeId → Run → Run} {visit : NodeId → Run → Nat × Run}
  {height : Nat} {above : List NodeId} {c n : NodeId} {r r' : Run} {xs ts ys : List (Tree NodeId)}

/-- A number of visits lead from a place of the cursor and a state to others. -/
inductive Advances (visit : NodeId → Run → Nat × Run) (c : NodeId) : Nat → Nat × Run → Nat × Run → Prop
  | refl (p : Nat × Run) : Advances visit c 0 p p
  | step {i k : Nat} {n : NodeId} {r : Run} {p : Nat × Run} : (r.sheet.children c)[i]? = some n →
      Advances visit c k (i + (visit n r).1, (visit n r).2) p → Advances visit c (k + 1) (i, r) p

namespace Advances

/-- A walk goes on where some of its visits lead. -/
theorem walkFrom_eq {k i j : Nat} (h : Advances visit c k (i, r) (j, r')) (steps : Nat) :
    walkFrom visit c (k + steps) i r = walkFrom visit c steps j r' := by
  generalize hp : (i, r) = p at h
  generalize hq : (j, r') = q at h
  induction h generalizing i r with
  | refl p =>
    cases hp.trans hq.symm
    rw [Nat.zero_add]
  | step hn _ ih =>
    cases hp
    rw [Nat.add_right_comm, walkFrom, hn]
    exact ih rfl hq

theorem trans {k l : Nat} {p q s : Nat × Run} (h : Advances visit c k p q) (h' : Advances visit c l q s) :
    Advances visit c (k + l) p s := by
  induction h with
  | refl p => rwa [Nat.zero_add]
  | step hn _ ih =>
    rw [Nat.add_right_comm]
    exact .step hn (ih h')

end Advances

/-! ## Rows of children -/

section Cuts

variable {ts us vs : List (Tree Entry)}

theorem severed_of_append_left (h : Eval.Severed (ts ++ us) vs) : Eval.Severed us vs := by
  refine h.imp (fun h t ht => h t ?_) id
  rw [List.getLast?_append]
  simp [Option.mem_def.1 ht]

theorem severed_of_append_right (h : Eval.Severed ts (us ++ vs)) : Eval.Severed ts us := by
  refine h.imp id fun h u hu => h u ?_
  rw [List.head?_append]
  simp [Option.mem_def.1 hu]

end Cuts

/-- The visits of a row of children, up to a cut. -/
theorem advances_through (hd : Expands warns descend height) :
    ∀ (ts : List (Tree NodeId)) {xs ys : List (Tree NodeId)} {r : Run},
      r.sheet.Region above c (xs ++ ts ++ ys) → (∀ u ∈ ts ++ ys, heightAll u.children ≤ height) →
      Eval.Severed (mapAll r.sheet.entry ts) (mapAll r.sheet.entry ys) →
      ∃ k us r', k ≤ ts.length ∧
        Advances (Run.visit warns descend c) c k (xs.length, r) (xs.length + us.length, r') ∧
        Expanded (outcome warns r above c ts) (Below c ts) above c xs ts us ys r r'
  | [], xs, ys, r, h, _, _ => by
    refine ⟨0, [], r, Nat.le_refl _, .refl _, ?_⟩
    exact Expanded.nothing warns (by simpa using h)
  | t :: ts, xs, ys, r, h, hheight, hcut => by
    have h' : r.sheet.Region above c (xs ++ t :: (ts ++ ys)) := by simpa using h
    obtain ⟨done, rest, us, hsplit, hlead, hcount, hx⟩ := visit_visited hd h' (by simpa using hheight)
    have hlength : done.length ≤ (t :: ts).length := by
      have hrow : mapAll r.sheet.entry done ++ mapAll r.sheet.entry rest =
          mapAll r.sheet.entry (t :: ts) ++ mapAll r.sheet.entry ys := by
        rw [← mapAll_append, ← mapAll_append, ← hsplit, List.cons_append]
      simpa using hlead.length_le hrow (by simp) hcut
    have hpos : 0 < done.length := by simpa using hlead.length_pos
    obtain ⟨later, hts, rfl⟩ : ∃ later, t :: ts = done ++ later ∧ rest = later ++ ys := by
      rcases List.append_eq_append_iff.1 (show done ++ rest = (t :: ts) ++ ys from hsplit.symm) with
        ⟨later, h₁, h₂⟩ | ⟨beyond, h₁, h₂⟩
      · exact ⟨later, h₁, h₂⟩
      · have hnone : beyond = [] := by
          rw [h₁, List.length_append] at hlength
          exact List.eq_nil_of_length_eq_zero (by omega)
        subst hnone
        exact ⟨[], by simpa using h₁.symm, by simpa using h₂.symm⟩
    have hlater : later.length < (t :: ts).length := by
      rw [hts, List.length_append]
      omega
    rw [hts, mapAll_append] at hcut
    have hdone : r.sheet.Region above c (xs ++ done ++ (later ++ ys)) := by
      rw [hts] at h
      simpa using h
    have h₁ := hx.region
    rw [← List.append_assoc] at h₁
    -- the visit left the entries of what is yet to be visited
    have hkept : ∀ {zs}, zs ⊆ later ++ ys → mapAll (Run.visit warns descend c t.label r).2.sheet.entry zs =
        mapAll r.sheet.entry zs := fun {zs} hzs => mapAll_congr fun k hk => by
      have hk' : k ∈ preorderAll (later ++ ys) := by
        rw [preorderAll_eq_flatMap, List.mem_flatMap] at hk ⊢
        obtain ⟨z, hz, hkz⟩ := hk
        exact ⟨z, hzs hz, hkz⟩
      exact hx.keeps.entry_eq (hdone.lt_size_below k (by simpa using Or.inr (Or.inr hk')))
        (not_below_of_region hdone (.inr hk'))
    obtain ⟨k, us', r', hk, hadvances, hx'⟩ := advances_through hd later h₁
      (fun u hu => hheight u (by rw [hts]; simpa using Or.inr hu))
      (by rw [hkept (by simp), hkept (by simp)]; exact severed_of_append_left hcut)
    refine ⟨k + 1, us ++ us', r', by omega, .step (n := t.label) ?_ ?_, ?_⟩
    · rw [h'.children_eq]
      simp
    · rw [hcount]
      simpa [Nat.add_assoc] using hadvances
    · rw [hts]
      exact hx.trans_outcome (by simpa using hdone) hx'
        (severed_of_append_right (by simpa using hlead.severed))
termination_by ts => ts.length
decreasing_by
  simp only [List.length_cons] at hlater ⊢
  omega

/-! ## Whole walks -/

theorem walkFrom_of_no_child {i : Nat} (h : (r.sheet.children c)[i]? = none) (steps : Nat) :
    walkFrom visit c steps i r = r := by
  cases steps with
  | zero => rfl
  | succ steps => rw [walkFrom, h]

/-- A walk is over where visits from its start lead behind the last child. -/
theorem walk_eq_of_advances {depth k j : Nat}
    (h : Advances (Run.visit warns (walk warns depth) c) c k (0, r) (j, r'))
    (hk : k ≤ (r.sheet.children c).length) (hend : (r'.sheet.children c)[j]? = none) :
    walk warns (depth + 1) c r = r' := by
  obtain ⟨steps, hsteps⟩ := Nat.exists_eq_add_of_le hk
  rw [walk, hsteps, h.walkFrom_eq, walkFrom_of_no_child hend]

/-- A walk expands all that is below a container, if it goes down as far as that. -/
theorem walk_expands (warns : Bool) (depth : Nat) : Expands warns (walk warns depth) depth := by
  induction depth with
  | zero =>
    intro r above c ts h hheight
    cases ts with
    | nil =>
      exact ⟨[], Expanded.nothing warns h⟩
    | cons t ts =>
      have hlt : heightAll t.children < heightAll (t :: ts) := heightAll_children_lt (by simp)
      omega
  | succ depth ih =>
    intro r above c ts h hheight
    have hrow : r.sheet.Region above c ([] ++ ts ++ []) := by simpa using h
    have hbelow : ∀ u ∈ ts ++ [], heightAll u.children ≤ depth := by
      intro u hu
      have hlt : heightAll u.children < heightAll ts := heightAll_children_lt (by simpa using hu)
      omega
    obtain ⟨k, us, r', hk, hadvances, hx⟩ := advances_through ih ts hrow hbelow (.inr (by simp))
    rw [List.length_nil, Nat.zero_add] at hadvances
    refine ⟨us, ?_⟩
    rwa [walk_eq_of_advances hadvances]
    · rwa [h.children_eq, List.length_map]
    · rw [hx.region.children_eq]
      simp

end StyleExpand.Run

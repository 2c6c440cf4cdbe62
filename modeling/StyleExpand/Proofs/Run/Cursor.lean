import StyleExpand.Proofs.Run.Declared
import StyleExpand.Proofs.Run.Walk
import StyleExpand.Proofs.Sheet.Confinement

/-!
# Where the cursor of a walk stands

A visit says how many nodes stand in the place of the visited child, and the walk goes on behind them.
In a linked store, that is where the next child is found that was there before: the visit has changed
the list of the container in one place only, and it has not touched what is yet to be visited.

* `Sheet.behind`, `Sheet.toVisit` : which children are visited; a condition takes the `@else` right
  behind it with it;
* `Run.Refills` : what a visit puts in the place of a child;
* `Run.Contained` : `descend` changes nothing but what is below a node;
* `Run.visit_refills` : one visit;
* `Run.Tour` : the nodes that a walk visits, one after the other;
* `Run.walk_cursor` : every visit refills a place, and a walk visits each child to be visited once.
-/

namespace StyleExpand

/-! ## Children that are visited -/

namespace Sheet

def takes (s : Sheet) (n m : NodeId) : Bool := (s.entry n).isCondition && (s.entry m).isElse

/-- The siblings behind `n` that its visit leaves: a condition takes the `@else` right behind it. -/
def behind (s : Sheet) (n : NodeId) : List NodeId → List NodeId
  | [] => []
  | m :: ms => if s.takes n m then ms else m :: ms

def toVisit (s : Sheet) : List NodeId → List NodeId
  | [] => []
  | [n] => [n]
  | n :: m :: ms => if s.takes n m then n :: toVisit s ms else n :: toVisit s (m :: ms)

variable {s s' : Sheet} {n : NodeId} {ns : List NodeId}

theorem toVisit_cons (s : Sheet) (n : NodeId) (ns : List NodeId) :
    s.toVisit (n :: ns) = n :: s.toVisit (s.behind n ns) := by
  cases ns with
  | nil => rfl
  | cons m ms =>
    rw [toVisit, behind]
    split <;> rfl

/-- What a visit takes with it stands right behind the visited child. -/
theorem behind_isSuffix (s : Sheet) (n : NodeId) (ns : List NodeId) : s.behind n ns <:+ ns := by
  cases ns with
  | nil => exact List.suffix_rfl
  | cons m ms =>
    rw [behind]
    split
    · exact List.suffix_cons m ms
    · exact List.suffix_rfl

theorem behind_of_not_condition (h : (s.entry n).isCondition = false) (ns : List NodeId) :
    s.behind n ns = ns := by
  cases ns with
  | nil => rfl
  | cons m ms => rw [behind, takes, h, Bool.false_and, if_neg Bool.false_ne_true]

theorem behind_congr (hn : s'.entry n = s.entry n) (h : ∀ m ∈ ns, s'.entry m = s.entry m) :
    s'.behind n ns = s.behind n ns := by
  cases ns with
  | nil => rfl
  | cons m ms => rw [behind, behind, takes, takes, hn, h m (by simp)]

theorem toVisit_congr : ∀ {ns : List NodeId}, (∀ m ∈ ns, s'.entry m = s.entry m) →
    s'.toVisit ns = s.toVisit ns
  | [], _ => rfl
  | n :: ns, h => by
    have hlength := (s.behind_isSuffix n ns).length_le
    have hrest : ∀ m ∈ s.behind n ns, s'.entry m = s.entry m := fun m hm =>
      h m (List.mem_cons_of_mem n ((s.behind_isSuffix n ns).subset hm))
    rw [toVisit_cons, toVisit_cons, behind_congr (h n (by simp)) fun m hm => h m (by simp [hm]),
      toVisit_congr hrest]
termination_by ns => ns.length

theorem toVisit_sublist : ∀ ns : List NodeId, (s.toVisit ns).Sublist ns
  | [] => .slnil
  | n :: ns => by
    have hlength := (s.behind_isSuffix n ns).length_le
    rw [toVisit_cons]
    exact ((toVisit_sublist (s.behind n ns)).trans (s.behind_isSuffix n ns).sublist).cons_cons n
termination_by ns => ns.length

/-- A child that is not visited is an `@else`, and a visit took it with the condition before it. -/
theorem mem_toVisit_or : ∀ {ns : List NodeId} {m : NodeId}, m ∈ ns →
    m ∈ s.toVisit ns ∨ ∃ n ∈ s.toVisit ns, s.takes n m = true ∧ [n, m] <:+: ns
  | n :: ns, m, hm => by
    have hlength := (s.behind_isSuffix n ns).length_le
    rw [toVisit_cons]
    rcases List.mem_cons.1 hm with rfl | hm
    · exact .inl List.mem_cons_self
    by_cases hbehind : m ∈ s.behind n ns
    · refine (mem_toVisit_or hbehind).imp (List.mem_cons_of_mem n) ?_
      rintro ⟨k, hk, htakes, hpair⟩
      refine ⟨k, List.mem_cons_of_mem n hk, htakes, hpair.trans ?_⟩
      exact ((s.behind_isSuffix n ns).trans (List.suffix_cons n ns)).isInfix
    · cases ns with
      | nil => exact absurd hm List.not_mem_nil
      | cons e es =>
        rw [behind] at hbehind
        split at hbehind
        · rename_i htakes
          obtain rfl : m = e := (List.mem_cons.1 hm).resolve_right hbehind
          exact .inr ⟨n, List.mem_cons_self, htakes, [], es, rfl⟩
        · exact absurd hm hbehind
termination_by ns => ns.length

end Sheet

namespace Run

open Sheet

variable {warns : Bool} {descend : NodeId → Run → Run} {r r' : Run} {c n : NodeId} {s : Sheet}
  {ws xs ys : List NodeId} {found : Nat × Run}

/-! ## What stands in the place of a child -/

/-- In the list of `c`, as many nodes as were counted stand between `xs` and `ys`, none of them an old
child but `n`; all else has changed only at or below `ws`. -/
def Refills (s : Sheet) (c n : NodeId) (ws xs ys : List NodeId) (found : Nat × Run) : Prop :=
  ∃ ns, found.1 = ns.length ∧ s.Confined found.2.sheet c ws ∧
    found.2.sheet.children c = xs ++ ns ++ ys ∧ ∀ m ∈ ns, m = n ∨ m ∉ s.children c

/-- `descend` changes only what is below a node, wherever the node stands. -/
def Contained (descend : NodeId → Run → Run) : Prop :=
  ∀ {r : Run} {c : NodeId}, r.sheet.Linked →
    r.sheet.Confined (descend c r).sheet c (r.sheet.children c)

/-- Seen from a container, `descend` at a child or a copy with this parent. -/
theorem Contained.child {q : NodeId} (hd : Contained descend) (hs : r.sheet.Linked)
    (hlist : r.sheet.children c = xs) (hq : r.sheet.parent q = some c) :
    r.sheet.Confined (descend q r).sheet c [q] ∧ (descend q r).sheet.children c = xs ∧
      (descend q r).sheet.parent q = some c ∧
      ∀ m ∈ (descend q r).sheet.children q, m ∉ r.sheet.children c := by
  have hwalked : r.sheet.Confined (descend q r).sheet q (r.sheet.children q) := hd hs
  obtain ⟨hraised, hnode⟩ := hwalked.raise hs (hs.parent_lt q c hq) (hs.notMem_lineage_parent hq)
  refine ⟨hraised, ?_, hwalked.parent_eq.trans hq, fun m hm => hwalked.notMem_children hs hq hm⟩
  rw [← hlist, children, children, hnode]

namespace Refills

theorem nothing (hs : s.Linked) (hlist : s.children c = xs ++ n :: ys) (hr : r.sheet = s) :
    Refills s c n ws xs (n :: ys) (0, r) := by
  subst hr
  exact ⟨[], rfl, .refl hs c ws, by simpa using hlist, by simp⟩

theorem stay (h : s.Confined r.sheet c ws) (hlist : r.sheet.children c = xs ++ n :: ys) :
    Refills s c n ws xs ys (1, r) :=
  ⟨[n], rfl, h, by simpa using hlist, by simp⟩

theorem finish {ws' : List NodeId} (h : Refills s c n ws xs (n :: ys) found) (hs : s.Linked)
    (hws : n :: ws ⊆ ws') (hr : r.sheet = found.2.sheet.remove n) :
    Refills s c n ws' xs ys (found.1, r) := by
  obtain ⟨ns, hcount, hconfined, hlist, hnew⟩ := h
  have hn : n ∈ ws' := hws List.mem_cons_self
  refine ⟨ns, hcount, ?_, ?_, hnew⟩
  · rw [hr]
    refine (hconfined.mono fun w hw => hws (List.mem_cons_of_mem n hw)).trans
      (.remove hconfined.linked (hconfined.linked.parent_listed hlist)) hs ?_
    simpa using Or.inl hn
  · rw [hr]
    exact hconfined.linked.children_remove hlist

theorem insert {q : NodeId} (h : s.Confined r.sheet c ws) (hs : s.Linked)
    (hlist : r.sheet.children c = xs ++ n :: ys) (hq : r.sheet.parent q = some c)
    (hws : q ∈ ws ∨ s.size ≤ q) (hnew : ∀ m ∈ r.sheet.children q, m ∉ s.children c) :
    Refills s c n ws xs (n :: ys) (r.insertBefore n (r.sheet.children q)) := by
  obtain ⟨hcount, hinserted, hchildren⟩ := h.linked.insert_children hlist hq
  refine ⟨r.sheet.children q, hcount, h.trans hinserted hs ?_, hchildren, fun m hm => .inr (hnew m hm)⟩
  simpa using hws

end Refills

/-! ## Loops -/

/-- A round puts what is left of a copy before the loop. -/
theorem splice_refills (hd : Contained descend) (hs : r.sheet.Linked)
    (hlist : r.sheet.children c = xs ++ n :: ys) :
    Refills r.sheet c n [] xs (n :: ys) (splice descend c n r) := by
  have hc : c < r.sheet.size := hs.parent_lt n c (hs.parent_listed hlist)
  let copy := r.sheet.size
  let r₁ := r.copied c n
  have hcopied : r.sheet.Confined r₁.sheet c [] := .clone hs hc n
  have hlist₁ : r₁.sheet.children c = xs ++ n :: ys := by
    rw [← hlist]
    exact (Extends.clone r.sheet n (some c)).children_eq hc
  obtain ⟨hraised, hlist₂, hparent, hold⟩ :=
    hd.child hcopied.linked hlist₁ (graft_parent r.sheet (some c) _ : r₁.sheet.parent copy = some c)
  -- the copy is new, so nothing old but the list of the container changes
  have hnew : copy ∈ [] ∨ r.sheet.size ≤ copy := .inr (Nat.le_refl _)
  have hconfined : r.sheet.Confined (descend copy r₁).sheet c [] :=
    hcopied.trans hraised hs (by simp)
  rw [splice_eq]
  exact Refills.insert hconfined hs hlist₂ hparent hnew (by rwa [hlist, ← hlist₁])

theorem bindAll_sheet (n : NodeId) (row : List (String × Value)) (r : Run) :
    (bindAll n row r).sheet = r.sheet := (bindAll_rebinds n row r).sheet_eq

theorem iterate_refills (hd : Contained descend) : ∀ (rows : List (List (String × Value)))
    {xs : List NodeId} {r : Run}, r.sheet.Linked → r.sheet.children c = xs ++ n :: ys →
      Refills r.sheet c n [] xs (n :: ys) (iterate descend c n rows r)
  | [], xs, r, hs, hlist => .nothing hs hlist rfl
  | row :: rows, xs, r, hs, hlist => by
    have hround : Refills r.sheet c n [] xs (n :: ys) (splice descend c n (bindAll n row r)) := by
      have := splice_refills hd (r := bindAll n row r) (by rwa [bindAll_sheet])
        (by rwa [bindAll_sheet])
      rwa [bindAll_sheet] at this
    obtain ⟨ns, hcount, hconfined, hlist₁, hnew⟩ := hround
    obtain ⟨ns', hcount', hconfined', hlist₂, hnew'⟩ :=
      iterate_refills hd rows hconfined.linked hlist₁
    refine ⟨ns ++ ns', ?_, hconfined.trans hconfined' hs (by simp), ?_, fun m hm => ?_⟩
    · rw [iterate, List.length_append, ← hcount, ← hcount']
    · rw [iterate]
      exact hlist₂.trans (by simp)
    · rcases List.mem_append.1 hm with hm | hm
      · exact hnew m hm
      · refine (hnew' m hm).imp id fun hnot hmem => hnot ?_
        rw [hlist] at hmem
        rw [hlist₁]
        rcases List.mem_append.1 hmem with hmem | hmem
        · exact List.mem_append_left _ (List.mem_append_left _ hmem)
        · exact List.mem_append_right _ hmem

theorem bound_sheet (warns : Bool) (n : NodeId) (tokens : List (List Char)) (place : Nat) (r : Run) :
    (bound warns n tokens place r).2.sheet = r.sheet := by
  unfold bound
  split
  · rfl
  · exact interpolate_sheet ..

theorem rounds_refills (hd : Contained descend) (hs : s.Linked)
    (hlist : s.children c = xs ++ n :: ys) (rows : List (List (String × Value))) (hr : r.sheet = s)
    (hr' : r'.sheet = (iterate descend c n rows r).2.sheet.remove n) :
    Refills s c n [n] xs ys ((iterate descend c n rows r).1, r') := by
  subst hr
  exact (iterate_refills hd rows hs hlist).finish hs (by simp) hr'

theorem expandFor_refills (hd : Contained descend) (hs : r.sheet.Linked)
    (hlist : r.sheet.children c = xs ++ n :: ys) (params : String) :
    Refills r.sheet c n [n] xs ys (expandFor warns descend c n params r) := by
  unfold expandFor
  dsimp only
  cases splitSpace params.toList with
  | nil =>
    have hnone : Refills r.sheet c n [] xs (n :: ys) (0, r) := .nothing hs hlist rfl
    exact hnone.finish hs (by simp) rfl
  | cons token tokens =>
    dsimp only
    refine rounds_refills hd hs hlist _ ?_ ?_
    · rw [bound_sheet, bound_sheet, bound_sheet]
      split <;> rfl
    · split <;> rfl

theorem expandEach_refills (hd : Contained descend) (hs : r.sheet.Linked)
    (hlist : r.sheet.children c = xs ++ n :: ys) (params : String) :
    Refills r.sheet c n [n] xs ys (expandEach warns descend c n params r) := by
  unfold expandEach
  dsimp only
  cases (Text.words (eachParts params).1).map bindingName with
  | nil =>
    have hnone : Refills r.sheet c n [] xs (n :: ys) (0, r) := .nothing hs hlist rfl
    exact hnone.finish hs (by simp) rfl
  | cons name others =>
    dsimp only
    exact rounds_refills hd hs hlist _ (interpolate_sheet ..) rfl

/-! ## Conditions -/

theorem condition_sheet (warns : Bool) (n : NodeId) (params : String) (r : Run) :
    (condition warns n params r).2.sheet = r.sheet := by
  unfold condition
  split
  · rename_i left operator right others _
    dsimp only
    have hfirst : (if others.isEmpty then r else r.note (.trailingTokens params)).sheet = r.sheet := by
      split <;> rfl
    split
    · rw [interpolate_sheet, interpolate_sheet, hfirst]
    · rw [note, report]
      dsimp only
      rw [interpolate_sheet, interpolate_sheet, hfirst]
  · rfl

theorem nextSibling?_listed (hs : s.Linked) (hlist : s.children c = xs ++ n :: ys) :
    s.nextSibling? n = ys.head? := by
  have hbefore : n ∉ xs := fun hmem => hs.notMem_listed hlist (List.mem_append_left ys hmem)
  have hindex : s.index? n = some xs.length := by
    rw [index?, hs.parent_listed hlist]
    dsimp only
    rw [hlist, List.findIdx?_append, List.findIdx?_eq_none_iff.2 fun m hm => by
      rw [beq_eq_false_iff_ne]
      rintro rfl
      exact hbefore hm]
    simp [List.findIdx?_cons]
  rw [nextSibling?, hs.parent_listed hlist, hindex]
  dsimp only
  rw [hlist]
  cases ys <;> simp

theorem takeBranch_none_refills (hd : Contained descend) (hs : r.sheet.Linked)
    (hlist : r.sheet.children c = xs ++ n :: ys) (holds : Bool) :
    Refills r.sheet c n [n] xs (n :: ys) (takeBranch descend n holds none r) := by
  cases holds with
  | false => exact .nothing hs hlist rfl
  | true =>
    obtain ⟨hraised, hlist₁, hparent, hnew⟩ := hd.child hs hlist (hs.parent_listed hlist)
    exact .insert hraised hs hlist₁ hparent (by simp) hnew

theorem takeBranch_some_refills {e : NodeId} (hd : Contained descend) (hs : r.sheet.Linked)
    (hlist : r.sheet.children c = xs ++ n :: e :: ys) (holds : Bool) :
    Refills r.sheet c n [n, e] xs (n :: ys) (takeBranch descend n holds (some e) r) := by
  have he : r.sheet.parent e = some c := hs.parent_eq c e (by simp [hlist])
  cases holds with
  | true =>
    obtain ⟨hraised, hlist₁, hparent, hnew⟩ := hd.child hs hlist (hs.parent_listed hlist)
    have hlist₁' : (descend n r).sheet.children c = (xs ++ [n]) ++ e :: ys := by
      rw [hlist₁, List.append_assoc, List.singleton_append]
    have he₁ := hraised.linked.parent_listed hlist₁'
    have hremoved := Confined.remove hraised.linked he₁
    have hlist₂ : ((descend n r).sheet.remove e).children c = xs ++ n :: ys := by
      rw [hraised.linked.children_remove hlist₁', List.append_assoc, List.singleton_append]
    have hchildren : ((descend n r).sheet.remove e).children n = (descend n r).sheet.children n := by
      rw [Sheet.children_remove, if_neg]
      rw [he₁]
      exact fun heq => hraised.linked.ne_parent hparent (Option.some.inj heq).symm
    have hconfined : r.sheet.Confined ((descend n r).remove e).sheet c [n, e] :=
      (hraised.mono (by simp)).trans hremoved hs (by simp)
    have hinserted := Refills.insert (r := (descend n r).remove e) hconfined hs hlist₂
      (hconfined.linked.parent_listed hlist₂) (by simp) (by rwa [remove, hchildren])
    rw [remove] at hinserted
    dsimp only at hinserted
    rwa [hchildren] at hinserted
  | false =>
    obtain ⟨hraised, hlist₁, hparent, hnew⟩ := hd.child hs hlist he
    obtain ⟨ns, hcount, hconfined, hlist₂, hold⟩ :=
      Refills.insert hraised hs hlist₁ hparent (by simp) hnew
    rw [List.append_cons] at hlist₂
    refine ⟨ns, hcount, (hconfined.mono (by simp)).trans
      (.remove hconfined.linked (hconfined.linked.parent_listed hlist₂)) hs (by simp), ?_, hold⟩
    exact (hconfined.linked.children_remove hlist₂).trans (by simp)

/-- A branch is taken or none is, and an `@else` right behind the condition goes away. -/
theorem takeBranch_refills (hd : Contained descend) (hs : r.sheet.Linked)
    (hlist : r.sheet.children c = xs ++ n :: ys) (hif : (r.sheet.entry n).isCondition = true)
    (holds : Bool) :
    ∃ gone, gone ++ r.sheet.behind n ys = ys ∧ Refills r.sheet c n (n :: gone) xs
      (n :: r.sheet.behind n ys) (takeBranch descend n holds (r.elseBranch? n) r) := by
  have helse : r.elseBranch? n = ys.head?.filter fun e => (r.sheet.entry e).isElse := by
    rw [elseBranch?, nextSibling?_listed hs hlist]
    rfl
  cases ys with
  | nil =>
    rw [helse]
    exact ⟨[], rfl, takeBranch_none_refills hd hs hlist holds⟩
  | cons e ys =>
    rw [List.head?_cons, Option.filter_some] at helse
    rw [helse, behind, takes, hif, Bool.true_and]
    split
    · exact ⟨[e], rfl, takeBranch_some_refills hd hs hlist holds⟩
    · exact ⟨[], rfl, takeBranch_none_refills hd hs hlist holds⟩

theorem expandIf_refills (hd : Contained descend) (hs : r.sheet.Linked)
    (hlist : r.sheet.children c = xs ++ n :: ys) (hif : (r.sheet.entry n).isCondition = true)
    (params : String) :
    ∃ gone, gone ++ r.sheet.behind n ys = ys ∧
      Refills r.sheet c n (n :: gone) xs (r.sheet.behind n ys) (expandIf warns descend n params r) := by
  unfold expandIf
  have hsheet := condition_sheet warns n params r
  generalize condition warns n params r = evaluated at hsheet
  obtain ⟨holds, r₁⟩ := evaluated
  dsimp only at hsheet ⊢
  rw [← hsheet] at hs hlist hif ⊢
  let r₂ := r₁.note (.conditionEvaluated params holds)
  obtain ⟨gone, hgone, htaken⟩ := takeBranch_refills (r := r₂) hd hs hlist hif holds
  exact ⟨gone, hgone, htaken.finish hs (by simp) rfl⟩

/-! ## Visits -/

theorem setContent_refills (hs : r.sheet.Linked) (hlist : r.sheet.children c = xs ++ n :: ys)
    (content : Content) (hr' : r'.sheet = r.sheet) :
    Refills r.sheet c n [n] xs ys (1, r'.setContent n content) := by
  rw [← hr'] at hs hlist ⊢
  refine .stay (.setContent hs (hs.parent_listed hlist) content) ?_
  exact (children_setContent ..).trans hlist

theorem visitDeclaration_refills (hs : r.sheet.Linked) (hlist : r.sheet.children c = xs ++ n :: ys)
    (property value : String) :
    Refills r.sheet c n [n] xs ys (visitDeclaration warns c n property value r) := by
  unfold visitDeclaration
  split
  · rename_i name _
    have hsheet := interpolate_sheet r warns c n value
    generalize r.interpolate warns c n value = resolved at hsheet
    obtain ⟨value, r₁⟩ := resolved
    have hnone : Refills r.sheet c n [] xs (n :: ys) (0, r₁) := .nothing hs hlist hsheet
    refine hnone.finish hs (by simp) ?_
    rw [remove, sheet_assign]
  · have hsheet := interpolate_sheet r warns c n property
    generalize r.interpolate warns c n property = resolved at hsheet
    obtain ⟨property, r₁⟩ := resolved
    dsimp only at hsheet ⊢
    have hsheet' := interpolate_sheet r₁ warns c n value
    generalize r₁.interpolate warns c n value = resolved at hsheet'
    obtain ⟨value, r₂⟩ := resolved
    exact setContent_refills hs hlist _ (hsheet'.trans hsheet)

/-- What the content of a child asks for changes the list of its container in its place only. -/
theorem visitContent_refills (warns : Bool) (hd : Contained descend) (hs : r.sheet.Linked)
    (hlist : r.sheet.children c = xs ++ n :: ys) :
    ∃ gone, gone ++ r.sheet.behind n ys = ys ∧
      Refills r.sheet c n (n :: gone) xs (r.sheet.behind n ys) (visitContent warns descend c n r) := by
  have hstay : Refills r.sheet c n [n] xs ys (1, r) := .stay (.refl hs c [n]) hlist
  -- all but conditions leave the siblings alone
  have hsingle {found : Nat × Run} (hother : (r.sheet.content n).atRuleName? ≠ some "if")
      (h : Refills r.sheet c n [n] xs ys found) : ∃ gone, gone ++ r.sheet.behind n ys = ys ∧
        Refills r.sheet c n (n :: gone) xs (r.sheet.behind n ys) found := by
    rw [behind_of_not_condition (beq_eq_false_iff_ne.2 hother)]
    exact ⟨[], rfl, h⟩
  unfold visitContent
  cases hcontent : r.sheet.content n with
  | root | comment => exact hsingle (by simp [hcontent, Content.atRuleName?]) hstay
  | declaration property value =>
    exact hsingle (by simp [hcontent, Content.atRuleName?])
      (visitDeclaration_refills hs hlist property value)
  | rule selector =>
    exact hsingle (by simp [hcontent, Content.atRuleName?])
      (setContent_refills hs hlist _ (interpolate_sheet ..))
  | atRule name params block =>
    have hname : (r.sheet.content n).atRuleName? = some name := by rw [hcontent]; rfl
    have hother (hne : Directive.ofName name ≠ .condition) :
        (r.sheet.content n).atRuleName? ≠ some "if" := by
      rw [hname]
      rintro heq
      exact hne (Option.some.inj heq ▸ by decide)
    dsimp only [visitAtRule]
    cases hdirective : Directive.ofName name with
    | counting => exact hsingle (hother (by simp [hdirective])) (expandFor_refills hd hs hlist params)
    | listing => exact hsingle (hother (by simp [hdirective])) (expandEach_refills hd hs hlist params)
    | condition =>
      rw [Directive.ofName_eq_condition hdirective] at hname
      exact expandIf_refills hd hs hlist (beq_iff_eq.2 hname) params
    | media | keyframes =>
      exact hsingle (hother (by simp [hdirective]))
        (setContent_refills hs hlist _ (interpolate_sheet r warns c n params))
    | other => exact hsingle (hother (by simp [hdirective])) hstay

/-- A visit changes the list of the container in the place of the visited child only, and counts what
stands there. -/
theorem visit_refills (warns : Bool) (hd : Contained descend) (hs : r.sheet.Linked)
    (hlist : r.sheet.children c = xs ++ n :: ys) :
    ∃ gone, gone ++ r.sheet.behind n ys = ys ∧
      Refills r.sheet c n (n :: gone) xs (r.sheet.behind n ys) (visit warns descend c n r) := by
  obtain ⟨gone, hgone, ns, hcount, hconfined, hchildren, hold⟩ :=
    visitContent_refills warns hd hs hlist
  refine ⟨gone, hgone, ns, ?_⟩
  unfold visit
  generalize visitContent warns descend c n r = found at hcount hconfined hchildren
  obtain ⟨count, r₁⟩ := found
  dsimp only at hcount hconfined hchildren ⊢
  split
  · -- the child may be gone, and be the root; still the container is not below it
    have hsibling : ∀ w ∈ n :: gone, r.sheet.parent w = some c := by
      intro w hw
      refine hs.parent_eq c w ?_
      rw [hlist, ← hgone]
      simp only [List.mem_append, List.mem_cons] at hw ⊢
      exact .inr (hw.imp id .inl)
    have hout : ∀ w ∈ n :: gone, w ∉ r.sheet.lineage c := fun w hw =>
      hs.notMem_lineage_parent (hsibling w hw)
    have hc : c < r.sheet.size := hs.parent_lt n c (hs.parent_listed hlist)
    have hlineage : n ∉ r₁.sheet.lineage c := by
      rw [hconfined.lineage_eq hs hc hout]
      exact hout n (by simp)
    obtain ⟨hraised, hnode⟩ := Confined.raise (hd hconfined.linked) hconfined.linked
      (Nat.lt_of_lt_of_le hc hconfined.size_le) hlineage
    refine ⟨hcount, hconfined.trans hraised hs (by simp), ?_, hold⟩
    rw [← hchildren, children, children, hnode]
  · exact ⟨hcount, hconfined, hchildren, hold⟩

/-! ## Walks -/

/-- Visits of the nodes of a row, one after the other, lead from a place of the cursor and a state to
others; each node is found where the cursor stands. -/
inductive Tour (visit : NodeId → Run → Nat × Run) (c : NodeId) :
    List NodeId → Nat × Run → Nat × Run → Prop
  | nil (p : Nat × Run) : Tour visit c [] p p
  | cons {i : Nat} {n : NodeId} {ns : List NodeId} {r : Run} {p : Nat × Run} :
      (r.sheet.children c)[i]? = some n →
      Tour visit c ns (i + (visit n r).1, (visit n r).2) p → Tour visit c (n :: ns) (i, r) p

theorem Tour.advances {visit : NodeId → Run → Nat × Run} {ns : List NodeId} {p q : Nat × Run}
    (h : Tour visit c ns p q) : Advances visit c ns.length p q := by
  induction h with
  | nil p => exact .refl p
  | cons hn _ ih => exact .step hn ih

/-- From where the cursor stands, the rest of a row is visited, up to its end. -/
theorem tour_through (warns : Bool) (hd : Contained descend) : ∀ (ys : List NodeId)
    {xs : List NodeId} {r : Run}, r.sheet.Linked → r.sheet.children c = xs ++ ys →
    ∃ r', Tour (visit warns descend c) c (r.sheet.toVisit ys) (xs.length, r)
        ((r'.sheet.children c).length, r') ∧ r.sheet.Confined r'.sheet c ys
  | [], xs, r, hs, hlist => by
    refine ⟨r, ?_, .refl hs c []⟩
    rw [hlist, List.append_nil]
    exact .nil _
  | n :: ys, xs, r, hs, hlist => by
    have hlength := (r.sheet.behind_isSuffix n ys).length_le
    obtain ⟨gone, hgone, ns, hcount, hconfined, hchildren, -⟩ :=
      visit_refills warns hd hs hlist
    let r₁ := (visit warns descend c n r).2
    obtain ⟨r', htour, hconfined'⟩ :=
      tour_through warns hd (r.sheet.behind n ys) hconfined.linked hchildren
    have hrow : n :: ys = n :: gone ++ r.sheet.behind n ys := by rw [List.cons_append, hgone]
    -- what is yet to be visited is as it was
    have hkept : ∀ m ∈ r.sheet.behind n ys, r₁.sheet.entry m = r.sheet.entry m := by
      intro m hm
      rw [entry, entry, hconfined.node_behind hs (by rw [hlist, hrow]) hm]
    refine ⟨r', ?_, ?_⟩
    · rw [toVisit_cons, ← toVisit_congr hkept]
      refine .cons (by simp [hlist]) ?_
      rw [hcount, ← List.length_append]
      exact htour
    · rw [hrow]
      exact (hconfined.mono (List.subset_append_left ..)).trans hconfined' hs fun w hw =>
        .inl (List.mem_append_right _ hw)
termination_by ys => ys.length

/-- A walk is a tour of the children to be visited, and ends behind the last. -/
theorem walk_tour (warns : Bool) {depth : Nat} (hd : Contained (walk warns depth))
    (hs : r.sheet.Linked) :
    let r' := walk warns (depth + 1) c r
    Tour (visit warns (walk warns depth) c) c (r.sheet.toVisit (r.sheet.children c)) (0, r)
      ((r'.sheet.children c).length, r') ∧ r.sheet.Confined r'.sheet c (r.sheet.children c) := by
  obtain ⟨r', htour, hconfined⟩ := tour_through warns hd (r.sheet.children c) hs
    (List.nil_append _).symm
  have hwalk : walk warns (depth + 1) c r = r' :=
    walk_eq_of_advances htour.advances (toVisit_sublist _).length_le
      (List.getElem?_eq_none (Nat.le_refl _))
  rw [hwalk]
  exact ⟨htour, hconfined⟩

/-- However deep it goes, a walk changes nothing but what is below its container. -/
theorem walk_contained (warns : Bool) (depth : Nat) : Contained (walk warns depth) := by
  induction depth with
  | zero => exact fun hs => .refl hs _ _
  | succ depth ih => exact fun hs => (walk_tour warns ih hs).2

/-- Below any container of a linked store, the visit of a child puts as many nodes in its place as it
counts, and leaves all before and behind it, save the `@else` that a condition takes. So a walk is a
tour of the children that ends behind the last of them. -/
theorem walk_cursor {r : Run} (hs : r.sheet.Linked) (warns : Bool) (depth : Nat) (c : NodeId) :
    let visit := visit warns (walk warns depth) c
    let children := r.sheet.children c
    let visited := r.sheet.toVisit children
    let r' := walk warns (depth + 1) c r
    (∀ i n, children[i]? = some n → ∃ ns, (visit n r).1 = ns.length ∧
      (visit n r).2.sheet.children c =
        children.take i ++ ns ++ r.sheet.behind n (children.drop (i + 1)) ∧
      ∀ m ∈ ns, m = n ∨ m ∉ children) ∧
    Tour visit c visited (0, r) ((r'.sheet.children c).length, r') ∧
    visited.Sublist children ∧ visited.Nodup ∧ visited.length ≤ children.length ∧
    ∀ m ∈ children, m ∈ visited ∨
      ∃ n ∈ visited, r.sheet.takes n m = true ∧ [n, m] <:+: children := by
  intro visit children visited r'
  have hsublist : visited.Sublist children := toVisit_sublist children
  refine ⟨fun i n hn => ?_, (walk_tour warns (walk_contained warns depth) hs).1, hsublist,
    hsublist.nodup (hs.nodup c), hsublist.length_le, fun m hm => mem_toVisit_or hm⟩
  obtain ⟨hi, rfl⟩ := List.getElem?_eq_some_iff.1 hn
  have hlist : r.sheet.children c = children.take i ++ children[i] :: children.drop (i + 1) := by
    rw [← List.drop_eq_getElem_cons hi, List.take_append_drop]
  obtain ⟨gone, -, ns, hcount, -, hchildren, hold⟩ :=
    visit_refills warns (walk_contained warns depth) hs hlist
  exact ⟨ns, hcount, hchildren, hold⟩

/-- Below a container above the root: the root as a loop, a rule, and a condition that fails with its
`@else`. -/
theorem walk_cursor_above_root :
    let copied := ((empty.clone root none).2.append 1 (.rule "a")).2
    let below := (copied.insertBefore 2 [root]).2.setContent root (.atRule "each" "$x in a, b" true)
    let loop := (below.append root (.declaration "w" "$x")).2
    let branches := ((loop.append 1 (.atRule "if" "1 > 2" true)).2.append 1 (.atRule "else" "" true)).2
    let r := Run.start (branches.append 5 (.rule "b")).2
    let visit := visit true (walk true 7) 1
    let children := r.sheet.children 1
    let visited := r.sheet.toVisit children
    let r' := walk true (7 + 1) 1 r
    r.sheet.Linked ∧ children = [root, 2, 4, 5] ∧ visited = [root, 2, 4] ∧
      r'.sheet.children 1 = [8, 10, 2, 6] ∧
      (∀ i n, children[i]? = some n → ∃ ns, (visit n r).1 = ns.length ∧
        (visit n r).2.sheet.children 1 =
          children.take i ++ ns ++ r.sheet.behind n (children.drop (i + 1)) ∧
        ∀ m ∈ ns, m = n ∨ m ∉ children) ∧
      Tour visit 1 visited (0, r) ((r'.sheet.children 1).length, r') ∧
      visited.Sublist children ∧ visited.Nodup ∧ visited.length ≤ children.length ∧
      ∀ m ∈ children, m ∈ visited ∨
        ∃ n ∈ visited, r.sheet.takes n m = true ∧ [n, m] <:+: children := by
  intro copied below loop branches r visit children visited r'
  have hcopied : copied.Linked := (Linked.empty.clone root (by simp)).append (by decide) _
  have hbelow : below.Linked :=
    (hcopied.insertBefore (by decide) (by decide) (by decide)).setContent _ _
  have hloop : loop.Linked := hbelow.append (by decide) _
  have hbranches : branches.Linked := (hloop.append (by decide) _).append (by decide) _
  have hs : r.sheet.Linked := hbranches.append (by decide) _
  have hchildren : children = [root, 2, 4, 5] := by decide +kernel
  have hvisited : visited = [root, 2, 4] := by decide +kernel
  have hleft : r'.sheet.children 1 = [8, 10, 2, 6] := by decide +kernel
  clear_value r
  exact ⟨hs, hchildren, hvisited, hleft, walk_cursor hs true 7 1⟩

end Run

end StyleExpand

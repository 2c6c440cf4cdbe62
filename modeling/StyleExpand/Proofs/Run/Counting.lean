import StyleExpand.Proofs.Number.Numeral
import StyleExpand.Proofs.Reference
import StyleExpand.Proofs.Run.Loop
import StyleExpand.Proofs.Text.Trim

/-!
# Loops that count

A counting loop whose bounds and step are decimal integers up to `2 ^ 52` visits the integers between
its bounds, a step apart.

* `counted` : the integers from a first one towards a last one;
* `Range.Counts` : a loop on which no sum is rounded, and what one round of it does;
* `Range.visits_of` : the numbers that it visits, as they are written;
* `Run.bound_of_denotes` : reading a bound that is an integer leaves the run as it is;
* `Run.expandFor_counts` : the rounds of the loop.
-/

namespace StyleExpand

/-! ## The integers of a loop -/

/-- The size of a step, whose sign is lost. No step and a step of zero count as one. -/
def stride (step : Option Int) : Nat := if step.getD 0 = 0 then 1 else (step.getD 0).natAbs

def direction (first last : Int) : Int := if first ≤ last then 1 else -1

/-- The integers from `first` towards `last`, a stride apart. -/
def counted (first last : Int) (step : Option Int) : List Int :=
  (List.range ((last - first).natAbs / stride step + 1)).map fun k =>
    first + direction first last * ((k * stride step : Nat) : Int)

section Counted

variable {first last v : Int} {step : Option Int}

theorem stride_pos (step : Option Int) : 0 < stride step := by
  unfold stride
  split <;> omega

theorem direction_mul_natAbs (first last : Int) :
    first + direction first last * (last - first).natAbs = last := by
  unfold direction
  split <;> omega

/-- The place of an integer in a loop: how many strides lie before it. -/
theorem mem_counted_iff : v ∈ counted first last step ↔
    ∃ k, k * stride step ≤ (last - first).natAbs ∧
      v = first + direction first last * ((k * stride step : Nat) : Int) := by
  simp only [counted, List.mem_map, List.mem_range, Nat.lt_succ_iff,
    Nat.le_div_iff_mul_le (stride_pos step), eq_comm]

theorem between_of_mem_counted (h : v ∈ counted first last step) :
    first ≤ v ∧ v ≤ last ∨ last ≤ v ∧ v ≤ first := by
  obtain ⟨k, hk, rfl⟩ := mem_counted_iff.1 h
  unfold direction
  split <;> omega

theorem last_mem_counted_iff :
    last ∈ counted first last step ↔ stride step ∣ (last - first).natAbs := by
  rw [mem_counted_iff]
  constructor
  · rintro ⟨k, -, hk⟩
    refine ⟨k, ?_⟩
    rw [Nat.mul_comm]
    unfold direction at hk
    split at hk <;> omega
  · rintro ⟨k, hk⟩
    rw [Nat.mul_comm] at hk
    refine ⟨k, Nat.le_of_eq hk.symm, ?_⟩
    rw [← hk, direction_mul_natAbs]

end Counted

/-! ## The rounds of a loop between integers -/

namespace Range

def sign (r : Range) : Int := if r.rising then 1 else -1

theorem sign_eq (r : Range) : r.sign = 1 ∨ r.sign = -1 := by
  unfold sign
  split
  · exact .inl rfl
  · exact .inr rfl

/-- A loop to an integer in steps that are integers, all so small that no sum is rounded. -/
structure Counts (r : Range) (last : Int) (size : Nat) : Prop where
  size_pos : 0 < size
  size_le : size ≤ Nat.pow 2 52
  last_le : last.natAbs ≤ Nat.pow 2 52
  last_whole : r.last.Whole last
  step_whole : r.step.Whole (r.sign * size)

namespace Counts

variable {r : Range} {last m : Int} {size : Nat} {x : Double}

theorem natAbs_next_le (h : r.Counts last size) (hm : m.natAbs ≤ Nat.pow 2 52) :
    (m + r.sign * size).natAbs ≤ Nat.pow 2 53 := by
  have hsize := h.size_le
  have hdouble : Nat.pow 2 52 + Nat.pow 2 52 ≤ Nat.pow 2 53 := by decide
  unfold sign
  split <;> omega

theorem next_whole (h : r.Counts last size) (hx : x.Whole m) (hm : m.natAbs ≤ Nat.pow 2 52) :
    (x.add r.step).Whole (m + r.sign * size) :=
  hx.add h.step_whole (h.natAbs_next_le hm)

theorem reaches_eq (h : r.Counts last size) (hx : x.Whole m) :
    r.reaches x = decide (0 ≤ r.sign * (last - m)) := by
  unfold reaches sign
  cases r.rising
  · rw [if_neg Bool.false_ne_true, if_neg Bool.false_ne_true, h.last_whole.le_eq hx]
    exact decide_eq_decide.2 (by omega)
  · rw [if_pos rfl, if_pos rfl, hx.le_eq h.last_whole]
    exact decide_eq_decide.2 (by omega)

theorem ahead_next (h : r.Counts last size) (hx : x.Whole m) (hm : m.natAbs ≤ Nat.pow 2 52) :
    r.ahead x (x.add r.step) = true := by
  have hpos := h.size_pos
  have hnext := h.next_whole hx hm
  unfold sign at hnext
  unfold ahead
  rw [hx.compare?_eq hnext]
  cases r.rising
  · rw [Int.compare_eq_gt.2 (by rw [if_neg Bool.false_ne_true]; omega)]
    rfl
  · rw [Int.compare_eq_lt.2 (by rw [if_pos rfl]; omega)]
    rfl

theorem next_ne (h : r.Counts last size) (hx : x.Whole m) (hm : m.natAbs ≤ Nat.pow 2 52) :
    (x.add r.step).eq x = false := by
  have hpos := h.size_pos
  rw [(h.next_whole hx hm).eq_eq hx]
  refine decide_eq_false ?_
  unfold sign
  split <;> omega

/-- One round: the loop goes on from the next integer exactly if that is not beyond the last one. -/
theorem visitsFrom_eq (h : r.Counts last size) (hx : x.Whole m) (hm : m.natAbs ≤ Nat.pow 2 52) :
    r.visitsFrom x = if 0 ≤ r.sign * (last - (m + r.sign * size)) then
      ⟨x :: (r.visitsFrom (x.add r.step)).values, (r.visitsFrom (x.add r.step)).stalledAt⟩
    else ⟨[x], none⟩ := by
  rw [visitsFrom]
  simp only [h.next_ne hx hm, h.ahead_next hx hm, h.reaches_eq (h.next_whole hx hm),
    Bool.false_eq_true, if_false, true_and, decide_eq_true_eq, dite_eq_ite]

/-- The loop visits an integer for each step that does not lead beyond the last one, and never
stalls. -/
theorem visitsFrom_whole (h : r.Counts last size) {rest : Nat} (hrest : rest < size) (q : Nat) :
    ∀ {x : Double} {m : Int}, x.Whole m → m.natAbs ≤ Nat.pow 2 52 →
      m + r.sign * ((q * size + rest : Nat) : Int) = last →
      (r.visitsFrom x).values.map Double.text =
          (List.range (q + 1)).map (fun k => toString (m + r.sign * ((k * size : Nat) : Int))) ∧
        (r.visitsFrom x).stalledAt = none := by
  have hlast_le := h.last_le
  have htext {x : Double} {m : Int} (hx : x.Whole m) (hm : m.natAbs ≤ Nat.pow 2 52) :
      x.text = toString (m + r.sign * ((0 * size : Nat) : Int)) := by
    rw [hx.text_eq (Nat.lt_of_le_of_lt hm (by decide))]
    simp
  -- on the number of steps that are left
  induction q with
  | zero =>
    intro x m hx hm hlast
    have hbeyond : ¬ 0 ≤ r.sign * (last - (m + r.sign * size)) := by
      rcases r.sign_eq with hsign | hsign <;> rw [hsign] at hlast ⊢ <;> omega
    rw [h.visitsFrom_eq hx hm, if_neg hbeyond]
    refine ⟨?_, rfl⟩
    rw [List.map_singleton, htext hx hm]
    rfl
  | succ q ih =>
    intro x m hx hm hlast
    rw [Nat.succ_mul] at hlast
    obtain ⟨hreached, hnext, hrounds⟩ : 0 ≤ r.sign * (last - (m + r.sign * size)) ∧
        (m + r.sign * size).natAbs ≤ Nat.pow 2 52 ∧
          m + r.sign * size + r.sign * ((q * size + rest : Nat) : Int) = last := by
      rcases r.sign_eq with hsign | hsign <;> rw [hsign] at hlast ⊢ <;> omega
    have hshift (k : Nat) : m + r.sign * size + r.sign * ((k * size : Nat) : Int) =
        m + r.sign * (((k + 1) * size : Nat) : Int) := by
      rw [Nat.succ_mul, Int.natCast_add, Int.mul_add]
      omega
    obtain ⟨hvalues, hstalled⟩ := ih (h.next_whole hx hm) hnext hrounds
    simp only [hshift] at hvalues
    rw [h.visitsFrom_eq hx hm, if_pos hreached]
    refine ⟨?_, hstalled⟩
    rw [List.map_cons, hvalues, htext hx hm, List.range_succ_eq_map (n := q + 1), List.map_cons,
      List.map_map]
    rfl

end Counts

/-- What a bound is read as: an integer, or no number if it is missing. -/
def Reads (x : Double) : Option Int → Prop
  | none => x = .nan
  | some n => x.Whole n ∧ n.natAbs ≤ Nat.pow 2 52

variable {first last step : Double} {a b : Int} {c : Option Int}

theorem sign_of (hfirst : first.Whole a) (hlast : last.Whole b) :
    (Range.of first last step).sign = direction a b := by
  unfold sign Range.of direction
  simp only [hfirst.le_eq hlast, decide_eq_true_eq]

/-- The size of the step, before it gets the sign of the loop. -/
theorem Reads.size_whole (h : Reads step c) :
    (if step.isNaN || step.isZero then Double.one else step.abs).Whole (stride c) := by
  cases c with
  | none =>
    rw [show step = .nan from h]
    exact Double.Whole.one
  | some n =>
    rw [h.1.isNaN_eq, h.1.isZero_eq, stride, Option.getD_some]
    by_cases hn : n = 0
    · simp only [hn, decide_true, Bool.or_true, if_true]
      exact Double.Whole.one
    · simp only [hn, decide_false, Bool.or_false, Bool.false_eq_true, if_false]
      exact h.1.abs

theorem Reads.stride_le (h : Reads step c) : stride c ≤ Nat.pow 2 52 := by
  cases c with
  | none => decide
  | some n =>
    unfold stride
    split
    · decide
    · exact h.2

theorem counts_of (hfirst : first.Whole a) (hlast : Reads last (some b)) (hstep : Reads step c) :
    (Range.of first last step).Counts b (stride c) where
  size_pos := stride_pos c
  size_le := hstep.stride_le
  last_le := hlast.2
  last_whole := hlast.1
  step_whole := by
    rw [sign_of hfirst hlast.1]
    unfold Range.of direction
    simp only [hfirst.le_eq hlast.1, decide_eq_true_eq]
    split
    · rw [Int.one_mul]
      exact hstep.size_whole
    · rw [Int.neg_one_mul]
      exact hstep.size_whole.neg

/-- A loop between integers visits the integers that count from the first one to the last one, and
writes them as decimal numerals. -/
theorem visits_of (hfirst : Reads first (some a)) (hlast : Reads last (some b)) (hstep : Reads step c) :
    (Range.of first last step).visits.values.map Double.text = (counted a b c).map toString ∧
      (Range.of first last step).visits.stalledAt = none := by
  have hcounts := counts_of hfirst.1 hlast hstep
  have hsign : (Range.of first last step).sign = direction a b := sign_of hfirst.1 hlast.1
  have hreached : (Range.of first last step).reaches first = true := by
    rw [hcounts.reaches_eq hfirst.1, hsign, decide_eq_true_eq]
    unfold direction
    split <;> omega
  have hrounds : a + direction a b * (((b - a).natAbs / stride c * stride c +
      (b - a).natAbs % stride c : Nat) : Int) = b := by
    rw [Nat.div_add_mod', direction_mul_natAbs]
  rw [← hsign] at hrounds
  rw [visits, show (Range.of first last step).first = first from rfl, if_pos hreached, counted,
    List.map_map, ← hsign]
  exact hcounts.visitsFrom_whole (Nat.mod_lt _ (stride_pos c)) _ hfirst.1 hfirst.2 hrounds

end Range

/-! ## Reading the bounds -/

/-- A reference that has no value leaves its sigil in the text. -/
theorem dollar_mem_substituteAll {lookup : String → Option Value} {segs : List Segment}
    (h : (substituteAll lookup segs).unresolved ≠ []) : '$' ∈ (substituteAll lookup segs).text := by
  induction segs with
  | nil => exact absurd rfl h
  | cons seg segs ih =>
    cases seg with
    | plain text => exact List.mem_append_right _ (ih h)
    | reference ref =>
      rw [substituteAll] at h ⊢
      cases hlookup : lookup (String.ofList ref.name) with
      | some value =>
        simp only [hlookup] at h ⊢
        exact List.mem_append_right _ (ih h)
      | none =>
        refine List.mem_append_left _ ?_
        rw [Reference.write]
        split <;> simp

theorem Text.mem_trim {cs : List Char} {c : Char} (hc : isBlank c = false) (h : c ∈ cs) :
    c ∈ trim cs := by
  obtain ⟨as, bs, has, hbs, hsplit⟩ := exists_eq_trim cs
  rw [hsplit] at h
  have hblank {cs : List Char} (hcs : Blank cs) : c ∉ cs := fun hmem => by
    rw [hcs c hmem] at hc
    cases hc
  simpa [hblank has, hblank hbs] using h

theorem trim_of_mem_splitSpace {cs token : List Char} (h : token ∈ splitSpace cs) :
    Text.trim token = token := by
  obtain ⟨piece, -, rfl⟩ := List.mem_map.1 h
  exact Text.trim_trim piece

theorem bindingName_cons {c : Char} {cs name : List Char} (h : c :: name ∈ splitSpace cs) :
    bindingName (c :: name) = String.ofList name := by
  rw [bindingName, trim_of_mem_splitSpace h]
  rfl

namespace Run

variable {r : Run} {node : NodeId}

/-- A token whose text, once its references are resolved, is a decimal integer up to `2 ^ 52`. -/
def Denotes (r : Run) (node : NodeId) (token : List Char) (n : Int) : Prop :=
  Numeral (Text.trim (substitute (r.lookup node) token).text) n ∧ n.natAbs ≤ Nat.pow 2 52

/-- No reference in such a token is left over, so it is read without a warning. -/
theorem Denotes.unresolved_eq {token : List Char} {n : Int} (h : r.Denotes node token n) :
    (substitute (r.lookup node) token).unresolved = [] := by
  by_contra hne
  have hmem := Text.mem_trim (by decide) (dollar_mem_substituteAll hne)
  exact absurd (List.all_eq_true.1 h.1.all_isNumeralChar '$' hmem) (by decide)

/-- Reading a bound that is an integer, or is missing, leaves the run as it is. -/
theorem bound_of_denotes (warns : Bool) {tokens : List (List Char)} {place : Nat} {n : Option Int}
    (h : Option.Rel (r.Denotes node) tokens[place]? n) :
    ∃ x, bound warns node tokens place r = (x, r) ∧ Range.Reads x n := by
  unfold bound
  cases htoken : tokens[place]? with
  | none =>
    rw [htoken] at h
    cases h
    exact ⟨.nan, rfl, rfl⟩
  | some token =>
    rw [htoken] at h
    cases h with
    | some hn =>
      refine ⟨boundOf (substitute (r.lookup node) token).text, ?_, ?_, hn.2⟩
      · simp only [interpolate, String.toList_ofList, hn.unresolved_eq, List.foldl_nil, ite_self]
      · exact boundOf_whole hn.1 (Nat.le_trans hn.2 (by decide))

/-! ## The rounds -/

variable (warns : Bool) (descend : NodeId → Run → Run)

/-- A counting loop between integers has a round for each integer that counts from the first one to
the last one. None is beyond a bound, and the last bound is one of them exactly if whole steps lead to
it. The words between the bounds are not looked at. -/
theorem expandFor_counts {params name : String} {first last word word' : List Char}
    {rest : List (List Char)} {a b : Int} {step : Option Int}
    (htokens : splitSpace params.toList =
      ('$' :: name.toList) :: word :: first :: word' :: last :: rest)
    (hfirst : r.Denotes node first a) (hlast : r.Denotes node last b)
    (hstep : Option.Rel (r.Denotes node) rest[1]? step) (container : NodeId) :
    Loops descend container node name ((counted a b step).map fun v => .scalar (toString v))
        (.loopExpanded name (counted a b step).length) r
        (expandFor warns descend container node params r) ∧
      (counted a b step).length = (b - a).natAbs / stride step + 1 ∧
      (∀ v ∈ counted a b step, a ≤ v ∧ v ≤ b ∨ b ≤ v ∧ v ≤ a) ∧
      (b ∈ counted a b step ↔ stride step ∣ (b - a).natAbs) := by
  refine ⟨?_, by simp [counted], fun v => between_of_mem_counted, last_mem_counted_iff⟩
  have hname : bindingName ('$' :: name.toList) = name := by
    rw [bindingName_cons (htokens ▸ List.mem_cons_self), String.ofList_toList]
  -- the places of the tokens are those that the three bounds are read at
  have hat {place : Nat} {n : Option Int} (h : Option.Rel (r.Denotes node)
      (('$' :: name.toList) :: word :: first :: word' :: last :: rest)[place]? n) :=
    bound_of_denotes warns h
  obtain ⟨x, hx, hxreads⟩ := hat (.some hfirst : Option.Rel _ _[2]? (some a))
  obtain ⟨y, hy, hyreads⟩ := hat (.some hlast : Option.Rel _ _[4]? (some b))
  obtain ⟨z, hz, hzreads⟩ := hat (hstep : Option.Rel _ _[6]? step)
  obtain ⟨hvalues, hstalled⟩ := Range.visits_of hxreads hyreads hzreads
  have hrows : ((Range.of x y z).visits.values.map fun x => [(name, Value.scalar x.text)]) =
      ((counted a b step).map fun v => Value.scalar (toString v)).map fun value => [(name, value)] := by
    calc ((Range.of x y z).visits.values.map fun x => [(name, Value.scalar x.text)])
        = ((Range.of x y z).visits.values.map Double.text).map fun text => [(name, .scalar text)] := by
          rw [List.map_map]
          rfl
      _ = _ := by
          rw [hvalues, List.map_map, List.map_map]
          rfl
  have hlength : (Range.of x y z).visits.values.length = (counted a b step).length := by
    simpa using congrArg List.length hvalues
  unfold expandFor
  rw [htokens]
  dsimp only
  rw [if_neg (by simp), hx]
  dsimp only
  rw [hy]
  dsimp only
  rw [hz]
  dsimp only
  rw [hname, hrows, hstalled, hlength]
  exact iterate_loops name _ _ r

/-- From a bound that is put together with a variable, down past zero, with a step that is negative and
does not lead to the last bound. -/
theorem expandFor_counts_down :
    let params := "$i from $(n)0 to -7 by -3"
    let body : Tree Entry := .node ⟨.rule "a$i", none⟩ [.node ⟨.declaration "w" "$(i)px", none⟩ []]
    let r := (start (Sheet.ofForest [.node ⟨.atRule "for" params true, none⟩ [body]])).assign
      Sheet.root "n" "1"
    let found := expandFor true (walk true 3) Sheet.root 1 params r
    r.Denotes 1 "$(n)0".toList 10 ∧ r.Denotes 1 "-7".toList (-7) ∧ r.Denotes 1 "-3".toList (-3) ∧
      Loops (walk true 3) Sheet.root 1 "i" (["10", "7", "4", "1", "-2", "-5"].map .scalar)
        (.loopExpanded "i" 6) r found ∧
      ¬ 3 ∣ (-7 - 10 : Int).natAbs ∧ found.1 = 6 ∧ found.2.sheet.print =
        String.join (["10", "7", "4", "1", "-2", "-5"].map fun v =>
          "a" ++ v ++ " \x7b\n  w: " ++ v ++ "px;\n\x7d\n") := by
  intro params body r found
  have hfirst : r.Denotes 1 "$(n)0".toList 10 :=
    ⟨⟨"10".toList, by decide, by decide, .inl ⟨.inl (by decide +kernel), by decide +kernel⟩⟩, by decide⟩
  have hlast : r.Denotes 1 "-7".toList (-7) :=
    ⟨⟨"7".toList, by decide, by decide, .inr ⟨by decide +kernel, by decide +kernel⟩⟩, by decide⟩
  have hstep : r.Denotes 1 "-3".toList (-3) :=
    ⟨⟨"3".toList, by decide, by decide, .inr ⟨by decide +kernel, by decide +kernel⟩⟩, by decide⟩
  have htokens : splitSpace params.toList = ('$' :: "i".toList) :: "from".toList :: "$(n)0".toList ::
      "to".toList :: "-7".toList :: ["by".toList, "-3".toList] := by decide +kernel
  have hprint : found.1 = 6 ∧ found.2.sheet.print = String.join
      (["10", "7", "4", "1", "-2", "-5"].map fun v => "a" ++ v ++ " \x7b\n  w: " ++ v ++ "px;\n\x7d\n") := by
    decide +kernel
  have hcounts := expandFor_counts true (walk true 3) htokens hfirst hlast (.some hstep) Sheet.root
  have hvalues : counted 10 (-7) (some (-3)) = [10, 7, 4, 1, -2, -5] := by decide
  rw [hvalues] at hcounts
  exact ⟨hfirst, hlast, hstep, hcounts.1, fun hdvd => absurd (hcounts.2.2.2.2 hdvd) (by decide), hprint⟩

end Run

end StyleExpand

import Mathlib.Data.List.TakeDrop
import Mathlib.Data.List.TakeWhile
import StyleExpand.Proofs.Number.Whole
import StyleExpand.Value.Operand

/-!
# Decimal integers

Decimal integers up to `2 ^ 53` are read as the whole number that they denote, and whole numbers below
`2 ^ 53` are written as their decimal digits.

* `Numeral` : a text of digits, with or without a sign;
* `boundOf_whole` : what a loop bound reads from such a text;
* `Shortest.hits_iff` : at a whole number, a grid of whole numbers is hit only by that number;
* `Shortest.positional_find` : so its digits are the shortest numeral;
* `Double.Whole.text_eq` : the text of a whole number.
-/

namespace StyleExpand

/-! ## Reading -/

/-- Digits, with or without a sign before them, and the number that they denote. -/
def Numeral (cs : List Char) (n : Int) : Prop :=
  ∃ digits : List Char, digits ≠ [] ∧ digits.all Char.isDigit = true ∧
    ((cs = digits ∨ cs = '+' :: digits) ∧ n = Nat.ofDigitChars 10 digits 0 ∨
      cs = '-' :: digits ∧ n = -(Nat.ofDigitChars 10 digits 0 : Int))

namespace Numeral

variable {cs : List Char} {n : Int}

theorem exists_sign (h : Numeral cs n) : ∃ negative digits, Decimal.sign cs = (negative, digits) ∧
    digits ≠ [] ∧ digits.all Char.isDigit = true ∧
      Double.signed negative (Decimal.valueOf digits) = n := by
  obtain ⟨digits, hne, hdigits, ⟨hcs | hcs, rfl⟩ | ⟨hcs, rfl⟩⟩ := h
  · refine ⟨false, digits, ?_, hne, hdigits, rfl⟩
    subst hcs
    unfold Decimal.sign
    split
    · simp at hdigits
    · simp at hdigits
    · rfl
  · subst hcs
    exact ⟨false, digits, rfl, hne, hdigits, rfl⟩
  · subst hcs
    exact ⟨true, digits, rfl, hne, hdigits, rfl⟩

theorem ne_nil (h : Numeral cs n) : cs ≠ [] := by
  obtain ⟨digits, hne, -, ⟨hcs | hcs, -⟩ | ⟨hcs, -⟩⟩ := h
  · exact hcs ▸ hne
  · simp [hcs]
  · simp [hcs]

/-- A numeral is made of the characters of numerals, and of no sigil of a reference. -/
theorem all_isNumeralChar (h : Numeral cs n) : cs.all isNumeralChar = true := by
  have hall {digits : List Char} (hdigits : digits.all Char.isDigit = true) :
      digits.all isNumeralChar = true := by
    refine List.all_eq_true.2 fun c hc => ?_
    rw [isNumeralChar, List.all_eq_true.1 hdigits c hc]
    rfl
  obtain ⟨digits, -, hdigits, ⟨hcs | hcs, -⟩ | ⟨hcs, -⟩⟩ := h
  · rw [hcs, hall hdigits]
  · rw [hcs, List.all_cons, hall hdigits]
    rfl
  · rw [hcs, List.all_cons, hall hdigits]
    rfl

theorem read?_eq (h : Numeral cs n) : ∃ negative k, Decimal.read? cs = some ⟨negative, k, 0⟩ ∧
    Double.signed negative k = n := by
  obtain ⟨negative, digits, hsign, hne, hdigits, hn⟩ := h.exists_sign
  refine ⟨negative, Decimal.valueOf digits, ?_, hn⟩
  have hspan : Decimal.digits digits = (digits, []) := by
    have hall : ∀ c ∈ digits, Char.isDigit c = true := List.all_eq_true.1 hdigits
    rw [Decimal.digits, List.span_eq_takeWhile_dropWhile, List.takeWhile_eq_self_iff.2 hall,
      List.dropWhile_eq_nil_iff.2 hall]
  unfold Decimal.read?
  rw [hsign]
  dsimp only
  rw [hspan]
  simp [Decimal.fraction, Decimal.exponent?, hne]

theorem dropWhile_ne_infinityWord (h : Numeral cs n) (p : Char → Bool) :
    cs.dropWhile p ≠ infinityWord := by
  intro heq
  have hmem : 'I' ∈ cs := (List.dropWhile_suffix p).subset (heq ▸ by decide)
  exact absurd (List.all_eq_true.1 h.all_isNumeralChar 'I' hmem) (by decide)

end Numeral

theorem Decimal.toDouble_whole (negative : Bool) {k : Nat} (hk : k ≤ Nat.pow 2 53) :
    (Decimal.toDouble ⟨negative, k, 0⟩).Whole (Double.signed negative k) := by
  unfold toDouble
  dsimp only
  by_cases hzero : k = 0
  · rw [if_pos hzero, hzero]
    exact ⟨negative, 0, by rw [Nat.zero_mul], rfl⟩
  · rw [if_neg hzero, if_neg (by decide), if_neg (by omega)]
    refine ⟨negative, k, ?_, rfl⟩
    rw [← Double.round_whole negative hk]
    simp

/-- A loop bound reads a decimal integer as the whole number that it denotes. -/
theorem boundOf_whole {cs : List Char} {n : Int} (h : Numeral (Text.trim cs) n)
    (hn : n.natAbs ≤ Nat.pow 2 53) : (boundOf cs).Whole n := by
  obtain ⟨negative, k, hread, rfl⟩ := h.read?_eq
  rw [Double.natAbs_signed] at hn
  have hnumber : numberOf? cs = some (Decimal.toDouble ⟨negative, k, 0⟩) := by
    unfold numberOf?
    dsimp only
    rw [if_neg (by simpa using h.dropWhile_ne_infinityWord _), if_pos h.all_isNumeralChar, hread]
    rfl
  rw [boundOf, if_neg (by simpa using h.ne_nil), hnumber]
  exact Decimal.toDouble_whole negative hn

/-! ## Digits -/

theorem toDigits_mul_pow {k : Nat} (hk : 0 < k) (e : Nat) :
    Nat.toDigits 10 (k * Nat.pow 10 e) = Nat.toDigits 10 k ++ List.replicate e '0' := by
  induction e with
  | zero => simp
  | succ e ih =>
    have hpos : 0 < k * Nat.pow 10 e := Nat.mul_pos hk (Nat.pow_pos (by decide))
    have happend := Nat.toDigits_append_toDigits (b := 10) (d := 0) (by decide) hpos (by decide)
    have hsucc : k * Nat.pow 10 (e + 1) = 10 * (k * Nat.pow 10 e) + 0 := by
      rw [show Nat.pow 10 (e + 1) = Nat.pow 10 e * 10 from rfl, ← Nat.mul_assoc, Nat.mul_comm,
        Nat.add_zero]
    rw [hsucc, ← happend, ih, List.replicate_succ', List.append_assoc]
    rfl

theorem width_mul_pow {k : Nat} (hk : 0 < k) (e : Nat) :
    Decimal.width (k * Nat.pow 10 e) = Decimal.width k + e := by
  rw [Decimal.width, toDigits_mul_pow hk, List.length_append, List.length_replicate]
  rfl

namespace Shortest

open Double (unitsPerOne unitsPerOne_pos spacing spacing_pos)

variable {k : Nat}

theorem magnitude_whole (hk : 0 < k) : magnitude (k * unitsPerOne) = Decimal.width k := by
  obtain ⟨e, he⟩ : ∃ e, e = 324 := ⟨324, rfl⟩
  have hdiv : k * unitsPerOne * Nat.pow 10 e / unitsPerOne = k * Nat.pow 10 e := by
    rw [Nat.mul_right_comm, Nat.mul_div_cancel _ unitsPerOne_pos]
  rw [magnitude, ← he, hdiv, width_mul_pow hk]
  omega

/-! ## Grids of whole numbers -/

theorem gapBelow_pos (units : Nat) : 0 < gapBelow units := by
  unfold gapBelow
  dsimp only
  split
  · rename_i h
    have := h.2
    omega
  · exact spacing_pos units

theorem gapBelow_le (units : Nat) : gapBelow units ≤ spacing units := by
  unfold gapBelow
  dsimp only
  split
  · exact Nat.div_le_self _ _
  · exact Nat.le_refl _

theorem step_grid (e : Nat) : Grid.step ⟨e⟩ = unitsPerOne * Nat.pow 10 e := by
  rw [Grid.step]
  rfl

theorem scale_grid (e : Nat) : Grid.scale ⟨e⟩ = 1 := by
  rw [Grid.scale]
  simp

/-- Only the whole number itself is within half a unit of it. -/
theorem hits_iff (hk : 0 < k) (hlt : k < Nat.pow 2 53) (e point : Nat) :
    hits (k * unitsPerOne) ⟨e⟩ point = true ↔ point * Nat.pow 10 e = k := by
  have hspacing : spacing (k * unitsPerOne) ≤ unitsPerOne :=
    Nat.le_of_dvd unitsPerOne_pos (Double.spacing_dvd_unitsPerOne (by omega) hlt)
  have hgap := gapBelow_pos (k * unitsPerOne)
  have hgapLe := gapBelow_le (k * unitsPerOne)
  have hpos := spacing_pos (k * unitsPerOne)
  have htwice :
      2 * point * (unitsPerOne * Nat.pow 10 e) = 2 * (point * Nat.pow 10 e * unitsPerOne) := by
    grind
  unfold hits
  rw [step_grid, scale_grid, htwice]
  dsimp only
  generalize point * Nat.pow 10 e = m
  have hunit : 0 < k * unitsPerOne := Nat.mul_pos hk unitsPerOne_pos
  -- another whole number is off by one unit at least, twice as much as the ends of the interval
  rcases Nat.lt_trichotomy m k with hmk | rfl | hmk
  · have hless := Nat.mul_le_mul_right unitsPerOne (Nat.succ_le_of_lt hmk)
    rw [Nat.succ_mul] at hless
    refine iff_of_false ?_ (Nat.ne_of_lt hmk)
    split
    all_goals
      simp only [Nat.mul_one, Bool.and_eq_true, decide_eq_true_eq]
      omega
  · refine iff_of_true ?_ rfl
    split
    · simp
    · simp only [Nat.mul_one, Bool.and_eq_true, decide_eq_true_eq]
      omega
  · have hmore := Nat.mul_le_mul_right unitsPerOne (Nat.succ_le_of_lt hmk)
    rw [Nat.succ_mul] at hmore
    refine iff_of_false ?_ (Nat.ne_of_gt hmk)
    split
    all_goals
      simp only [Nat.mul_one, Bool.and_eq_true, decide_eq_true_eq]
      omega

theorem onGrid?_of_next {units below : Nat} {g : Grid} (hbelow : units * g.scale / g.step = below)
    (hnext : hits units g (below + 1) = false) :
    onGrid? units g = if hits units g below then some below else none := by
  unfold onGrid?
  dsimp only
  rw [hbelow, hnext]
  cases hits units g below <;> rfl

/-- On a grid of whole numbers, just the number itself is found. -/
theorem onGrid?_whole (hk : 0 < k) (hlt : k < Nat.pow 2 53) (e : Nat) :
    onGrid? (k * unitsPerOne) ⟨e⟩ =
      if Nat.pow 10 e ∣ k then some (k / Nat.pow 10 e) else none := by
  have hbelow : k * unitsPerOne * Grid.scale ⟨e⟩ / Grid.step ⟨e⟩ = k / Nat.pow 10 e := by
    rw [step_grid, scale_grid, Nat.mul_one, Nat.mul_comm k, Nat.mul_div_mul_left _ _ unitsPerOne_pos]
  have hnext : hits (k * unitsPerOne) ⟨e⟩ (k / Nat.pow 10 e + 1) = false := by
    have := Nat.lt_div_mul_add (a := k) (b := Nat.pow 10 e) (Nat.pow_pos (by decide))
    rw [← Bool.not_eq_true, hits_iff hk hlt, Nat.succ_mul]
    omega
  have hdvd : k / Nat.pow 10 e * Nat.pow 10 e = k ↔ Nat.pow 10 e ∣ k :=
    ⟨fun heq => ⟨_, by rw [Nat.mul_comm, heq]⟩, Nat.div_mul_cancel⟩
  rw [onGrid?_of_next hbelow hnext]
  simp only [hits_iff hk hlt, hdvd]

/-! ## The search -/

/-- If just the grids that hold a number are hit, then from a grid of whole numbers on the search ends
at one of them. -/
theorem search_whole {units : Nat} (hgrid : ∀ e : Nat, onGrid? units ⟨e⟩ =
      if Nat.pow 10 e ∣ k then some (k / Nat.pow 10 e) else none) (width : Int) :
    ∀ (e tries digits : Nat), width - digits = e → e < tries →
      ∃ e' : Nat, Nat.pow 10 e' ∣ k ∧
        search units width tries digits = some (k / Nat.pow 10 e', (e' : Int))
  | e, 0, _, _, htries => absurd htries (Nat.not_lt_zero e)
  | e, tries + 1, digits, he, htries => by
    unfold search
    dsimp only
    rw [he, hgrid]
    by_cases hdvd : Nat.pow 10 e ∣ k
    · rw [if_pos hdvd]
      exact ⟨e, hdvd, rfl⟩
    · rw [if_neg hdvd]
      cases e with
      | zero => exact absurd (Nat.one_dvd k) hdvd
      | succ e => exact search_whole hgrid width e tries (digits + 1) (by omega) (by omega)

/-- The digits of a whole number are its shortest numeral. -/
theorem positional_find (hk : 0 < k) (hlt : k < Nat.pow 2 53) :
    positional (find (k * unitsPerOne)).1 (find (k * unitsPerOne)).2 = Nat.toDigits 10 k := by
  have hwidth : 0 < Decimal.width k := Nat.length_toDigits_pos
  have hle : Decimal.width k ≤ 16 := by
    refine (Nat.length_toDigits_le_iff (by decide) (by decide)).2 (Nat.lt_trans hlt ?_)
    decide
  obtain ⟨e, ⟨q, rfl⟩, hsearch⟩ := search_whole (onGrid?_whole hk hlt) (Decimal.width k)
    (Decimal.width k - 1) 17 1 (by omega) (by omega)
  have hpow : 0 < Nat.pow 10 e := Nat.pow_pos (by decide)
  have hq : 0 < q := Nat.pos_of_mul_pos_left hk
  rw [find, magnitude_whole hk, hsearch, Option.getD_some, Nat.mul_div_cancel_left _ hpow, positional,
    if_pos (Int.natCast_nonneg e), Int.toNat_natCast, Nat.mul_comm, toDigits_mul_pow hq]

end Shortest

/-! ## Writing -/

theorem toString_signed (negative : Bool) {k : Nat} (hk : 0 < k) :
    toString (Double.signed negative k) =
      String.ofList (Double.write.minus negative (Nat.toDigits 10 k)) := by
  obtain ⟨k, rfl⟩ := Nat.exists_eq_succ_of_ne_zero (Nat.ne_of_gt hk)
  cases negative with
  | false => exact Nat.toString_eq_ofList_toDigits
  | true =>
    have hrepr : toString (Double.signed true (k + 1)) = "-" ++ Nat.repr (k + 1) := rfl
    rw [hrepr, Nat.repr_eq_ofList_toDigits, ← String.toList_inj]
    simp [Double.write.minus]

/-- What a nonzero value is written as once its shortest digits are known. The value is any count of
units here, since a product with `unitsPerOne` is not to be unfolded. -/
theorem Double.text_of_find (negative : Bool) {units k : Nat} (hunits : 0 < units) (hk : 0 < k)
    (hfind : Shortest.positional (Shortest.find units).1 (Shortest.find units).2
      = Nat.toDigits 10 k) :
    (Double.finite negative units).text = toString (Double.signed negative k) := by
  unfold Double.text Double.write
  dsimp only
  rw [if_neg (Nat.ne_of_gt hunits), hfind, toString_signed negative hk]

/-- A whole number below `2 ^ 53` is written as its decimal numeral. -/
theorem Double.Whole.text_eq {x : Double} {n : Int} (h : x.Whole n) (hn : n.natAbs < Nat.pow 2 53) :
    x.text = toString n := by
  obtain ⟨negative, k, rfl, rfl⟩ := h
  rw [natAbs_signed] at hn
  rcases Nat.eq_zero_or_pos k with rfl | hk
  · rw [Nat.zero_mul]
    cases negative <;> decide
  · exact text_of_find negative (Nat.mul_pos hk unitsPerOne_pos) hk (Shortest.positional_find hk hn)

end StyleExpand

import StyleExpand.Number.Double

/-!
# Whole numbers as doubles

Up to `2 ^ 53` every whole number is a double, so sums and comparisons of such doubles are those of
the numbers.

* `Double.Whole` : a double that is a whole number; there are two for zero;
* `Double.spacing_dvd`, `Double.round_whole` : whole numbers that need no rounding;
* `Double.Whole.add`, `Double.Whole.compare?_eq` : sums and comparisons.
-/

namespace StyleExpand.Double

/-- The double is `n`; its sign tells the two zeros apart. -/
def Whole (x : Double) (n : Int) : Prop :=
  ∃ negative k, x = .finite negative (k * unitsPerOne) ∧ signed negative k = n

-- the exponent is a variable here so that no step below multiplies the power out
theorem exists_unitsPerOne_eq : ∃ e, e = 1074 ∧ unitsPerOne = Nat.pow 2 e :=
  ⟨1074, rfl, by decide +kernel⟩

theorem unitsPerOne_pos : 0 < unitsPerOne := by decide +kernel

/-! ## Rounding -/

theorem log2_whole {k : Nat} (hk : k ≠ 0) : (k * unitsPerOne).log2 = k.log2 + 1074 := by
  have hne : k * unitsPerOne ≠ 0 := Nat.mul_ne_zero hk (Nat.ne_of_gt unitsPerOne_pos)
  obtain ⟨e, he, hunits⟩ := exists_unitsPerOne_eq
  rw [← he]
  refine (Nat.log2_eq_iff hne).2 ⟨?_, ?_⟩
  · rw [Nat.pow_add, hunits]
    exact Nat.mul_le_mul_right _ (Nat.log2_self_le hk)
  · rw [show k.log2 + e + 1 = k.log2 + 1 + e by omega, Nat.pow_add, hunits]
    exact Nat.mul_lt_mul_of_pos_right Nat.lt_log2_self (Nat.two_pow_pos e)

theorem spacing_whole {k : Nat} (hk : k ≠ 0) :
    spacing (k * unitsPerOne) = Nat.pow 2 (k.log2 + 1022) := by
  rw [spacing, log2_whole hk, show k.log2 + 1074 + 1 - 53 = k.log2 + 1022 by omega]

/-- Below `2 ^ 53` neighbouring doubles are at most one apart. -/
theorem spacing_dvd_unitsPerOne {k : Nat} (hk : k ≠ 0) (hlt : k < Nat.pow 2 53) :
    spacing (k * unitsPerOne) ∣ unitsPerOne := by
  have hlog : k.log2 < 53 := (Nat.log2_lt hk).2 hlt
  obtain ⟨e, he, hunits⟩ := exists_unitsPerOne_eq
  rw [spacing_whole hk, hunits]
  exact Nat.pow_dvd_pow 2 (by omega)

theorem spacing_dvd {k : Nat} (hle : k ≤ Nat.pow 2 53) :
    spacing (k * unitsPerOne) ∣ k * unitsPerOne := by
  by_cases hk : k = 0
  · rw [hk, Nat.zero_mul]
    exact Nat.dvd_zero _
  · rcases Nat.lt_or_eq_of_le hle with hlt | rfl
    · exact Nat.dvd_trans (spacing_dvd_unitsPerOne hk hlt) (Nat.dvd_mul_left _ _)
    · rw [spacing_whole hk, show (Nat.pow 2 53).log2 = 53 from Nat.log2_two_pow]
      exact ⟨Nat.pow 2 52, by decide +kernel⟩

theorem whole_lt {k : Nat} (hle : k ≤ Nat.pow 2 53) : k * unitsPerOne < tooManyUnits := by
  refine Nat.lt_of_le_of_lt (Nat.mul_le_mul_right _ hle) ?_
  decide +kernel

/-- Up to `2 ^ 53` a whole number is its own rounding. -/
theorem round_whole (negative : Bool) {k : Nat} (hle : k ≤ Nat.pow 2 53) :
    round negative (k * unitsPerOne) 1 = .finite negative (k * unitsPerOne) :=
  round_of_dvd (spacing_dvd hle) (whole_lt hle)

/-! ## Signs -/

theorem natAbs_signed (negative : Bool) (k : Nat) : (signed negative k).natAbs = k := by
  cases negative
  · rfl
  · rw [signed, if_pos rfl, Int.natAbs_neg, Int.natAbs_natCast]

theorem signed_mul (negative : Bool) (k u : Nat) : signed negative (k * u) = signed negative k * u := by
  cases negative
  · rw [signed, signed, if_neg Bool.false_ne_true, if_neg Bool.false_ne_true, Int.natCast_mul]
  · rw [signed, signed, if_pos rfl, if_pos rfl, Int.natCast_mul, Int.neg_mul]

namespace Whole

variable {x y : Double} {a b : Int}

theorem zero : Double.zero.Whole 0 := ⟨false, 0, by rw [Nat.zero_mul]; rfl, rfl⟩

theorem one : Double.one.Whole 1 := ⟨false, 1, by rw [Nat.one_mul]; rfl, rfl⟩

theorem neg (h : x.Whole a) : x.neg.Whole (-a) := by
  obtain ⟨negative, k, rfl, rfl⟩ := h
  refine ⟨!negative, k, rfl, ?_⟩
  cases negative
  · rfl
  · exact (Int.neg_neg _).symm

theorem abs (h : x.Whole a) : x.abs.Whole a.natAbs := by
  obtain ⟨negative, k, rfl, rfl⟩ := h
  exact ⟨false, k, rfl, by rw [natAbs_signed]; rfl⟩

theorem isNaN_eq (h : x.Whole a) : x.isNaN = false := by
  obtain ⟨negative, k, rfl, -⟩ := h
  rfl

theorem isZero_eq (h : x.Whole a) : x.isZero = decide (a = 0) := by
  obtain ⟨negative, k, rfl, rfl⟩ := h
  cases k with
  | zero =>
    rw [Nat.zero_mul]
    cases negative <;> rfl
  | succ k =>
    obtain ⟨units, hunits⟩ := Nat.exists_eq_succ_of_ne_zero
      (Nat.mul_ne_zero (Nat.succ_ne_zero k) (Nat.ne_of_gt unitsPerOne_pos))
    have hne : signed negative (k + 1) ≠ 0 := by
      intro h
      have := natAbs_signed negative (k + 1)
      rw [h] at this
      cases this
    rw [hunits, decide_eq_false hne]
    rfl

/-! ## Sums -/

/-- A sum of whole numbers up to `2 ^ 53` is not rounded. -/
theorem add (hx : x.Whole a) (hy : y.Whole b) (h : (a + b).natAbs ≤ Nat.pow 2 53) :
    (x.add y).Whole (a + b) := by
  obtain ⟨s, j, rfl, rfl⟩ := hx
  obtain ⟨t, k, rfl, rfl⟩ := hy
  unfold Double.add
  dsimp only
  by_cases hst : s = t
  · subst hst
    have hsum : signed s (j + k) = signed s j + signed s k := by
      cases s <;> simp only [signed] <;> grind
    rw [if_pos rfl, ← Nat.add_mul, ← hsum]
    rw [← hsum, natAbs_signed] at h
    exact ⟨s, j + k, round_whole s h, rfl⟩
  · rw [if_neg hst]
    rcases Nat.lt_trichotomy j k with hlt | rfl | hlt
    · have hsum : signed t (k - j) = signed s j + signed t k := by
        cases s <;> cases t <;> simp only [signed] at hst ⊢ <;> grind
      have hunits := Nat.mul_lt_mul_of_pos_right hlt unitsPerOne_pos
      rw [if_neg (Nat.ne_of_lt hunits), if_neg (Nat.lt_asymm hunits), ← Nat.sub_mul, ← hsum]
      rw [← hsum, natAbs_signed] at h
      exact ⟨t, k - j, round_whole t h, rfl⟩
    · have hsum : signed s j + signed t j = 0 := by
        cases s <;> cases t <;> simp only [signed] at hst ⊢ <;> grind
      rw [if_pos rfl, hsum]
      exact Whole.zero
    · have hsum : signed s (j - k) = signed s j + signed t k := by
        cases s <;> cases t <;> simp only [signed] at hst ⊢ <;> grind
      have hunits := Nat.mul_lt_mul_of_pos_right hlt unitsPerOne_pos
      rw [if_neg (Nat.ne_of_gt hunits), if_pos hunits, ← Nat.sub_mul, ← hsum]
      rw [← hsum, natAbs_signed] at h
      exact ⟨s, j - k, round_whole s h, rfl⟩

/-! ## Order -/

theorem rank?_eq (h : x.Whole a) : x.rank? = some (a * unitsPerOne) := by
  obtain ⟨negative, k, rfl, rfl⟩ := h
  rw [rank?, signed_mul]

theorem compare?_eq (hx : x.Whole a) (hy : y.Whole b) : x.compare? y = some (compare a b) := by
  have hpos : (0 : Int) < unitsPerOne := Int.natCast_pos.2 unitsPerOne_pos
  rw [Double.compare?, hx.rank?_eq, hy.rank?_eq]
  dsimp only
  rcases Int.lt_trichotomy a b with hlt | rfl | hlt
  · rw [Int.compare_eq_lt.2 hlt, Int.compare_eq_lt.2 (Int.mul_lt_mul_of_pos_right hlt hpos)]
  · rw [Std.compare_self, Std.compare_self]
  · rw [Int.compare_eq_gt.2 hlt, Int.compare_eq_gt.2 (Int.mul_lt_mul_of_pos_right hlt hpos)]

theorem le_eq (hx : x.Whole a) (hy : y.Whole b) : x.le y = decide (a ≤ b) := by
  rw [Double.le, hx.compare?_eq hy]
  rcases Int.lt_trichotomy a b with hlt | rfl | hlt
  · rw [Int.compare_eq_lt.2 hlt, decide_eq_true (Int.le_of_lt hlt)]
    rfl
  · rw [Std.compare_self, decide_eq_true (Int.le_refl a)]
    rfl
  · rw [Int.compare_eq_gt.2 hlt, decide_eq_false (Int.not_le.2 hlt)]
    rfl

theorem eq_eq (hx : x.Whole a) (hy : y.Whole b) : x.eq y = decide (a = b) := by
  rw [Double.eq, hx.compare?_eq hy]
  rcases Int.lt_trichotomy a b with hlt | rfl | hlt
  · rw [Int.compare_eq_lt.2 hlt, decide_eq_false (Int.ne_of_lt hlt)]
    rfl
  · rw [Std.compare_self, decide_eq_true rfl]
    rfl
  · rw [Int.compare_eq_gt.2 hlt, decide_eq_false (Int.ne_of_gt hlt)]
    rfl

end Whole

end StyleExpand.Double

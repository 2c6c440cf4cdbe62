import StyleExpand.Number.Double

/-!
# Counting loops

A counting loop goes from a first number to a last one in steps of one sign. `Range.values` are the
numbers it visits; it also ends where a step is lost to rounding.
-/

namespace StyleExpand

/-- The bounds of a counting loop; `step` has the sign of the direction. -/
structure Range where
  first : Double
  last : Double
  step : Double
  rising : Bool
  deriving DecidableEq

/-- The numbers that a counting loop visits, and the one from which a step led nowhere. -/
structure Visits where
  values : List Double
  stalledAt : Option Double
  deriving DecidableEq

namespace Range

/-- A loop between two bounds: a step that is zero or no number counts as one, and its sign is lost. -/
def of (first last step : Double) : Range :=
  let size := if step.isNaN || step.isZero then .one else step.abs
  let rising := first.le last
  ⟨first, last, if rising then size else size.neg, rising⟩

/-- Whether a number is not beyond the last one. -/
def reaches (r : Range) (x : Double) : Bool :=
  if r.rising then x.le r.last else r.last.le x

/-- Whether `y` is ahead of `x` in the direction of the loop. -/
def ahead (r : Range) (x y : Double) : Bool :=
  x.compare? y == some (if r.rising then .lt else .gt)

/-- How far a number is from the last one, counted in places of the order. -/
def distance (r : Range) (x : Double) : Nat :=
  match x.rank?, r.last.rank? with
  | some a, some b => (a - b).natAbs
  | _, _ => 0

theorem distance_lt (r : Range) {x y : Double} (hahead : r.ahead x y = true)
    (hreach : r.reaches y = true) : r.distance y < r.distance x := by
  unfold ahead Double.compare? at hahead
  unfold reaches Double.le Double.compare? at hreach
  unfold distance
  cases hx : x.rank? with
  | none => simp [hx] at hahead
  | some a =>
    cases hy : y.rank? with
    | none => simp [hx, hy] at hahead
    | some b =>
      cases hl : r.last.rank? with
      | none =>
        cases hr : r.rising <;> simp [hy, hl, hr] at hreach
      | some c =>
        simp only [hx, hy, hl] at hahead hreach ⊢
        cases hr : r.rising
        · simp [hr, Int.compare_eq_gt, Int.compare_eq_lt] at hahead hreach
          omega
        · simp [hr, Int.compare_eq_lt] at hahead hreach
          omega

/--
The numbers from `x` on, which the loop reaches. A sum that rounds back to `x` is where the loop
stalls, and a sum is never behind `x`, so what is not ahead ends the loop.
-/
def visitsFrom (r : Range) (x : Double) : Visits :=
  let next := x.add r.step
  if next.eq x then ⟨[x], some x⟩
  else if h : r.ahead x next = true ∧ r.reaches next = true then
    have : r.distance (x.add r.step) < r.distance x := r.distance_lt h.1 h.2
    let rest := r.visitsFrom next
    ⟨x :: rest.values, rest.stalledAt⟩
  else ⟨[x], none⟩
termination_by r.distance x

/-- The numbers that the loop visits. -/
def visits (r : Range) : Visits :=
  if r.reaches r.first then r.visitsFrom r.first else ⟨[], none⟩

end Range

end StyleExpand

import DynValue.Number.Decimal
import DynValue.Number.Rounding

/-!
# Decimal text of floats: writing

A finite float is written with the fewest digits that read back as the
same float. Reading rounds to nearest, so the decimals that read back as
a given float are those between the midpoints to its two neighbours,
the midpoints themselves included when the float's magnitude is even,
since a tie goes to the even side.

Midpoints are multiples of half a unit, hence of `10 ^ -(scale + 1)`: on
that grid all three of midpoint, value and midpoint are natural numbers,
and the search for the shortest decimal is a search for the coarsest
grid `10 ^ p` that has a point between the midpoints. On each grid only
the value's two neighbours matter; of two that qualify the nearer is
taken, and the upper one when both are equally near.

The text is positional for every magnitude, never with an exponent.
-/

namespace DynValue

/-- **What reads back as one value**: the value and the two midpoints to
its neighbours, on a common grid. -/
structure RoundingInterval where
  /-- The midpoint to the neighbour below. -/
  lower : Nat
  /-- The value itself. -/
  value : Nat
  /-- The midpoint to the neighbour above. -/
  upper : Nat
  /-- Whether the midpoints belong to the interval. -/
  closed : Bool

namespace RoundingInterval

/-- The interval of a magnitude, in units of `10 ^ -(scale + 1)`. -/
def ofMag (K : FloatKind) (mag : Nat) : RoundingInterval :=
  let grid := 5 ^ (K.scale + 1)
  { lower := (K.units (mag - 1) + K.units mag) * grid
    value := 2 * K.units mag * grid
    upper := (K.units mag + K.units (mag + 1)) * grid
    closed := mag % 2 = 0 }

/-- Whether a point belongs to the interval. -/
def contains (I : RoundingInterval) (n : Nat) : Bool :=
  if I.closed then decide (I.lower ≤ n ∧ n ≤ I.upper)
  else decide (I.lower < n ∧ n < I.upper)

/-- **The best point of one grid**: the number `c` such that `c * 10 ^ p`
lies in the interval and is as near to the value as any such point, the
upper one of two equally near. -/
def onGrid? (I : RoundingInterval) (p : Nat) : Option Nat :=
  let step := 10 ^ p
  let c := I.value / step
  let down := c * step
  let up := (c + 1) * step
  match I.contains down, I.contains up with
  | true, true => some (if I.value - down < up - I.value then c else c + 1)
  | true, false => some c
  | false, true => some (c + 1)
  | false, false => none

/-- The coarsest grid, from `10 ^ p` downwards, that has a point in the
interval, with its best point. The finest grid has the value itself. -/
def coarsest (I : RoundingInterval) : Nat → Nat × Nat
  | 0 => (I.value, 0)
  | p + 1 =>
    match I.onGrid? (p + 1) with
    | some c => (c, p + 1)
    | none => I.coarsest p

/-! ## What the search finds -/

/-- The interval of a positive magnitude has its value strictly inside. -/
theorem value_inside (K : FloatKind) {mag : Nat} (h : 0 < mag) :
    (ofMag K mag).lower < (ofMag K mag).value ∧ (ofMag K mag).value < (ofMag K mag).upper := by
  have hgrid : 0 < 5 ^ (K.scale + 1) := Nat.pow_pos (by decide)
  have hdown : K.units (mag - 1) < K.units mag := by
    have := K.units_lt_succ (mag - 1)
    rwa [Nat.sub_add_cancel h] at this
  have hup := K.units_lt_succ mag
  exact ⟨Nat.mul_lt_mul_of_pos_right (by omega) hgrid,
    Nat.mul_lt_mul_of_pos_right (by omega) hgrid⟩

theorem contains_value (K : FloatKind) {mag : Nat} (h : 0 < mag) :
    (ofMag K mag).contains (ofMag K mag).value := by
  have := value_inside K h
  unfold contains
  split <;> simp <;> omega

section Search

variable {I : RoundingInterval}

/-- An interval has every point between two of its points. -/
theorem contains_of_between {a b n : Nat} (ha : I.contains a) (hb : I.contains b)
    (han : a ≤ n) (hnb : n ≤ b) : I.contains n := by
  unfold contains at *
  split at ha <;> simp_all <;> omega

theorem contains_of_onGrid? {p c : Nat} (h : I.onGrid? p = some c) :
    I.contains (c * 10 ^ p) := by
  unfold onGrid? at h
  dsimp only at h
  split at h
  · rename_i hdown hup
    split at h <;> (cases h; assumption)
  · cases h; assumption
  · cases h; assumption
  · cases h

/-- **A grid is passed over only if it has no point in the interval.** -/
theorem onGrid?_isSome {p c : Nat} (hvalue : I.contains I.value)
    (hc : I.contains (c * 10 ^ p)) : (I.onGrid? p).isSome := by
  have hstep : 0 < 10 ^ p := Nat.pow_pos (by decide)
  have hdown : I.value / 10 ^ p * 10 ^ p ≤ I.value := Nat.div_mul_le_self _ _
  have hup : I.value < (I.value / 10 ^ p + 1) * 10 ^ p :=
    (Nat.div_lt_iff_lt_mul hstep).1 (Nat.lt_succ_self _)
  have hpoint : I.contains (I.value / 10 ^ p * 10 ^ p) ∨
      I.contains ((I.value / 10 ^ p + 1) * 10 ^ p) := by
    rcases Nat.lt_or_ge (I.value / 10 ^ p) c with hlt | hge
    · exact Or.inr (contains_of_between hvalue hc (Nat.le_of_lt hup)
        (Nat.mul_le_mul_right _ hlt))
    · exact Or.inl (contains_of_between hc hvalue (Nat.mul_le_mul_right _ hge) hdown)
  unfold onGrid?
  dsimp only
  split <;> simp_all

/-- **The search ends in the interval.** -/
theorem contains_coarsest (hvalue : I.contains I.value) (p : Nat) :
    I.contains ((I.coarsest p).1 * 10 ^ (I.coarsest p).2) := by
  induction p with
  | zero => simpa [coarsest] using hvalue
  | succ p ih =>
    unfold coarsest
    split
    · rename_i c hc
      exact contains_of_onGrid? hc
    · exact ih

/-- **No coarser grid has a point in the interval.** -/
theorem not_contains_of_coarser (hvalue : I.contains I.value) {p q : Nat} (hq : q ≤ p)
    (h : (I.coarsest p).2 < q) (c : Nat) : ¬ I.contains (c * 10 ^ q) := by
  induction p with
  | zero => simp [coarsest] at h; omega
  | succ p ih =>
    unfold coarsest at h
    split at h
    · simp at h; omega
    · rename_i hnone
      rcases Nat.lt_or_ge p q with hlt | hge
      · obtain rfl : q = p + 1 := by omega
        intro hc
        have := onGrid?_isSome hvalue hc
        simp [hnone] at this
      · exact ih hge h

end Search

end RoundingInterval

/-- **The shortest decimal of a magnitude**: the fewest digits that read
back, and of those the nearest to the value. The search starts above the
leading digit, since `value < 2 ^ (log2 value + 1) ≤ 10 ^ (log2 value / 3 + 1)`. -/
def Decimal.shortest (K : FloatKind) (mag : Nat) : Decimal :=
  let I := RoundingInterval.ofMag K mag
  let (c, p) := I.coarsest (I.value.log2 / 3 + 1)
  ⟨c, (p : Int) - (K.scale + 1)⟩

/-- **Positional text of a decimal**: all places down to the last digit
that the coefficient has, and at least one digit before the point. -/
def Decimal.positional (d : Decimal) : List Char :=
  let ds := Digits.ofNat d.coeff
  match d.exponent with
  | .ofNat p => ds ++ List.replicate p '0'
  | .negSucc q =>
    let places := q + 1
    if places < ds.length then
      ds.take (ds.length - places) ++ '.' :: ds.drop (ds.length - places)
    else '0' :: '.' :: List.replicate (places - ds.length) '0' ++ ds

namespace Fp

variable {K : FloatKind}

/-- The digits of a finite magnitude. -/
def magText (K : FloatKind) (mag : Nat) : List Char :=
  if mag = 0 then ['0'] else (Decimal.shortest K mag).positional

/-- **The text of a float**: the shortest digits that read back, after a
minus sign for the negative ones, zero among them; words for the rest. -/
def text : Fp K → String
  | nan => "NaN"
  | inf neg => if neg then "-inf" else "inf"
  | finite neg mag =>
    String.ofList (if neg then '-' :: magText K mag else magText K mag)

end Fp

end DynValue

import DynValue.Proofs.Number.ReadBack

/-!
# Correct rounding

Rounding is computed from midpoints between magnitudes. What it is meant to give
can be said without them: the float nearest to the number, and of two equally near
the one whose last bit is zero (`Fp.IsRoundingOf`). Infinity takes part in this. It
stands where the value after the greatest finite one would be, so that a number
rounds to it if it is nearer to this value than to every finite one, or halfway.

Up to the sign of a zero, there is only one such float (`Fp.IsRoundingOf.unique`),
and it is the one that is computed (`Fp.eq_nearestTo_iff`).
-/

namespace DynValue

namespace FloatKind

variable {K : FloatKind} {num den mag n top : ℕ} {r : ℚ}

/-! ## Values and midpoints -/

/-- The value at a magnitude. -/
def valueAt (K : FloatKind) (mag : ℕ) : ℚ := K.units mag / (2 ^ K.scale : Nat)

theorem valueAt_strictMono (K : FloatKind) : StrictMono K.valueAt := fun _ _ lt =>
  div_lt_div_of_pos_right (Nat.cast_lt.2 (K.units_strictMono lt)) (Fp.natCast_scale_pos K)

theorem valueAt_zero (K : FloatKind) : K.valueAt 0 = 0 := by
  rw [valueAt, units_zero, Nat.cast_zero, zero_div]

theorem valueAt_nonneg (K : FloatKind) (mag : ℕ) : 0 ≤ K.valueAt mag := by
  rw [← K.valueAt_zero]
  exact K.valueAt_strictMono.monotone (Nat.zero_le mag)

theorem valueAt_infMag (K : FloatKind) : K.valueAt K.infMag = (2 ^ K.top : Nat) := by
  rw [valueAt, units_infMag, Nat.cast_mul, mul_div_cancel_right₀ _ (Fp.natCast_scale_pos K).ne']

/-- **To be nearest, said of values**: the number lies between the midpoints to the
values before and behind. -/
theorem isNearest_iff (hden : 0 < den) (hr : r = num / den) :
    K.IsNearest (num * 2 ^ K.scale) den mag ↔
      (2 * r < K.valueAt mag + K.valueAt (mag + 1)
        ∨ 2 * r = K.valueAt mag + K.valueAt (mag + 1) ∧ mag % 2 = 0)
      ∧ (mag = 0 ∨ K.valueAt (mag - 1) + K.valueAt mag < 2 * r
        ∨ K.valueAt (mag - 1) + K.valueAt mag = 2 * r ∧ mag % 2 = 0) := by
  have hden' : (0 : ℚ) < den := Nat.cast_pos.2 hden
  have hscale := Fp.natCast_scale_pos K
  have clear : (0 : ℚ) < den * (2 ^ K.scale : Nat) := mul_pos hden' hscale
  -- the two sides of every comparison, with the denominators cleared
  have number : ((2 * (num * 2 ^ K.scale) : ℕ) : ℚ) = 2 * r * (den * (2 ^ K.scale : Nat)) := by
    rw [hr, Nat.cast_mul, Nat.cast_mul, Nat.cast_ofNat]
    field_simp
  have midpoint (a b : ℕ) : (((K.units a + K.units b) * den : ℕ) : ℚ)
      = (K.valueAt a + K.valueAt b) * (den * (2 ^ K.scale : Nat)) := by
    rw [valueAt, valueAt, Nat.cast_mul, Nat.cast_add]
    field_simp
  have below (a b : ℕ) : 2 * (num * 2 ^ K.scale) < (K.units a + K.units b) * den
      ↔ 2 * r < K.valueAt a + K.valueAt b := by
    rw [← Nat.cast_lt (α := ℚ), number, midpoint, mul_lt_mul_iff_left₀ clear]
  have above (a b : ℕ) : (K.units a + K.units b) * den < 2 * (num * 2 ^ K.scale)
      ↔ K.valueAt a + K.valueAt b < 2 * r := by
    rw [← Nat.cast_lt (α := ℚ), number, midpoint, mul_lt_mul_iff_left₀ clear]
  have on (a b : ℕ) : 2 * (num * 2 ^ K.scale) = (K.units a + K.units b) * den
      ↔ 2 * r = K.valueAt a + K.valueAt b := by
    rw [← Nat.cast_inj (R := ℚ), number, midpoint, mul_left_inj' clear.ne']
  have on' (a b : ℕ) : (K.units a + K.units b) * den = 2 * (num * 2 ^ K.scale)
      ↔ K.valueAt a + K.valueAt b = 2 * r := by
    rw [eq_comm, on, eq_comm]
  rw [IsNearest, below, above, on, on']

/-- The number is at or past the middle between a value before and the nearest one,
and in the middle only if the nearest one is even. -/
theorem IsNearest.before (nearest : K.IsNearest (num * 2 ^ K.scale) den mag) (hden : 0 < den)
    (hr : r = num / den) (before : n < mag) :
    K.valueAt n + K.valueAt mag ≤ 2 * r
      ∧ (K.valueAt n + K.valueAt mag = 2 * r → mag % 2 = 0) := by
  have le : K.valueAt n ≤ K.valueAt (mag - 1) :=
    K.valueAt_strictMono.monotone (Nat.le_sub_one_of_lt before)
  rcases ((isNearest_iff hden hr).1 nearest).2 with rfl | past | ⟨on, even⟩
  · exact absurd before (Nat.not_lt_zero n)
  · exact ⟨by linarith, fun middle => by linarith⟩
  · exact ⟨by linarith, fun _ => even⟩

/-- It is at or before the middle between the nearest value and one behind. -/
theorem IsNearest.behind (nearest : K.IsNearest (num * 2 ^ K.scale) den mag) (hden : 0 < den)
    (hr : r = num / den) (behind : mag < n) :
    2 * r ≤ K.valueAt mag + K.valueAt n
      ∧ (2 * r = K.valueAt mag + K.valueAt n → mag % 2 = 0) := by
  have le : K.valueAt (mag + 1) ≤ K.valueAt n := K.valueAt_strictMono.monotone behind
  rcases ((isNearest_iff hden hr).1 nearest).1 with under | ⟨on, even⟩
  · exact ⟨by linarith, fun middle => by linarith⟩
  · exact ⟨by linarith, fun _ => even⟩

/-- Where the values end, at `top`, the last is nearest to all that is past it. -/
theorem IsNearest.before_min (nearest : K.IsNearest (num * 2 ^ K.scale) den mag) (hden : 0 < den)
    (hr : r = num / den) (before : n < min mag top) :
    K.valueAt n + K.valueAt (min mag top) ≤ 2 * r
      ∧ (K.valueAt n + K.valueAt (min mag top) = 2 * r → min mag top % 2 = 0) := by
  rcases lt_or_ge top mag with past | within
  · rw [min_eq_right past.le] at before ⊢
    have beyond := (nearest.before hden hr past).1
    have lt : K.valueAt n < K.valueAt mag := K.valueAt_strictMono (before.trans past)
    exact ⟨by linarith, fun middle => by linarith⟩
  · rw [min_eq_left within] at before ⊢
    exact nearest.before hden hr before

/-- **No value is nearer to the number than the nearest**, and if another is as near
then the nearest is even. -/
theorem IsNearest.dist_le (nearest : K.IsNearest (num * 2 ^ K.scale) den mag) (hden : 0 < den)
    (hr : r = num / den) (hn : n ≤ top) :
    |K.valueAt (min mag top) - r| ≤ |K.valueAt n - r|
      ∧ (|K.valueAt (min mag top) - r| = |K.valueAt n - r| → n ≠ min mag top →
        min mag top % 2 = 0) := by
  rcases lt_trichotomy n (min mag top) with before | rfl | behind
  · obtain ⟨middle, tie⟩ := nearest.before_min hden hr before
    have lt := K.valueAt_strictMono before
    have side : |K.valueAt n - r| = r - K.valueAt n := by
      rw [abs_of_neg] <;> linarith
    rw [side]
    refine ⟨abs_le.2 ⟨by linarith, by linarith⟩, fun equal _ => tie ?_⟩
    rcases abs_cases (K.valueAt (min mag top) - r) with ⟨h, -⟩ | ⟨h, -⟩ <;> linarith
  · exact ⟨le_rfl, fun _ other => absurd rfl other⟩
  · have within : min mag top = mag := min_eq_left (by omega)
    rw [within] at behind ⊢
    obtain ⟨middle, tie⟩ := nearest.behind hden hr behind
    have lt := K.valueAt_strictMono behind
    have side : |K.valueAt n - r| = K.valueAt n - r := by
      rw [abs_of_pos]
      linarith
    rw [side]
    refine ⟨abs_le.2 ⟨by linarith, by linarith⟩, fun equal _ => tie ?_⟩
    rcases abs_cases (K.valueAt mag - r) with ⟨h, -⟩ | ⟨h, -⟩ <;> linarith

/-- The negative of the nearest value is farther from the number, unless both are zero. -/
theorem IsNearest.dist_ne_opposite (nearest : K.IsNearest (num * 2 ^ K.scale) den mag)
    (hden : 0 < den) (hr : r = num / den) (pos : 0 < min mag top) :
    |K.valueAt (min mag top) - r| ≠ K.valueAt (min mag top) + r := by
  have value : 0 < K.valueAt (min mag top) := K.valueAt_zero ▸ K.valueAt_strictMono pos
  have below := (nearest.before_min hden hr pos).1
  rw [K.valueAt_zero] at below
  rcases abs_cases (K.valueAt (min mag top) - r) with ⟨h, -⟩ | ⟨h, -⟩ <;>
    exact fun equal => by linarith

end FloatKind

namespace Fp

variable {K : FloatKind} {x y : Fp K} {neg neg' : Bool} {m n : ℕ} {q : ℚ}

/-! ## Points on the line of numbers -/

/-- Whether a float has a minus sign. -/
def negative : Fp K → Bool
  | nan => false
  | inf neg => neg
  | finite neg _ => neg

/-- **The point where a float stands**: at its value, or for an infinity where the
value after the greatest finite one would be. -/
def point? : Fp K → Option ℚ
  | nan => none
  | inf neg => some (signed neg (2 ^ K.top : Nat))
  | finite neg mag => some (signed neg (K.units mag / (2 ^ K.scale : Nat)))

/-- **Correct rounding, to nearest and a tie to even**: no float stands nearer to the
number, and if another stands as near, at a different point, then the last bit of
this one is zero. -/
def IsRoundingOf (x : Fp K) (q : ℚ) : Prop :=
  ∃ a, x.point? = some a ∧ ∀ (y : Fp K) (b : ℚ), y.point? = some b →
    |a - q| ≤ |b - q| ∧ (|a - q| = |b - q| → b ≠ a → x.toBits % 2 = 0)

theorem point?_ofMag (neg : Bool) (h : m ≤ K.infMag) :
    (ofMag K neg m).point? = some (signed neg (K.valueAt m)) := by
  unfold ofMag
  split
  · rfl
  · obtain rfl : m = K.infMag := by omega
    rw [point?, FloatKind.valueAt_infMag]

theorem negative_ofMag (neg : Bool) (m : ℕ) : (ofMag K neg m).negative = neg := by
  unfold ofMag
  split <;> rfl

/-- What stands somewhere is the float of a sign and a magnitude. -/
theorem exists_eq_ofMag {a : ℚ} (h : x.point? = some a) :
    ∃ neg, ∃ m ≤ K.infMag, x = ofMag K neg m := by
  cases x with
  | nan => cases h
  | inf neg => exact ⟨neg, K.infMag, le_rfl, by rw [ofMag, dif_neg (lt_irrefl _)]⟩
  | finite neg mag => exact ⟨neg, mag, mag.2.le, by rw [ofMag, dif_pos mag.2]⟩

theorem toBits_ofMag_mod (neg : Bool) (h : m ≤ K.infMag) :
    (ofMag K neg m).toBits % 2 = m % 2 := by
  rw [toBits_ofMag neg h]
  cases neg <;> cases K <;> simp [FloatKind.expBits, FloatKind.fracBits] <;> omega

theorem ofMag_min (K : FloatKind) (neg : Bool) (m : ℕ) :
    ofMag K neg (min m K.infMag) = ofMag K neg m := by
  rcases lt_or_ge m K.infMag with within | past
  · rw [min_eq_left within.le]
  · rw [min_eq_right past, ofMag, dif_neg (lt_irrefl _), ofMag, dif_neg past.not_gt]

/-! ## The rounding that is computed -/

theorem abs_signed_sub (neg : Bool) (a q : ℚ) : |signed neg a - q| = |a - signed neg q| := by
  cases neg with
  | false => rfl
  | true =>
    rw [signed, signed, if_pos rfl, if_pos rfl, sub_neg_eq_add, ← abs_neg]
    congr 1
    ring

theorem signed_eq_abs (sign : q ≠ 0 → neg = decide (q < 0)) : signed neg q = |q| := by
  rcases lt_trichotomy q 0 with below | rfl | above
  · rw [sign below.ne, decide_eq_true below, signed, if_pos rfl, abs_of_neg below]
  · cases neg <;> simp [signed]
  · rw [sign above.ne', decide_eq_false above.not_gt, signed, if_neg Bool.false_ne_true,
      abs_of_pos above]

theorem signed_not (neg : Bool) (q : ℚ) : signed (!neg) q = -signed neg q := by
  cases neg with
  | false => rfl
  | true => exact (neg_neg q).symm

theorem negative_nearestTo (K : FloatKind) (neg : Bool) (q : ℚ) :
    (nearestTo K neg q).negative = neg :=
  negative_ofMag neg _

/-- A conversion keeps the sign. -/
theorem negative_convert {L : FloatKind} (x : Fp L) (K : FloatKind) :
    (x.convert K).negative = x.negative := by
  cases x with
  | finite neg mag => exact negative_ofMag neg _
  | _ => rfl

/-- **The float that is computed is a correct rounding.** -/
theorem isRoundingOf_nearestTo (K : FloatKind) (sign : q ≠ 0 → neg = decide (q < 0)) :
    (nearestTo K neg q).IsRoundingOf q := by
  have nearest := K.isNearest_nearest (q.num.natAbs * 2 ^ K.scale) q.den_pos
  rw [nearestTo, round, ← ofMag_min]
  generalize K.nearest (q.num.natAbs * 2 ^ K.scale) q.den = mag at nearest ⊢
  have within : min mag K.infMag ≤ K.infMag := min_le_right _ _
  generalize hr : |q| = r
  have quotient : r = q.num.natAbs / q.den := hr ▸ abs_eq_div q
  have here (m : ℕ) : |signed neg (K.valueAt m) - q| = |K.valueAt m - r| := by
    rw [abs_signed_sub, signed_eq_abs sign, hr]
  refine ⟨_, point?_ofMag neg within, fun y b stands => ?_⟩
  obtain ⟨neg', n, hn, rfl⟩ := exists_eq_ofMag stands
  obtain rfl : _ = b := Option.some.inj ((point?_ofMag neg' hn).symm.trans stands)
  obtain ⟨closer, tie⟩ := nearest.dist_le q.den_pos quotient hn
  have there : |K.valueAt n - r| ≤ |signed neg' (K.valueAt n) - q| := by
    have h := abs_abs_sub_abs_le (signed neg' (K.valueAt n)) q
    rwa [abs_signed, abs_of_nonneg (K.valueAt_nonneg n), hr] at h
  rw [here, toBits_ofMag_mod neg within]
  refine ⟨closer.trans there, fun equal other => ?_⟩
  rcases eq_or_ne n (min mag K.infMag) with rfl | ne
  · -- a float and its negative are equally near to zero only, to which zero is nearest
    rcases Nat.eq_zero_or_pos (min mag K.infMag) with zero | pos
    · rw [zero]
    · have opposite : neg' = !neg := by
        cases neg <;> cases neg' <;> first | rfl | exact absurd rfl other
      have nonneg : 0 ≤ K.valueAt (min mag K.infMag) + r :=
        add_nonneg (K.valueAt_nonneg _) (hr ▸ abs_nonneg q)
      rw [opposite, abs_signed_sub, signed_not, signed_eq_abs sign, hr, sub_neg_eq_add,
        abs_of_nonneg nonneg] at equal
      exact absurd equal (nearest.dist_ne_opposite q.den_pos quotient pos)
  · exact tie (le_antisymm closer (there.trans equal.ge)) ne

/-- A correct rounding among the floats of its sign. -/
theorem IsRoundingOf.closest (h : (ofMag K neg m).IsRoundingOf q) (hm : m ≤ K.infMag)
    (hn : n ≤ K.infMag) :
    |K.valueAt m - signed neg q| ≤ |K.valueAt n - signed neg q|
      ∧ (|K.valueAt m - signed neg q| = |K.valueAt n - signed neg q| → n ≠ m → m % 2 = 0) := by
  obtain ⟨a, stands, closest⟩ := h
  obtain rfl : _ = a := Option.some.inj ((point?_ofMag neg hm).symm.trans stands)
  obtain ⟨le, tie⟩ := closest _ _ (point?_ofMag neg hn)
  rw [abs_signed_sub, abs_signed_sub] at le tie
  refine ⟨le, fun equal ne => ?_⟩
  rw [← toBits_ofMag_mod neg hm]
  refine tie equal fun same => ne ?_
  cases neg with
  | false => exact K.valueAt_strictMono.injective same
  | true => exact K.valueAt_strictMono.injective (neg_injective same)

/-- Of two correct roundings neither is before the other: both would be even, and a
float between them nearer. -/
theorem IsRoundingOf.not_before (h : (ofMag K neg m).IsRoundingOf q)
    (h' : (ofMag K neg n).IsRoundingOf q) (hm : m ≤ K.infMag) (hn : n ≤ K.infMag) : ¬ m < n := by
  intro lt
  obtain ⟨le, tie⟩ := h.closest hm hn
  obtain ⟨le', tie'⟩ := h'.closest hn hm
  have level := le_antisymm le le'
  have even := tie level lt.ne'
  have even' := tie' level.symm lt.ne
  have first : K.valueAt m < K.valueAt (m + 1) := K.valueAt_strictMono (Nat.lt_succ_self m)
  have second : K.valueAt (m + 1) < K.valueAt n := K.valueAt_strictMono (by omega)
  have nearest := (h.closest hm (by omega : m + 1 ≤ K.infMag)).1
  rcases abs_eq_abs.1 level with same | opposite
  · linarith
  · rw [abs_of_neg (by linarith : K.valueAt m - signed neg q < 0)] at nearest
    exact nearest.not_gt (abs_lt.2 ⟨by linarith, by linarith⟩)

/-- **There is only one correct rounding of a sign.** -/
theorem IsRoundingOf.unique (hx : x.IsRoundingOf q) (hy : y.IsRoundingOf q)
    (sign : x.negative = y.negative) : x = y := by
  obtain ⟨a, stands, -⟩ := id hx
  obtain ⟨b, stands', -⟩ := id hy
  obtain ⟨neg, m, hm, rfl⟩ := exists_eq_ofMag stands
  obtain ⟨neg', n, hn, rfl⟩ := exists_eq_ofMag stands'
  obtain rfl : neg = neg' := by rwa [negative_ofMag, negative_ofMag] at sign
  rw [Nat.le_antisymm (not_lt.1 (hy.not_before hx hn hm)) (not_lt.1 (hx.not_before hy hm hn))]

/-- **The float that is computed is the correct rounding.** For a number other than
zero the sign is that of the number. -/
theorem eq_nearestTo_iff (sign : q ≠ 0 → neg = decide (q < 0)) :
    x = nearestTo K neg q ↔ x.IsRoundingOf q ∧ x.negative = neg := by
  constructor
  · rintro rfl
    exact ⟨isRoundingOf_nearestTo K sign, negative_nearestTo K neg q⟩
  · rintro ⟨rounding, negative⟩
    exact rounding.unique (isRoundingOf_nearestTo K sign)
      (negative.trans (negative_nearestTo K neg q).symm)

/-- The number given by its sign and its distance from zero. -/
theorem eq_nearestTo_signed_iff (hq : 0 ≤ q) :
    x = nearestTo K neg q ↔ x.IsRoundingOf (signed neg q) ∧ x.negative = neg := by
  rw [← nearestTo_signed K neg neg, eq_nearestTo_iff (sign_eq hq)]

end Fp

end DynValue

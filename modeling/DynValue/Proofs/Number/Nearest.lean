import DynValue.Proofs.Number.Exact

/-!
# The float nearest to a rational number

Rounding is given a quotient of natural numbers, and it looks at nothing but the
rational number that this quotient is (`FloatKind.nearest_congr`). So there is
one float of a sign nearest to a rational number (`Fp.nearestTo`), and the
conversions from integers and from the other kind both give it: they are one
rounding of the exact value.

What rounds to infinity begins halfway between the greatest finite value and the
next value there would be (`FloatKind.limit`). Between the two lies a band of
numbers that are greater than every finite value and round to a finite one.
-/

namespace DynValue

namespace FloatKind

variable {K : FloatKind} {num den num' den' mag : Nat}

/-! ## Rounding looks at the quotient only -/

theorem IsNearest.mul_right (h : K.IsNearest num den mag) {c : Nat} (hc : 0 < c) :
    K.IsNearest (num * c) (den * c) mag := by
  have below {a b : Nat} : a * (b * c) < 2 * (num * c) ↔ a * b < 2 * num := by
    rw [← Nat.mul_assoc, ← Nat.mul_assoc, Nat.mul_lt_mul_right hc]
  have above {a b : Nat} : 2 * (num * c) < a * (b * c) ↔ 2 * num < a * b := by
    rw [← Nat.mul_assoc, ← Nat.mul_assoc, Nat.mul_lt_mul_right hc]
  have equal {a b : Nat} : 2 * (num * c) = a * (b * c) ↔ 2 * num = a * b := by
    rw [← Nat.mul_assoc, ← Nat.mul_assoc, Nat.mul_left_inj hc.ne']
  have equal' {a b : Nat} : a * (b * c) = 2 * (num * c) ↔ a * b = 2 * num := by
    rw [eq_comm, equal, eq_comm]
  rw [IsNearest, above, equal, below, equal']
  exact h

theorem nearest_mul_right (K : FloatKind) (num : Nat) (hden : 0 < den) {c : Nat} (hc : 0 < c) :
    K.nearest (num * c) (den * c) = K.nearest num den :=
  (K.isNearest_nearest _ (Nat.mul_pos hden hc)).unique (Nat.mul_pos hden hc)
    ((K.isNearest_nearest num hden).mul_right hc)

/-- **Equal quotients round alike.** -/
theorem nearest_congr (hden : 0 < den) (hden' : 0 < den') (h : num * den' = num' * den) :
    K.nearest num den = K.nearest num' den' := by
  rw [← K.nearest_mul_right num hden hden', ← K.nearest_mul_right num' hden' hden, h,
    Nat.mul_comm den]

/-- **What rounds to a magnitude or one before it** lies below the midpoint to
the next, or on it if the magnitude is even. -/
theorem nearest_le_iff (hden : 0 < den) :
    K.nearest num den ≤ mag ↔ 2 * num < (K.units mag + K.units (mag + 1)) * den
      ∨ 2 * num = (K.units mag + K.units (mag + 1)) * den ∧ mag % 2 = 0 := by
  obtain ⟨upper, lower⟩ := K.isNearest_nearest num hden
  generalize K.nearest num den = n at upper lower
  constructor
  · intro le
    rcases Nat.lt_or_eq_of_le le with lt | rfl
    · have sum : K.units n + K.units (n + 1) < K.units mag + K.units (mag + 1) :=
        Nat.add_lt_add_of_lt_of_le (K.units_strictMono lt) (units_le_units (by omega))
      have := Nat.mul_lt_mul_of_pos_right sum hden
      exact .inl (by omega)
    · exact upper
  · refine fun midpoint => Nat.le_of_not_lt fun lt => ?_
    have le : K.units mag ≤ K.units (n - 1) := units_le_units (by omega)
    have le' : K.units (mag + 1) ≤ K.units n := units_le_units lt
    have := Nat.mul_le_mul_right den (Nat.add_le_add le le')
    -- on the midpoint itself the neighbours would both be even
    rcases Nat.lt_or_eq_of_le (Nat.le_sub_one_of_lt lt) with far | rfl
    · have sum : K.units mag + K.units (mag + 1) < K.units (n - 1) + K.units n :=
        Nat.add_lt_add_of_lt_of_le (K.units_strictMono far) le'
      have := Nat.mul_lt_mul_of_pos_right sum hden
      omega
    · rw [Nat.sub_add_cancel (Nat.zero_lt_of_lt lt)] at midpoint
      omega

/-- **Rounding is monotone.** -/
theorem nearest_mono (hden : 0 < den) (hden' : 0 < den') (h : num * den' ≤ num' * den) :
    K.nearest num den ≤ K.nearest num' den' := by
  have cross : 2 * num * den' ≤ 2 * num' * den := by
    rw [Nat.mul_assoc, Nat.mul_assoc]
    exact Nat.mul_le_mul_left 2 h
  have upper := (K.isNearest_nearest num' hden').1
  rw [nearest_le_iff hden]
  generalize K.units (K.nearest num' den') + K.units (K.nearest num' den' + 1) = midpoint at *
  rcases upper with below | ⟨on, even⟩
  · refine .inl (Nat.lt_of_mul_lt_mul_right (a := den') ?_)
    rw [Nat.mul_right_comm midpoint]
    exact cross.trans_lt (Nat.mul_lt_mul_of_pos_right below hden)
  · have le : 2 * num ≤ midpoint * den := by
      refine Nat.le_of_mul_le_mul_right ?_ hden'
      rwa [Nat.mul_right_comm midpoint, ← on]
    exact (Nat.lt_or_eq_of_le le).imp_right fun equal => ⟨equal, even⟩

/-! ## The band past the greatest finite value -/

/-- The greatest finite value of a kind. -/
def greatest (K : FloatKind) : ℚ := K.units (K.infMag - 1) / (2 ^ K.scale : Nat)

/-- **What rounds to infinity begins here**: halfway between the greatest finite
value and the next value that there would be. -/
def limit (K : FloatKind) : ℚ :=
  (K.units (K.infMag - 1) + K.units K.infMag : Nat) / (2 * 2 ^ K.scale : Nat)

theorem greatest_lt_limit (K : FloatKind) : K.greatest < K.limit := by
  have next : K.units (K.infMag - 1) < K.units K.infMag :=
    K.units_strictMono (Nat.sub_one_lt (Fp.infMag_pos K).ne')
  have next' : (K.units (K.infMag - 1) : ℚ) < K.units K.infMag := Nat.cast_lt.2 next
  rw [greatest, limit, Nat.cast_mul, Nat.cast_add, ← div_div]
  refine div_lt_div_of_pos_right ?_ (Fp.natCast_scale_pos K)
  rw [lt_div_iff₀ (by norm_num)]
  norm_num
  linarith

end FloatKind

namespace Fp

variable {K L : FloatKind} {q : ℚ}

/-! ## The nearest float -/

/-- **The float with a sign that is nearest to a rational number**, given by its
distance from zero. -/
def nearestTo (K : FloatKind) (neg : Bool) (q : ℚ) : Fp K :=
  round K neg (q.num.natAbs * 2 ^ K.scale) q.den

theorem abs_eq_div (q : ℚ) : |q| = q.num.natAbs / q.den := by
  rw [Nat.cast_natAbs, Int.cast_abs, ← Nat.abs_cast q.den, ← abs_div, Rat.num_div_den]

theorem nearestTo_signed (K : FloatKind) (neg neg' : Bool) (q : ℚ) :
    nearestTo K neg (signed neg' q) = nearestTo K neg q := by
  cases neg' with
  | false => rfl
  | true =>
    rw [signed, if_pos rfl, nearestTo, Rat.num_neg_eq_neg_num, Rat.den_neg_eq_den, Int.natAbs_neg,
      nearestTo]

/-- The nearest float of a sign is given by the distance from zero. -/
theorem nearestTo_abs (K : FloatKind) (neg : Bool) (q : ℚ) :
    nearestTo K neg |q| = nearestTo K neg q := by
  rcases abs_choice q with same | opposite
  · rw [same]
  · rw [opposite]
    exact nearestTo_signed K neg true q

/-- Every quotient that is the rational number rounds to this float. -/
theorem round_eq_nearestTo {num den : Nat} (hden : 0 < den) (neg : Bool) (h : |q| = num / den) :
    round K neg (num * 2 ^ K.scale) den = nearestTo K neg q := by
  have cross : num * q.den = q.num.natAbs * den := by
    rw [abs_eq_div, div_eq_div_iff (Nat.cast_ne_zero.2 q.den_nz)
      (Nat.cast_ne_zero.2 hden.ne')] at h
    exact_mod_cast h.symm
  rw [nearestTo, round, round, FloatKind.nearest_congr hden q.den_pos]
  rw [Nat.mul_right_comm, cross, Nat.mul_right_comm]

theorem eq_of_ofMag_eq_finite {neg neg' : Bool} {n : Nat} {mag : Fin K.infMag}
    (h : ofMag K neg n = finite neg' mag) : n = mag := by
  unfold ofMag at h
  split at h <;> cases h
  rfl

/-- **What lies between two numbers with one nearest float** has it too. -/
theorem nearestTo_of_between {a b : ℚ} {neg : Bool} {mag : Fin K.infMag}
    (ha : nearestTo K neg a = finite neg mag) (hb : nearestTo K neg b = finite neg mag)
    (haq : |a| ≤ |q|) (hqb : |q| ≤ |b|) : nearestTo K neg q = finite neg mag := by
  have mono {r s : ℚ} (h : |r| ≤ |s|) :
      K.nearest (r.num.natAbs * 2 ^ K.scale) r.den
        ≤ K.nearest (s.num.natAbs * 2 ^ K.scale) s.den := by
    rw [abs_eq_div, abs_eq_div, div_le_div_iff₀ (Nat.cast_pos.2 r.den_pos)
      (Nat.cast_pos.2 s.den_pos), ← Nat.cast_mul, ← Nat.cast_mul, Nat.cast_le] at h
    refine FloatKind.nearest_mono r.den_pos s.den_pos ?_
    rw [Nat.mul_right_comm, Nat.mul_right_comm s.num.natAbs]
    exact Nat.mul_le_mul_right _ h
  have low := mono haq
  have high := mono hqb
  rw [nearestTo, round] at ha hb
  rw [eq_of_ofMag_eq_finite ha] at low
  rw [eq_of_ofMag_eq_finite hb] at high
  rw [nearestTo, round, Nat.le_antisymm high low, ofMag, dif_pos mag.2]

/-- The value of a magnitude is its own nearest float. -/
theorem nearestTo_value (neg : Bool) (mag : Fin K.infMag) :
    nearestTo K neg (K.units mag / (2 ^ K.scale : Nat)) = finite neg mag := by
  rw [← round_eq_nearestTo (Nat.two_pow_pos K.scale) neg (abs_of_nonneg (by positivity)), round,
    K.nearest_units mag (Nat.two_pow_pos K.scale), ofMag, dif_pos mag.2]

theorem nearestTo_zero (K : FloatKind) (neg : Bool) : nearestTo K neg 0 = zero K neg := by
  have h := nearestTo_value neg (⟨0, infMag_pos K⟩ : Fin K.infMag)
  rwa [FloatKind.units_zero, Nat.cast_zero, zero_div] at h

/-- **An integer converts to the float nearest to it.** -/
theorem ofInt_eq_nearestTo (K : FloatKind) (n : ℤ) :
    ofInt K n = nearestTo K (decide (n < 0)) n := by
  rw [nearestTo, Rat.num_intCast, Rat.den_intCast, ofInt]

/-- **A finite float converts to the float nearest to its value**, with its
sign. -/
theorem convert_eq_nearestTo (neg : Bool) (mag : Fin L.infMag) :
    (finite neg mag : Fp L).convert K
      = nearestTo K neg (L.units mag / (2 ^ L.scale : Nat)) :=
  round_eq_nearestTo (Nat.two_pow_pos L.scale) neg (abs_of_nonneg (by positivity))

/-- A float is converted to its own kind without a change. -/
theorem convert_self (x : Fp K) : x.convert K = x := by
  cases x with
  | nan => rfl
  | inf neg => rfl
  | finite neg mag => rw [convert_eq_nearestTo, nearestTo_value]

/-- **A float that was widened is converted back to itself.** -/
theorem convert_widen (x : Fp L) : (x.convert .double).convert L = x := by
  cases x with
  | nan => rfl
  | inf neg => rfl
  | finite neg mag =>
    have value := (finite neg mag : Fp L).value?_widen
    rw [convert_eq_nearestTo, nearestTo, round, ofMag] at value ⊢
    split at value
    · rename_i below
      rw [dif_pos below, convert_eq_nearestTo, ← nearestTo_value neg mag]
      refine congrArg (nearestTo L neg) ?_
      have same := Option.some.inj value
      cases neg with
      | false => exact same
      | true => exact neg_injective same
    · cases value

/-! ## What is refused -/

theorem isFinite_ofMag (neg : Bool) (mag : Nat) :
    (ofMag K neg mag).isFinite = true ↔ mag < K.infMag := by
  unfold ofMag
  split
  · rename_i below
    exact iff_of_true rfl below
  · rename_i past
    exact iff_of_false nofun past

/-- **What is at the limit rounds to infinity**, and what is below it does not. -/
theorem isFinite_nearestTo (K : FloatKind) (neg : Bool) (q : ℚ) :
    (nearestTo K neg q).isFinite = true ↔ |q| < K.limit := by
  have odd : (K.infMag - 1) % 2 ≠ 0 := by cases K <;> decide
  have last : K.infMag - 1 + 1 = K.infMag := Nat.sub_add_cancel (infMag_pos K)
  have twice : 0 < 2 * 2 ^ K.scale := Nat.mul_pos two_pos (Nat.two_pow_pos _)
  rw [nearestTo, round, isFinite_ofMag, ← Nat.le_sub_one_iff_lt (infMag_pos K),
    FloatKind.nearest_le_iff q.den_pos, last, or_iff_left fun h => odd h.2, abs_eq_div,
    FloatKind.limit, div_lt_div_iff₀ (Nat.cast_pos.2 q.den_pos) (Nat.cast_pos.2 twice),
    ← Nat.cast_mul, ← Nat.cast_mul, Nat.cast_lt, Nat.mul_left_comm]

theorem abs_signed (neg : Bool) (q : ℚ) : |signed neg q| = |q| := by
  cases neg with
  | false => rfl
  | true => exact abs_neg q

/-- The sign of a float can be told from its value, unless this is zero. -/
theorem sign_eq {neg : Bool} {q : ℚ} (hq : 0 ≤ q) (h : signed neg q ≠ 0) :
    neg = decide (signed neg q < 0) := by
  cases neg with
  | false => exact (decide_eq_false hq.not_gt).symm
  | true =>
    have positive : 0 < q := lt_of_le_of_ne hq fun zero => h (by rw [← zero]; exact neg_zero)
    exact (decide_eq_true (neg_lt_zero.2 positive)).symm

/-- **A finite float exceeds a kind** if it is farther from zero than the kind's
greatest finite value. -/
theorem exceeds_iff {x : Fp L} (hx : x.value? = some q) :
    x.exceeds K = true ↔ K.greatest < |q| := by
  cases x with
  | nan => cases hx
  | inf neg => cases hx
  | finite neg mag =>
    obtain rfl : _ = q := Option.some.inj hx
    rw [abs_signed, abs_of_nonneg (by positivity), FloatKind.greatest,
      div_lt_div_iff₀ (natCast_scale_pos K) (natCast_scale_pos L), ← Nat.cast_mul, ← Nat.cast_mul,
      Nat.cast_lt, exceeds, decide_eq_true_iff]

/-- No finite float is farther from zero than the greatest value of its kind. -/
theorem abs_le_greatest {x : Fp K} (hx : x.value? = some q) : |q| ≤ K.greatest := by
  cases x with
  | nan => cases hx
  | inf neg => cases hx
  | finite neg mag =>
    obtain rfl : _ = q := Option.some.inj hx
    rw [abs_signed, abs_of_nonneg (by positivity)]
    exact div_le_div_of_nonneg_right
      (Nat.cast_le.2 (FloatKind.units_le_units (Nat.le_sub_one_of_lt mag.2)))
      (natCast_scale_pos K).le

/-- A float that was widened does not exceed the kind that it was of. -/
theorem exceeds_widen (x : Fp L) : (x.convert .double).exceeds L = false := by
  cases x with
  | nan => rfl
  | inf neg => rfl
  | finite neg mag =>
    rw [Bool.eq_false_iff, ne_eq, exceeds_iff (finite neg mag : Fp L).value?_widen, not_lt]
    exact abs_le_greatest (x := finite neg mag) rfl

end Fp

end DynValue

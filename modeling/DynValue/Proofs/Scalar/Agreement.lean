import DynValue.Proofs.Number.CorrectRounding
import DynValue.Proofs.Scalar.Integer

/-!
# Conversions of numbers of one value

A value can be stored in several kinds: as an integer, as a float of either
kind, or as a truth value. What a conversion into a kind of number makes of it
depends on the value alone, up to one difference. Into an integer kind it is the
value truncated, and into a float kind it is the float nearest to the value,
with whatever sign a zero had. What is refused, however, is decided on the value
for a float and on the result for an integer, so that an integer may be farther
from zero than every finite float of a kind and still be rounded to one of them,
where a float of the same value is refused (`Payload.Fits`).

No integer is so large that this matters for the wider kind of float. For the
narrower one the numbers concerned are those between its greatest finite value
and the limit from which on everything rounds to infinity.
-/

namespace DynValue

variable {C : CallerTypes}

/-! ## The values of numbers -/

/-- **The value of a number**: a rational number, or one of the two infinities. -/
inductive NumericValue where
  | rational (q : ℚ)
  /-- The infinity of a sign. -/
  | infinity (neg : Bool)
  deriving DecidableEq

/-- The value as a rational number, if it is one. -/
def NumericValue.rational? : NumericValue → Option ℚ
  | rational q => some q
  | infinity _ => none

namespace Fp

variable {K : FloatKind}

/-- **The value of a float.** Not-a-number has none. -/
def numericValue? : Fp K → Option NumericValue
  | nan => none
  | inf neg => some (.infinity neg)
  | finite neg mag => (finite neg mag).value?.map .rational

theorem value?_of_numericValue? {x : Fp K} {a : NumericValue} (h : x.numericValue? = some a) :
    x.value? = a.rational? := by
  cases x with
  | nan => cases h
  | _ => cases h; rfl

theorem numericValue?_of_value? {x : Fp K} {q : ℚ} (h : x.value? = some q) :
    x.numericValue? = some (.rational q) := by
  cases x with
  | finite neg mag => rw [numericValue?, h, Option.map_some]
  | _ => cases h

theorem eq_inf_of_numericValue? {x : Fp K} {neg : Bool}
    (h : x.numericValue? = some (.infinity neg)) : x = inf neg := by
  cases x with
  | inf neg => cases h; rfl
  | _ => cases h

/-- Both zeros have the value zero. -/
theorem numericValue?_zero (K : FloatKind) (neg : Bool) :
    (zero K neg).numericValue? = some (.rational 0) := by
  rw [zero, numericValue?, value?, FloatKind.units_zero, Nat.cast_zero, zero_div]
  cases neg with
  | false => rfl
  | true => exact congrArg (some ∘ NumericValue.rational) neg_zero

/-- A rounding has a value, and for zero the sign makes no difference to it. -/
theorem exists_numericValue?_nearestTo (K : FloatKind) {neg neg' : Bool} {q : ℚ}
    (sign : q ≠ 0 → neg = neg') :
    ∃ a, (nearestTo K neg q).numericValue? = some a
      ∧ (nearestTo K neg' q).numericValue? = some a := by
  by_cases zero : q = 0
  · rw [zero, nearestTo_zero, nearestTo_zero]
    exact ⟨_, numericValue?_zero K neg, numericValue?_zero K neg'⟩
  · rw [sign zero, nearestTo, round, ofMag]
    split <;> exact ⟨_, rfl, rfl⟩

end Fp

/-! ## Widened numbers in a float kind

The wider kind is not checked for numbers that are too large. It could be: no
number would be refused. -/

/-- An integer of any kind is no farther from zero than `2 ^ 128`. -/
theorem WideInt.abs_val_le (n : WideInt) : |(n.val : ℚ)| ≤ (2 ^ 128 : Nat) := by
  obtain ⟨low, high⟩ := holds_iff.1 n.holds
  have least : IntKind.widestSigned.least = -2 ^ 127 := by decide
  have bound : |n.val| ≤ (2 ^ 128 : Nat) := abs_le.2 (by omega)
  exact_mod_cast bound

theorem FloatKind.le_double_greatest : (2 ^ 128 : Nat) ≤ double.greatest := by
  have last : 2 ^ 128 * 2 ^ double.scale ≤ double.units (double.infMag - 1) := by decide +kernel
  rw [greatest, le_div_iff₀ (Fp.natCast_scale_pos _), ← Nat.cast_mul]
  exact Nat.cast_le.2 last

namespace Number

/-- **An integer is rounded first**, and refused if it became infinite. -/
theorem toFloat?_int (n : WideInt) (L : FloatKind) :
    (int n).toFloat? L =
      if |(n.val : ℚ)| < L.limit then some (Fp.nearestTo L (decide (n.val < 0)) n.val)
      else none := by
  cases L with
  | single =>
    rw [toFloat?, Fp.ofInt_eq_nearestTo]
    exact if_congr (Fp.isFinite_nearestTo .single _ _) rfl rfl
  | double =>
    have within : |(n.val : ℚ)| < FloatKind.double.limit :=
      (n.abs_val_le.trans FloatKind.le_double_greatest).trans_lt FloatKind.double.greatest_lt_limit
    rw [toFloat?, Fp.ofInt_eq_nearestTo, if_pos within]

/-- **A finite float is looked at first**, and rounded if it is not too far from
zero. -/
theorem toFloat?_float {x : Fp .double} {q : ℚ} (hx : x.value? = some q) (L : FloatKind) :
    (float x).toFloat? L =
      if |q| ≤ L.greatest then some (Fp.nearestTo L x.negative q) else none := by
  have exceeds := Fp.exceeds_iff (K := L) hx
  have rounded : x.convert L = Fp.nearestTo L x.negative q := by
    cases x with
    | finite neg mag =>
      obtain rfl : _ = q := Option.some.inj hx
      rw [Fp.convert_eq_nearestTo, Fp.nearestTo_signed, Fp.negative]
    | _ => cases hx
  cases L with
  | single =>
    rw [toFloat?, rounded]
    rcases le_or_gt |q| FloatKind.single.greatest with within | past
    · rw [if_pos within, if_neg (mt exceeds.1 within.not_gt)]
    · rw [if_neg past.not_ge, if_pos (exceeds.2 past)]
  | double => rw [toFloat?, if_pos (Fp.abs_le_greatest hx), ← rounded, Fp.convert_self]

/-- A float that was widened is taken back as it was. -/
theorem toFloat?_widen {L : FloatKind} (x : Fp L) :
    (float (x.convert .double)).toFloat? L = some x := by
  cases L with
  | single => rw [toFloat?, Fp.exceeds_widen, if_neg Bool.false_ne_true, Fp.convert_widen]
  | double => rw [toFloat?, Fp.convert_self]

end Number

/-! ## Stored numbers -/

namespace Payload

/-- **The value of a stored number.** -/
def numericValue? : Payload C → Option NumericValue
  | int _ n => some (.rational n.1)
  | float _ x => x.numericValue?
  | bool b => some (.rational (if b then 1 else 0))
  | _ => none

/-- **The sign of a stored number.** A float has one also if it is zero. -/
def negative : Payload C → Bool
  | int _ n => decide (n.1 < 0)
  | float _ x => x.negative
  | _ => false

/-- **Two numbers are equal** as numbers, whatever kinds they are of. -/
def SameNumber (p q : Payload C) : Prop :=
  ∃ a, p.numericValue? = some a ∧ q.numericValue? = some a

/-- A number is stored as a float. -/
def IsFloat : Payload C → Prop
  | float _ _ => True
  | _ => False

/-- **A stored number of a value is taken into a float kind**: as a float if it
is no farther from zero than the greatest finite value, as an integer if it does
not round to infinity. -/
def Fits (p : Payload C) (L : FloatKind) (q : ℚ) : Prop :=
  (p.IsFloat → |q| ≤ L.greatest) ∧ (¬ p.IsFloat → |q| < L.limit)

variable {p : Payload C} {a : NumericValue}

theorem isNumber_of_numericValue? (h : p.numericValue? = some a) : p.IsNumber := by
  cases p with
  | int _ _ | float _ _ | bool _ => trivial
  | _ => cases h

theorem exactValue?_of_numericValue? (h : p.numericValue? = some a) :
    p.exactValue? = a.rational? := by
  cases p with
  | int k n => cases h; rfl
  | float K x => exact Fp.value?_of_numericValue? h
  | bool b => cases h; rfl
  | _ => cases h

/-- The sign can be told from the value, unless this is zero. -/
theorem negative_eq {q : ℚ} (h : p.numericValue? = some (.rational q)) (nonzero : q ≠ 0) :
    p.negative = decide (q < 0) := by
  cases p with
  | int k n =>
    cases h
    exact decide_eq_decide.2 Int.cast_lt_zero.symm
  | bool b =>
    cases h
    exact (decide_eq_false (by cases b <;> norm_num)).symm
  | float K x =>
    have value := Fp.value?_of_numericValue? h
    cases x with
    | finite neg mag =>
      obtain rfl : _ = q := Option.some.inj value
      exact Fp.sign_eq (by positivity) nonzero
    | _ => cases value
  | _ => cases h

/-- **Widening keeps the value and the sign**, of an integer or a truth value as an
integer and of a float as a float. -/
theorem number?_of_rational {q : ℚ} (h : p.numericValue? = some (.rational q)) :
    (¬ p.IsFloat ∧ ∃ n : WideInt, p.number? = some (.int n) ∧ q = n.val
      ∧ p.negative = decide (n.val < 0))
    ∨ (p.IsFloat ∧ ∃ x : Fp .double, p.number? = some (.float x) ∧ x.value? = some q
      ∧ p.negative = x.negative) := by
  cases p with
  | int k n =>
    cases h
    have value := WideInt.val_ofInt n
    exact .inl ⟨id, _, rfl, congrArg Int.cast value.symm, by rw [value]; rfl⟩
  | bool b =>
    cases h
    exact .inl ⟨id, .ofBool b, rfl, by cases b <;> rfl, by cases b <;> rfl⟩
  | float K x =>
    exact .inr ⟨trivial, _, rfl, x.value?_widen.trans (Fp.value?_of_numericValue? h),
      (x.negative_convert .double).symm⟩
  | _ => cases h

/-- **What a float kind makes of a stored number** of a rational value: the float
nearest to the value, of the sign of the number, if the number is taken at all. -/
theorem exists_toFloat? {q : ℚ} (h : p.numericValue? = some (.rational q)) (L : FloatKind) :
    ∃ number, p.number? = some number
      ∧ (p.Fits L q → number.toFloat? L = some (Fp.nearestTo L p.negative q))
      ∧ (¬ p.Fits L q → number.toFloat? L = none) := by
  rcases number?_of_rational h with
    ⟨stored, n, widened, rfl, sign⟩ | ⟨stored, x, widened, value, sign⟩
  · refine ⟨_, widened, fun fits => ?_, fun outside => ?_⟩
    · rw [Number.toFloat?_int, if_pos (fits.2 stored), sign]
    · rw [Number.toFloat?_int, if_neg]
      exact fun within => outside ⟨fun h => absurd h stored, fun _ => within⟩
  · refine ⟨_, widened, fun fits => ?_, fun outside => ?_⟩
    · rw [Number.toFloat?_float value, if_pos (fits.1 stored), sign]
    · rw [Number.toFloat?_float value, if_neg]
      exact fun within => outside ⟨fun _ => within, fun h => absurd stored h⟩

theorem eq_of_infinity {neg : Bool} (h : p.numericValue? = some (.infinity neg)) :
    ∃ K, p = float K (.inf neg) := by
  cases p with
  | float K x => exact ⟨K, congrArg (float K) (Fp.eq_inf_of_numericValue? h)⟩
  | _ => cases h

/-! ## Integers and floats in the band -/

theorem fits_iff_le {L : FloatKind} {q : ℚ} (float : p.IsFloat) :
    p.Fits L q ↔ |q| ≤ L.greatest :=
  ⟨fun fits => fits.1 float, fun within => ⟨fun _ => within, absurd float⟩⟩

theorem fits_iff_lt {L : FloatKind} {q : ℚ} (integer : ¬ p.IsFloat) :
    p.Fits L q ↔ |q| < L.limit :=
  ⟨fun fits => fits.2 integer, fun within => ⟨fun float => absurd float integer, fun _ => within⟩⟩

/-- **Two numbers of one value are taken alike**, except for an integer and a
float in the band past the greatest finite value. -/
theorem fits_congr_iff {p p' : Payload C} {L : FloatKind} {q : ℚ} :
    (p.Fits L q ↔ p'.Fits L q) ↔
      ¬ ((p.IsFloat ↔ ¬ p'.IsFloat) ∧ L.greatest < |q| ∧ |q| < L.limit) := by
  have band : (|q| ≤ L.greatest ↔ |q| < L.limit) ↔ ¬ (L.greatest < |q| ∧ |q| < L.limit) :=
    ⟨fun alike between => (alike.2 between.2).not_gt between.1,
      fun outside => ⟨fun within => within.trans_lt L.greatest_lt_limit,
        fun below => not_lt.1 fun above => outside ⟨above, below⟩⟩⟩
  by_cases h : p.IsFloat <;> by_cases h' : p'.IsFloat
  · rw [fits_iff_le h, fits_iff_le h']
    exact iff_of_true Iff.rfl fun differ => differ.1.1 h h'
  · rw [fits_iff_le h, fits_iff_lt h', band, and_iff_right (iff_of_true h h')]
  · rw [fits_iff_lt h, fits_iff_le h', @Iff.comm (|q| < L.limit), band,
      and_iff_right (iff_of_false h (not_not.2 h'))]
  · rw [fits_iff_lt h, fits_iff_lt h']
    exact iff_of_true Iff.rfl fun differ => h (differ.1.2 h')

/-- A number that is no float is no farther from zero than `2 ^ 128`. -/
theorem abs_le_of_not_isFloat {q : ℚ} (h : p.numericValue? = some (.rational q))
    (integer : ¬ p.IsFloat) : |q| ≤ (2 ^ 128 : Nat) := by
  rcases number?_of_rational h with ⟨-, n, -, rfl, -⟩ | ⟨float, -⟩
  · exact n.abs_val_le
  · exact absurd float integer

end Payload

namespace FloatKind

theorem single_greatest : single.greatest = 2 ^ 128 - 2 ^ 104 := by
  have last : single.units (single.infMag - 1) = (2 ^ 128 - 2 ^ 104) * 2 ^ 149 := by
    decide +kernel
  rw [greatest, last]
  norm_num [scale]

theorem single_limit : single.limit = 2 ^ 128 - 2 ^ 103 := by
  have sum : single.units (single.infMag - 1) + single.units single.infMag
      = (2 ^ 128 - 2 ^ 103) * (2 * 2 ^ 149) := by
    decide +kernel
  rw [limit, sum]
  norm_num [scale]

end FloatKind

namespace Variant

variable {v : Variant C} {p : Payload C}

/-- The rule of a float kind, for a stored number. -/
theorem toFloat_eq (hv : v.payload = some p) {number : Number} (hp : p.number? = some number)
    (L : FloatKind) :
    v.toFloat L = match number.toFloat? L with
      | some x => .ok (.float L x)
      | none => .error ((v.castError (.float L)).because .outOfRange) := by
  have text : v.text? = none := by
    rw [text?, hv]
    cases p with
    | text s => cases hp
    | _ => rfl
  cases whole : number.toFloat? L <;> simp only [toFloat, text, hv, Option.bind_some, hp, whole]

/-- The stored value of the kind itself is no exception. -/
theorem convert_toFloat (hv : v.payload = some p) {number : Number} (hp : p.number? = some number)
    (K : Converters C) (alive : RefSet) (L : FloatKind) :
    (v.convert K alive (.float L)).value = v.toFloat L := by
  by_cases type : p.type = .float L
  · rw [convert_of_type K alive hv type]
    cases p with
    | float L' x =>
      obtain rfl : L' = L := Ty.float.inj type
      cases hp
      rw [toFloat_eq hv rfl, Number.toFloat?_widen]
    | _ => cases type
  · exact convert_of_type_ne K alive hv type

variable {q : ℚ} {neg : Bool} (K : Converters C) (alive : RefSet) (L : FloatKind)

/-- **A stored number of a rational value converts to the float nearest to it**, of
its own sign, if it is taken into the kind, and is refused as out of range
otherwise. -/
theorem convert_float_eq (hv : v.payload = some p)
    (hp : p.numericValue? = some (.rational q)) :
    (p.Fits L q → (v.convert K alive (.float L)).value
        = .ok (.float L (Fp.nearestTo L p.negative q)))
    ∧ (¬ p.Fits L q → (v.convert K alive (.float L)).value
        = .error ((v.castError (.float L)).because .outOfRange)) := by
  obtain ⟨number, widened, taken, refused⟩ := Payload.exists_toFloat? hp L
  rw [convert_toFloat hv widened, toFloat_eq hv widened]
  exact ⟨fun fits => by rw [taken fits], fun outside => by rw [refused outside]⟩

theorem convert_float_infinity (hv : v.payload = some p)
    (hp : p.numericValue? = some (.infinity neg)) :
    (v.convert K alive (.float L)).value = .ok (.float L (.inf neg)) := by
  obtain ⟨L', rfl⟩ := Payload.eq_of_infinity hp
  rw [convert_toFloat hv rfl, toFloat_eq hv rfl]
  cases L <;> rfl

end Variant

/-! ## Agreement -/

/-- **The types of numbers**: integers and floats of every kind. -/
def Ty.IsNumeric : Ty C → Prop
  | .int _ | .float _ => True
  | _ => False

/-- **Two outcomes agree**: both are refusals, or both are numbers, of one
value. -/
def Agree : Except (CastError C) (Payload C) → Except (CastError C) (Payload C) → Prop
  | .ok r, .ok s => r.SameNumber s
  | .error _, .error _ => True
  | _, _ => False

namespace Variant

variable {v w : Variant C} {p p' : Payload C} (K : Converters C) (alive : RefSet)

/-- **Into a float kind, numbers of one rational value agree** if the kind takes
both or none. -/
theorem agree_float_iff (hv : v.payload = some p) (hw : w.payload = some p') {q : ℚ}
    (hp : p.numericValue? = some (.rational q)) (hp' : p'.numericValue? = some (.rational q))
    (L : FloatKind) :
    Agree (v.convert K alive (.float L)).value (w.convert K alive (.float L)).value
      ↔ (p.Fits L q ↔ p'.Fits L q) := by
  obtain ⟨taken, refused⟩ := convert_float_eq K alive L hv hp
  obtain ⟨taken', refused'⟩ := convert_float_eq K alive L hw hp'
  by_cases fits : p.Fits L q <;> by_cases fits' : p'.Fits L q
  · rw [taken fits, taken' fits']
    have same := Fp.exists_numericValue?_nearestTo L fun nonzero =>
      (Payload.negative_eq hp nonzero).trans (Payload.negative_eq hp' nonzero).symm
    exact iff_of_true same (iff_of_true fits fits')
  · rw [taken fits, refused' fits']
    exact iff_of_false id fun h => fits' (h.1 fits)
  · rw [refused fits, taken' fits']
    exact iff_of_false id fun h => fits (h.2 fits')
  · rw [refused fits, refused' fits']
    exact iff_of_true trivial (iff_of_false fits fits')

/-- Into an integer kind, numbers of one value agree. -/
theorem agree_int (hv : v.payload = some p) (hw : w.payload = some p') {a : NumericValue}
    (hp : p.numericValue? = some a) (hp' : p'.numericValue? = some a) (k : IntKind) :
    Agree (v.convert K alive (.int k)).value (w.convert K alive (.int k)).value := by
  have number := Payload.isNumber_of_numericValue? hp
  have number' := Payload.isNumber_of_numericValue? hp'
  rw [convert_toInt hv number, convert_toInt hw number', toInt_eq hv number, toInt_eq hw number',
    Payload.exactValue?_of_numericValue? hp, Payload.exactValue?_of_numericValue? hp']
  cases a.rational?.bind fun q => k.ofInt? (towardZero q) with
  | none => trivial
  | some n => exact ⟨_, rfl, rfl⟩

/-- **Numbers of one value convert alike into every kind of number**: they are both
refused, or give numbers of one value again. The only exception is an integer
and a float that are converted into the narrower kind of float and are past its
greatest finite value but not at the limit from which everything rounds to
infinity. -/
theorem convert_agree_iff (hv : v.payload = some p) (hw : w.payload = some p') {a : NumericValue}
    (hp : p.numericValue? = some a) (hp' : p'.numericValue? = some a) {t : Ty C}
    (numeric : t.IsNumeric) :
    Agree (v.convert K alive t).value (w.convert K alive t).value
      ↔ ¬ (t = .float .single ∧ (p.IsFloat ↔ ¬ p'.IsFloat)
        ∧ ∃ q, a = .rational q ∧ 2 ^ 128 - 2 ^ 104 < |q| ∧ |q| < 2 ^ 128 - 2 ^ 103) := by
  cases t with
  | int k => exact iff_of_true (agree_int K alive hv hw hp hp' k) nofun
  | float L =>
    cases a with
    | infinity neg =>
      rw [convert_float_infinity K alive L hv hp, convert_float_infinity K alive L hw hp']
      exact iff_of_true ⟨_, rfl, rfl⟩ nofun
    | rational q =>
      rw [agree_float_iff K alive hv hw hp hp', Payload.fits_congr_iff, not_iff_not]
      cases L with
      | single =>
        rw [FloatKind.single_greatest, FloatKind.single_limit, and_iff_right rfl]
        exact and_congr_right' ⟨fun band => ⟨q, rfl, band⟩, fun ⟨_, same, band⟩ => by
          cases same; exact band⟩
      | double =>
        refine iff_of_false (fun ⟨differ, above, _⟩ => ?_) nofun
        -- one of the two is an integer, and no integer is that large
        have integer : |q| ≤ (2 ^ 128 : Nat) := by
          by_cases float : p.IsFloat
          · exact Payload.abs_le_of_not_isFloat hp' (differ.1 float)
          · exact Payload.abs_le_of_not_isFloat hp float
        exact above.not_ge (integer.trans FloatKind.le_double_greatest)
  | _ => exact numeric.elim

/-- An integer that the wider kind of float has, past the greatest finite value of
the narrower kind and nearer to it than the limit. -/
def inBand : ℤ := 2 ^ 128 - 3 * 2 ^ 102

/-- The integer as one, in the widest unsigned kind. -/
def bandInteger : Payload .none := .int .widestUnsigned ⟨inBand, by decide⟩

/-- The integer as a float. -/
def bandFloat : Payload .none := .float .double (.ofInt .double inBand)

theorem bandInteger_value : bandInteger.numericValue? = some (.rational inBand) := rfl

theorem bandFloat_value : bandFloat.numericValue? = some (.rational inBand) := by
  have size : inBand.natAbs = (2 ^ 26 - 3) * 2 ^ 102 := by decide
  rw [bandFloat, Payload.numericValue?]
  refine Fp.numericValue?_of_value? (Fp.value?_ofInt ?_ ?_) <;> rw [size]
  · exact ⟨2 ^ 26 - 3, 102, by decide, rfl⟩
  · decide +kernel

theorem native_bandInteger : (native bandInteger).payload = some bandInteger := rfl

theorem native_bandFloat : (native bandFloat).payload = some bandFloat := rfl

theorem inBand_bounds : (2 : ℚ) ^ 128 - 2 ^ 104 < |(inBand : ℚ)|
    ∧ |(inBand : ℚ)| < 2 ^ 128 - 2 ^ 103 := by
  norm_num [inBand]

/-- The integer and the float agree as floats of the wider kind and disagree as
floats of the narrower one. -/
theorem convert_agree_iff_inBand :
    Agree ((native bandInteger).convert (.refusing .none) .none (.float .double)).value
        ((native bandFloat).convert (.refusing .none) .none (.float .double)).value
    ∧ ¬ Agree ((native bandInteger).convert (.refusing .none) .none (.float .single)).value
        ((native bandFloat).convert (.refusing .none) .none (.float .single)).value := by
  have agree (t : Ty .none) (numeric : t.IsNumeric) :=
    convert_agree_iff (.refusing .none) .none native_bandInteger native_bandFloat
      bandInteger_value bandFloat_value numeric
  constructor
  · rw [agree (.float .double) trivial]
    rintro ⟨kind, -⟩
    cases kind
  · rw [agree (.float .single) trivial, not_not]
    exact ⟨rfl, iff_of_false id (not_not.2 trivial), inBand, rfl, inBand_bounds⟩

/-- **Two numbers of one value, and one of them is refused**: the integer rounds to
the greatest finite value, and the float is out of range. -/
theorem float_refused_inBand :
    bandInteger.numericValue? = bandFloat.numericValue?
    ∧ (∃ r, ((native bandInteger).convert (.refusing .none) .none (.float .single)).value = .ok r)
    ∧ ((native bandFloat).convert (.refusing .none) .none (.float .single)).value
        = .error ⟨.float .double, .float .single, some Reason.outOfRange.wording⟩ := by
  obtain ⟨above, below⟩ := inBand_bounds
  rw [← FloatKind.single_greatest] at above
  rw [← FloatKind.single_limit] at below
  obtain ⟨taken, -⟩ :=
    convert_float_eq (.refusing .none) .none .single native_bandInteger bandInteger_value
  obtain ⟨-, refused⟩ :=
    convert_float_eq (.refusing .none) .none .single native_bandFloat bandFloat_value
  refine ⟨bandInteger_value.trans bandFloat_value.symm, ⟨_, taken ?_⟩, refused ?_⟩
  · exact (Payload.fits_iff_lt id).2 below
  · have float : bandFloat.IsFloat := trivial
    exact fun fits => above.not_ge ((Payload.fits_iff_le float).1 fits)

end Variant

end DynValue

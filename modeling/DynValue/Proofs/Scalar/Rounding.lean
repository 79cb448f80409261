import DynValue.Proofs.Scalar.Agreement

/-!
# Conversion into floats is correctly rounded

What a float kind makes of a stored number is the float nearest to its exact value,
a tie to the even one, with the sign of the number also if the result is a zero
(`Payload.RoundsTo`). It is never an infinity, unless the number was one. A number
that would round to infinity is refused by the narrower kind, and the wider kind is
so wide that there is none.

That an integer is rounded directly, and not by way of the wider kind of float, is
part of this: it may be so close to the middle between two floats of the narrower
kind that the wider one cannot tell them apart.
-/

namespace DynValue

variable {C : CallerTypes}

namespace Fp

variable {K L : FloatKind}

/-- Widening keeps the value. -/
theorem numericValue?_widen (x : Fp L) : (x.convert .double).numericValue? = x.numericValue? := by
  cases x with
  | finite neg mag =>
    rw [numericValue?, numericValue?_of_value? (value?_widen _), value?, Option.map_some]
  | _ => rfl

end Fp

namespace Payload

variable {p : Payload C} {L : FloatKind} {q : ℚ}

/-- **The float that a stored number should become**: of a rational value the correct
rounding, with the sign of the number, which is finite; an infinity and what is not a
number remain what they are. -/
def RoundsTo (p : Payload C) (y : Fp L) : Prop :=
  match p.numericValue? with
  | some (.rational q) => y.isFinite = true ∧ y.IsRoundingOf q ∧ y.negative = p.negative
  | some (.infinity neg) => y = .inf neg
  | none => y = .nan

theorem Fits.lt_limit (fits : p.Fits L q) : |q| < L.limit := by
  by_cases float : p.IsFloat
  · exact (fits.1 float).trans_lt L.greatest_lt_limit
  · exact fits.2 float

/-- What is no farther from zero than the greatest finite value is taken, whether it
is stored as a float or not. -/
theorem fits_of_le (within : |q| ≤ L.greatest) : p.Fits L q :=
  ⟨fun _ => within, fun _ => within.trans_lt L.greatest_lt_limit⟩

/-- **The wider kind takes every number.** -/
theorem fits_double (h : p.numericValue? = some (.rational q)) : p.Fits .double q := by
  refine fits_of_le ?_
  rcases number?_of_rational h with ⟨-, n, -, rfl, -⟩ | ⟨-, x, -, value, -⟩
  · exact n.abs_val_le.trans FloatKind.le_double_greatest
  · exact Fp.abs_le_greatest value

theorem roundsTo_nearestTo (h : p.numericValue? = some (.rational q)) (fits : p.Fits L q) :
    p.RoundsTo (Fp.nearestTo L p.negative q) := by
  rw [RoundsTo, h]
  exact ⟨(Fp.isFinite_nearestTo L p.negative q).2 fits.lt_limit,
    (Fp.eq_nearestTo_iff (negative_eq h)).1 rfl⟩

theorem eq_nan_of_numericValue? (number : p.IsNumber) (h : p.numericValue? = none) :
    ∃ K, p = float K .nan := by
  cases p with
  | float K x =>
    cases x with
    | nan => exact ⟨K, rfl⟩
    | _ => cases h
  | int k n => cases h
  | bool b => cases h
  | _ => exact number.elim

end Payload

namespace Variant

variable {v : Variant C} {p : Payload C} (K : Converters C) (alive : RefSet) {L : FloatKind}

theorem convert_float_nan (hv : v.payload = some p) (number : p.IsNumber)
    (hp : p.numericValue? = none) :
    (v.convert K alive (.float L)).value = .ok (.float L .nan) := by
  obtain ⟨L', rfl⟩ := Payload.eq_nan_of_numericValue? number hp
  rw [convert_toFloat hv rfl, toFloat_eq hv rfl]
  cases L <;> rfl

/-- **A stored number that is taken becomes the float that it should.** -/
theorem exists_roundsTo (hv : v.payload = some p) (number : p.IsNumber)
    (fits : ∀ q, p.numericValue? = some (.rational q) → p.Fits L q) :
    ∃ y, (v.convert K alive (.float L)).value = .ok (.float L y) ∧ p.RoundsTo y := by
  cases value : p.numericValue? with
  | none =>
    refine ⟨_, convert_float_nan K alive hv number value, ?_⟩
    rw [Payload.RoundsTo, value]
  | some a =>
    cases a with
    | infinity neg =>
      refine ⟨_, convert_float_infinity K alive L hv value, ?_⟩
      rw [Payload.RoundsTo, value]
    | rational q =>
      exact ⟨_, (convert_float_eq K alive L hv value).1 (fits q value),
        Payload.roundsTo_nearestTo value (fits q value)⟩

/-- So it is taken if it becomes anything. -/
theorem roundsTo_of_convert (hv : v.payload = some p) (number : p.IsNumber) {r : Payload C}
    (converted : (v.convert K alive (.float L)).value = .ok r) :
    ∃ y, r = .float L y ∧ p.RoundsTo y := by
  have fits (q : ℚ) (value : p.numericValue? = some (.rational q)) : p.Fits L q :=
    not_not.1 fun outside => by
      rw [(convert_float_eq K alive L hv value).2 outside] at converted
      cases converted
  obtain ⟨y, rounded, correct⟩ := exists_roundsTo K alive hv number fits
  exact ⟨y, Except.ok.inj (converted.symm.trans rounded), correct⟩

/-- **Conversion of a stored number into a float is correctly rounded.** Into the
wider kind it always succeeds, and leaves the value of a float alone. Into the narrower
kind it succeeds for every finite number that is no farther from zero than the greatest
finite value, and for what is not finite. -/
theorem convert_float_rounded (hv : v.payload = some p) (number : p.IsNumber) :
    (∃ y, (v.convert K alive (.float .double)).value = .ok (.float .double y) ∧ p.RoundsTo y
      ∧ (p.IsFloat → y.numericValue? = p.numericValue?))
    ∧ (∀ r, (v.convert K alive (.float .single)).value = .ok r →
        ∃ y, r = .float .single y ∧ p.RoundsTo y)
    ∧ ((∀ q, p.numericValue? = some (.rational q) → |q| ≤ 2 ^ 128 - 2 ^ 104) →
        ∃ y, (v.convert K alive (.float .single)).value = .ok (.float .single y)) := by
  refine ⟨?_, fun r converted => roundsTo_of_convert K alive hv number converted, fun within => ?_⟩
  · obtain ⟨y, rounded, correct⟩ :=
      exists_roundsTo K alive hv number fun q => Payload.fits_double
    refine ⟨y, rounded, correct, fun float => ?_⟩
    cases p with
    | float L x =>
      rw [convert_toFloat hv rfl, toFloat_eq hv rfl] at rounded
      cases rounded
      exact Fp.numericValue?_widen x
    | _ => exact float.elim
  · rw [← FloatKind.single_greatest] at within
    obtain ⟨y, rounded, -⟩ :=
      exists_roundsTo K alive hv number fun q value => Payload.fits_of_le (within q value)
    exact ⟨y, rounded⟩

/-- An integer just past the middle between two floats of the narrower kind. The wider
kind has the middle, but not this integer. -/
def pastMiddle : ℤ := 2 ^ 60 + 2 ^ 36 + 1

/-- The integer rounds up, as it should. By way of the wider kind it would become the
middle first and then round down, to the even float. -/
theorem convert_float_rounded_pastMiddle :
    (∃ y, ((native (.int ⟨true, .w64⟩ ⟨pastMiddle, by decide⟩)).convert (.refusing .none) .none
        (.float .single)).value = .ok (.float .single y)
      ∧ y.IsRoundingOf pastMiddle ∧ y = Fp.ofInt .single (2 ^ 60 + 2 ^ 37))
    ∧ (Fp.ofInt .double pastMiddle).convert .single = Fp.ofInt .single (2 ^ 60) := by
  refine ⟨?_, by decide +kernel⟩
  have held : (native (.int ⟨true, .w64⟩ ⟨pastMiddle, by decide⟩) : Variant .none).payload
      = some (.int ⟨true, .w64⟩ ⟨pastMiddle, by decide⟩) := rfl
  obtain ⟨-, correct, taken⟩ := convert_float_rounded (.refusing .none) .none held trivial
  have within : |(pastMiddle : ℚ)| ≤ 2 ^ 128 - 2 ^ 104 := by norm_num [pastMiddle]
  obtain ⟨y, converted⟩ := taken (by rintro q ⟨⟩; exact within)
  obtain ⟨z, same, -, rounding, negative⟩ := correct _ converted
  cases same
  have nearest : y = Fp.ofInt .single pastMiddle := by
    have sign : (pastMiddle : ℚ) ≠ 0 → decide (pastMiddle < 0) = decide ((pastMiddle : ℚ) < 0) :=
      fun _ => decide_eq_decide.2 Int.cast_lt_zero.symm
    rw [Fp.ofInt_eq_nearestTo, Fp.eq_nearestTo_iff sign]
    exact ⟨rounding, negative⟩
  exact ⟨y, converted, rounding, nearest.trans (by decide +kernel)⟩

end Variant

end DynValue

import DynValue.Proofs.Scalar.Agreement
import DynValue.Proofs.Scalar.Reading
import DynValue.Proofs.Scalar.TextRoundTrip

/-!
# Integers go through text

An integer converts to a kind of number in two ways: at once, or by way of its text.
At once it is widened, and compared with the bounds of the kind or rounded and looked
at. By way of text it is written as digits, which are read with a check at each into
an integer, or as a decimal into a float. Both ways give the same, and refuse the
same (`Variant.convert_through_text`): the texts are literals of the integer, and
the bounds and the rounding are those of the number that a literal denotes.
-/

namespace DynValue

variable {C : CallerTypes}

namespace Fp

/-- **The text of an integer reads as the float nearest to this integer**, unless this
is an infinity. -/
theorem ofText?_text_int (K : FloatKind) (n : ℤ) :
    ofText? K (IntKind.text n) =
      if |(n : ℚ)| < K.limit then some (nearestTo K (decide (n < 0)) n) else none := by
  obtain ⟨front, sign, letters⟩ := IntKind.exists_sign_text n
  have size : (n.natAbs : ℚ) = |(n : ℚ)| := by rw [Nat.cast_natAbs, Int.cast_abs]
  rw [ofText?_decimal K letters sign (Decimal.literal_ofNat _), size, abs_abs, nearestTo_abs]

end Fp

namespace Variant

variable {v : Variant C} {k : IntKind} {n : k.Value} (K : Converters C) (alive : RefSet)

/-- An integer in an integer kind. -/
theorem convert_int_of_int (hv : v.payload = some (.int k n)) (k' : IntKind) :
    (v.convert K alive (.int k')).value = (k'.ofInt? n.1).elim
      (.error ((v.castError (.int k')).because .outOfRange)) fun m => .ok (.int k' m) := by
  rw [convert_toInt hv trivial, toInt_eq hv trivial, Payload.exactValue?, Option.bind_some,
    towardZero_intCast]
  cases k'.ofInt? n.1 <;> rfl

/-- An integer in a float kind. -/
theorem convert_float_of_int (hv : v.payload = some (.int k n)) (L : FloatKind) :
    (v.convert K alive (.float L)).value =
      (if |(n.1 : ℚ)| < L.limit then some (Fp.nearestTo L (decide (n.1 < 0)) n.1) else none).elim
        (.error ((v.castError (.float L)).because .outOfRange)) fun x => .ok (.float L x) := by
  have widened : Payload.number? (.int k n : Payload C) = some (.int (.ofInt k n)) := rfl
  rw [convert_toFloat hv widened, toFloat_eq hv widened, Number.toFloat?_int, WideInt.val_ofInt]
  by_cases within : |(n.1 : ℚ)| < L.limit
  · rw [if_pos within]
    rfl
  · rw [if_neg within]
    rfl

/-- **By way of text an integer converts to the same numbers as at once**, whatever
kind of number is asked for, and is refused by the same. -/
theorem convert_through_text (hv : v.payload = some (.int k n)) :
    ∃ s, (v.convert K alive .text).value = .ok (.text s)
      ∧ ∀ w : Variant C, w.payload = some (.text s) → ∀ t : Ty C, t.IsNumeric → ∀ r,
        (w.convert K alive t).value = .ok r ↔ (v.convert K alive t).value = .ok r := by
  refine ⟨IntKind.text n.1, convert_text K alive hv rfl, fun w hw t numeric r => ?_⟩
  cases t with
  | int k' =>
    rw [convert_int_text K alive hw, IntKind.ofText?_text_eq, elim_eq_ok_iff,
      convert_int_of_int K alive hv, elim_eq_ok_iff]
  | float L =>
    rw [convert_float_text K alive hw, Fp.ofText?_text_int, elim_eq_ok_iff,
      convert_float_of_int K alive hv, elim_eq_ok_iff]
  | _ => exact numeric.elim

/-- The greatest integer that the narrower kind of float takes: past its greatest finite
value and just below the limit. -/
def belowLimit : ℤ := 2 ^ 128 - 2 ^ 103 - 1

/-- Both ways the integer becomes the greatest finite value. -/
theorem convert_through_text_belowLimit :
    ∃ s, ((native (.int .widestUnsigned ⟨belowLimit, by decide⟩)).convert (.refusing .none) .none
        .text).value = .ok (.text s)
      ∧ ((ofValue (.text s)).convert (.refusing .none) .none (.float .single)).value
        = .ok (.float .single (.finite false ⟨FloatKind.single.infMag - 1, by decide⟩)) := by
  have held : (native (.int .widestUnsigned ⟨belowLimit, by decide⟩) : Variant .none).payload
      = some (.int .widestUnsigned ⟨belowLimit, by decide⟩) := rfl
  have direct : (Number.int (.ofInt .widestUnsigned ⟨belowLimit, by decide⟩)).toFloat? .single
      = some (.finite false ⟨FloatKind.single.infMag - 1, by decide⟩) := by decide +kernel
  obtain ⟨s, written, same⟩ := convert_through_text (.refusing .none) .none held
  refine ⟨s, written, (same _ rfl (.float .single) trivial _).2 ?_⟩
  rw [convert_toFloat held rfl, toFloat_eq held rfl, direct]

end Variant

end DynValue

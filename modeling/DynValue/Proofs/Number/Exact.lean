import DynValue.Number.Rounding
import Mathlib.Data.Int.ConditionallyCompleteOrder
import Mathlib.Data.Rat.Floor

/-!
# The exact values of floats

A finite float has a value, a rational number (`Fp.value?`), and the order
of floats is the order of their values (`Fp.compare?_eq`). What rounding
does to a value is a question about natural numbers: which of them are the
values of magnitudes, in units. Those are the numbers with few significant
bits (`FloatKind.Represents`), and to be rounded changes nothing about such
a number (`Fp.round_eq`).

So an operation is exact if its result has few significant bits. Cutting off
low bits leaves few (`FloatKind.Represents.div_mul`), and that is why
truncation is exact (`Fp.value?_trunc`); a kind with more bits has every value
of a kind with fewer, and that is why widening is (`Fp.value?_convert`).
-/

namespace DynValue

namespace FloatKind

variable {K L : FloatKind}

/-! ## Magnitudes and their values -/

theorem units_strictMono (K : FloatKind) : StrictMono K.units :=
  strictMono_nat_of_lt_succ K.units_lt_succ

@[simp] theorem units_zero (K : FloatKind) : K.units 0 = 0 :=
  units_of_lt (Nat.two_pow_pos _)

/-- **A value is nearest to itself.** -/
theorem nearest_units (K : FloatKind) (mag : Nat) {den : Nat} (hden : 0 < den) :
    K.nearest (K.units mag * den) den = mag := by
  refine (K.isNearest_nearest _ hden).unique hden ⟨.inl ?_, ?_⟩
  · have above : K.units mag * den < K.units (mag + 1) * den :=
      Nat.mul_lt_mul_of_pos_right (K.units_lt_succ mag) hden
    rw [Nat.add_mul]
    omega
  · rcases Nat.eq_zero_or_pos mag with rfl | pos
    · exact .inl rfl
    · have below : K.units (mag - 1) * den < K.units mag * den :=
        Nat.mul_lt_mul_of_pos_right (K.units_strictMono (by omega)) hden
      rw [Nat.add_mul]
      omega

/-! ## Numbers with few significant bits -/

/-- **A natural number that a kind represents**, in units: all its bits but
the first `fracBits + 1` are zero. -/
def Represents (K : FloatKind) (n : Nat) : Prop :=
  ∃ f e, f < 2 ^ (K.fracBits + 1) ∧ n = f * 2 ^ e

theorem represents_units (K : FloatKind) (mag : Nat) : K.Represents (K.units mag) := by
  refine ⟨_, _, ?_, rfl⟩
  have split := Nat.div_add_mod mag (2 ^ K.fracBits)
  have low := Nat.mod_lt mag (Nat.two_pow_pos K.fracBits)
  rw [Nat.pow_succ]
  cases hq : mag / 2 ^ K.fracBits with
  | zero =>
    rw [hq] at split
    omega
  | succ q =>
    rw [hq, Nat.mul_succ, Nat.mul_comm] at split
    rw [Nat.add_sub_cancel]
    omega

/-- **What a kind represents is the value of a magnitude.** -/
theorem Represents.exists_units {n : Nat} (h : K.Represents n) : ∃ mag, K.units mag = n := by
  obtain ⟨f, e, few, rfl⟩ := h
  -- a factor of two goes into the significand while there is room
  induction e generalizing f with
  | zero => exact ⟨f, by rw [units_of_lt few, Nat.pow_zero, Nat.mul_one]⟩
  | succ e ih =>
    rcases Nat.lt_or_ge f (2 ^ K.fracBits) with room | full
    · obtain ⟨mag, value⟩ := ih (f * 2) (by rw [Nat.pow_succ]; omega)
      exact ⟨mag, by rw [value, Nat.pow_succ, Nat.mul_assoc, Nat.mul_comm 2]⟩
    · exact ⟨_, units_binade K full few⟩

theorem represents_two_pow (K : FloatKind) (e : Nat) : K.Represents (2 ^ e) :=
  ⟨1, e, Nat.one_lt_two_pow (Nat.succ_ne_zero _), (Nat.one_mul _).symm⟩

theorem Represents.mul_two_pow {n : Nat} (h : K.Represents n) (i : Nat) :
    K.Represents (n * 2 ^ i) := by
  obtain ⟨f, e, few, rfl⟩ := h
  exact ⟨f, e + i, few, by rw [Nat.pow_add, Nat.mul_assoc]⟩

/-- **Cutting off low bits** leaves a number that is represented. -/
theorem Represents.div_mul {n : Nat} (h : K.Represents n) (i : Nat) :
    K.Represents (n / 2 ^ i * 2 ^ i) := by
  obtain ⟨f, e, few, rfl⟩ := h
  rcases Nat.le_total i e with le | le
  · obtain ⟨j, rfl⟩ := Nat.exists_eq_add_of_le le
    refine ⟨f, i + j, few, Nat.div_mul_cancel ?_⟩
    exact Dvd.intro_left (f * 2 ^ j) (by rw [Nat.pow_add, Nat.mul_assoc, Nat.mul_comm (2 ^ j)])
  · obtain ⟨j, rfl⟩ := Nat.exists_eq_add_of_le le
    refine ⟨f / 2 ^ j, e + j, (Nat.div_le_self _ _).trans_lt few, ?_⟩
    rw [Nat.pow_add, ← Nat.div_div_eq_div_mul, Nat.mul_div_cancel _ (Nat.two_pow_pos e)]

/-- A kind with more bits represents more. -/
theorem Represents.of_fracBits_le {n : Nat} (h : K.Represents n) (le : K.fracBits ≤ L.fracBits) :
    L.Represents n := by
  obtain ⟨f, e, few, rfl⟩ := h
  exact ⟨f, e, few.trans_le (Nat.pow_le_pow_right (by decide) (Nat.succ_le_succ le)), rfl⟩

/-- Infinity's place is where the values would reach `2 ^ top`. -/
theorem units_infMag (K : FloatKind) : K.units K.infMag = 2 ^ K.top * 2 ^ K.scale := by
  have full : 2 ^ K.fracBits < 2 ^ (K.fracBits + 1) := Nat.pow_lt_pow_succ (by decide)
  have place : K.infMag = (2 ^ K.expBits - 2) * 2 ^ K.fracBits + 2 ^ K.fracBits := by
    cases K <;> decide
  have exponent : K.fracBits + (2 ^ K.expBits - 2) = K.top + K.scale := by cases K <;> decide
  rw [place, units_binade K (Nat.le_refl _) full, ← Nat.pow_add, ← Nat.pow_add, exponent]

end FloatKind

namespace Fp

variable {K L : FloatKind}

/-! ## Values -/

/-- A number with a sign. -/
def signed (neg : Bool) (q : ℚ) : ℚ := if neg then -q else q

/-- **The value of a finite float.** -/
def value? : Fp K → Option ℚ
  | finite neg mag => some (signed neg (K.units mag / (2 ^ K.scale : Nat)))
  | _ => none

theorem value?_isSome (x : Fp K) : x.value?.isSome = x.isFinite := by
  cases x <;> rfl

theorem natCast_scale_pos (K : FloatKind) : (0 : ℚ) < (2 ^ K.scale : Nat) :=
  Nat.cast_pos.2 (Nat.two_pow_pos _)

/-- **Rounding does nothing to a number that is represented**: it gives the
finite float of this value. -/
theorem round_eq {n den : Nat} (represented : K.Represents n) (hden : 0 < den)
    (small : n < 2 ^ K.top * 2 ^ K.scale) (neg : Bool) :
    ∃ mag : Fin K.infMag, round K neg (n * den) den = finite neg mag ∧ K.units mag = n := by
  obtain ⟨mag, rfl⟩ := represented.exists_units
  have below : mag < K.infMag := by
    rw [← K.units_infMag] at small
    exact K.units_strictMono.lt_iff_lt.1 small
  exact ⟨⟨mag, below⟩, by rw [round, K.nearest_units mag hden, ofMag, dif_pos below], rfl⟩

/-- The value of a finite float is less than `2 ^ top`. -/
theorem units_lt (mag : Fin K.infMag) : K.units mag < 2 ^ K.top * 2 ^ K.scale := by
  rw [← K.units_infMag]
  exact K.units_strictMono mag.2

/-! ## Order -/

/-- The value at a place on the line, in units. -/
def unitsAt (K : FloatKind) : ℤ → ℤ
  | .ofNat mag => K.units mag
  | .negSucc mag => -K.units (mag + 1)

theorem unitsAt_strictMono (K : FloatKind) : StrictMono (unitsAt K) := by
  refine strictMono_int_of_lt_succ fun z => ?_
  match z with
  | .ofNat mag => exact Int.ofNat_lt.2 (K.units_lt_succ mag)
  | .negSucc 0 =>
    have positive : K.units 0 < K.units 1 := K.units_lt_succ 0
    show -(K.units 1 : ℤ) < K.units 0
    omega
  | .negSucc (mag + 1) => exact Int.neg_lt_neg (Int.ofNat_lt.2 (K.units_lt_succ (mag + 1)))

/-- A finite float stands at the place of its value. -/
theorem value?_eq_some {x : Fp K} {q : ℚ} (h : x.value? = some q) :
    ∃ z, x.place? = some z ∧ q = unitsAt K z / (2 ^ K.scale : Nat) := by
  cases x with
  | nan => cases h
  | inf neg => cases h
  | finite neg mag =>
    obtain rfl : _ = q := Option.some.inj h
    refine ⟨_, rfl, ?_⟩
    rcases neg with - | -
    · rfl
    · rw [signed, if_pos rfl, if_pos rfl, ← neg_div]
      obtain ⟨mag, below⟩ := mag
      cases mag with
      | zero => simp [unitsAt]
      | succ mag => exact congrArg (· / _) (Int.cast_neg (R := ℚ) (K.units (mag + 1))).symm

/-- **Finite floats are ordered by value.** -/
theorem compare?_eq {x y : Fp K} {a b : ℚ} (hx : x.value? = some a) (hy : y.value? = some b) :
    x.compare? y = some (compare a b) := by
  obtain ⟨i, place, rfl⟩ := value?_eq_some hx
  obtain ⟨j, place', rfl⟩ := value?_eq_some hy
  have mono : StrictMono fun z : ℤ => (unitsAt K z : ℚ) / (2 ^ K.scale : Nat) :=
    fun a b lt => div_lt_div_of_pos_right (Int.cast_lt.2 (unitsAt_strictMono K lt))
      (natCast_scale_pos K)
  rw [compare?, place, place', ← cmp_eq_compare (unitsAt K i / _ : ℚ)]
  exact congrArg some ((cmp_eq_compare i j).symm.trans (mono.cmp_map_eq i j).symm)

theorem less_iff {x y : Fp K} {a b : ℚ} (hx : x.value? = some a) (hy : y.value? = some b) :
    x.less y = true ↔ a < b := by
  rw [less, compare?_eq hx hy, Option.any_some, ← compare_lt_iff_lt]
  cases compare a b <;> decide

theorem atLeast_iff {x y : Fp K} {a b : ℚ} (hx : x.value? = some a) (hy : y.value? = some b) :
    x.atLeast y = true ↔ b ≤ a := by
  rw [atLeast, compare?_eq hx hy, Option.any_some, ← compare_ge_iff_ge]
  cases compare a b <;> decide

/-! ## Conversion to the other kind and back

The number of a finite float in units of a kind with a smaller unit has no
more significant bits than it has in its own. -/

/-- **Widening is exact.** -/
theorem value?_convert (bits : K.fracBits ≤ L.fracBits) (scale : K.scale ≤ L.scale)
    (top : K.top ≤ L.top) (x : Fp K) : (x.convert L).value? = x.value? := by
  cases x with
  | nan => rfl
  | inf neg => rfl
  | finite neg mag =>
    obtain ⟨i, finer⟩ := Nat.exists_eq_add_of_le scale
    have split : 2 ^ L.scale = 2 ^ i * 2 ^ K.scale := by rw [finer, Nat.add_comm, Nat.pow_add]
    have represented : L.Represents (K.units mag * 2 ^ i) :=
      ((K.represents_units mag).of_fracBits_le bits).mul_two_pow i
    have small : K.units mag * 2 ^ i < 2 ^ L.top * 2 ^ L.scale := by
      calc K.units mag * 2 ^ i
        _ < 2 ^ K.top * 2 ^ K.scale * 2 ^ i :=
          Nat.mul_lt_mul_of_pos_right (units_lt mag) (Nat.two_pow_pos i)
        _ = 2 ^ K.top * 2 ^ L.scale := by rw [split, Nat.mul_assoc, Nat.mul_comm (2 ^ K.scale)]
        _ ≤ 2 ^ L.top * 2 ^ L.scale :=
          Nat.mul_le_mul_right _ (Nat.pow_le_pow_right (by decide) top)
    obtain ⟨mag', rounded, value⟩ := round_eq represented (Nat.two_pow_pos K.scale) small neg
    rw [convert, split, ← Nat.mul_assoc, rounded, value?, value?, value, split, Nat.cast_mul,
      Nat.cast_mul, mul_comm ((2 ^ i : Nat) : ℚ),
      mul_div_mul_right _ _ (Nat.cast_ne_zero.2 (Nat.two_pow_pos i).ne')]

/-- Every float is widened exactly to the wider kind. -/
theorem value?_widen (x : Fp K) : (x.convert .double).value? = x.value? := by
  apply value?_convert <;> cases K <;> decide

/-- **An integer with few significant bits is converted exactly.** -/
theorem value?_ofInt {n : ℤ} (represented : K.Represents n.natAbs)
    (small : n.natAbs < 2 ^ K.top) : (ofInt K n).value? = some (n : ℚ) := by
  obtain ⟨mag, rounded, value⟩ := round_eq (represented.mul_two_pow K.scale) Nat.one_pos
    (Nat.mul_lt_mul_of_pos_right small (Nat.two_pow_pos K.scale)) (decide (n < 0))
  rw [Nat.mul_one] at rounded
  rw [ofInt, rounded, value?, value, Nat.cast_mul,
    mul_div_cancel_right₀ _ (natCast_scale_pos K).ne']
  rcases Int.lt_or_le n 0 with below | above
  · rw [signed, if_pos (decide_eq_true below), Nat.cast_natAbs, abs_of_neg below, Int.cast_neg,
      neg_neg]
  · rw [signed, if_neg (by simpa using above), Nat.cast_natAbs, abs_of_nonneg above]

end Fp

/-! ## Truncation -/

/-- **A number truncated toward zero.** -/
def towardZero (q : ℚ) : ℤ := if 0 ≤ q then ⌊q⌋ else ⌈q⌉

@[simp] theorem towardZero_intCast (n : ℤ) : towardZero n = n := by
  simp [towardZero]

theorem towardZero_neg (q : ℚ) : towardZero (-q) = -towardZero q := by
  rcases lt_trichotomy q 0 with below | rfl | above
  · rw [towardZero, towardZero, if_pos (neg_nonneg.2 below.le), if_neg below.not_ge, Int.floor_neg]
  · simp [towardZero]
  · rw [towardZero, towardZero, if_neg (neg_lt_zero.2 above).not_ge, if_pos above.le, Int.ceil_neg]

theorem towardZero_natCast_div (n d : Nat) : towardZero (n / d) = (n / d : Nat) := by
  rw [towardZero, if_pos (by positivity)]
  exact Rat.floor_natCast_div_natCast n d

namespace Fp

variable {K : FloatKind}

theorem towardZero_signed (neg : Bool) (n d : Nat) :
    towardZero (signed neg (n / d)) = if neg then -((n / d : Nat) : ℤ) else (n / d : Nat) := by
  cases neg with
  | false => exact towardZero_natCast_div n d
  | true => exact (towardZero_neg _).trans (congrArg Neg.neg (towardZero_natCast_div n d))

/-- The integer part is the value truncated toward zero. -/
theorem truncate?_eq (x : Fp K) : x.truncate? = x.value?.map towardZero := by
  cases x with
  | nan => rfl
  | inf neg => rfl
  | finite neg mag => rw [truncate?, value?, Option.map_some, towardZero_signed]

/-- **Truncation is exact.** -/
theorem value?_trunc (x : Fp K) : x.trunc.value? = x.value?.map fun q => (towardZero q : ℚ) := by
  cases x with
  | nan => rfl
  | inf neg => rfl
  | finite neg mag =>
    obtain ⟨mag', rounded, value⟩ := round_eq ((K.represents_units mag).div_mul K.scale) Nat.one_pos
      ((Nat.div_mul_le_self _ _).trans_lt (units_lt mag)) neg
    rw [Nat.mul_one] at rounded
    rw [trunc, rounded, value?, value?, value, Option.map_some, towardZero_signed, Nat.cast_mul,
      mul_div_cancel_right₀ _ (natCast_scale_pos K).ne']
    cases neg with
    | false => exact congrArg some (Int.cast_natCast _).symm
    | true => rw [signed, if_pos rfl, if_pos rfl, Int.cast_neg, Int.cast_natCast]

end Fp

end DynValue

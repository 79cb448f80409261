import DynValue.Number.Shortest
import DynValue.Proofs.Number.Digits
import DynValue.Proofs.Number.Nearest
import Mathlib.Data.List.TakeWhile

/-!
# The text of a float reads back

Writing and reading a float share no code. The writer looks for a decimal
between the midpoints to the two neighbours of the float and spells it out in
positions; the reader takes any literal that the grammar allows and rounds the
number that it denotes. They meet in that number (`Decimal.value`): reading a
literal gives the float nearest to it (`Fp.ofDecimal_eq_nearestTo`), the points
of the interval are those to which the float is nearest
(`RoundingInterval.contains_iff`), and spelling a decimal in positions leaves its
number alone (`Decimal.ofChars?_positional`).

So every float is what its own text reads back (`Fp.ofText?_text`), infinities
and both zeros among them, and no two floats have one text. The text is also the
shortest: a grid is passed over only if it has no point in the interval, so that
no coarser decimal reads back (`Fp.exponent_le_shortest`), hence none with fewer
digits (`Fp.length_shortest_le`).
-/

namespace DynValue

/-! ## The number that a literal denotes -/

/-- **The rational number that a decimal literal denotes.** -/
def Decimal.value (d : Decimal) : ℚ := d.coeff * 10 ^ d.exponent

namespace Decimal

theorem value_ofNat (c p : Nat) : value ⟨c, .ofNat p⟩ = (c * 10 ^ p : Nat) := by
  rw [value, Int.ofNat_eq_natCast, zpow_natCast, Nat.cast_mul, Nat.cast_pow, Nat.cast_ofNat]

theorem value_negSucc (c q : Nat) : value ⟨c, .negSucc q⟩ = c / (10 ^ (q + 1) : Nat) := by
  rw [value, zpow_negSucc, ← div_eq_mul_inv, Nat.cast_pow, Nat.cast_ofNat]

/-- A literal on the grid of the midpoints. -/
theorem abs_value_grid (c p s : Nat) :
    |value ⟨c, (p : ℤ) - (s + 1)⟩| = (c * 10 ^ p : Nat) / (10 ^ (s + 1) : Nat) := by
  rw [value, zpow_sub₀ (by norm_num), zpow_natCast, ← Nat.cast_succ, zpow_natCast,
    ← mul_div_assoc, abs_of_nonneg (by positivity), Nat.cast_mul, Nat.cast_pow, Nat.cast_pow,
    Nat.cast_ofNat]

theorem ten_zpow_nonneg (e : ℤ) : (0 : ℚ) ≤ 10 ^ e := zpow_nonneg (by norm_num) e

theorem value_nonneg (d : Decimal) : 0 ≤ d.value :=
  mul_nonneg (Nat.cast_nonneg _) (ten_zpow_nonneg _)

theorem two_pow_le_ten_pow (p : Nat) : 2 ^ (3 * p) ≤ 10 ^ p := by
  rw [Nat.pow_mul]
  exact Nat.pow_le_pow_left (by decide) p

end Decimal

namespace Fp

variable {K : FloatKind} {q : ℚ}

/-! ## Reading rounds once -/

/-- Every number from the limit on has infinity as its nearest float. -/
theorem nearestTo_eq_inf (neg : Bool) (h : K.limit ≤ |q|) : nearestTo K neg q = .inf neg := by
  have past := mt (isFinite_nearestTo K neg q).1 h.not_gt
  rw [nearestTo, round, isFinite_ofMag] at past
  rw [nearestTo, round, ofMag, dif_neg past]

/-- Every number up to half a unit has zero as its nearest float. -/
theorem nearestTo_eq_zero (neg : Bool) {num den : Nat} (hden : 0 < den) (h : |q| = num / den)
    (small : 2 * (num * 2 ^ K.scale) ≤ den) : nearestTo K neg q = zero K neg := by
  have one : K.units 1 = 1 := FloatKind.units_of_lt (Nat.one_lt_two_pow (Nat.succ_ne_zero _))
  have low : K.nearest (num * 2 ^ K.scale) den ≤ 0 := by
    rw [FloatKind.nearest_le_iff hden, FloatKind.units_zero, one, Nat.zero_add, Nat.one_mul]
    omega
  rw [← round_eq_nearestTo hden neg h, round, Nat.le_zero.1 low, ofMag, dif_pos (infMag_pos K),
    zero]

/-- Every number from `2 ^ top` on is past the limit. -/
theorem limit_le_two_pow (K : FloatKind) : K.limit ≤ (2 ^ K.top : Nat) := by
  have last : K.units (K.infMag - 1) ≤ K.units K.infMag :=
    FloatKind.units_le_units (Nat.sub_le _ 1)
  have twice : (0 : ℚ) < (2 * 2 ^ K.scale : Nat) :=
    Nat.cast_pos.2 (Nat.mul_pos two_pos (Nat.two_pow_pos _))
  rw [FloatKind.limit, div_le_iff₀ twice, ← Nat.cast_mul, Nat.cast_le, Nat.mul_left_comm,
    ← K.units_infMag]
  omega

/-- **Reading a literal gives the float nearest to its number.** The two
shortcuts, for literals that are far too large or far too small, change nothing
about that. -/
theorem ofDecimal_eq_nearestTo (K : FloatKind) (neg : Bool) (d : Decimal) :
    ofDecimal K neg d = nearestTo K neg d.value := by
  obtain ⟨c, e⟩ := d
  rcases Nat.eq_zero_or_pos c with rfl | pos
  · rw [ofDecimal, if_pos rfl, Decimal.value, Nat.cast_zero, zero_mul, nearestTo_zero]
  rw [ofDecimal, if_neg pos.ne']
  cases e with
  | ofNat p =>
    rw [Decimal.value_ofNat]
    have size : |((c * 10 ^ p : Nat) : ℚ)| = (c * 10 ^ p : Nat) := Nat.abs_cast _
    dsimp only
    split
    · rename_i large
      have far : 2 ^ K.top ≤ c * 10 ^ p :=
        calc 2 ^ K.top
          _ ≤ 2 ^ c.log2 * 2 ^ (3 * p) := by
            rw [← Nat.pow_add]
            exact Nat.pow_le_pow_right (by decide) large
          _ ≤ c * 10 ^ p := Nat.mul_le_mul (Nat.log2_self_le pos.ne') (Decimal.two_pow_le_ten_pow p)
      refine (nearestTo_eq_inf neg ((limit_le_two_pow K).trans ?_)).symm
      rw [size, Nat.cast_le]
      exact far
    · exact round_eq_nearestTo Nat.one_pos neg (by rw [size, Nat.cast_one, div_one])
  | negSucc q =>
    rw [Decimal.value_negSucc]
    have size : |(c / (10 ^ (q + 1) : Nat) : ℚ)| = c / (10 ^ (q + 1) : Nat) := by
      rw [abs_div, Nat.abs_cast, Nat.abs_cast]
    have hden : 0 < 10 ^ (q + 1) := Nat.pow_pos (by decide)
    dsimp only
    split
    · rename_i small
      refine (nearestTo_eq_zero neg hden size ?_).symm
      calc 2 * (c * 2 ^ K.scale)
        _ ≤ 2 * (2 ^ (c.log2 + 1) * 2 ^ K.scale) :=
          Nat.mul_le_mul_left _ (Nat.mul_le_mul_right _ (Nat.le_of_lt Nat.lt_log2_self))
        _ = 2 ^ (c.log2 + 2 + K.scale) := by
          rw [← Nat.pow_add, ← Nat.pow_succ']
          congr 1
          omega
        _ ≤ 2 ^ (3 * (q + 1)) := Nat.pow_le_pow_right (by decide) small
        _ ≤ 10 ^ (q + 1) := Decimal.two_pow_le_ten_pow (q + 1)
    · exact round_eq_nearestTo hden neg size

end Fp

/-! ## Writing stays between the midpoints -/

/-- The next value is at most twice as large. -/
theorem FloatKind.units_succ_le (K : FloatKind) {mag : Nat} (pos : 0 < mag) :
    K.units (mag + 1) ≤ 2 * K.units mag := by
  have inside : (mag / 2 ^ K.fracBits - 1) * 2 ^ K.fracBits < mag := by
    have whole := Nat.div_mul_le_self mag (2 ^ K.fracBits)
    have binade := Nat.two_pow_pos K.fracBits
    rw [Nat.sub_mul]
    omega
  have step : 2 ^ (mag / 2 ^ K.fracBits - 1) ≤ K.units mag :=
    Nat.le_mul_of_pos_left _ (Nat.sub_pos_of_lt inside)
  rw [K.units_succ]
  omega

namespace RoundingInterval

/-- **The points of the interval of a magnitude** are the multiples of the
grid's step to which the magnitude is nearest. -/
theorem contains_iff (K : FloatKind) {mag : Nat} (pos : 0 < mag) (n : Nat) :
    (ofMag K mag).contains n = true
      ↔ K.IsNearest (n * 2 ^ K.scale) (10 ^ (K.scale + 1)) mag := by
  have double : 2 * (n * 2 ^ K.scale) = n * 2 ^ (K.scale + 1) := by
    rw [Nat.pow_succ', Nat.mul_left_comm]
  have grid (u : Nat) : u * 10 ^ (K.scale + 1) = u * 5 ^ (K.scale + 1) * 2 ^ (K.scale + 1) := by
    rw [Nat.mul_assoc, ← Nat.mul_pow]
  have step : 0 < 2 ^ (K.scale + 1) := Nat.two_pow_pos _
  rw [FloatKind.IsNearest, double, grid, grid, Nat.mul_lt_mul_right step,
    Nat.mul_lt_mul_right step, Nat.mul_left_inj step.ne', Nat.mul_left_inj step.ne',
    or_iff_right pos.ne', contains, ofMag]
  dsimp only
  generalize (K.units mag + K.units (mag + 1)) * 5 ^ (K.scale + 1) = upper
  generalize (K.units (mag - 1) + K.units mag) * 5 ^ (K.scale + 1) = lower
  by_cases even : mag % 2 = 0
  · rw [if_pos (decide_eq_true even), decide_eq_true_iff]
    omega
  · rw [if_neg (mt of_decide_eq_true even), decide_eq_true_iff]
    omega

theorem between_of_contains {I : RoundingInterval} {n : Nat} (h : I.contains n = true) :
    I.lower ≤ n ∧ n ≤ I.upper := by
  unfold contains at h
  split at h
  · exact of_decide_eq_true h
  · have strict := of_decide_eq_true h
    exact ⟨strict.1.le, strict.2.le⟩

theorem lower_pos (K : FloatKind) {mag : Nat} (pos : 0 < mag) : 0 < (ofMag K mag).lower := by
  have value : 0 < K.units mag := K.units_zero ▸ K.units_strictMono pos
  exact Nat.mul_pos (Nat.add_pos_right _ value) (Nat.pow_pos (by decide))

theorem upper_le (K : FloatKind) {mag : Nat} (pos : 0 < mag) :
    (ofMag K mag).upper ≤ 2 * (ofMag K mag).value := by
  have next := FloatKind.units_succ_le K pos
  calc (K.units mag + K.units (mag + 1)) * 5 ^ (K.scale + 1)
    _ ≤ 2 * (2 * K.units mag) * 5 ^ (K.scale + 1) := Nat.mul_le_mul_right _ (by omega)
    _ = 2 * (2 * K.units mag * 5 ^ (K.scale + 1)) := Nat.mul_assoc ..

/-- **The search starts high enough**: coarser grids have no point in the
interval. -/
theorem not_contains_of_beyond (K : FloatKind) {mag q : Nat} (pos : 0 < mag)
    (beyond : (ofMag K mag).value.log2 / 3 + 1 < q) (c : Nat) :
    ¬ (ofMag K mag).contains (c * 10 ^ q) = true := by
  intro inside
  obtain ⟨above, below⟩ := between_of_contains inside
  have some_c : 0 < c := Nat.pos_of_mul_pos_right ((lower_pos K pos).trans_le above)
  have small : c * 10 ^ q < 10 ^ q :=
    calc c * 10 ^ q
      _ ≤ 2 * (ofMag K mag).value := below.trans (upper_le K pos)
      _ < 2 * 2 ^ ((ofMag K mag).value.log2 + 1) :=
        Nat.mul_lt_mul_of_pos_left Nat.lt_log2_self two_pos
      _ = 2 ^ ((ofMag K mag).value.log2 + 2) := (Nat.pow_succ' ..).symm
      _ ≤ 2 ^ (3 * q) := Nat.pow_le_pow_right two_pos (by omega)
      _ ≤ 10 ^ q := Decimal.two_pow_le_ten_pow q
  exact small.not_ge (Nat.le_mul_of_pos_left _ some_c)

end RoundingInterval

namespace Fp

variable {K : FloatKind}

/-- **The shortest decimal of a magnitude** has this magnitude as its nearest. -/
theorem nearestTo_shortest (neg : Bool) (mag : Fin K.infMag) (pos : 0 < mag.1) :
    nearestTo K neg (Decimal.shortest K mag).value = finite neg mag := by
  have hden : 0 < 10 ^ (K.scale + 1) := Nat.pow_pos (by decide)
  have inside := RoundingInterval.contains_coarsest (RoundingInterval.contains_value K pos)
    ((RoundingInterval.ofMag K mag).value.log2 / 3 + 1)
  rw [RoundingInterval.contains_iff K pos] at inside
  rw [Decimal.shortest]
  generalize (RoundingInterval.ofMag K mag).coarsest _ = point at inside ⊢
  obtain ⟨c, p⟩ := point
  rw [← round_eq_nearestTo hden neg (Decimal.abs_value_grid c p K.scale), round,
    (K.isNearest_nearest _ hden).unique hden inside, ofMag, dif_pos mag.2]

/-- **No coarser decimal has the magnitude as its nearest.** -/
theorem exponent_le_shortest {neg : Bool} {mag : Fin K.infMag} (pos : 0 < mag.1) {d : Decimal}
    (h : nearestTo K neg d.value = finite neg mag) :
    d.exponent ≤ (Decimal.shortest K mag).exponent := by
  have hden : 0 < 10 ^ (K.scale + 1) := Nat.pow_pos (by decide)
  have value := RoundingInterval.contains_value K pos
  rw [Decimal.shortest]
  generalize hstart : (RoundingInterval.ofMag K mag).value.log2 / 3 + 1 = start
  refine not_lt.1 fun coarser => ?_
  obtain ⟨c, e⟩ := d
  obtain ⟨q, rfl⟩ : ∃ q : Nat, e = q - (K.scale + 1) :=
    ⟨(e + (K.scale + 1)).toNat, by dsimp only at coarser; omega⟩
  dsimp only at coarser
  have size := Decimal.abs_value_grid c q K.scale
  rw [← round_eq_nearestTo hden neg size, round] at h
  have inside : (RoundingInterval.ofMag K mag).contains (c * 10 ^ q) = true := by
    rw [RoundingInterval.contains_iff K pos, ← eq_of_ofMag_eq_finite h]
    exact K.isNearest_nearest _ hden
  rcases Nat.lt_or_ge start q with beyond | within
  · exact RoundingInterval.not_contains_of_beyond K pos (hstart ▸ beyond) c inside
  · exact RoundingInterval.not_contains_of_coarser value within (by omega) c inside

/-- **No decimal of fewer digits has the magnitude as its nearest.** Otherwise a
power of ten would lie between it and the shortest one, and be coarser. -/
theorem length_shortest_le {neg : Bool} {mag : Fin K.infMag} (pos : 0 < mag.1) {d : Decimal}
    (h : nearestTo K neg d.value = finite neg mag) :
    (Digits.ofNat (Decimal.shortest K mag).coeff).length ≤ (Digits.ofNat d.coeff).length := by
  have coarsest {e : Decimal} (he : nearestTo K neg e.value = finite neg mag) :
      e.exponent ≤ (Decimal.shortest K mag).exponent := exponent_le_shortest pos he
  have shortest := nearestTo_shortest neg mag pos
  generalize Decimal.shortest K mag = s at *
  refine not_lt.1 fun fewer => ?_
  have some_d : 0 < (Digits.ofNat d.coeff).length := Nat.length_toDigits_pos
  have length_le (c : Nat) := Nat.length_toDigits_le_iff (n := c) (by decide : 1 < 10) some_d
  have below : d.coeff ≤ 10 ^ (Digits.ofNat d.coeff).length := ((length_le d.coeff).1 le_rfl).le
  generalize (Digits.ofNat d.coeff).length = n at *
  have above : 10 ^ n ≤ s.coeff := not_lt.1 fun small => fewer.not_ge ((length_le s.coeff).2 small)
  have power : Decimal.value ⟨1, n + s.exponent⟩ = (10 ^ n : Nat) * 10 ^ s.exponent := by
    rw [Decimal.value, Nat.cast_one, one_mul, zpow_add₀ (by norm_num), zpow_natCast, Nat.cast_pow,
      Nat.cast_ofNat]
  have between : nearestTo K neg (Decimal.value ⟨1, n + s.exponent⟩) = finite neg mag := by
    refine nearestTo_of_between h shortest ?_ ?_ <;>
      rw [abs_of_nonneg (Decimal.value_nonneg _), abs_of_nonneg (Decimal.value_nonneg _), power]
    · have exponent : (10 : ℚ) ^ d.exponent ≤ 10 ^ s.exponent :=
        zpow_le_zpow_right₀ (by norm_num) (coarsest h)
      exact mul_le_mul (Nat.cast_le.2 below) exponent (Decimal.ten_zpow_nonneg _)
        (Nat.cast_nonneg _)
    · exact mul_le_mul_of_nonneg_right (Nat.cast_le.2 above) (Decimal.ten_zpow_nonneg _)
  have coarser : (n : ℤ) + s.exponent ≤ s.exponent := coarsest between
  omega

end Fp

/-! ## Positions -/

namespace Digits

theorem isDigit_of_mem_zeros {n : Nat} : ∀ c ∈ List.replicate n '0', c.isDigit = true := by
  intro c member
  rw [List.eq_of_mem_replicate member]
  rfl

theorem isDigit_of_mem_append {a b : List Char} (ha : ∀ c ∈ a, c.isDigit = true)
    (hb : ∀ c ∈ b, c.isDigit = true) : ∀ c ∈ a ++ b, c.isDigit = true :=
  fun c member => (List.mem_append.1 member).elim (ha c) (hb c)

end Digits

namespace Decimal

variable {a b : List Char} {c q : Nat}

theorem exponent?_nil : exponent? [] = some 0 := rfl

/-- What an exponent part starts with is neither a digit nor a point. -/
theorem head_of_exponent? {tail : List Char} {e : ℤ} (exponent : exponent? tail = some e) :
    ∀ c ∈ tail.head?, c.isDigit = false ∧ c ≠ '.' := by
  cases tail with
  | nil => exact nofun
  | cons c cs =>
    rintro _ ⟨⟩
    rw [exponent?] at exponent
    split at exponent
    · rename_i letter
      rcases letter with rfl | rfl <;> decide
    · cases exponent

theorem takeWhile_append (digits : ∀ c ∈ a, c.isDigit = true) (tail : List Char)
    (stop : ∀ c ∈ tail.head?, c.isDigit = false) :
    (a ++ tail).takeWhile Char.isDigit = a ∧ (a ++ tail).dropWhile Char.isDigit = tail := by
  rw [List.takeWhile_append_of_pos digits, List.dropWhile_append_of_pos digits]
  cases tail with
  | nil => simp
  | cons c cs =>
    have other := stop c rfl
    simp [other]

/-- **A literal without a point**: digits, and an exponent part. -/
theorem ofChars?_whole {tail : List Char} {e : ℤ} (some_a : a ≠ [])
    (digits : ∀ c ∈ a, c.isDigit = true) (exponent : exponent? tail = some e) :
    ofChars? (a ++ tail) = some ⟨Nat.ofDigitChars 10 a 0, e⟩ := by
  have head := head_of_exponent? exponent
  obtain ⟨whole, rest⟩ := takeWhile_append digits tail fun c member => (head c member).1
  rw [ofChars?, whole, rest]
  split
  · rename_i tail' split
    split at split
    · exact absurd rfl (head '.' rfl).2
    · cases split
      simp [some_a, exponent]

/-- **A literal with a point**: digits before or behind it, and an exponent part.
Each digit behind it is one more decimal place. -/
theorem ofChars?_point {tail : List Char} {e : ℤ} (some_ab : a ≠ [] ∨ b ≠ [])
    (digits : ∀ c ∈ a, c.isDigit = true) (digits' : ∀ c ∈ b, c.isDigit = true)
    (exponent : exponent? tail = some e) :
    ofChars? (a ++ '.' :: (b ++ tail))
      = some ⟨Nat.ofDigitChars 10 (a ++ b) 0, e - b.length⟩ := by
  have head := head_of_exponent? exponent
  obtain ⟨whole, rest⟩ := takeWhile_append digits ('.' :: (b ++ tail))
    (by rintro _ ⟨⟩; decide)
  obtain ⟨fraction, rest'⟩ := takeWhile_append digits' tail fun c member => (head c member).1
  rw [ofChars?, whole, rest]
  simp only [fraction, rest', exponent, Option.map_some]
  exact if_neg (by simpa [or_iff_not_imp_left] using some_ab)

theorem positional_ofNat (c p : Nat) :
    positional ⟨c, .ofNat p⟩ = Digits.ofNat c ++ List.replicate p '0' := rfl

/-- The point is inside the digits. -/
theorem positional_inside (inside : q + 1 < (Digits.ofNat c).length) :
    positional ⟨c, .negSucc q⟩ =
      (Digits.ofNat c).take ((Digits.ofNat c).length - (q + 1))
        ++ '.' :: (Digits.ofNat c).drop ((Digits.ofNat c).length - (q + 1)) :=
  if_pos inside

/-- The point is before all digits, and zeros follow it. -/
theorem positional_outside (outside : ¬ q + 1 < (Digits.ofNat c).length) :
    positional ⟨c, .negSucc q⟩ =
      List.replicate 1 '0'
        ++ '.' :: (List.replicate (q + 1 - (Digits.ofNat c).length) '0' ++ Digits.ofNat c) :=
  if_neg outside

/-- A decimal with places behind the point is read as it was. -/
theorem ofChars?_positional_negSucc (c q : Nat) :
    ofChars? (positional ⟨c, .negSucc q⟩) = some ⟨c, .negSucc q⟩ := by
  have places {n : Nat} (h : n = q + 1) : -(n : ℤ) = .negSucc q := by
    rw [h]
    rfl
  by_cases inside : q + 1 < (Digits.ofNat c).length
  · have before : (Digits.ofNat c).take ((Digits.ofNat c).length - (q + 1)) ≠ [] := by
      rw [ne_eq, List.take_eq_nil_iff, not_or]
      exact ⟨by omega, Digits.ofNat_ne_nil c⟩
    have behind : ∀ x ∈ (Digits.ofNat c).drop ((Digits.ofNat c).length - (q + 1)),
        x.isDigit = true :=
      fun x member => Digits.isDigit_of_mem_ofNat x (List.mem_of_mem_drop member)
    have read := ofChars?_point (.inl before)
      (fun x member => Digits.isDigit_of_mem_ofNat x (List.mem_of_mem_take member)) behind
      exponent?_nil
    rw [List.append_nil, List.take_append_drop, Digits.ofDigitChars_ofNat, zero_sub, places] at read
    · rw [positional_inside inside, read]
    · rw [List.length_drop, Nat.sub_sub_self inside.le]
  · have before : List.replicate 1 '0' ≠ [] := nofun
    have behind : ∀ x ∈ List.replicate (q + 1 - (Digits.ofNat c).length) '0' ++ Digits.ofNat c,
        x.isDigit = true :=
      Digits.isDigit_of_mem_append Digits.isDigit_of_mem_zeros Digits.isDigit_of_mem_ofNat
    have read := ofChars?_point (.inl before) Digits.isDigit_of_mem_zeros behind exponent?_nil
    rw [List.append_nil, Digits.ofDigitChars_zeros_append, Digits.ofDigitChars_zeros_append,
      Digits.ofDigitChars_ofNat, zero_sub, places] at read
    · rw [positional_outside inside, read]
    · rw [List.length_append, List.length_replicate]
      omega

/-- **Spelling a decimal in positions** leaves its number alone. -/
theorem ofChars?_positional (d : Decimal) :
    ∃ read, ofChars? d.positional = some read ∧ read.value = d.value := by
  obtain ⟨c, e⟩ := d
  cases e with
  | ofNat p =>
    have read := ofChars?_whole
      (List.append_ne_nil_of_left_ne_nil (Digits.ofNat_ne_nil c) (List.replicate p '0'))
      (Digits.isDigit_of_mem_append Digits.isDigit_of_mem_ofNat Digits.isDigit_of_mem_zeros)
      exponent?_nil
    rw [List.append_nil] at read
    rw [positional_ofNat]
    refine ⟨_, read, ?_⟩
    rw [Nat.ofDigitChars_append, Digits.ofDigitChars_ofNat, Nat.ofDigitChars_replicate_zero,
      value_ofNat, Nat.mul_comm, value, zpow_zero, mul_one]
  | negSucc q => exact ⟨_, ofChars?_positional_negSucc c q, rfl⟩

/-- A literal has no sign in front. -/
theorem splitSign_of_ofChars? {cs : List Char} {d : Decimal} (h : ofChars? cs = some d) :
    splitSign cs = (false, cs) := by
  unfold splitSign
  split
  · cases h
  · cases h
  · rfl

end Decimal

namespace Fp

variable {K : FloatKind}

/-! ## Texts -/

/-- **The digits of a finite magnitude** are a literal to which the magnitude is
nearest. -/
theorem ofChars?_magText (neg : Bool) (mag : Fin K.infMag) :
    ∃ d, Decimal.ofChars? (magText K mag) = some d
      ∧ nearestTo K neg d.value = finite neg mag := by
  rcases Nat.eq_zero_or_pos mag.1 with least | pos
  · refine ⟨⟨0, 0⟩, ?_, ?_⟩
    · rw [magText, if_pos least]
      rfl
    · rw [Decimal.value, Nat.cast_zero, zero_mul, nearestTo_zero, zero]
      exact congrArg (finite neg) (Fin.ext least.symm)
  · obtain ⟨d, read, value⟩ := Decimal.ofChars?_positional (Decimal.shortest K mag)
    refine ⟨d, ?_, ?_⟩
    · rw [magText, if_neg pos.ne', read]
    · rw [value, nearestTo_shortest neg mag pos]

/-- What a text denotes is read, if it is no infinity or the text spells one. -/
theorem ofText?_of_parse? {s : String} {x : Fp K} (denoted : parse? K s = some x)
    (spelled : x.isInfinite = true → spellsInfinity s = true) : ofText? K s = some x := by
  rw [ofText?, denoted, Option.filter_some, if_pos]
  cases h : x.isInfinite with
  | false => rfl
  | true => exact spelled h

/-- **The text of a float reads back as the same float.** -/
theorem ofText?_text (x : Fp K) : ofText? K x.text = some x := by
  cases x with
  | nan =>
    have letters : "NaN".toList = ['N', 'a', 'N'] := rfl
    refine ofText?_of_parse? ?_ nofun
    rw [text, parse?, letters]
    rfl
  | inf neg =>
    have letters : "inf".toList = ['i', 'n', 'f'] := rfl
    have signed : "-inf".toList = ['-', 'i', 'n', 'f'] := rfl
    cases neg with
    | false =>
      rw [text, if_neg Bool.false_ne_true]
      refine ofText?_of_parse? ?_ fun _ => by decide
      rw [parse?, letters]
      rfl
    | true =>
      rw [text, if_pos rfl]
      refine ofText?_of_parse? ?_ fun _ => by decide
      rw [parse?, signed]
      rfl
  | finite neg mag =>
    obtain ⟨d, literal, value⟩ := ofChars?_magText neg mag
    have split : splitSign (if neg then '-' :: magText K mag else magText K mag)
        = (neg, magText K mag) := by
      cases neg with
      | false => exact Decimal.splitSign_of_ofChars? literal
      | true => rfl
    refine ofText?_of_parse? ?_ nofun
    rw [text, parse?, String.toList_ofList, split]
    dsimp only
    rw [literal]
    dsimp only
    rw [ofDecimal_eq_nearestTo, value]

/-! ## Bits -/

/-- The bits of a float that is a number: of its sign and of its magnitude. -/
theorem toBits_ofMag (neg : Bool) {mag : Nat} (h : mag ≤ K.infMag) :
    (ofMag K neg mag).toBits = (if neg then 2 ^ (K.expBits + K.fracBits) else 0) + mag := by
  unfold ofMag
  split
  · rfl
  · rw [toBits, Nat.le_antisymm h (by omega)]

/-- **A float is its bits**, unless it is not a number. -/
theorem toBits_ofBits {bits : Nat} (width : bits < 2 * 2 ^ (K.expBits + K.fracBits))
    (number : ofBits K bits ≠ nan) : (ofBits K bits).toBits = bits := by
  have split := Nat.div_add_mod bits (2 ^ (K.expBits + K.fracBits))
  have sign : bits / 2 ^ (K.expBits + K.fracBits) < 2 :=
    (Nat.div_lt_iff_lt_mul (Nat.two_pow_pos _)).2 width
  rw [ofBits] at number ⊢
  by_cases past : K.infMag < bits % 2 ^ (K.expBits + K.fracBits)
  · exact absurd (if_pos past) number
  · rw [if_neg past, toBits_ofMag _ (Nat.le_of_not_lt past), Nat.mod_eq_of_lt sign]
    rcases Nat.le_one_iff_eq_zero_or_eq_one.1 (Nat.le_of_lt_succ sign) with zero | one
    · rw [zero] at split ⊢
      simpa using split
    · rw [one] at split ⊢
      simpa using split

/-- **Every bit pattern of a number is what its text reads back.** -/
theorem ofText?_text_ofBits {bits : Nat} (width : bits < 2 * 2 ^ (K.expBits + K.fracBits))
    (number : ofBits K bits ≠ nan) : (ofText? K (ofBits K bits).text).map toBits = some bits := by
  rw [ofText?_text, Option.map_some, toBits_ofBits width number]

end Fp

end DynValue

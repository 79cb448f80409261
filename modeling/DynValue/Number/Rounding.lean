import DynValue.Number.Float

/-!
# Rounding to nearest

The facts on which every rounding rests. Values increase with their
magnitudes, one step at a time (`units_succ`), and `floorMag` finds the
last one that is not too large (`units_floorMag`). `IsNearest` says what
it means to be nearest, by the midpoints to the two neighbours;
`nearest` is so (`isNearest_nearest`), and nothing else is
(`IsNearest.unique`).
-/

namespace DynValue

namespace FloatKind

/-! ## Values -/

/-- **Neighbours differ by one step**, a power of two that the magnitude
determines. -/
theorem units_succ (K : FloatKind) (mag : Nat) :
    K.units (mag + 1) = K.units mag + 2 ^ (mag / 2 ^ K.fracBits - 1) := by
  have hF : 0 < 2 ^ K.fracBits := Nat.two_pow_pos _
  generalize hFdef : 2 ^ K.fracBits = F at hF
  unfold units
  simp only [hFdef]
  have hdiv : mag / F * F ≤ mag := Nat.div_mul_le_self mag F
  rcases Nat.lt_or_ge ((mag + 1) % F) 1 with hcross | hsame
  · -- the next magnitude starts a new binade
    have hmod : (mag + 1) % F = 0 := by omega
    obtain ⟨e, he⟩ := Nat.dvd_of_mod_eq_zero hmod
    have hq' : (mag + 1) / F = e := by rw [he, Nat.mul_div_cancel_left _ hF]
    cases e with
    | zero => simp at he
    | succ e =>
      have hq : mag / F = e := by
        apply Nat.div_eq_of_lt_le
        · rw [Nat.mul_comm]; have := he; rw [Nat.mul_succ] at this; omega
        · rw [Nat.mul_comm]; omega
      rw [hq', hq]
      cases e with
      | zero => simp
      | succ e =>
        simp only [Nat.add_sub_cancel]
        have h1 : mag + 1 - (e + 1) * F = F := by
          rw [he, Nat.mul_comm F, ← Nat.sub_mul]; simp
        have h2 : mag - e * F = 2 * F - 1 := by
          have : F * (e + 1 + 1) = e * F + 2 * F := by
            rw [Nat.mul_add, Nat.mul_add, Nat.mul_comm F e]; omega
          omega
        rw [h1, h2, Nat.pow_succ]
        have : 0 < 2 ^ e := Nat.two_pow_pos e
        have : (2 * F - 1) * 2 ^ e + 2 ^ e = 2 * F * 2 ^ e := by
          rw [← Nat.succ_mul]; congr 1; omega
        rw [this, Nat.mul_comm 2 F, Nat.mul_assoc, Nat.mul_comm 2]
  · have hq : (mag + 1) / F = mag / F := by
      rw [Nat.succ_div]
      have : ¬ F ∣ mag + 1 := fun h => by
        have := Nat.mod_eq_zero_of_dvd h; omega
      simp [this]
    rw [hq]
    have hle : (mag / F - 1) * F ≤ mag :=
      Nat.le_trans (Nat.mul_le_mul_right F (Nat.sub_le _ 1)) hdiv
    rw [Nat.sub_add_comm hle, Nat.succ_mul]

theorem units_lt_succ (K : FloatKind) (mag : Nat) : K.units mag < K.units (mag + 1) := by
  rw [units_succ]
  exact Nat.lt_add_of_pos_right (Nat.two_pow_pos _)

/-- Below `2 ^ (fracBits + 1)` a magnitude is its own value. -/
theorem units_of_lt {K : FloatKind} {mag : Nat} (h : mag < 2 ^ (K.fracBits + 1)) :
    K.units mag = mag := by
  have hq : mag / 2 ^ K.fracBits - 1 = 0 := by
    have : mag / 2 ^ K.fracBits < 2 := by
      rw [Nat.div_lt_iff_lt_mul (Nat.two_pow_pos _), Nat.mul_comm, ← Nat.pow_succ]
      exact h
    omega
  simp [units, hq]

/-- The value at a magnitude given by a place in a binade. -/
theorem units_binade (K : FloatKind) {k f : Nat} (hlow : 2 ^ K.fracBits ≤ f)
    (hhigh : f < 2 ^ (K.fracBits + 1)) :
    K.units (k * 2 ^ K.fracBits + f) = f * 2 ^ k := by
  have hF : 0 < 2 ^ K.fracBits := Nat.two_pow_pos _
  have hq : (k * 2 ^ K.fracBits + f) / 2 ^ K.fracBits = k + 1 := by
    rw [Nat.mul_comm, Nat.mul_add_div hF]
    have : f / 2 ^ K.fracBits = 1 := by
      apply Nat.div_eq_of_lt_le
      · simpa using hlow
      · rw [Nat.pow_succ] at hhigh; omega
    omega
  simp [units, hq]

/-- **`floorMag` gives the last magnitude that is not too large.** -/
theorem units_floorMag (K : FloatKind) (n : Nat) :
    K.units (K.floorMag n) ≤ n ∧ n < K.units (K.floorMag n + 1) := by
  unfold floorMag
  rcases Nat.le_total n.log2 K.fracBits with h | h
  · have hn : n < 2 ^ (K.fracBits + 1) :=
      Nat.lt_of_lt_of_le Nat.lt_log2_self (Nat.pow_le_pow_right (by decide) (by omega))
    simp only [Nat.sub_eq_zero_of_le h, Nat.zero_mul, Nat.zero_add, Nat.pow_zero, Nat.div_one]
    have := units_lt_succ K n
    rw [units_of_lt hn] at *
    exact ⟨Nat.le_refl n, this⟩
  · obtain ⟨k, hk⟩ := Nat.exists_eq_add_of_le h
    have hne : n ≠ 0 := by
      rintro rfl
      have : K.fracBits ≠ 0 := by cases K <;> decide
      simp at h; omega
    have hlow : 2 ^ K.fracBits ≤ n / 2 ^ k := by
      rw [Nat.le_div_iff_mul_le (Nat.two_pow_pos k), ← Nat.pow_add, ← hk]
      exact Nat.log2_self_le hne
    have hhigh : n / 2 ^ k < 2 ^ (K.fracBits + 1) := by
      rw [Nat.div_lt_iff_lt_mul (Nat.two_pow_pos k), ← Nat.pow_add]
      exact Nat.lt_of_lt_of_le Nat.lt_log2_self (Nat.pow_le_pow_right (by decide) (by omega))
    have hsub : n.log2 - K.fracBits = k := by omega
    simp only [hsub, units_succ]
    have hq : (k * 2 ^ K.fracBits + n / 2 ^ k) / 2 ^ K.fracBits - 1 = k := by
      rw [Nat.mul_comm, Nat.mul_add_div (Nat.two_pow_pos _)]
      have : n / 2 ^ k / 2 ^ K.fracBits = 1 := by
        apply Nat.div_eq_of_lt_le
        · simpa using hlow
        · rw [Nat.pow_succ] at hhigh; omega
      omega
    rw [hq, units_binade K hlow hhigh]
    exact ⟨Nat.div_mul_le_self n _, Nat.lt_div_mul_add (Nat.two_pow_pos k)⟩

theorem units_le_units {K : FloatKind} {a b : Nat} (h : a ≤ b) : K.units a ≤ K.units b := by
  induction h with
  | refl => exact Nat.le_refl _
  | step _ ih => exact Nat.le_trans ih (Nat.le_of_lt (units_lt_succ K _))

/-! ## Nearest magnitudes -/

/-- **What rounding to nearest means**: `num / den` lies between the
midpoints to the neighbours of `mag`, strictly unless `mag` is even. -/
def IsNearest (K : FloatKind) (num den mag : Nat) : Prop :=
  (2 * num < (K.units mag + K.units (mag + 1)) * den ∨
    2 * num = (K.units mag + K.units (mag + 1)) * den ∧ mag % 2 = 0) ∧
  (mag = 0 ∨ (K.units (mag - 1) + K.units mag) * den < 2 * num ∨
    (K.units (mag - 1) + K.units mag) * den = 2 * num ∧ mag % 2 = 0)

/-- **`nearest` rounds to nearest.** -/
theorem isNearest_nearest (K : FloatKind) (num : Nat) {den : Nat} (hden : 0 < den) :
    K.IsNearest num den (K.nearest num den) := by
  obtain ⟨hle, hlt⟩ := K.units_floorMag (num / den)
  generalize hm : K.floorMag (num / den) = m at hle hlt
  have hdown : K.units m * den ≤ num := by
    refine Nat.le_trans (Nat.mul_le_mul_right den hle) (Nat.div_mul_le_self num den)
  have hup : num < K.units (m + 1) * den := (Nat.div_lt_iff_lt_mul hden).1 hlt
  have hbelow : m = 0 ∨ (K.units (m - 1) + K.units m) * den < 2 * num := by
    rcases Nat.eq_zero_or_pos m with h0 | h0
    · exact Or.inl h0
    · right
      have : K.units (m - 1) < K.units m := by
        have := units_lt_succ K (m - 1)
        rwa [Nat.sub_add_cancel h0] at this
      have := Nat.mul_lt_mul_of_pos_right this hden
      rw [Nat.add_mul]; omega
  have habove : 2 * num < (K.units (m + 1) + K.units (m + 1 + 1)) * den := by
    have := Nat.mul_lt_mul_of_pos_right (units_lt_succ K (m + 1)) hden
    rw [Nat.add_mul]; omega
  unfold nearest
  simp only [hm]
  unfold IsNearest
  split
  · rename_i h
    exact ⟨Or.inl h, by omega⟩
  · rename_i h
    split
    · rename_i h'
      exact ⟨Or.inl habove, Or.inr (Or.inl (by simpa using h'))⟩
    · rename_i h'
      split
      · rename_i heven
        exact ⟨Or.inr ⟨by omega, heven⟩, by omega⟩
      · rename_i hodd
        refine ⟨Or.inl habove, Or.inr (Or.inr ⟨?_, by omega⟩)⟩
        simp only [Nat.add_sub_cancel]
        omega

/-- **Only one magnitude is nearest.** -/
theorem IsNearest.unique {K : FloatKind} {num den a b : Nat} (hden : 0 < den)
    (ha : K.IsNearest num den a) (hb : K.IsNearest num den b) : a = b := by
  have key : ∀ {a b : Nat}, K.IsNearest num den a → K.IsNearest num den b → ¬ a < b := by
    intro a b ha hb hab
    have hup := ha.1
    have hdown := hb.2
    rcases Nat.lt_or_ge (a + 1) b with hfar | hnext
    · have h1 : K.units a ≤ K.units (b - 1) := units_le_units (by omega)
      have h2 : K.units (a + 1) < K.units b :=
        Nat.lt_of_lt_of_le (units_lt_succ K (a + 1)) (units_le_units hfar)
      have h3 := Nat.mul_lt_mul_of_pos_right (Nat.add_lt_add_of_le_of_lt h1 h2) hden
      omega
    · have hb' : b = a + 1 := by omega
      subst hb'
      simp only [Nat.add_sub_cancel] at hdown
      omega
  rcases Nat.lt_trichotomy a b with h | h | h
  · exact absurd h (key ha hb)
  · exact h
  · exact absurd h (key hb ha)

end FloatKind

end DynValue

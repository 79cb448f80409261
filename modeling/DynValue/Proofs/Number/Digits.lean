import DynValue.Number.Integer
import Mathlib.Algebra.Order.Ring.Int
import Mathlib.Tactic.Ring

/-!
# Digits

What a run of digits denotes is said by the places of its digits
(`Digits.Denotes`). A reader goes through it from the front, and each digit makes
the number so far ten times as large.

An integer is read into a value of its kind, and every result on the way has to
be in range. This refuses no run that denotes a number in range: what has been
read of a run is no farther from zero than the whole (`IntKind.foldlM_push?`).
So leading zeros never lead out of range, and the least value of a signed kind,
which is farther from zero than the greatest, is read like every other one
(`IntKind.ofDigits?_eq_some_iff`).
-/

namespace DynValue

/-- A number, negated for a minus sign. -/
def negateIf (neg : Bool) (n : ℤ) : ℤ := if neg then -n else n

namespace Digits

variable {cs : List Char} {n : ℕ}

/-- **A run of digits and the number that it denotes**: a digit counts for as many
powers of ten as there are digits behind it. -/
inductive Denotes : List Char → ℕ → Prop
  | nil : Denotes [] 0
  | cons {c : Char} {cs : List Char} {n : ℕ} (digit : c.isDigit = true) (behind : Denotes cs n) :
    Denotes (c :: cs) ((c.toNat - '0'.toNat) * 10 ^ cs.length + n)

theorem ofDigitChars_cons_zero (c : Char) (cs : List Char) :
    Nat.ofDigitChars 10 (c :: cs) 0
      = (c.toNat - '0'.toNat) * 10 ^ cs.length + Nat.ofDigitChars 10 cs 0 := by
  rw [Nat.ofDigitChars_cons, Nat.mul_zero, Nat.zero_add, Nat.ofDigitChars_eq_ofDigitChars_zero,
    Nat.mul_comm]

/-- **Reading from the front gives the number denoted.** -/
theorem denotes_iff :
    Denotes cs n ↔ (∀ c ∈ cs, c.isDigit = true) ∧ n = Nat.ofDigitChars 10 cs 0 := by
  constructor
  · intro h
    induction h with
    | nil => exact ⟨nofun, Nat.ofDigitChars_nil.symm⟩
    | cons digit _ ih =>
      exact ⟨List.forall_mem_cons.2 ⟨digit, ih.1⟩, by rw [ofDigitChars_cons_zero, ih.2]⟩
  · rintro ⟨digits, rfl⟩
    induction cs with
    | nil => exact .nil
    | cons c cs ih =>
      obtain ⟨digit, behind⟩ := List.forall_mem_cons.1 digits
      rw [ofDigitChars_cons_zero]
      exact .cons digit (ih behind)

theorem Denotes.isDigit (h : Denotes cs n) : ∀ c ∈ cs, c.isDigit = true := (denotes_iff.1 h).1

theorem denotes_ofNat (n : ℕ) : Denotes (ofNat n) n :=
  denotes_iff.2 ⟨isDigit_of_mem_ofNat, (ofDigitChars_ofNat n).symm⟩

theorem value?_eq_some_iff : value? cs = some n ↔ cs ≠ [] ∧ Denotes cs n := by
  rw [value?, denotes_iff, ← List.all_eq_true, ← and_assoc, Option.ite_none_right_eq_some,
    Option.some.injEq, eq_comm (a := n)]

/-- Zeros in front do not matter. -/
theorem ofDigitChars_zeros_append (zeros : ℕ) (cs : List Char) :
    Nat.ofDigitChars 10 (List.replicate zeros '0' ++ cs) 0 = Nat.ofDigitChars 10 cs 0 := by
  rw [Nat.ofDigitChars_append, Nat.ofDigitChars_replicate_zero, Nat.mul_zero]

end Digits

namespace IntKind

variable {k : IntKind} {neg : Bool} {n : k.Value} {m m' : ℕ}

/-- What is nearer to zero than a number of a kind is of the kind. -/
theorem contains_of_le (le : m ≤ m') (h : k.Contains (negateIf neg m')) :
    k.Contains (negateIf neg m) := by
  obtain ⟨least, greatest⟩ := k.contains_zero
  obtain ⟨low, high⟩ := h
  cases neg with
  | false => exact ⟨least.trans (Int.natCast_nonneg m), (Int.ofNat_le.2 le).trans high⟩
  | true => exact ⟨low.trans (Int.neg_le_neg (Int.ofNat_le.2 le)), by
      rw [negateIf, if_pos rfl]
      omega⟩

/-- **One digit more** gives the number denoted, if that is in range. -/
theorem push?_eq (read : n.1 = negateIf neg m) {c : Char} (digit : c.isDigit = true) :
    k.push? neg n c = k.ofInt? (negateIf neg (10 * m + (c.toNat - '0'.toNat) : ℕ)) := by
  generalize hd : c.toNat - '0'.toNat = d
  have tens : n.1 * 10 = negateIf neg (10 * m : ℕ) := by
    rw [read]
    cases neg <;> simp [negateIf, mul_comm]
  have sum : (if neg then n.1 * 10 - (d : ℤ) else n.1 * 10 + d)
      = negateIf neg (10 * m + d : ℕ) := by
    rw [tens]
    cases neg <;> simp [negateIf]
    ring
  rw [push?, if_pos digit, hd]
  by_cases inside : k.Contains (n.1 * 10)
  · rw [← sum, ofInt?, dif_pos inside]
    rfl
  · have outside : ¬ k.Contains (negateIf neg (10 * m + d : ℕ)) :=
      fun h => inside (tens ▸ contains_of_le (Nat.le_add_right _ _) h)
    rw [ofInt?, dif_neg inside, ofInt?, dif_neg outside]
    rfl

/-- **Reading digits with a check at each gives the number denoted**, if that is
in range. -/
theorem foldlM_push? {ds : List Char} (digits : ∀ c ∈ ds, c.isDigit = true)
    (read : n.1 = negateIf neg m) :
    ds.foldlM (k.push? neg) n = k.ofInt? (negateIf neg (Nat.ofDigitChars 10 ds m)) := by
  induction ds generalizing n m with
  | nil => rw [Nat.ofDigitChars_nil, ← read, ofInt?_val]; rfl
  | cons c ds ih =>
    obtain ⟨digit, behind⟩ := List.forall_mem_cons.1 digits
    rw [List.foldlM_cons, push?_eq read digit, Nat.ofDigitChars_cons]
    generalize 10 * m + (c.toNat - '0'.toNat) = m'
    by_cases inside : k.Contains (negateIf neg m')
    · rw [ofInt?, dif_pos inside]
      exact ih behind rfl
    · -- the digits behind only lead farther from zero
      have le : m' ≤ Nat.ofDigitChars 10 ds m' := by
        rw [Nat.ofDigitChars_eq_ofDigitChars_zero]
        exact (Nat.le_mul_of_pos_left _ (Nat.pow_pos (by decide))).trans (Nat.le_add_right _ _)
      rw [ofInt?, dif_neg inside, ofInt?, dif_neg (mt (contains_of_le le) inside)]
      rfl

/-- A character that is no digit is refused, wherever it stands. -/
theorem isDigit_of_foldlM_push? {ds : List Char} {v : k.Value}
    (h : ds.foldlM (k.push? neg) n = some v) : ∀ c ∈ ds, c.isDigit = true := by
  induction ds generalizing n with
  | nil => exact nofun
  | cons c ds ih =>
    rw [List.foldlM_cons, Option.bind_eq_bind, Option.bind_eq_some_iff] at h
    obtain ⟨next, taken, rest⟩ := h
    refine List.forall_mem_cons.2 ⟨?_, ih rest⟩
    unfold push? at taken
    split at taken
    · assumption
    · cases taken

/-- **What is read from digits is exactly what they denote**, if the kind has it. -/
theorem ofDigits?_eq_some_iff {ds : List Char} {v : k.Value} :
    k.ofDigits? neg ds = some v ↔ ds ≠ [] ∧ ∃ m, Digits.Denotes ds m ∧ v.1 = negateIf neg m := by
  have zero : (⟨0, k.contains_zero⟩ : k.Value).1 = negateIf neg (0 : ℕ) := by cases neg <;> rfl
  rw [ofDigits?]
  split
  · rename_i none
    exact iff_of_false nofun fun h => h.1 none
  · rename_i some
    rw [and_iff_right some]
    constructor
    · intro h
      have digits := isDigit_of_foldlM_push? h
      rw [foldlM_push? digits zero, ofInt?_eq_some_iff] at h
      exact ⟨_, Digits.denotes_iff.2 ⟨digits, rfl⟩, h⟩
    · rintro ⟨m, denotes, value⟩
      obtain ⟨digits, rfl⟩ := Digits.denotes_iff.1 denotes
      rw [foldlM_push? digits zero, ofInt?_eq_some_iff]
      exact value

/-- A run of digits that denotes a number is read as this number or refused as out
of range. -/
theorem ofDigits?_eq {ds : List Char} (some : ds ≠ []) (denotes : Digits.Denotes ds m) :
    k.ofDigits? neg ds = k.ofInt? (negateIf neg m) := by
  obtain ⟨digits, rfl⟩ := Digits.denotes_iff.1 denotes
  rw [ofDigits?, if_neg some, foldlM_push? digits (by cases neg <;> rfl)]

end IntKind

end DynValue

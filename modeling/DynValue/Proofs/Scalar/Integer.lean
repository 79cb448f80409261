import DynValue.Proofs.Number.Exact
import DynValue.Scalar.Convert

/-!
# Conversion into integers is exact

A stored number has an exact value, a rational, unless it is a float that is
not finite (`Payload.exactValue?`). Whatever its kind, its conversion into an
integer kind gives this value truncated toward zero, if that is in the range
of the kind, and refuses it otherwise (`Variant.convert_int_iff`).

The way there is through casts, which refuse nothing: an integer is cast to
the widest kind of its sign, and so is a truncated float. The point is that
no cast is ever made of a number out of range. For floats this rests on
two comparisons, with the least value of the widest signed kind and with the
first integer past the widest unsigned kind, both of which are floats
(`WideInt.ofFloat?_val`).
-/

namespace DynValue

variable {C : CallerTypes}

/-- A float in the range of a kind is cast to its integer part. -/
theorem Fp.toIntClamped_val {K : FloatKind} {x : Fp K} {q : ℚ} (hx : x.value? = some q)
    {k : IntKind} (h : k.Contains (towardZero q)) : (x.toIntClamped k).1 = towardZero q := by
  have whole : x.truncate? = some (towardZero q) := by rw [truncate?_eq, hx, Option.map_some]
  cases x with
  | nan => cases hx
  | inf neg => cases hx
  | finite neg mag =>
    rw [toIntClamped, whole, Option.getD_some, IntKind.clamp_val h]
    exact nofun

/-! ## The widest kinds -/

namespace WideInt

/-- An integer that one of the widest kinds holds. -/
def Holds (n : ℤ) : Prop :=
  IntKind.widestSigned.Contains n ∨ IntKind.widestUnsigned.Contains n

instance (n : ℤ) : Decidable (Holds n) := inferInstanceAs (Decidable (_ ∨ _))

/-- **A kind is contained in the widest of its sign.** -/
theorem contains_widest {k : IntKind} {n : ℤ} (h : k.Contains n) :
    IntKind.Contains ⟨k.signed, .w128⟩ n := by
  have least : IntKind.least ⟨k.signed, .w128⟩ ≤ k.least := by
    obtain ⟨signed, width⟩ := k
    cases signed <;> cases width <;> decide
  have greatest : k.greatest ≤ IntKind.greatest ⟨k.signed, .w128⟩ := by
    obtain ⟨signed, width⟩ := k
    cases signed <;> cases width <;> decide
  exact ⟨least.trans h.1, h.2.trans greatest⟩

theorem holds_of_contains {k : IntKind} {n : ℤ} (h : k.Contains n) : Holds n := by
  have wide := contains_widest h
  obtain ⟨signed, width⟩ := k
  cases signed with
  | true => exact .inl wide
  | false => exact .inr wide

/-- Together the widest kinds reach from the least value of the one to the
greatest of the other. -/
theorem holds_iff {n : ℤ} : Holds n ↔ IntKind.widestSigned.least ≤ n ∧ n < (2 ^ 128 : Nat) := by
  have least : IntKind.widestSigned.least = -2 ^ 127 := by decide
  have greatest : IntKind.widestSigned.greatest = 2 ^ 127 - 1 := by decide
  have least' : IntKind.widestUnsigned.least = 0 := by decide
  have greatest' : IntKind.widestUnsigned.greatest = 2 ^ 128 - 1 := by decide
  unfold Holds IntKind.Contains
  rw [least, greatest, least', greatest']
  omega

/-- A widened integer is held by the kind that it is in. -/
theorem holds (n : WideInt) : Holds n.val := by
  cases n with
  | signed n => exact .inl n.2
  | unsigned n => exact .inr n.2

/-- **Widening an integer** does not change it. -/
theorem val_ofInt {k : IntKind} (n : k.Value) : (ofInt k n).val = n.1 := by
  have wide := contains_widest n.2
  obtain ⟨signed, width⟩ := k
  cases signed with
  | true => exact IntKind.wrap_val wide
  | false => exact IntKind.wrap_val wide

/-- The least value of the widest signed kind is a float. -/
theorem value?_least : (Fp.ofInt .double IntKind.widestSigned.least).value?
    = some (IntKind.widestSigned.least : ℚ) := by
  have power : IntKind.widestSigned.least.natAbs = 2 ^ 127 := by decide
  refine Fp.value?_ofInt ?_ ?_ <;> rw [power]
  · exact FloatKind.represents_two_pow _ 127
  · exact Nat.pow_lt_pow_right (by decide) (by decide)

/-- The first integer past the widest unsigned kind is a float. -/
theorem value?_past : (Fp.ofInt .double (2 ^ 128 : Nat)).value? = some ((2 ^ 128 : Nat) : ℤ) :=
  Fp.value?_ofInt (FloatKind.represents_two_pow _ 128)
    (Nat.pow_lt_pow_right (by decide) (by decide))

theorem value?_zero : (Fp.zero .double false).value? = some ((0 : ℤ) : ℚ) := by
  rw [Fp.zero, Fp.value?, FloatKind.units_zero, Nat.cast_zero, zero_div, Fp.signed,
    if_neg Bool.false_ne_true, Int.cast_zero]

/-- **The comparisons of a truncated float with the bounds** are those of the
integer that it is. -/
theorem ofFloat?_eq {x : Fp .double} {n : ℤ} (finite : x.isFinite = true)
    (whole : x.trunc.value? = some (n : ℚ)) :
    ofFloat? x =
      if n < 0 then
        if IntKind.widestSigned.least ≤ n then some (signed (x.trunc.toIntClamped _)) else none
      else if n < (2 ^ 128 : Nat) then some (unsigned (x.trunc.toIntClamped _)) else none := by
  have negative := Fp.less_iff whole value?_zero
  have large := Fp.atLeast_iff whole value?_least
  have small := Fp.less_iff whole value?_past
  rw [Int.cast_lt] at negative small
  rw [Int.cast_le] at large
  rw [ofFloat?, finite, if_neg (by decide)]
  exact if_congr negative (if_congr large rfl rfl) (if_congr small rfl rfl)

/-- **A float is cast after it was found to be in range**, so the cast gives
its value truncated, and every float whose truncated value one of the widest
kinds holds gets there. -/
theorem ofFloat?_val (x : Fp .double) :
    (ofFloat? x).map val = (x.value?.map towardZero).filter fun n => decide (Holds n) := by
  cases hx : x.value? with
  | none =>
    have infinite : x.isFinite = false := by rw [← Fp.value?_isSome, hx, Option.isSome_none]
    rw [ofFloat?, infinite]
    rfl
  | some q =>
    have finite : x.isFinite = true := by rw [← Fp.value?_isSome, hx, Option.isSome_some]
    rw [Option.map_some]
    generalize hn : towardZero q = n
    have whole : x.trunc.value? = some (n : ℚ) := by
      rw [Fp.value?_trunc, hx, Option.map_some, hn]
    have cast {k : IntKind} (h : k.Contains n) : (x.trunc.toIntClamped k).1 = n := by
      rw [Fp.toIntClamped_val whole (by rwa [towardZero_intCast]), towardZero_intCast]
    have refused (h : ¬ Holds n) : (some n).filter (fun n => decide (Holds n)) = none :=
      if_neg (mt of_decide_eq_true h)
    have held (h : Holds n) : (some n).filter (fun n => decide (Holds n)) = some n :=
      if_pos (decide_eq_true h)
    rw [ofFloat?_eq finite whole]
    rcases Int.lt_or_le n 0 with below | above
    · rw [if_pos below]
      by_cases large : IntKind.widestSigned.least ≤ n
      · have inside : IntKind.widestSigned.Contains n := ⟨large, below.le.trans (by decide)⟩
        rw [if_pos large, Option.map_some, val, cast inside, held (.inl inside)]
      · rw [if_neg large, refused fun h => large (holds_iff.1 h).1, Option.map_none]
    · rw [if_neg above.not_gt]
      by_cases small : n < (2 ^ 128 : Nat)
      · have inside : IntKind.widestUnsigned.Contains n := ⟨above, Int.le_sub_one_of_lt small⟩
        rw [if_pos small, Option.map_some, val, cast inside, held (.inr inside)]
      · rw [if_neg small, refused fun h => small (holds_iff.1 h).2, Option.map_none]

end WideInt

/-! ## Exact values -/

/-- The exact value of a widened number, if it is finite. -/
def Number.value? : Number → Option ℚ
  | .int n => some n.val
  | .float x => x.value?

/-- **A widened number in an integer kind** is its value truncated toward
zero, if the kind has it. -/
theorem Number.toInt?_eq (k : IntKind) (number : Number) :
    number.toInt? k = number.value?.bind fun q => k.ofInt? (towardZero q) := by
  cases number with
  | int n => rw [toInt?, value?, Option.bind_some, towardZero_intCast]
  | float x =>
    have through : (WideInt.ofFloat? x).bind (fun n => k.ofInt? n.val)
        = ((WideInt.ofFloat? x).map WideInt.val).bind k.ofInt? := by
      rw [Option.bind_map]
      rfl
    rw [toInt?, value?, through, WideInt.ofFloat?_val]
    cases x.value? with
    | none => rfl
    | some q =>
      rw [Option.map_some, Option.bind_some]
      by_cases h : WideInt.Holds (towardZero q)
      · exact congrArg (Option.bind · k.ofInt?) (if_pos (decide_eq_true h))
      · have outside : ¬ k.Contains (towardZero q) := mt WideInt.holds_of_contains h
        rw [Option.filter, if_neg (mt of_decide_eq_true h), IntKind.ofInt?, dif_neg outside,
          Option.bind_none]

namespace Payload

/-- **The stored numbers**: integers and floats of every kind, and truth
values. -/
def IsNumber : Payload C → Prop
  | int _ _ | float _ _ | bool _ => True
  | _ => False

/-- **The exact value of a stored number.** A truth value is zero or one; a
float that is not finite has none. -/
def exactValue? : Payload C → Option ℚ
  | int _ n => some n.1
  | float _ x => x.value?
  | bool b => some (if b then 1 else 0)
  | _ => none

/-- **Widening a stored number** does not change its value. -/
theorem exists_number {p : Payload C} (h : p.IsNumber) :
    ∃ number, p.number? = some number ∧ number.value? = p.exactValue? := by
  cases p with
  | int k n => exact ⟨_, rfl, congrArg (fun i : ℤ => some (i : ℚ)) (WideInt.val_ofInt n)⟩
  | float K x => exact ⟨_, rfl, x.value?_widen⟩
  | bool b => cases b <;> exact ⟨_, rfl, rfl⟩
  | _ => exact h.elim

theorem text?_of_isNumber {v : Variant C} {p : Payload C} (hv : v.payload = some p)
    (h : p.IsNumber) : v.text? = none := by
  rw [Variant.text?, hv]
  cases p with
  | text s => exact h.elim
  | _ => rfl

end Payload

/-! ## Conversion -/

namespace Variant

variable {v : Variant C} {p : Payload C}

/-- The rule of an integer kind, for a stored number. -/
theorem toInt_eq (hv : v.payload = some p) (hp : p.IsNumber) (k : IntKind) :
    v.toInt k = match p.exactValue?.bind fun q => k.ofInt? (towardZero q) with
      | some n => .ok (.int k n)
      | none => .error ((v.castError (.int k)).because .outOfRange) := by
  obtain ⟨number, widened, value⟩ := Payload.exists_number hp
  rw [← value, ← Number.toInt?_eq]
  cases whole : number.toInt? k <;>
    simp only [toInt, Payload.text?_of_isNumber hv hp, hv, Option.bind_some, widened, whole]

/-- The stored value of the kind itself is no exception. -/
theorem convert_toInt (hv : v.payload = some p) (hp : p.IsNumber) (K : Converters C)
    (alive : RefSet) (k : IntKind) : (v.convert K alive (.int k)).value = v.toInt k := by
  by_cases type : p.type = .int k
  · rw [convert_of_type K alive hv type]
    cases p with
    | int k' n =>
      obtain rfl : k' = k := Ty.int.inj type
      rw [toInt_eq hv hp, Payload.exactValue?, Option.bind_some, towardZero_intCast,
        IntKind.ofInt?_val]
    | _ => cases type
  · exact convert_of_type_ne K alive hv type

/-- **A stored number converts into an integer kind exactly if its value,
truncated toward zero, is in the range of the kind**, and to that value. A
number that is not finite, or that is out of range, is refused as such. -/
theorem convert_int_iff (hv : v.payload = some p) (hp : p.IsNumber) (K : Converters C)
    (alive : RefSet) (k : IntKind) :
    (∀ r, (v.convert K alive (.int k)).value = .ok r
      ↔ ∃ q, p.exactValue? = some q ∧ ∃ h : k.Contains (towardZero q), r = .int k ⟨towardZero q, h⟩)
    ∧ ((v.convert K alive (.int k)).value = .error ((v.castError (.int k)).because .outOfRange)
      ↔ ∀ q, p.exactValue? = some q → ¬ k.Contains (towardZero q)) := by
  rw [convert_toInt hv hp, toInt_eq hv hp]
  cases p.exactValue? with
  | none => exact ⟨fun r => by simp, by simp⟩
  | some q =>
    rw [Option.bind_some, IntKind.ofInt?]
    by_cases h : k.Contains (towardZero q)
    · rw [dif_pos h]
      exact ⟨fun r => by simp [h, eq_comm], by simp [h]⟩
    · rw [dif_neg h]
      exact ⟨fun r => by simp [h], by simp [h]⟩

/-- As floats, the least value of the widest signed kind is the last one that
converts, and the first integer past the widest unsigned kind is refused. -/
theorem convert_int_iff_bounds :
    ((native (.float .double (.ofInt .double IntKind.widestSigned.least))).convert
        (.refusing .none) RefSet.none (.int .widestSigned)).value
      = .ok (.int .widestSigned ⟨IntKind.widestSigned.least, by decide⟩)
    ∧ ((native (.float .double (.ofInt .double (2 ^ 128 : Nat)))).convert
        (.refusing .none) RefSet.none (.int .widestUnsigned)).value
      = .error ⟨.float .double, .int .widestUnsigned, some Reason.outOfRange.wording⟩ := by
  have stored (x : Fp .double) :=
    convert_int_iff (v := native (.float .double x)) (p := .float .double x) rfl trivial
      (.refusing .none) RefSet.none
  refine ⟨((stored _ _).1 _).2 ⟨_, WideInt.value?_least, ?_⟩, (stored _ _).2.2 fun q hq => ?_⟩
  · rw [towardZero_intCast]
    exact ⟨by decide, rfl⟩
  · obtain rfl : _ = q := Option.some.inj (WideInt.value?_past.symm.trans hq)
    rw [towardZero_intCast]
    decide

end Variant

end DynValue

import DynValue.Number.Power

/-!
# Fixed-width integers

A stored integer is one of twelve kinds: signed or unsigned, of a width
from eight to 128 bits or of one machine word, which here has 64. A
value of a kind is an integer *with the proof that it is in range*.

There are three ways to come by one from an integer. `ofInt?` checks the
range and refuses what is outside; `wrap` keeps the last bits and `clamp`
takes the nearest value, and these two never refuse. They agree with
`ofInt?` on what is in range.

The second half is the text form: decimal digits with an optional sign.
Digits are read one at a time into a value of the kind, so that no number
out of range is ever held.
-/

namespace DynValue

/-- The widths an integer can have. -/
inductive IntWidth where
  | w8 | w16 | w32 | w64 | w128
  /-- The machine word. -/
  | word
  deriving DecidableEq, Repr

/-- The number of bits of a width. A machine word has 64. -/
def IntWidth.bits : IntWidth → Nat
  | .w8 => 8
  | .w16 => 16
  | .w32 => 32
  | .w64 | .word => 64
  | .w128 => 128

/-- **An integer kind**: a width, and whether values may be negative. -/
structure IntKind where
  /-- Whether the kind holds negative numbers. -/
  signed : Bool
  /-- The width. -/
  width : IntWidth
  deriving DecidableEq, Repr

namespace IntKind

/-- The least value of a kind. -/
def least (k : IntKind) : Int :=
  if k.signed then -(2 ^ (k.width.bits - 1) : Nat) else 0

/-- The greatest value of a kind. -/
def greatest (k : IntKind) : Int :=
  if k.signed then (2 ^ (k.width.bits - 1) : Nat) - 1 else (2 ^ k.width.bits : Nat) - 1

/-- `k.Contains n` says that `n` is in the range of `k`. -/
def Contains (k : IntKind) (n : Int) : Prop := k.least ≤ n ∧ n ≤ k.greatest

instance (k : IntKind) (n : Int) : Decidable (k.Contains n) :=
  inferInstanceAs (Decidable (_ ∧ _))

/-- **A value of a kind**: an integer in its range. -/
abbrev Value (k : IntKind) : Type := { n : Int // k.Contains n }

/-- The integer as a value of the kind, if it is in range. -/
def ofInt? (k : IntKind) (n : Int) : Option k.Value :=
  if h : k.Contains n then some ⟨n, h⟩ else none

theorem ofInt?_eq_some_iff {k : IntKind} {n : Int} {v : k.Value} :
    k.ofInt? n = some v ↔ v.1 = n := by
  unfold ofInt?
  split
  · simp [Subtype.ext_iff, eq_comm]
  · rename_i h
    constructor
    · intro h'; cases h'
    · rintro rfl; exact absurd v.2 h

theorem ofInt?_val {k : IntKind} (v : k.Value) : k.ofInt? v.1 = some v :=
  ofInt?_eq_some_iff.2 rfl

/-- A kind has as many values as its bits have states. -/
theorem greatest_eq (k : IntKind) : k.greatest = k.least + (2 ^ k.width.bits : Nat) - 1 := by
  obtain ⟨signed, width⟩ := k
  cases signed <;> cases width <;> decide

/-- **The value of a kind that has the same last bits** as an integer. -/
def wrap (k : IntKind) (n : Int) : k.Value :=
  ⟨k.least + (n - k.least) % (2 ^ k.width.bits : Nat), by
    have hpos : (0 : Int) < (2 ^ k.width.bits : Nat) := Int.natCast_pos.2 (Nat.two_pow_pos _)
    have hlow := Int.emod_nonneg (n - k.least) (Int.ne_of_gt hpos)
    have hhigh := Int.emod_lt_of_pos (n - k.least) hpos
    have := k.greatest_eq
    exact ⟨by omega, by omega⟩⟩

/-- An integer in range is the value that has its last bits. -/
theorem wrap_val {k : IntKind} {n : Int} (h : k.Contains n) : (k.wrap n).1 = n := by
  have := k.greatest_eq
  obtain ⟨hlow, hhigh⟩ := h
  show k.least + (n - k.least) % _ = n
  rw [Int.emod_eq_of_lt (by omega) (by omega)]
  omega

theorem least_le_greatest (k : IntKind) : k.least ≤ k.greatest := by
  have hpos : (0 : Int) < (2 ^ k.width.bits : Nat) := Int.natCast_pos.2 (Nat.two_pow_pos _)
  have := k.greatest_eq
  omega

/-- **The value of a kind that is nearest** to an integer: out of range it
is the end of the range. -/
def clamp (k : IntKind) (n : Int) : k.Value :=
  ⟨max k.least (min n k.greatest), by
    have := k.least_le_greatest
    exact ⟨by omega, by omega⟩⟩

/-- An integer in range is the nearest value to itself. -/
theorem clamp_val {k : IntKind} {n : Int} (h : k.Contains n) : (k.clamp n).1 = n := by
  obtain ⟨hlow, hhigh⟩ := h
  show max k.least (min n k.greatest) = n
  omega

/-- The name of a kind: a letter for the sign, then the width in bits,
or `size` for a machine word. -/
def name (k : IntKind) : String :=
  (if k.signed then "i" else "u") ++
    match k.width with
    | .w8 => "8"
    | .w16 => "16"
    | .w32 => "32"
    | .w64 => "64"
    | .w128 => "128"
    | .word => "size"

end IntKind

/-! ## Decimal text -/

namespace Digits

/-- The number that a non-empty run of ASCII digits denotes. Leading
zeros do not matter. -/
def value? (cs : List Char) : Option Nat :=
  if cs ≠ [] ∧ cs.all Char.isDigit then some (Nat.ofDigitChars 10 cs 0) else none

/-- The decimal digits of a number, without leading zeros. -/
def ofNat (n : Nat) : List Char := Nat.toDigits 10 n

theorem ofNat_ne_nil (n : Nat) : ofNat n ≠ [] :=
  List.ne_nil_of_length_pos Nat.length_toDigits_pos

theorem isDigit_of_mem_ofNat {n : Nat} : ∀ c ∈ ofNat n, c.isDigit = true :=
  fun _ hc => Nat.isDigit_of_mem_toDigits (by decide) (by decide) hc

theorem ofDigitChars_ofNat (n : Nat) : Nat.ofDigitChars 10 (ofNat n) 0 = n :=
  Nat.ofDigitChars_toDigits (by decide) (by decide)

end Digits

namespace IntKind

/-- **The text of an integer**: its decimal digits, after a minus sign
if it is negative. -/
def text (n : Int) : String :=
  String.ofList (if n < 0 then '-' :: Digits.ofNat n.natAbs else Digits.ofNat n.natAbs)

/-- Every kind has a zero. -/
theorem contains_zero (k : IntKind) : k.Contains 0 := by
  obtain ⟨signed, width⟩ := k
  cases signed <;> cases width <;> decide

/-- **One digit more at the end of a number**: ten times the number with the
digit added, or taken off if the number is to be negative. Both results have
to be in range. -/
def push? (k : IntKind) (neg : Bool) (n : k.Value) (c : Char) : Option k.Value :=
  if c.isDigit then do
    let tens ← k.ofInt? (n.1 * 10)
    let digit : Int := (c.toNat - '0'.toNat : Nat)
    k.ofInt? (if neg then tens.1 - digit else tens.1 + digit)
  else none

/-- **Reading digits**, of which there has to be one, from the first to the
last. A negative number is read as such from the start, since the least value
of a kind may have no positive counterpart. -/
def ofDigits? (k : IntKind) (neg : Bool) (ds : List Char) : Option k.Value :=
  if ds = [] then none else ds.foldlM (k.push? neg) ⟨0, k.contains_zero⟩

/-- **Reading an integer**: the whole text is digits after an optional plus,
or for a signed kind an optional minus. -/
def ofText? (k : IntKind) (s : String) : Option k.Value :=
  match s.toList with
  | '+' :: ds => k.ofDigits? false ds
  | '-' :: ds => if k.signed then k.ofDigits? true ds else none
  | ds => k.ofDigits? false ds

end IntKind

end DynValue

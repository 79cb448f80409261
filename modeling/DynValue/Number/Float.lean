import DynValue.Number.Power

/-!
# Binary floating point

A finite float of either kind is a sign and a **magnitude**: its place
`0, 1, 2, …` in the list of the kind's non-negative finite values in
increasing order. The first value past the list is infinity's place.
This is the encoding of the interchange formats with the sign bit taken
off, so bits and floats translate by a division (`ofBits`, `toBits`).

Every finite value is a natural multiple of one small unit, `2⁻ˢ` where
`s` is the kind's scale; `units` says which multiple. Values, midpoints
and roundings are then exact statements about natural numbers: no
operation here computes with a machine float.

There is one rounding, `nearest`, from a quotient of natural numbers to
the closest magnitude, a tie to the even one. Conversions between kinds,
from integers and from decimal text all go through it, each exactly
once, so none rounds twice.
-/

namespace DynValue

/-- The two kinds of binary floating point. -/
inductive FloatKind where
  /-- 32 bits. -/
  | single
  /-- 64 bits. -/
  | double
  deriving DecidableEq, Repr

namespace FloatKind

/-- The number of bits of the fraction field. -/
def fracBits : FloatKind → Nat
  | single => 23
  | double => 52

/-- The number of bits of the exponent field. -/
def expBits : FloatKind → Nat
  | single => 8
  | double => 11

/-- The unit of a kind is `2 ^ -scale`: the least positive value. -/
def scale : FloatKind → Nat
  | single => 149
  | double => 1074

/-- Every finite value is below `2 ^ top`. -/
def top (K : FloatKind) : Nat := 2 ^ (K.expBits - 1)

/-- Infinity's place: the first magnitude that is no finite value. -/
def infMag (K : FloatKind) : Nat := (2 ^ K.expBits - 1) * 2 ^ K.fracBits

/-- The name of a kind: the letter `f` and the width in bits. -/
def name : FloatKind → String
  | single => "f32"
  | double => "f64"

/-! ## Magnitudes and units -/

/-- **The value at a magnitude**, in units. Below `2 ^ (fracBits + 1)` the
values are spaced one unit apart; from there the spacing doubles every
`2 ^ fracBits` places. Defined past the last finite value too, where it
continues with the values that an unbounded exponent would give. -/
def units (K : FloatKind) (mag : Nat) : Nat :=
  let k := mag / 2 ^ K.fracBits - 1
  (mag - k * 2 ^ K.fracBits) * 2 ^ k

/-- **The greatest magnitude whose value does not exceed `n` units.** -/
def floorMag (K : FloatKind) (n : Nat) : Nat :=
  let k := n.log2 - K.fracBits
  k * 2 ^ K.fracBits + n / 2 ^ k

/-- **Rounding to nearest, a tie to even**: the magnitude whose value is
closest to `num / den` units, of two equally close the even one. -/
def nearest (K : FloatKind) (num den : Nat) : Nat :=
  let low := K.floorMag (num / den)
  let middle := (K.units low + K.units (low + 1)) * den
  if 2 * num < middle then low
  else if middle < 2 * num then low + 1
  else if low % 2 = 0 then low else low + 1

end FloatKind

/-- **A float**. All not-a-numbers are one value. -/
inductive Fp (K : FloatKind) where
  /-- Not a number. -/
  | nan
  /-- Infinity, negative if `neg`. -/
  | inf (neg : Bool)
  /-- A finite value by sign and magnitude; both zeros have magnitude 0. -/
  | finite (neg : Bool) (mag : Fin K.infMag)
  deriving DecidableEq

namespace Fp

variable {K : FloatKind}

theorem infMag_pos (K : FloatKind) : 0 < K.infMag := by cases K <;> decide

/-- Zero with a sign. -/
def zero (K : FloatKind) (neg : Bool) : Fp K := .finite neg ⟨0, infMag_pos K⟩

/-- The float at a magnitude, infinity from its place on. -/
def ofMag (K : FloatKind) (neg : Bool) (mag : Nat) : Fp K :=
  if h : mag < K.infMag then .finite neg ⟨mag, h⟩ else .inf neg

/-- **The float nearest to a signed quotient**: to `num / den` units,
negated if `neg`. A quotient half a step past the last finite value, or
further, gives infinity. -/
def round (K : FloatKind) (neg : Bool) (num den : Nat) : Fp K :=
  ofMag K neg (K.nearest num den)

/-- Whether a float is neither infinite nor not a number. -/
def isFinite : Fp K → Bool
  | finite .. => true
  | _ => false

/-- Whether a float is an infinity, of either sign. -/
def isInfinite : Fp K → Bool
  | inf _ => true
  | _ => false

/-- Whether a float is a zero, of either sign. -/
def isZero : Fp K → Bool
  | finite _ mag => mag.1 = 0
  | _ => false

/-- The float nearest to an integer. -/
def ofInt (K : FloatKind) (n : Int) : Fp K :=
  round K (decide (n < 0)) (n.natAbs * 2 ^ K.scale) 1

/-- The float of another kind nearest to a float: not-a-numbers and
infinities are kept, a finite value is rounded once. -/
def convert (L : FloatKind) : Fp K → Fp L
  | nan => .nan
  | inf neg => .inf neg
  | finite neg mag => round L neg (K.units mag * 2 ^ L.scale) (2 ^ K.scale)

/-- `x.exceeds L` says that `x` is finite and farther from zero than every
finite value of kind `L`. -/
def exceeds (L : FloatKind) : Fp K → Bool
  | finite _ mag =>
    decide (L.units (L.infMag - 1) * 2 ^ K.scale < K.units mag * 2 ^ L.scale)
  | _ => false

/-- The integer part of a finite float. -/
def truncate? : Fp K → Option Int
  | finite neg mag =>
    let n : Nat := K.units mag / 2 ^ K.scale
    some (if neg then -(n : Int) else n)
  | _ => none

/-- **Truncation toward zero** to a float. The sign is kept, also where
nothing else is left. -/
def trunc : Fp K → Fp K
  | finite neg mag => round K neg (K.units mag / 2 ^ K.scale * 2 ^ K.scale) 1
  | x => x

/-! ## Order

A float other than not-a-number is placed on a line of integers by its
signed magnitude; the two zeros share a place. -/

/-- The place of a float on the line. -/
def place? : Fp K → Option Int
  | nan => none
  | inf neg => some (if neg then -(K.infMag : Int) else K.infMag)
  | finite neg mag => some (if neg then -(mag.1 : Int) else mag.1)

/-- Comparison of two floats; not-a-number compares with nothing. -/
def compare? {L : FloatKind} (x : Fp K) (y : Fp L) : Option Ordering :=
  match x.place?, y.place? with
  | some a, some b => some (compare a b)
  | _, _ => none

/-- `x.less y` says that `x` is before `y`. -/
def less (x y : Fp K) : Bool := (x.compare? y).any Ordering.isLT

/-- `x.atLeast y` says that `x` is `y` or after it. -/
def atLeast (x y : Fp K) : Bool := (x.compare? y).any Ordering.isGE

/-! ## Bits -/

/-- The float that the bits of the interchange format encode. -/
def ofBits (K : FloatKind) (bits : Nat) : Fp K :=
  let signBit := 2 ^ (K.expBits + K.fracBits)
  let neg := decide (bits / signBit % 2 = 1)
  let mag := bits % signBit
  if K.infMag < mag then .nan else ofMag K neg mag

/-- The bits of a float, for not-a-number a quiet one. -/
def toBits : Fp K → Nat
  | nan => K.infMag + 2 ^ (K.fracBits - 1)
  | inf neg => (if neg then 2 ^ (K.expBits + K.fracBits) else 0) + K.infMag
  | finite neg mag => (if neg then 2 ^ (K.expBits + K.fracBits) else 0) + mag.1

end Fp

end DynValue

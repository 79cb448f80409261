import DynValue.Number.Integer
import DynValue.Number.Float

/-!
# Decimal text of floats: reading

A decimal literal is a coefficient and a power of ten; it denotes an
exact rational number. Reading a float is two separate things, a grammar
that yields the literal and one rounding of the exact number it denotes.
The coefficient and the exponent are unbounded, so `Fp.ofDecimal` first
settles the literals that are far beyond the greatest finite value or
far below half the least one; only the rest is computed.

A literal that rounds past the last finite value denotes an infinity
(`Fp.parse?`). Reading a float then refuses every infinity of a text that
does not spell one (`Fp.ofText?`).
-/

namespace DynValue

/-- A sign in front, and what follows it. -/
def splitSign : List Char → Bool × List Char
  | '-' :: cs => (true, cs)
  | '+' :: cs => (false, cs)
  | cs => (false, cs)

/-- Whether characters stand in a row somewhere in a list. -/
def occursIn (word : List Char) : List Char → Bool
  | [] => word.isEmpty
  | c :: cs => word.isPrefixOf (c :: cs) || occursIn word cs

/-- **A decimal literal** without its sign: it denotes
`coeff * 10 ^ exponent`. -/
structure Decimal where
  /-- The digits read as one number, the point left out. -/
  coeff : Nat
  /-- The power of ten. -/
  exponent : Int
  deriving DecidableEq, Repr

namespace Decimal

/-- The exponent part: nothing, or the letter `e` in either case, an
optional sign and at least one digit. -/
def exponent? : List Char → Option Int
  | [] => some 0
  | c :: cs =>
    if c = 'e' ∨ c = 'E' then
      let (neg, ds) := splitSign cs
      (Digits.value? ds).map fun n : Nat => if neg then -(n : Int) else n
    else none

/-- **The grammar of a decimal literal**: digits with an optional point
among, before or after them, at least one digit, and an optional
exponent part. -/
def ofChars? (cs : List Char) : Option Decimal :=
  let whole := cs.takeWhile Char.isDigit
  let rest := cs.dropWhile Char.isDigit
  let (fraction, tail) :=
    match rest with
    | '.' :: rest => (rest.takeWhile Char.isDigit, rest.dropWhile Char.isDigit)
    | rest => ([], rest)
  if whole.isEmpty && fraction.isEmpty then none
  else (exponent? tail).map fun e =>
    ⟨Nat.ofDigitChars 10 (whole ++ fraction) 0, e - fraction.length⟩

end Decimal

namespace Fp

/-- **The float nearest to a decimal literal**, with a sign. Since
`10 ^ p ≥ 2 ^ (3 * p)`, a literal in the first branch is at least
`2 ^ top` and one in the second is below half a unit. -/
def ofDecimal (K : FloatKind) (neg : Bool) (d : Decimal) : Fp K :=
  if d.coeff = 0 then zero K neg
  else
    match d.exponent with
    | .ofNat p =>
      if K.top ≤ d.coeff.log2 + 3 * p then .inf neg
      else round K neg (d.coeff * 10 ^ p * 2 ^ K.scale) 1
    | .negSucc q =>
      if d.coeff.log2 + 2 + K.scale ≤ 3 * (q + 1) then zero K neg
      else round K neg (d.coeff * 2 ^ K.scale) (10 ^ (q + 1))

/-- The float that a word spells, the letters in either case: infinity
in short or in full, or not-a-number. -/
def ofWord? (K : FloatKind) (neg : Bool) (cs : List Char) : Option (Fp K) :=
  let word := String.ofList (cs.map Char.toLower)
  if word = "inf" ∨ word = "infinity" then some (.inf neg)
  else if word = "nan" then some .nan
  else none

/-- **The float that a text denotes**: the whole text is an optional sign,
then a decimal literal or a word. The float of a literal is the nearest one,
which may be an infinity. -/
def parse? (K : FloatKind) (s : String) : Option (Fp K) :=
  let (neg, body) := splitSign s.toList
  match Decimal.ofChars? body with
  | some d => some (ofDecimal K neg d)
  | none => ofWord? K neg body

/-- Whether a text has the letters `inf` in it, in either case. -/
def spellsInfinity (s : String) : Bool :=
  occursIn "inf".toList (s.toList.map Char.toLower)

/-- **Reading a float**: an infinity is accepted only if it is spelled. -/
def ofText? (K : FloatKind) (s : String) : Option (Fp K) :=
  (parse? K s).filter fun x => !x.isInfinite || spellsInfinity s

end Fp

end DynValue

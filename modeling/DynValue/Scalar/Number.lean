import DynValue.Payload

/-!
# Payloads as numbers

A number that is stored in any kind is first widened, and only then
brought into the kind that is asked for. An integer is widened to the
widest kind of its sign and a float to the wider kind, so that no value
changes. The check against the range of the kind asked for is made on the
widened number.

A float goes into an integer kind by way of the widest kind of its sign
(`WideInt.ofFloat?`): it is truncated, and then cast once it is known to
be in the range of that kind. The cast itself would not refuse anything.
-/

namespace DynValue

namespace IntKind

/-- The widest signed kind. -/
abbrev widestSigned : IntKind := ⟨true, .w128⟩

/-- The widest unsigned kind. -/
abbrev widestUnsigned : IntKind := ⟨false, .w128⟩

end IntKind

/-- **The cast of a float to an integer kind**, which takes the nearest
value of the kind: not-a-number becomes zero. -/
def Fp.toIntClamped {K : FloatKind} (k : IntKind) : Fp K → k.Value
  | .inf neg => k.clamp (if neg then k.least else k.greatest)
  | x => k.clamp (x.truncate?.getD 0)

/-- **An integer in the widest kind of its sign.** -/
inductive WideInt where
  | signed (n : IntKind.widestSigned.Value)
  | unsigned (n : IntKind.widestUnsigned.Value)

namespace WideInt

/-- The integer that it is. -/
def val : WideInt → Int
  | signed n => n.1
  | unsigned n => n.1

/-- The cast of an integer of some kind. -/
def ofInt (k : IntKind) (n : k.Value) : WideInt :=
  if k.signed then signed (IntKind.widestSigned.wrap n.1)
  else unsigned (IntKind.widestUnsigned.wrap n.1)

/-- A truth value as zero or one. -/
def ofBool (b : Bool) : WideInt :=
  unsigned (if b then ⟨1, by decide⟩ else ⟨0, by decide⟩)

/-- **A float truncated toward zero**, if it is finite and inside an
integer kind. The bounds are compared as floats: the least value of the
signed kind, which is included, and the first integer past the unsigned
kind, which is not. -/
def ofFloat? (x : Fp .double) : Option WideInt :=
  if !x.isFinite then none
  else
    let whole := x.trunc
    if whole.less (Fp.zero .double false) then
      if whole.atLeast (Fp.ofInt .double IntKind.widestSigned.least) then
        some (signed (whole.toIntClamped _))
      else none
    else if whole.less (Fp.ofInt .double (2 ^ (128 : Nat) : Nat)) then
      some (unsigned (whole.toIntClamped _))
    else none

end WideInt

/-- **A widened number**: an integer in the widest kind of its sign, or a
float in the wider kind. -/
inductive Number where
  | int (n : WideInt)
  | float (x : Fp .double)

namespace Number

/-- Whether a number is zero. Not-a-number is not. -/
def isZero : Number → Bool
  | int n => n.val == 0
  | float x => x.isZero

/-- **The number in an integer kind**: a float is truncated toward zero,
and the result has to be in range. -/
def toInt? (k : IntKind) : Number → Option k.Value
  | int n => k.ofInt? n.val
  | float x => (WideInt.ofFloat? x).bind fun n => k.ofInt? n.val

/-- **The number in a float kind**: rounded to nearest. The wider kind takes
every number. The narrower one refuses a finite float that is farther from
zero than each of its finite values, and an integer that rounds to infinity. -/
def toFloat? : (K : FloatKind) → Number → Option (Fp K)
  | .double, int n => some (Fp.ofInt .double n.val)
  | .double, float x => some x
  | .single, int n =>
    let x := Fp.ofInt .single n.val
    if x.isFinite then some x else none
  | .single, float x => if x.exceeds .single then none else some (x.convert .single)

end Number

/-- **A payload as a number**: numbers of any kind, and truth values as
zero and one. -/
def Payload.number? {C : CallerTypes} : Payload C → Option Number
  | .int k n => some (.int (.ofInt k n))
  | .float _ x => some (.float (x.convert .double))
  | .bool b => some (.int (.ofBool b))
  | _ => none

end DynValue

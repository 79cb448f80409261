/-!
# Wide text

Callers with wide characters hand over UTF-16 code units, and nothing
makes sure that the surrogates among them come in pairs. A `WideText` is
any sequence of units. Turning it into a string replaces each unit that
is not half of a pair by U+FFFD, one for one, so the replaced text has as
many units as before; a string turned into units has none to replace
(`toText_ofString`).
-/

namespace DynValue

/-- **UTF-16 text**: a sequence of code units, paired or not. -/
structure WideText where
  /-- The code units. -/
  units : List UInt16
  deriving DecidableEq, Repr, Inhabited

namespace WideText

/-- Whether a unit is the first half of a pair. -/
def isHigh (u : UInt16) : Bool := decide (0xD800 ≤ u.toNat ∧ u.toNat < 0xDC00)

/-- Whether a unit is the second half of a pair. -/
def isLow (u : UInt16) : Bool := decide (0xDC00 ≤ u.toNat ∧ u.toNat < 0xE000)

/-- The character that a pair of units stands for. -/
def pairChar (high low : UInt16) : Char :=
  Char.ofNat (0x10000 + (high.toNat - 0xD800) * 0x400 + (low.toNat - 0xDC00))

/-- The character that a unit outside a pair stands for: the replacement
character if the unit is a surrogate. -/
def unitChar (u : UInt16) : Char :=
  if isHigh u || isLow u then '\uFFFD' else Char.ofNat u.toNat

/-- The characters of a sequence of units. -/
def decode : List UInt16 → List Char
  | [] => []
  | [u] => [unitChar u]
  | u :: v :: us =>
    if isHigh u && isLow v then pairChar u v :: decode us
    else unitChar u :: decode (v :: us)

/-- The one or two units of a character. -/
def encodeChar (c : Char) : List UInt16 :=
  if c.toNat < 0x10000 then [c.toNat.toUInt16]
  else
    let n := c.toNat - 0x10000
    [(0xD800 + n / 0x400).toUInt16, (0xDC00 + n % 0x400).toUInt16]

/-- **The wide form of a string.** -/
def ofString (s : String) : WideText := ⟨s.toList.flatMap encodeChar⟩

/-- **The string of a wide text**, unpaired surrogates replaced. -/
def toText (w : WideText) : String := String.ofList (decode w.units)

/-- The number of code units. -/
def size (w : WideText) : Nat := w.units.length

/-- Whether there are no code units. -/
def isEmpty (w : WideText) : Bool := w.units.isEmpty

/-- Wide texts are ordered by their units, the first difference deciding. -/
def compareUnits (v w : WideText) : Ordering := compare v.units w.units

/-- The debugging form, which shows the units. -/
def debugText (w : WideText) : String :=
  "WideString([" ++ String.intercalate ", " (w.units.map fun u => toString u.toNat) ++ "])"

/-! ## There and back -/

theorem decode_cons_of_not_isHigh {u : UInt16} (h : isHigh u = false) (us : List UInt16) :
    decode (u :: us) = unitChar u :: decode us := by
  cases us with
  | nil => rfl
  | cons v us => simp [decode, h]

theorem decode_pair {u v : UInt16} (hu : isHigh u = true) (hv : isLow v = true)
    (us : List UInt16) : decode (u :: v :: us) = pairChar u v :: decode us := by
  simp [decode, hu, hv]

/-- The units of a character decode to it, whatever follows. -/
theorem decode_encodeChar_append (c : Char) (us : List UInt16) :
    decode (encodeChar c ++ us) = c :: decode us := by
  have hvalid : c.toNat < 0xD800 ∨ 0xDFFF < c.toNat ∧ c.toNat < 0x110000 := c.valid
  unfold encodeChar
  split
  · rename_i hsmall
    have hnat : c.toNat.toUInt16.toNat = c.toNat := by
      simp; omega
    have hhigh : isHigh c.toNat.toUInt16 = false := by
      simp only [isHigh, hnat, decide_eq_false_iff_not]; omega
    have hlow : isLow c.toNat.toUInt16 = false := by
      simp only [isLow, hnat, decide_eq_false_iff_not]; omega
    rw [List.singleton_append, decode_cons_of_not_isHigh hhigh]
    simp [unitChar, hhigh, hlow, hnat]
  · rename_i hbig
    generalize hn : c.toNat - 0x10000 = n
    have hdiv : n / 0x400 < 0x400 := by omega
    have hmod : n % 0x400 < 0x400 := Nat.mod_lt _ (by decide)
    have hu : ((0xD800 + n / 0x400).toUInt16).toNat = 0xD800 + n / 0x400 := by
      simp; omega
    have hv : ((0xDC00 + n % 0x400).toUInt16).toNat = 0xDC00 + n % 0x400 := by
      simp; omega
    have hhigh : isHigh (0xD800 + n / 0x400).toUInt16 = true := by
      simp only [isHigh, hu, decide_eq_true_eq]; omega
    have hlow : isLow (0xDC00 + n % 0x400).toUInt16 = true := by
      simp only [isLow, hv, decide_eq_true_eq]; omega
    show decode (_ :: _ :: us) = _
    rw [decode_pair hhigh hlow]
    have hpair : pairChar (0xD800 + n / 0x400).toUInt16 (0xDC00 + n % 0x400).toUInt16 = c := by
      unfold pairChar
      rw [hu, hv]
      have : 0x10000 + (0xD800 + n / 0x400 - 0xD800) * 0x400 + (0xDC00 + n % 0x400 - 0xDC00)
          = c.toNat := by omega
      rw [this, Char.ofNat_toNat]
    rw [hpair]

/-- **A string survives the way to wide text and back.** -/
theorem toText_ofString (s : String) : (ofString s).toText = s := by
  have h : ∀ cs : List Char, decode (cs.flatMap encodeChar) = cs := by
    intro cs
    induction cs with
    | nil => rfl
    | cons c cs ih => rw [List.flatMap_cons, decode_encodeChar_append, ih]
  simp [toText, ofString, h]

end WideText

end DynValue

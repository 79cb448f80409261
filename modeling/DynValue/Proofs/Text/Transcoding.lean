import DynValue.Proofs.Scalar.Preflight

/-!
# Between units and text

What a caller hands over as UTF-16 may have halves of pairs that stand alone,
and a string cannot. Whether a unit is such a half is seen from its neighbours:
the first half of a pair needs a second half right behind it, and a second half
a first half right before it (`WideText.Unpaired`). No unit can belong to two
pairs, so nothing else has to be looked at, although a string is read from units
from left to right.

Turning units into a string and back replaces each unpaired half by U+FFFD and
leaves all other units where they are (`WideText.units_ofString_toText`). What
comes out has no unpaired halves, and going there and back again changes nothing.
Since variants keep text as strings, this is what a caller gets who stores wide
text and reads it back.
-/

namespace DynValue

namespace WideText

/-! ## Halves that stand alone -/

/-- **The unit at a place is half of a pair without its other half**: a first
half that no second half follows, or a second half that follows no first half. -/
def Unpaired (us : List UInt16) (i : Nat) : Prop :=
  ∃ u ∈ us[i]?, (isHigh u = true ∧ ¬ ∃ v ∈ us[i + 1]?, isLow v = true)
    ∨ (isLow u = true ∧ ¬ (0 < i ∧ ∃ v ∈ us[i - 1]?, isHigh v = true))

instance (us : List UInt16) (i : Nat) : Decidable (Unpaired us i) :=
  inferInstanceAs (Decidable (∃ _ ∈ _, _))

/-- **Units with each unpaired half replaced** by U+FFFD, which is one unit. -/
def repaired (us : List UInt16) : List UInt16 :=
  us.mapIdx fun i u => if Unpaired us i then 0xFFFD else u

/-- Two first halves, the second of them with its other half, which one more
second half follows. -/
example : repaired [0xD83D, 0xD83C, 0xDF0D, 0xDC00, 0x41, 0xDBFF]
    = [0xFFFD, 0xD83C, 0xDF0D, 0xFFFD, 0x41, 0xFFFD] := by decide

variable {u v : UInt16} {us : List UInt16} {i : Nat}

theorem isLow_of_isHigh (h : isHigh u = true) : isLow u = false := by
  rw [isHigh, decide_eq_true_iff] at h
  rw [isLow, decide_eq_false_iff_not]
  omega

theorem isHigh_of_isLow (h : isLow u = true) : isHigh u = false := by
  rw [isLow, decide_eq_true_iff] at h
  rw [isHigh, decide_eq_false_iff_not]
  omega

/-- The first of all units follows nothing. -/
theorem unpaired_zero :
    Unpaired (u :: us) 0
      ↔ (isHigh u = true ∧ ¬ ∃ v ∈ us[0]?, isLow v = true) ∨ isLow u = true := by
  simp [Unpaired]

/-- **A unit in front makes no difference** to the others, unless it makes a pair
with the one behind it. -/
theorem unpaired_cons (h : i = 0 → isHigh u = true → ∀ v ∈ us[0]?, isLow v = false) :
    Unpaired (u :: us) (i + 1) ↔ Unpaired us i := by
  cases i with
  | succ i => simp [Unpaired]
  | zero =>
    -- only the first unit behind can have followed the one in front
    cases us with
    | nil => simp [Unpaired]
    | cons v us =>
      have apart : isHigh u = true → isLow v = false := fun high => h rfl high v rfl
      rw [unpaired_zero]
      simp only [Unpaired]
      cases hu : isHigh u <;> cases hv : isLow v <;> simp_all

/-- **Nothing in a pair is replaced**, and what follows is repaired on its own. -/
theorem repaired_pair (hu : isHigh u = true) (hv : isLow v = true) :
    repaired (u :: v :: us) = u :: v :: repaired us := by
  have first : ¬ Unpaired (u :: v :: us) 0 := by
    rw [unpaired_zero]
    simp [hv, isLow_of_isHigh hu]
  have second : ¬ Unpaired (u :: v :: us) 1 := by
    simp [Unpaired, hu, isHigh_of_isLow hv]
  have rest (i : Nat) : Unpaired (u :: v :: us) (i + 1 + 1) ↔ Unpaired us i := by
    rw [unpaired_cons (fun zero => absurd zero (Nat.succ_ne_zero i)), unpaired_cons]
    intro _ high
    rw [isHigh_of_isLow hv] at high
    cases high
  simp only [repaired, List.mapIdx_cons, if_neg first, Nat.zero_add, if_neg second, rest]

/-- A unit outside a pair is replaced if it is half of one, and what follows is
repaired on its own. -/
theorem repaired_cons (apart : isHigh u = true → ∀ v ∈ us[0]?, isLow v = false) :
    repaired (u :: us)
      = (if isHigh u || isLow u then 0xFFFD else u) :: repaired us := by
  have first : Unpaired (u :: us) 0 ↔ (isHigh u || isLow u) = true := by
    rw [unpaired_zero, Bool.or_eq_true]
    refine or_congr_left (and_iff_left_of_imp fun high => ?_)
    rintro ⟨v, next, low⟩
    exact Bool.false_ne_true ((apart high v next).symm.trans low)
  have rest (i : Nat) : Unpaired (u :: us) (i + 1) ↔ Unpaired us i :=
    unpaired_cons fun _ => apart
  simp only [repaired, List.mapIdx_cons, first, rest]

/-! ## There and back -/

/-- The character of a code point has it as its code point. -/
theorem toNat_ofNat {n : Nat} (h : n.isValidChar) : (Char.ofNat n).toNat = n := by
  rw [Char.ofNat, dif_pos h]
  rfl

/-- The character of a pair has the pair as its units. -/
theorem encodeChar_pairChar (hu : isHigh u = true) (hv : isLow v = true) :
    encodeChar (pairChar u v) = [u, v] := by
  rw [isHigh, decide_eq_true_iff] at hu
  rw [isLow, decide_eq_true_iff] at hv
  -- what the two halves add to 0x10000
  obtain ⟨n, hn⟩ : ∃ n, n = (u.toNat - 0xD800) * 0x400 + (v.toNat - 0xDC00) := ⟨_, rfl⟩
  have valid : (0x10000 + n).isValidChar := .inr (by omega)
  have code : (pairChar u v).toNat = 0x10000 + n := by
    rw [pairChar, Nat.add_assoc, ← hn, toNat_ofNat valid]
  have high : 0xD800 + n / 0x400 = u.toNat := by omega
  have low : 0xDC00 + n % 0x400 = v.toNat := by omega
  rw [encodeChar, code, if_neg (by omega), Nat.add_sub_cancel_left]
  dsimp only
  simp only [high, low, Nat.toUInt16, UInt16.ofNat_toNat]

/-- The character of a unit outside a pair is one unit. -/
theorem encodeChar_unitChar (u : UInt16) :
    encodeChar (unitChar u) = [if isHigh u || isLow u then 0xFFFD else u] := by
  unfold unitChar
  split
  · rfl
  · rename_i whole
    have small : u.toNat < 0x10000 := u.toNat_lt
    have valid : u.toNat.isValidChar := by
      simp only [isHigh, isLow, Bool.or_eq_true, decide_eq_true_eq, not_or] at whole
      unfold Nat.isValidChar
      omega
    rw [encodeChar, toNat_ofNat valid, if_pos small, Nat.toUInt16, UInt16.ofNat_toNat]

/-- The units of decoded units are these units, repaired. -/
theorem flatMap_decode (us : List UInt16) : (decode us).flatMap encodeChar = repaired us := by
  fun_induction decode us with
  | case1 => rfl
  | case2 u =>
    rw [repaired_cons (by simp), List.flatMap_singleton, encodeChar_unitChar]
    rfl
  | case3 u v us pair ih =>
    obtain ⟨hu, hv⟩ := Bool.and_eq_true_iff.1 pair
    rw [repaired_pair hu hv, List.flatMap_cons, ih, encodeChar_pairChar hu hv]
    rfl
  | case4 u v us apart ih =>
    have alone : isHigh u = true → ∀ w ∈ (v :: us)[0]?, isLow w = false := by
      rintro high w ⟨⟩
      rwa [high, Bool.true_and, Bool.not_eq_true] at apart
    rw [repaired_cons alone, List.flatMap_cons, ih, encodeChar_unitChar]
    rfl

/-- **Units made into text and back** are repaired. -/
theorem units_ofString_toText (w : WideText) : (ofString w.toText).units = repaired w.units := by
  rw [toText, ofString, String.toList_ofList, flatMap_decode]

theorem length_repaired (us : List UInt16) : (repaired us).length = us.length :=
  List.length_mapIdx

theorem getElem?_repaired (us : List UInt16) (i : Nat) :
    (repaired us)[i]? = if Unpaired us i then some 0xFFFD else us[i]? := by
  rw [repaired, List.getElem?_mapIdx]
  split
  · rename_i half
    obtain ⟨u, here, -⟩ := half
    rw [Option.mem_def.1 here, Option.map_some]
  · exact Option.map_id'

/-- **Nothing is replaced** exactly if no half stands alone. -/
theorem repaired_eq_self_iff (us : List UInt16) :
    repaired us = us ↔ ∀ i, ¬ Unpaired us i := by
  constructor
  · intro same i half
    have replaced := getElem?_repaired us i
    rw [if_pos half, same] at replaced
    -- the replacement is no half of a pair
    obtain ⟨u, here, high | low⟩ := half
    · obtain rfl := Option.some.inj (replaced.symm.trans here)
      cases high.1
    · obtain rfl := Option.some.inj (replaced.symm.trans here)
      cases low.1
  · intro whole
    refine List.ext_getElem? fun i => ?_
    rw [getElem?_repaired, if_neg (whole i)]

/-- What was made into text has no half that stands alone. -/
theorem not_unpaired_ofString (s : String) (i : Nat) : ¬ Unpaired (ofString s).units i := by
  refine (repaired_eq_self_iff _).1 ?_ i
  rw [← units_ofString_toText, toText_ofString]

end WideText

/-! ## Storing wide text and reading it back -/

namespace Variant

variable {C : CallerTypes} (K : Converters C) (alive : RefSet)

/-- Stored text read as wide text, by a cast or a conversion. -/
theorem read_wide {v : Variant C} {s : String} (held : v.payload = some (.text s)) :
    v.cast .wide = .ok (.wide (WideText.ofString s))
    ∧ (v.convert K alive .wide).value = .ok (.wide (WideText.ofString s)) := by
  have text : v.text? = some s := by rw [text?, held]
  have other : (Payload.text s : Payload C).type ≠ .wide := nofun
  refine ⟨?_, ?_⟩
  · rw [cast, if_pos rfl, text]
  · rw [convert_of_type_ne K alive held other, convertFrom_wide K alive held]

/-- **Text goes through wide text unchanged, and wide text through text with
nothing but its unpaired halves replaced.** However stored, text that is read as
wide text and stored again is the same text. Wide text is stored as the same text
in every way of storing it; what is read back has as many units, U+FFFD at each
place of an unpaired half and the unit that was there at all others. So it is the
wide text that was stored exactly if this had no unpaired half, and storing what
was read back stores the same text again, which is read as the same. -/
theorem wide_there_and_back (s : String) (b : Binding C) (u : WideText) :
    (∃ w, (⟨some (.text s), b⟩ : Variant C).cast .wide = .ok (.wide w)
      ∧ ((⟨some (.text s), b⟩ : Variant C).convert K alive .wide).value = .ok (.wide w)
      ∧ (native (.wide w) : Variant C).payload = some (.text s)
      ∧ (ofValue (.wide w) : Variant C).payload = some (.text s)
      ∧ (ofWideText w : Variant C).payload = some (.text s))
    ∧ (∃ s', (ofWideText u : Variant C).payload = some (.text s')
      ∧ (native (.wide u) : Variant C).payload = some (.text s')
      ∧ (ofValue (.wide u) : Variant C).payload = some (.text s'))
    ∧ ∃ w : WideText, (ofWideText u : Variant C).cast .wide = .ok (.wide w)
      ∧ ((ofWideText u : Variant C).convert K alive .wide).value = .ok (.wide w)
      ∧ w.units.length = u.units.length
      ∧ (∀ i, w.units[i]? = if WideText.Unpaired u.units i then some 0xFFFD else u.units[i]?)
      ∧ (w = u ↔ ∀ i, ¬ WideText.Unpaired u.units i)
      ∧ (ofWideText w : Variant C) = ofWideText u
      ∧ (ofWideText w : Variant C).cast .wide = .ok (.wide w)
      ∧ ∀ i, ¬ WideText.Unpaired w.units i := by
  refine ⟨⟨WideText.ofString s, ?_⟩, ⟨u.toText, rfl, rfl, rfl⟩, WideText.ofString u.toText, ?_⟩
  · have again : (some (.text (WideText.ofString s).toText) : Option (Payload C))
        = some (.text s) := by rw [WideText.toText_ofString]
    obtain ⟨cast, convert⟩ := read_wide K alive (v := (⟨some (.text s), b⟩ : Variant C)) rfl
    exact ⟨cast, convert, again, again, again⟩
  · have units := WideText.units_ofString_toText u
    have again : (ofWideText (WideText.ofString u.toText) : Variant C) = ofWideText u := by
      rw [ofWideText, WideText.toText_ofString]
      rfl
    obtain ⟨cast, convert⟩ := read_wide K alive (v := (ofWideText u : Variant C)) rfl
    refine ⟨cast, convert, ?_, fun i => ?_, ?_, again, again ▸ cast,
      WideText.not_unpaired_ofString _⟩
    · rw [units, WideText.length_repaired]
    · rw [units, WideText.getElem?_repaired]
    · rw [← WideText.repaired_eq_self_iff, ← units, WideText.mk.injEq]

end Variant

end DynValue

import DynValue.Proofs.Text.Transcoding
import Mathlib.Data.String.Basic
import Mathlib.Order.Monotone.Basic

/-!
# The order of text in its units

Strings are ordered by their characters. Whoever keeps them in the units of an encoding
compares these instead, and gets the same order if the encoding is in order itself: of
two characters the lesser one has the lesser unit at the first place where their units
differ, and both of them have a unit there (`FirstLess`). It then does not matter what
comes behind (`flatMap_strictMono`).

UTF-8 is in order (`Text.bytes_strictMono`). UTF-16 is not, since the greatest characters
are encoded by pairs of surrogates, and these are not the greatest units. But this is the
only fault of it: with the surrogates put behind all other units it is in order
(`WideText.ranks_strictMono`). So texts that were made of wide text are in the order that
the units of it have then (`WideText.toText_lt_iff`), and in the order that units have
otherwise if there are no units that change places.
-/

namespace DynValue

/-! ## Encodings in order -/

/-- **At the first place where two lists differ** both have a number, and the first list
has the lesser one. -/
inductive FirstLess : List ℕ → List ℕ → Prop
  | here {x y : ℕ} (less : x < y) (xs ys : List ℕ) : FirstLess (x :: xs) (y :: ys)
  | later (x : ℕ) {xs ys : List ℕ} (rest : FirstLess xs ys) : FirstLess (x :: xs) (x :: ys)

namespace FirstLess

variable {x y : ℕ} {xs ys : List ℕ}

theorem cons_iff : FirstLess (x :: xs) (y :: ys) ↔ x < y ∨ x = y ∧ FirstLess xs ys := by
  constructor
  · rintro (⟨less, -, -⟩ | ⟨-, rest⟩)
    · exact .inl less
    · exact .inr ⟨rfl, rest⟩
  · rintro (less | ⟨rfl, rest⟩)
    · exact .here less xs ys
    · exact .later x rest

/-- What comes behind makes no difference. -/
theorem append (h : FirstLess xs ys) (us vs : List ℕ) : FirstLess (xs ++ us) (ys ++ vs) := by
  induction h with
  | here less xs ys => exact .here less (xs ++ us) (ys ++ vs)
  | later x rest ih => exact .later x ih

theorem lt (h : FirstLess xs ys) : xs < ys := by
  induction h with
  | here less xs ys => exact List.cons_lt_cons_iff.2 (.inl less)
  | later x rest ih => exact List.cons_lt_cons_iff.2 (.inr ⟨rfl, ih⟩)

end FirstLess

theorem append_lt_append (us : List ℕ) {xs ys : List ℕ} (h : xs < ys) : us ++ xs < us ++ ys := by
  induction us with
  | nil => exact h
  | cons u us ih => exact List.cons_lt_cons_iff.2 (.inr ⟨rfl, ih⟩)

/-- **An encoding that is in order** keeps the order of strings. -/
theorem flatMap_strictMono {encode : Char → List ℕ} (nonempty : ∀ c, encode c ≠ [])
    (inOrder : ∀ c d, c < d → FirstLess (encode c) (encode d)) :
    StrictMono fun s : String => s.toList.flatMap encode := by
  have keeps : ∀ cs ds : List Char, cs < ds → cs.flatMap encode < ds.flatMap encode := by
    intro cs
    induction cs with
    | nil =>
      rintro (- | ⟨d, ds⟩) less
      · cases less
      · obtain ⟨x, xs, units⟩ := List.exists_cons_of_ne_nil (nonempty d)
        rw [List.flatMap_nil, List.flatMap_cons, units]
        exact .nil
    | cons c cs ih =>
      rintro (- | ⟨d, ds⟩) less
      · cases less
      · rw [List.flatMap_cons, List.flatMap_cons]
        rcases List.cons_lt_cons_iff.1 less with first | ⟨rfl, rest⟩
        · exact ((inOrder c d first).append _ _).lt
        · exact append_lt_append _ (ih ds rest)
  exact fun s t less => keeps _ _ (String.lt_iff_toList_lt.1 less)

theorem toNat_lt_of_lt {c d : Char} (less : c < d) : c.toNat < d.toNat :=
  UInt32.lt_iff_toNat_lt.1 less

/-! ## Bytes -/

namespace Text

/-- The bytes of a character in UTF-8. -/
def charBytes (c : Char) : List ℕ := (String.utf8EncodeChar c).map UInt8.toNat

/-- **The bytes of a string** in UTF-8. -/
def bytes (s : String) : List ℕ := s.toByteArray.data.toList.map UInt8.toNat

theorem bytes_eq (s : String) : bytes s = s.toList.flatMap charBytes := by
  rw [bytes, ← String.utf8Encode_toList, List.utf8Encode, List.data_toByteArray, List.map_flatMap]
  rfl

/-- A greater character has more bytes or a greater byte. -/
theorem charBytes_inOrder {c d : Char} (less : c < d) :
    FirstLess (charBytes c) (charBytes d) := by
  have codes := toNat_lt_of_lt less
  have valid : d.toNat < 0x110000 := by
    rcases d.valid with low | ⟨-, high⟩
    · exact low.trans (by decide)
    · exact high
  unfold charBytes String.utf8EncodeChar
  simp only [Char.toNat] at codes valid
  generalize c.val.toNat = n at *
  generalize d.val.toNat = m at *
  dsimp only
  split_ifs <;>
    simp (disch := omega) only [List.map_cons, List.map_nil, FirstLess.cons_iff,
      UInt8.toNat_ofNat', Nat.reducePow, Nat.mod_eq_of_lt] <;> omega

theorem bytes_strictMono : StrictMono bytes := by
  simp only [funext bytes_eq]
  refine flatMap_strictMono (fun c => ?_) fun c d => charBytes_inOrder
  exact fun none => String.utf8EncodeChar_ne_nil (List.map_eq_nil_iff.1 none)

end Text

/-! ## Wide units -/

namespace WideText

/-- Whether a unit is a surrogate, half of a pair. -/
def isHalf (u : UInt16) : Bool := isHigh u || isLow u

theorem isHalf_iff {u : UInt16} : isHalf u = true ↔ 0xD800 ≤ u.toNat ∧ u.toNat < 0xE000 := by
  simp only [isHalf, isHigh, isLow, Bool.or_eq_true, decide_eq_true_iff]
  omega

/-- **The place of a unit in the order of characters**: that of the unit itself, or
behind all of these for a surrogate. -/
def rank (u : UInt16) : ℕ := if isHalf u then 0x10000 + u.toNat else u.toNat

/-- The units of a character and their places. -/
theorem ranks_encodeChar (c : Char) :
    (encodeChar c).map rank
      = if c.toNat < 0x10000 then [c.toNat]
        else [0x1D800 + (c.toNat - 0x10000) / 0x400, 0x1DC00 + (c.toNat - 0x10000) % 0x400] := by
  have valid : c.toNat < 0xD800 ∨ 0xDFFF < c.toNat ∧ c.toNat < 0x110000 := c.valid
  have place (n : ℕ) (small : n < 0x10000) :
      rank n.toUInt16 = if 0xD800 ≤ n ∧ n < 0xE000 then 0x10000 + n else n := by
    have code : n.toUInt16.toNat = n := Nat.mod_eq_of_lt small
    simp only [rank, isHalf_iff, code]
  unfold encodeChar
  split
  · rw [List.map_singleton, place _ ‹_›, if_neg (by omega)]
  · dsimp only
    rw [List.map_cons, List.map_singleton, place _ (by omega), place _ (by omega),
      if_pos (by omega), if_pos (by omega), ← Nat.add_assoc, ← Nat.add_assoc]

/-- A greater character has a unit at a greater place. -/
theorem encodeChar_inOrder {c d : Char} (less : c < d) :
    FirstLess ((encodeChar c).map rank) ((encodeChar d).map rank) := by
  have codes := toNat_lt_of_lt less
  rw [ranks_encodeChar, ranks_encodeChar]
  split_ifs <;> simp only [FirstLess.cons_iff] <;> omega

theorem ranks_strictMono : StrictMono fun s : String => (ofString s).units.map rank := by
  simp only [ofString, List.map_flatMap]
  refine flatMap_strictMono (fun c => ?_) fun c d => encodeChar_inOrder
  rw [ranks_encodeChar]
  split <;> exact List.cons_ne_nil _ _

/-- **The order of texts that were made of wide text**: the first units that differ
decide, surrogates being greater than all other units, once those that stand alone are
replaced. -/
theorem toText_lt_iff (u w : WideText) :
    u.toText < w.toText ↔ (repaired u.units).map rank < (repaired w.units).map rank := by
  rw [← units_ofString_toText, ← units_ofString_toText]
  exact ranks_strictMono.lt_iff_lt.symm

/-- Units are at their own places among each other, unless one is a surrogate and the
other one above all surrogates. -/
theorem rank_compare {a b : UInt16} (left : isHalf a = true → b.toNat < 0xE000)
    (right : isHalf b = true → a.toNat < 0xE000) :
    (rank a < rank b ↔ a.toNat < b.toNat) ∧ (rank a = rank b ↔ a.toNat = b.toNat) := by
  have := a.toNat_lt
  have := b.toNat_lt
  simp only [rank, isHalf_iff] at *
  split_ifs <;> omega

/-- **No surrogate is below a unit that it is put behind.** -/
def HalvesOnTop (us vs : List UInt16) : Prop :=
  ∀ a ∈ us, isHalf a = true → ∀ b ∈ vs, b.toNat < 0xE000

theorem HalvesOnTop.tail {a b : UInt16} {us vs : List UInt16}
    (h : HalvesOnTop (a :: us) (b :: vs)) : HalvesOnTop us vs :=
  fun c mem half d mem' => h c (.tail a mem) half d (.tail b mem')

/-- **Where no units change places** the order is that of the units. -/
theorem map_rank_lt_iff {us vs : List UInt16} (left : HalvesOnTop us vs)
    (right : HalvesOnTop vs us) :
    us.map rank < vs.map rank ↔ us.map UInt16.toNat < vs.map UInt16.toNat := by
  induction us generalizing vs with
  | nil =>
    cases vs with
    | nil => exact Iff.rfl
    | cons b vs => exact iff_of_true .nil .nil
  | cons a us ih =>
    cases vs with
    | nil => exact iff_of_false nofun nofun
    | cons b vs =>
      obtain ⟨less, same⟩ := rank_compare (fun half => left a (.head us) half b (.head vs))
        fun half => right b (.head vs) half a (.head us)
      simp only [List.map_cons, List.cons_lt_cons_iff, less, same, ih left.tail right.tail]

end WideText

end DynValue

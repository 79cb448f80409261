import DynValue.Proofs.Number.Literals
import DynValue.Scalar.Convert

/-!
# Scalars survive as text

The text of a scalar is written by one function, whatever its type
(`Payload.scalarText?`), and read by the rule of the type that is asked for. The
rules have nothing in common: digits with a sign, a decimal literal or a word, a
table of truth values, a text of one character. What ties each of them to the
writer is that it reads the written text as the value that it was written from
(`Variant.convertFrom_scalarText`).

A text that went through wide text is the same text, since what is made of a
string has no unpaired surrogates. For a float to be the same value means to have
the same bits (`Fp.toBits_ofBits`), and all that is not a number counts as one
value.
-/

namespace DynValue

variable {C : CallerTypes}

/-! ## Each type reads what was written of it -/

namespace IntKind

/-- The unsigned kinds have no negative value. -/
theorem signed_of_neg {k : IntKind} {n : ℤ} (h : k.Contains n) (below : n < 0) :
    k.signed = true := by
  cases signed : k.signed with
  | true => rfl
  | false =>
    have least := h.1
    rw [IntKind.least, signed, if_neg Bool.false_ne_true] at least
    omega

/-- The text of an integer is its sign and the digits of its distance from zero. -/
theorem exists_sign_text (n : ℤ) :
    ∃ front, Sign front (decide (n < 0)) ∧ (text n).toList = front ++ Digits.ofNat n.natAbs := by
  rw [text, String.toList_ofList]
  split
  · rename_i below
    rw [decide_eq_true below]
    exact ⟨_, .minus, rfl⟩
  · rename_i above
    rw [decide_eq_false above]
    exact ⟨_, .none, rfl⟩

/-- **The text of an integer reads as this integer in every kind** that has it, and
is refused by every other. -/
theorem ofText?_text_eq (k : IntKind) (n : ℤ) : k.ofText? (text n) = k.ofInt? n := by
  obtain ⟨front, sign, letters⟩ := exists_sign_text n
  have value : negateIf (decide (n < 0)) n.natAbs = n := by
    rcases lt_or_ge n 0 with below | above
    · rw [decide_eq_true below, negateIf, if_pos rfl, Int.ofNat_natAbs_of_nonpos below.le, neg_neg]
    · rw [decide_eq_false above.not_gt, negateIf, if_neg Bool.false_ne_true,
        Int.natAbs_of_nonneg above]
  rw [ofText?_digits letters sign (Digits.ofNat_ne_nil _) (Digits.denotes_ofNat _), value]
  split
  · rfl
  · rename_i refused
    rw [ofInt?, dif_neg fun h => refused fun below => signed_of_neg h (of_decide_eq_true below)]

/-- **The text of an integer reads back as the same integer.** -/
theorem ofText?_text {k : IntKind} (n : k.Value) : k.ofText? (text n.1) = some n := by
  rw [ofText?_text_eq, ofInt?_val]

end IntKind

theorem Text.truthValue?_text (b : Bool) :
    truthValue? (if b then "true" else "false") = some b := by
  cases b <;> rfl

namespace Payload

/-- **The scalars**: integers and floats of every kind, truth values and
characters. -/
def IsScalar : Payload C → Prop
  | int _ _ | float _ _ | bool _ | char _ => True
  | _ => False

theorem exists_scalarText {p : Payload C} (scalar : p.IsScalar) : ∃ s, p.scalarText? = some s := by
  cases p with
  | int k n => exact ⟨_, rfl⟩
  | float K x => exact ⟨_, rfl⟩
  | bool b => exact ⟨_, rfl⟩
  | char c => exact ⟨_, rfl⟩
  | _ => exact scalar.elim

theorem type_ne_of_scalarText? {p : Payload C} {s : String} (h : p.scalarText? = some s) :
    p.type ≠ .text ∧ p.type ≠ .wide := by
  cases p with
  | text t => cases h
  | wide w => cases h
  | _ => exact ⟨nofun, nofun⟩

end Payload

namespace Variant

variable {v : Variant C} {p : Payload C} {s : String} (K : Converters C) (alive : RefSet)

/-- **Every type's rule reads the text of its scalars** as the value that it was
written from. -/
theorem convertFrom_scalarText (held : v.payload = some (.text s)) (h : p.scalarText? = some s) :
    (convertFrom K alive p.type v).value = .ok p := by
  have text : v.text? = some s := by rw [text?, held]
  cases p with
  | int k n =>
    obtain rfl : _ = s := Option.some.inj h
    show v.toInt k = _
    rw [toInt, text]
    dsimp only
    rw [IntKind.ofText?_text]
  | float L x =>
    obtain rfl : _ = s := Option.some.inj h
    show v.toFloat L = _
    rw [toFloat, text]
    dsimp only
    rw [Fp.ofText?_text]
  | bool b =>
    obtain rfl : _ = s := Option.some.inj h
    show v.toBool = _
    rw [toBool, text]
    dsimp only
    rw [Text.truthValue?_text]
  | char c =>
    obtain rfl : _ = s := Option.some.inj h
    show v.toChar = _
    rw [toChar, text]
    dsimp only
    rw [String.toList_singleton]
  | _ => cases h

/-- A stored text converts to the scalar that it is the text of. -/
theorem convert_of_scalarText (held : v.payload = some (.text s)) (h : p.scalarText? = some s) :
    (v.convert K alive p.type).value = .ok p := by
  rw [convert_of_type_ne K alive held (Payload.type_ne_of_scalarText? h).1.symm]
  exact convertFrom_scalarText K alive held h

/-- A stored scalar converts to its text. -/
theorem convert_text (held : v.payload = some p) (h : p.scalarText? = some s) :
    (v.convert K alive .text).value = .ok (.text s) := by
  rw [convert_of_type_ne K alive held (Payload.type_ne_of_scalarText? h).1]
  show v.toText = _
  rw [toText, held, Option.bind_some, h]

/-- It converts to the wide form of its text. -/
theorem convert_wide (held : v.payload = some p) (h : p.scalarText? = some s) :
    (v.convert K alive .wide).value = .ok (.wide (WideText.ofString s)) := by
  have text : (v.attempt .text (pure v.toText)).value = .ok (.text s) :=
    convert_text K alive held h
  rw [convert_of_type_ne K alive held (Payload.type_ne_of_scalarText? h).2, convertFrom,
    Logged.value_bind, text]
  rfl

/-- **A scalar is what its text converts back to**: it converts to a text, and a
variant of this text converts to the same value of the same type again. So it
does by way of wide text. -/
theorem convert_text_convert (held : v.payload = some p) (scalar : p.IsScalar) :
    (∃ s, (v.convert K alive .text).value = .ok (.text s)
      ∧ ((ofValue (.text s)).convert K alive p.type).value = .ok p)
    ∧ ∃ w, (v.convert K alive .wide).value = .ok (.wide w)
      ∧ ((ofValue (.wide w)).convert K alive p.type).value = .ok p := by
  obtain ⟨s, h⟩ := Payload.exists_scalarText scalar
  refine ⟨⟨s, convert_text K alive held h, convert_of_scalarText K alive rfl h⟩,
    WideText.ofString s, convert_wide K alive held h, convert_of_scalarText K alive ?_ h⟩
  exact congrArg (fun s => some (Payload.text s)) (WideText.toText_ofString s)

/-- Negative zero is written with its sign and read with it. -/
theorem convert_text_convert_negativeZero :
    ((native (.float .double (.zero .double true))).convert (.refusing .none) .none .text).value
      = .ok (.text "-0")
    ∧ ((ofValue (.text "-0")).convert (.refusing .none) .none (.float .double)).value
      = .ok (.float .double (.zero .double true)) := by
  have held : (native (.float .double (.zero .double true)) : Variant .none).payload
      = some (.float .double (.zero .double true)) := rfl
  obtain ⟨⟨s, written, read⟩, -⟩ :=
    convert_text_convert (.refusing .none) .none held trivial
  have text : "-0" = s := by
    have sign : ((native (.float .double (.zero .double true))).convert (.refusing .none) .none
        .text).value = .ok (.text "-0") := convert_text _ _ held rfl
    exact Payload.text.inj (Except.ok.inj (sign.symm.trans written))
  rw [text]
  exact ⟨written, read⟩

end Variant

end DynValue

import DynValue.Scalar.Convert

/-!
# Asking before converting

Whether a variant is of a type or converts to it can be asked beforehand.
The question and the conversion start differently: the question by `isA`,
which also counts owned text as wide text and a variant without a value as
one of the empty type, the conversion by the stored value if it has exactly
the type. They agree because in these two cases the type's own rule accepts
the variant (`Variant.convertFrom_of_isA`).

Reading back is in step with converting: what an exact cast or a view gives,
the conversion gives too.
-/

namespace DynValue

variable {C : CallerTypes} (K : Converters C) (alive : RefSet) (v : Variant C)

namespace Variant

theorem convert_value (t : Ty C) :
    (v.convert K alive t).value = match v.exactly? t with
      | some p => .ok p
      | none => (convertFrom K alive t v).value :=
  attempt_value t _

theorem canBe_value (t : Ty C) :
    (v.canBe K alive t).value = (v.isA t || (convertFrom K alive t v).value.isOk) := by
  unfold canBe
  cases v.isA t with
  | true => rfl
  | false =>
    rw [if_neg Bool.false_ne_true, Logged.value_bind]
    cases (convertFrom K alive t v).value <;> rfl

variable {v}

/-- A variant holds the value that it holds exactly. -/
theorem isA_of_exactly? {t : Ty C} {p : Payload C} (h : v.exactly? t = some p) :
    v.isA t = true := by
  obtain ⟨stored, type⟩ := exactly?_eq_some_iff.1 h
  rw [isA, stored]
  exact Bool.or_eq_true_iff.2 (.inl (decide_eq_true type))

theorem payload_of_text? {s : String} (h : v.text? = some s) : v.payload = some (.text s) := by
  unfold text? at h
  split at h
  · cases h
    assumption
  · cases h

/-- The wide form of stored text is what the rule of wide text gives. -/
theorem convertFrom_wide {s : String} (h : v.payload = some (.text s)) :
    (convertFrom K alive .wide v).value = .ok (.wide (WideText.ofString s)) := by
  have stored : v.exactly? .text = some (.text s) := exactly?_eq_some_iff.2 ⟨h, rfl⟩
  rw [convertFrom, Logged.value_bind, attempt_value, stored]
  rfl

/-- The rule of the empty type accepts a variant without a value. -/
theorem convertFrom_empty (h : v.payload = none) :
    (convertFrom K alive .empty v).value = .ok .empty := by
  rw [convertFrom, isEmpty, h]
  rfl

/-- **A variant that counts as one of a type, without holding a value of
exactly this type, is accepted by the type's rule.** -/
theorem convertFrom_of_isA {t : Ty C} (counts : v.isA t = true) (other : v.exactly? t = none) :
    ∃ p, (convertFrom K alive t v).value = .ok p := by
  cases stored : v.payload with
  | none =>
    rw [isA, stored] at counts
    obtain rfl := of_decide_eq_true counts
    exact ⟨_, convertFrom_empty K alive stored⟩
  | some p =>
    rw [isA, stored] at counts
    rcases Bool.or_eq_true_iff.1 counts with same | wide
    · rw [exactly?_eq_some_iff.2 ⟨stored, of_decide_eq_true same⟩] at other
      cases other
    · obtain ⟨target, text⟩ := Bool.and_eq_true_iff.1 wide
      obtain rfl := of_decide_eq_true target
      cases p with
      | text s => exact ⟨_, convertFrom_wide K alive stored⟩
      | _ => cases of_decide_eq_true text

/-- What an exact cast gives is the stored value or the wide form of stored
text. -/
theorem cast_eq_ok {t : Ty C} {p : Payload C} (h : v.cast t = .ok p) :
    v.exactly? t = some p
    ∨ t = .wide ∧ ∃ s, v.payload = some (.text s) ∧ p = .wide (WideText.ofString s) := by
  unfold cast at h
  split at h
  · rename_i target
    split at h
    · rename_i s text
      cases h
      exact .inr ⟨target, s, payload_of_text? text, rfl⟩
    · cases h
  · exact .inl (exactly?_eq_some_iff.2 (view_eq_ok_iff.1 h))

variable (v)

/-- **The question beforehand is answered with yes exactly if the conversion
succeeds**, and every value that is read back exactly, as a copy or by
reference, is what the conversion gives. -/
theorem canBe_iff_convert (t : Ty C) :
    ((v.canBe K alive t).value = true ↔ ∃ p, (v.convert K alive t).value = .ok p)
    ∧ ∀ p, v.cast t = .ok p ∨ v.view t = .ok p → (v.convert K alive t).value = .ok p := by
  constructor
  · rw [canBe_value, convert_value]
    cases h : v.exactly? t with
    | some p => exact iff_of_true (by rw [isA_of_exactly? h]; rfl) ⟨p, rfl⟩
    | none =>
      cases counts : v.isA t with
      | true => exact iff_of_true rfl (convertFrom_of_isA K alive counts h)
      | false =>
        rw [Bool.false_or]
        cases (convertFrom K alive t v).value with
        | ok p => exact iff_of_true rfl ⟨p, rfl⟩
        | error e => exact iff_of_false Bool.false_ne_true (by rintro ⟨p, ⟨⟩⟩)
  · intro p read
    rw [convert_value]
    have exact_or : v.exactly? t = some p
        ∨ t = .wide ∧ ∃ s, v.payload = some (.text s) ∧ p = .wide (WideText.ofString s) :=
      read.elim cast_eq_ok fun h => .inl (exactly?_eq_some_iff.2 (view_eq_ok_iff.1 h))
    rcases exact_or with stored | ⟨rfl, s, text, rfl⟩
    · rw [stored]
    · have other : v.exactly? .wide = none := by
        rw [exactly?, text]
        rfl
      rw [other]
      exact convertFrom_wide K alive text

/-- Stored text can be had as optional wide text, and as wide text it is what
an exact cast gives. -/
theorem canBe_iff_convert_accented :
    ((native (.text "é")).canBe (.refusing .none) .none (.option .wide)).value = true
    ∧ ((native (.text "é")).convert (.refusing .none) .none .wide).value
        = .ok (.wide ⟨[0xE9]⟩) :=
  ⟨(canBe_iff_convert (.refusing .none) .none (native (.text "é")) (.option .wide)).1.2 ⟨_, rfl⟩,
    (canBe_iff_convert (.refusing .none) .none (native (.text "é")) .wide).2 _ (.inl rfl)⟩

end Variant

end DynValue

import DynValue.Proofs.Scalar.Agreement
import DynValue.Proofs.Scalar.Preflight
import DynValue.Proofs.Scalar.TextRoundTrip
import DynValue.Proofs.Session.History

/-!
# What the error of a failed conversion says

A conversion may try several types on the way: asking for an optional number asks
for a number, asking for wide text asks for text. Its error is about the one
request all the same. It names the type stored and the type asked for, and it
carries an explanation exactly if the fault is with the value: another value of
the same type would have converted (`Variant.convert_error_faithful`).

Which types can be brought into which is a table (`Ty.Admits`), and both directions
go through it. A conversion that succeeds is of a type that the table has
(`Variant.admits_of_convert`), and one that fails explains itself if the table has
the type (`Variant.convert_faithful`). That the table does not have too much is shown
by one value for each type, zero in its many forms, which converts to everything
that the table allows (`Variant.convert_specimen`).
-/

namespace DynValue

variable {C : CallerTypes}

namespace Ty

/-- **The scalar types of the library**: numbers, truth values, characters, text
of both kinds, the two markers, variants, references to objects, and options of
these to any depth. -/
def IsScalar : Ty C → Prop
  | int _ | float _ | bool | char | text | wide | null | empty | variant => True
  | shared .externalObject => True
  | option t => t.IsScalar
  | _ => False

/-- The types of numbers, a truth value being one. -/
def IsNumber : Ty C → Prop
  | int _ | float _ | bool => True
  | _ => False

/-- The types that have a text. -/
def HasText : Ty C → Prop
  | int _ | float _ | bool | char | text => True
  | _ => False

/-- **Whether values of a type can be brought into a scalar type**, some of them
at least. -/
def Admits : Ty C → Ty C → Prop
  | int _, s | float _, s | bool, s => s.IsNumber ∨ s = .text
  | char, s => s = .char ∨ s = .text
  | text, s => s.HasText
  | wide, s => s = .wide ∨ s.HasText
  | variant, _ => True
  | shared .externalObject, s => s = .object ∨ s = .weakObject
  | option t, s => s = .option t ∨ s = .null ∨ t.Admits s
  | t, s => s = t

/-- Values of a scalar type are of this type already. -/
theorem admits_self {t : Ty C} (scalar : t.IsScalar) : t.Admits t := by
  cases t with
  | option t => exact .inl rfl
  | shared t =>
    cases t with
    | externalObject => exact .inl rfl
    | _ => exact scalar.elim
  | int k => exact .inl trivial
  | float K => exact .inl trivial
  | bool => exact .inl trivial
  | char => exact .inl rfl
  | text => trivial
  | wide => exact .inl rfl
  | null => rfl
  | empty => rfl
  | variant => trivial
  | _ => exact scalar.elim

end Ty

namespace Variant

variable {v w : Variant C} {K : Converters C} {alive living : RefSet} {t : Ty C}
  {e : CastError C}

/-! ## What the type of a variant says of its value -/

/-- Without a value of exactly some type, a variant is of another. Only a variant
without any value also is of the empty type. -/
theorem type_ne_of_exactly? (other : v.exactly? t = none)
    (full : v.isEmpty = true → t ≠ .empty) : v.type ≠ t := by
  intro type
  cases stored : v.payload with
  | none =>
    rw [Variant.type, stored] at type
    rw [isEmpty, stored] at full
    exact full rfl type.symm
  | some p =>
    rw [exactly?_eq_some_iff.2 ⟨stored, (type_of_payload stored).symm.trans type⟩] at other
    cases other

theorem text?_isSome_iff : v.text?.isSome = true ↔ v.type = .text := by
  unfold text? type
  cases v.payload with
  | none => exact ⟨nofun, nofun⟩
  | some p => cases p <;> simp [Payload.type]

theorem number?_isSome_iff :
    (v.payload.bind Payload.number?).isSome = true ↔ v.type.IsNumber := by
  unfold type
  cases v.payload with
  | none => exact ⟨nofun, nofun⟩
  | some p => cases p <;> simp [Payload.type, Payload.number?, Ty.IsNumber]

theorem scalarText?_isSome_iff (other : v.exactly? .text = none) :
    (v.payload.bind Payload.scalarText?).isSome = true ↔ v.type.HasText := by
  unfold exactly? at other
  unfold type
  cases stored : v.payload with
  | none => exact ⟨nofun, nofun⟩
  | some p =>
    rw [stored] at other
    cases p with
    | text s => cases other
    | _ => simp [Payload.type, Payload.scalarText?, Ty.HasText]

theorem isNull_iff : v.isNull = true ↔ v.type = .null := by
  unfold isNull isA type
  cases v.payload with
  | none => exact ⟨nofun, nofun⟩
  | some p => simp

theorem exists_weak_of_type {u : Ty C} (type : v.type = .weak u) :
    ∃ r, v.payload = some (.weak u r) := by
  unfold Variant.type at type
  cases stored : v.payload with
  | none => rw [stored] at type; cases type
  | some p =>
    rw [stored] at type
    cases p with
    | weak u' r => cases type; exact ⟨r, rfl⟩
    | _ => cases type

end Variant

/-! ## What a conversion says of its value -/

/-- **What an error should say** of a variant that was asked for a type: both
types, and an explanation if the type admits the type of the value. -/
structure CastError.Faithful (e : CastError C) (v : Variant C) (t : Ty C) : Prop where
  stored : e.stored = v.type
  requested : e.requested = t
  detail_isSome_iff : e.detail.isSome = true ↔ t.Admits v.type

namespace Variant

variable {v w : Variant C} {K : Converters C} {alive living : RefSet} {t : Ty C}
  {e : CastError C}

/-- An outcome bears out the table: a value converts only to a type that admits
its type, and an error is faithful. -/
def BearsOut (v : Variant C) (t : Ty C) : Except (CastError C) (Payload C) → Prop
  | .ok _ => v.isEmpty = false → t.Admits v.type
  | .error e => e.Faithful v t

theorem castError_faithful (unsupported : ¬ t.Admits v.type) : (v.castError t).Faithful v t :=
  ⟨rfl, rfl, iff_of_false Bool.false_ne_true unsupported⟩

theorem because_faithful (reason : Reason) (supported : t.Admits v.type) :
    ((v.castError t).because reason).Faithful v t :=
  ⟨rfl, rfl, iff_of_true rfl supported⟩

/-- **The rules of numbers and truth values** have one form: text is read, a
number is brought into the type, and all else is refused without an explanation. -/
theorem bearsOut_number {read : String → Except (CastError C) (Payload C)}
    {bring : Number → Except (CastError C) (Payload C)}
    (admits : t.Admits v.type ↔ v.type.IsNumber ∨ v.type = .text)
    (of_text : t.Admits v.type → ∀ s, v.BearsOut t (read s))
    (of_number : t.Admits v.type → ∀ number, v.BearsOut t (bring number)) :
    v.BearsOut t (match v.text? with
      | some s => read s
      | none => match v.payload.bind Payload.number? with
        | some number => bring number
        | none => .error (v.castError t)) := by
  have text_iff := text?_isSome_iff (v := v)
  have number_iff := number?_isSome_iff (v := v)
  cases text : v.text? with
  | some s =>
    rw [text] at text_iff
    exact of_text (admits.2 (.inr (text_iff.1 rfl))) s
  | none =>
    rw [text] at text_iff
    cases number : v.payload.bind Payload.number? with
    | some number' =>
      rw [number] at number_iff
      exact of_number (admits.2 (.inl (number_iff.1 rfl))) number'
    | none =>
      rw [number] at number_iff
      refine castError_faithful fun supported => ?_
      exact (admits.1 supported).elim (fun h => Bool.false_ne_true (number_iff.2 h))
        fun h => Bool.false_ne_true (text_iff.2 h)

theorem toInt_bearsOut (v : Variant C) (k : IntKind) : v.BearsOut (.int k) (v.toInt k) := by
  refine bearsOut_number Iff.rfl (fun supported s => ?_) fun supported number => ?_
  · cases k.ofText? s with
    | some n => exact fun _ => supported
    | none => exact because_faithful _ supported
  · cases number.toInt? k with
    | some n => exact fun _ => supported
    | none => exact because_faithful _ supported

theorem toFloat_bearsOut (v : Variant C) (L : FloatKind) :
    v.BearsOut (.float L) (v.toFloat L) := by
  refine bearsOut_number Iff.rfl (fun supported s => ?_) fun supported number => ?_
  · cases Fp.ofText? L s with
    | some x => exact fun _ => supported
    | none => exact because_faithful _ supported
  · cases number.toFloat? L with
    | some x => exact fun _ => supported
    | none => exact because_faithful _ supported

theorem toBool_bearsOut (v : Variant C) : v.BearsOut .bool v.toBool := by
  refine bearsOut_number Iff.rfl (fun supported s => ?_) fun supported _ _ => supported
  cases Text.truthValue? s with
  | some b => exact fun _ => supported
  | none => exact because_faithful _ supported

theorem toChar_bearsOut (other : v.exactly? .char = none) : v.BearsOut .char v.toChar := by
  have text_iff := text?_isSome_iff (v := v)
  unfold toChar
  cases text : v.text? with
  | some s =>
    rw [text] at text_iff
    have supported : Ty.char.Admits v.type := .inr (text_iff.1 rfl)
    dsimp only
    split
    · exact fun _ => supported
    · exact because_faithful _ supported
  | none =>
    rw [text] at text_iff
    refine castError_faithful fun supported => ?_
    exact supported.elim (type_ne_of_exactly? other (by simp)) fun h => Bool.false_ne_true (text_iff.2 h)

theorem toText_bearsOut (other : v.exactly? .text = none) : v.BearsOut .text v.toText := by
  have supported := scalarText?_isSome_iff other
  unfold toText
  cases text : v.payload.bind Payload.scalarText? with
  | some s =>
    rw [text] at supported
    exact fun _ => supported.1 rfl
  | none =>
    rw [text] at supported
    exact castError_faithful fun h => Bool.false_ne_true (supported.2 h)

theorem toObject_bearsOut (other : v.exactly? .object = none) :
    v.BearsOut .object (v.toObject alive) := by
  unfold toObject
  dsimp only
  split
  · rename_i r stored
    have supported : Ty.object.Admits v.type := .inr (type_of_payload stored)
    cases alive r with
    | true => exact fun _ => supported
    | false => exact because_faithful _ supported
  · rename_i stored
    refine castError_faithful fun supported => ?_
    refine supported.elim (type_ne_of_exactly? other (by simp)) fun type => ?_
    obtain ⟨r, weak⟩ := exists_weak_of_type type
    exact stored r weak

/-- **One level of a conversion** bears out the table if the type's rule does, for
variants that hold no value of the type. -/
theorem attempt_bearsOut {rule : Reported C (Except (CastError C) (Payload C))}
    (scalar : t.IsScalar) (ofRule : v.exactly? t = none → v.BearsOut t rule.value) :
    v.BearsOut t (v.attempt t rule).value := by
  rw [attempt_value]
  cases exact_ : v.exactly? t with
  | none => exact ofRule exact_
  | some p =>
    intro _
    obtain ⟨stored, type⟩ := exactly?_eq_some_iff.1 exact_
    rw [type_of_payload stored, type]
    exact Ty.admits_self scalar

/-- Wide text is refused on its own account: the error of the text that it would be
made from is not passed on. -/
theorem wide_bearsOut (other : v.exactly? .wide = none) :
    v.BearsOut .wide (convertFrom K alive .wide v).value := by
  rw [convertFrom, Logged.value_bind, attempt_value]
  cases text : v.exactly? .text with
  | some p =>
    obtain ⟨stored, type⟩ := exactly?_eq_some_iff.1 text
    have supported : Ty.wide.Admits v.type := by
      rw [type_of_payload stored, type]
      exact .inr trivial
    cases p with
    | text s => exact fun _ => supported
    | _ => cases type
  | none =>
    have supported := scalarText?_isSome_iff text
    rw [Logged.value_pure]
    unfold toText
    cases written : v.payload.bind Payload.scalarText? with
    | some s =>
      rw [written] at supported
      exact fun _ => .inr (supported.1 rfl)
    | none =>
      rw [written] at supported
      exact castError_faithful
        (Or.rec (type_ne_of_exactly? other (by simp)) fun h => Bool.false_ne_true (supported.2 h))

/-- **The rule of a scalar type bears out the table.** -/
theorem convertFrom_bearsOut (scalar : t.IsScalar) (other : v.exactly? t = none) :
    v.BearsOut t (convertFrom K alive t v).value := by
  induction t with
  | int k => exact toInt_bearsOut v k
  | float L => exact toFloat_bearsOut v L
  | bool => exact toBool_bearsOut v
  | char => exact toChar_bearsOut other
  | text => exact toText_bearsOut other
  | wide => exact wide_bearsOut other
  | null => exact castError_faithful (type_ne_of_exactly? other (by simp))
  | empty =>
    rw [convertFrom, Logged.value_pure]
    cases full : v.isEmpty with
    | true => exact fun h => Bool.noConfusion (full.symm.trans h)
    | false =>
      exact castError_faithful (type_ne_of_exactly? other fun h => Bool.noConfusion (full.symm.trans h))
  | variant => exact fun _ => trivial
  | shared t =>
    cases t with
    | externalObject => exact toObject_bearsOut other
    | _ => exact scalar.elim
  | option t ih =>
    rw [convertFrom]
    split
    · rename_i absent
      intro full
      refine .inr (.inl (isNull_iff.1 ?_))
      rwa [full, Bool.or_false] at absent
    · rename_i present
      obtain ⟨null, full⟩ := not_or.1 (mt Bool.or_eq_true_iff.2 present)
      have inner : v.BearsOut t (v.attempt t (convertFrom K alive t v)).value :=
        attempt_bearsOut scalar (ih scalar)
      rw [Logged.value_bind]
      cases outcome : (v.attempt t (convertFrom K alive t v)).value with
      | ok p =>
        rw [outcome] at inner
        exact fun full => .inr (.inr (inner full))
      | error e =>
        rw [outcome] at inner
        refine ⟨inner.stored, rfl, inner.detail_isSome_iff.trans ⟨fun h => .inr (.inr h), ?_⟩⟩
        rintro (type | type | supported)
        · exact absurd type (type_ne_of_exactly? other (by simp))
        · exact absurd (isNull_iff.2 type) null
        · exact supported
  | _ => exact scalar.elim

/-- An error of a conversion to a scalar type is faithful. -/
theorem convert_faithful (scalar : t.IsScalar) (failed : (v.convert K alive t).value = .error e) :
    e.Faithful v t := by
  have outcome : v.BearsOut t (v.convert K alive t).value :=
    attempt_bearsOut scalar (convertFrom_bearsOut scalar)
  rwa [failed] at outcome

/-- A value converts only to a type that admits its type. -/
theorem admits_of_convert {p : Payload C} (scalar : t.IsScalar)
    (converted : (v.convert K alive t).value = .ok p) (full : v.isEmpty = false) :
    t.Admits v.type := by
  have outcome : v.BearsOut t (v.convert K alive t).value :=
    attempt_bearsOut scalar (convertFrom_bearsOut scalar)
  rw [converted] at outcome
  exact outcome full

end Variant

/-! ## A value that converts to all that its type is admitted to -/

/-- **A specimen of a type**: a zero, in one of its many forms. A weak reference
is to the first object that is made. -/
def Ty.specimen? : Ty C → Option (Construction C)
  | int k => some (.native (.int k (k.clamp 0)))
  | float L => some (.native (.float L (.zero L false)))
  | bool => some (.native (.bool false))
  | char => some (.native (.char '0'))
  | text => some (.native (.text "0"))
  | null => some (.native .null)
  | weak .externalObject => some (.ofWeak .externalObject 0)
  | _ => none

namespace Variant

variable {v : Variant C} {K : Converters C} {alive : RefSet} {t : Ty C} {p : Payload C}

/-- A stored zero converts to every kind of number. -/
theorem convert_zero (held : v.payload = some p) (zero : p.numericValue? = some (.rational 0))
    (number : t.IsNumber) : ∃ q, (v.convert K alive t).value = .ok q := by
  have stored := Payload.isNumber_of_numericValue? zero
  obtain ⟨widened, converts, -⟩ := Payload.exists_number stored
  cases t with
  | int k =>
    have value : p.exactValue? = some ((0 : ℤ) : ℚ) := by
      rw [Payload.exactValue?_of_numericValue? zero, Int.cast_zero]
      rfl
    rw [convert_toInt held stored, toInt_eq held stored, value, Option.bind_some,
      towardZero_intCast, IntKind.ofInt?, dif_pos k.contains_zero]
    exact ⟨_, rfl⟩
  | float L =>
    have least : |(0 : ℚ)| ≤ L.greatest :=
      Fp.abs_le_greatest (Fp.value?_of_numericValue? (Fp.numericValue?_zero L false))
    have fits : p.Fits L 0 := ⟨fun _ => least, fun _ => least.trans_lt L.greatest_lt_limit⟩
    exact ⟨_, (convert_float_eq K alive L held zero).1 fits⟩
  | bool =>
    by_cases type : p.type = .bool
    · exact ⟨p, convert_of_type K alive held type⟩
    · rw [convert_of_type_ne K alive held type]
      show ∃ q, v.toBool = .ok q
      rw [toBool, Payload.text?_of_isNumber held stored, held, Option.bind_some, converts]
      exact ⟨_, rfl⟩
  | _ => exact number.elim

/-- The text of zero converts to everything that text can be brought into. -/
theorem convert_zeroText (held : v.payload = some (.text "0")) (hasText : t.HasText) :
    ∃ q, (v.convert K alive t).value = .ok q := by
  cases t with
  | int k =>
    have written : (Payload.int k (k.clamp 0) : Payload C).scalarText? = some "0" := by
      rw [Payload.scalarText?, IntKind.clamp_val k.contains_zero]
      rfl
    exact ⟨_, convert_of_scalarText K alive held written⟩
  | float L =>
    have written : (Payload.float L (.zero L false) : Payload C).scalarText? = some "0" := by
      cases L <;> rfl
    exact ⟨_, convert_of_scalarText K alive held written⟩
  | bool =>
    have read : Text.truthValue? "0" = some false := rfl
    rw [convert_of_type_ne K alive held (t := .bool) (by rintro ⟨⟩)]
    show ∃ q, v.toBool = .ok q
    rw [toBool, text?, held]
    dsimp only
    rw [read]
    exact ⟨_, rfl⟩
  | char => exact ⟨_, convert_of_scalarText K alive held (p := .char '0') rfl⟩
  | text => exact ⟨_, convert_of_type K alive held rfl⟩
  | _ => exact hasText.elim

/-- A value that converts to a type converts to an option of it. -/
theorem convert_option (converts : ∃ q, (v.convert K alive t).value = .ok q) :
    ∃ q, (v.convert K alive (.option t)).value = .ok q := by
  obtain ⟨q, inner⟩ := converts
  rw [convert_value]
  split
  · exact ⟨_, rfl⟩
  · rw [convertFrom]
    split
    · exact ⟨_, rfl⟩
    · rw [Logged.value_bind, show (v.attempt t _).value = _ from inner]
      exact ⟨_, rfl⟩

variable {s : Ty C} {c : Construction C}

theorem specimen_zero (specimen : s.specimen? = some c) (number : s.IsNumber) :
    ∃ p, c.build.payload = some p ∧ p.numericValue? = some (.rational 0) := by
  cases s with
  | int k =>
    cases specimen
    refine ⟨_, rfl, ?_⟩
    rw [Payload.numericValue?, IntKind.clamp_val k.contains_zero, Int.cast_zero]
  | float L =>
    cases specimen
    exact ⟨_, rfl, Fp.numericValue?_zero L false⟩
  | bool =>
    cases specimen
    exact ⟨_, rfl, rfl⟩
  | _ => exact number.elim

/-- Every specimen of a type with a text is the text of zero or has a text. -/
theorem specimen_text (specimen : s.specimen? = some c) (hasText : s.HasText) :
    c.build.payload = some (.text "0")
    ∨ ∃ p text, c.build.payload = some p ∧ p.scalarText? = some text := by
  cases s with
  | int _ | float _ | bool | char =>
    cases specimen
    exact .inr ⟨_, _, rfl, rfl⟩
  | text =>
    cases specimen
    exact .inl rfl
  | _ => exact hasText.elim

theorem convert_number_specimen (specimen : s.specimen? = some c) (number : t.IsNumber)
    (admits : s.IsNumber ∨ s = .text) : ∃ q, (c.build.convert K alive t).value = .ok q := by
  rcases admits with stored | rfl
  · obtain ⟨p, held, zero⟩ := specimen_zero specimen stored
    exact convert_zero held zero number
  · cases specimen
    refine convert_zeroText rfl ?_
    cases t with
    | int _ | float _ | bool => trivial
    | _ => exact number.elim

/-- **The specimen of a type converts to every scalar type that admits the type**,
as long as the first object that was made is alive. -/
theorem convert_specimen (specimen : s.specimen? = some c) (scalar : t.IsScalar)
    (admits : t.Admits s) (live : alive 0 = true) :
    ∃ q, (c.build.convert K alive t).value = .ok q := by
  induction t with
  | int k => exact convert_number_specimen specimen trivial admits
  | float L => exact convert_number_specimen specimen trivial admits
  | bool => exact convert_number_specimen specimen trivial admits
  | char =>
    rcases admits with rfl | rfl <;> cases specimen
    · exact ⟨_, convert_of_type K alive rfl rfl⟩
    · exact convert_zeroText rfl trivial
  | text =>
    rcases specimen_text specimen admits with held | ⟨p, text, held, written⟩
    · exact convert_zeroText held trivial
    · exact ⟨_, convert_text K alive held written⟩
  | wide =>
    rcases admits with rfl | admits
    · cases specimen
    · rcases specimen_text specimen admits with held | ⟨p, text, held, written⟩
      · rw [convert_of_type_ne K alive held (t := .wide) (by rintro ⟨⟩), convertFrom_wide K alive held]
        exact ⟨_, rfl⟩
      · exact ⟨_, convert_wide K alive held written⟩
  | null =>
    obtain rfl : s = .null := admits
    cases specimen
    exact ⟨_, convert_of_type K alive rfl rfl⟩
  | empty =>
    obtain rfl : s = .empty := admits
    cases specimen
  | variant =>
    rw [convert_value]
    split <;> exact ⟨_, rfl⟩
  | shared t =>
    cases t with
    | externalObject =>
      rcases admits with rfl | rfl <;> cases specimen
      rw [convert_of_type_ne K alive (t := .object) (p := .weak .externalObject 0) rfl
        (by rintro ⟨⟩)]
      show ∃ q, (Variant.ofWeak .externalObject 0).toObject alive = .ok q
      rw [toObject, ofWeak]
      dsimp only
      rw [if_pos live]
      exact ⟨_, rfl⟩
    | _ => exact scalar.elim
  | option t ih =>
    rcases admits with rfl | rfl | admits
    · cases specimen
    · cases specimen
      exact ⟨_, rfl⟩
    · exact convert_option (ih scalar admits)
  | _ => exact scalar.elim

theorem Ty.exists_specimen_of_isNumber (h : s.IsNumber) : ∃ c, s.specimen? = some c := by
  cases s with
  | int _ | float _ | bool => exact ⟨_, rfl⟩
  | _ => exact h.elim

theorem Ty.exists_specimen_of_hasText (h : s.HasText) : ∃ c, s.specimen? = some c := by
  cases s with
  | int _ | float _ | bool | char | text => exact ⟨_, rfl⟩
  | _ => exact h.elim

/-- A conversion that fails has failed by the rule of the type. -/
theorem convertFrom_of_error {e : CastError C} (failed : (v.convert K alive t).value = .error e) :
    v.exactly? t = none ∧ (convertFrom K alive t v).value = .error e := by
  rw [convert_value] at failed
  split at failed
  · cases failed
  · exact ⟨‹_›, failed⟩

/-- A value that is refused by a type that admits its type is of a type with a
specimen: what has none converts to its own type only. -/
theorem exists_specimen {e : CastError C} (scalar : t.IsScalar)
    (failed : (v.convert K alive t).value = .error e) (admits : t.Admits v.type) :
    ∃ c, v.type.specimen? = some c := by
  obtain ⟨other, refused⟩ := convertFrom_of_error failed
  have byType {s : Ty C} {c : Construction C} (type : v.type = s) (h : s.specimen? = some c) :
      ∃ c, v.type.specimen? = some c := ⟨c, by rw [type, h]⟩
  induction t generalizing e with
  | int k => exact admits.elim Ty.exists_specimen_of_isNumber fun type => byType type rfl
  | float L => exact admits.elim Ty.exists_specimen_of_isNumber fun type => byType type rfl
  | bool => exact admits.elim Ty.exists_specimen_of_isNumber fun type => byType type rfl
  | char => exact admits.elim (fun type => byType type rfl) fun type => byType type rfl
  | text => exact Ty.exists_specimen_of_hasText admits
  | wide =>
    refine admits.elim (fun type => ?_) Ty.exists_specimen_of_hasText
    exact absurd type (type_ne_of_exactly? other (by simp))
  | null => exact byType admits rfl
  | empty =>
    cases full : v.isEmpty with
    | true =>
      rw [convertFrom, full] at refused
      cases refused
    | false =>
      exact absurd admits (type_ne_of_exactly? other fun h => Bool.noConfusion (full.symm.trans h))
  | variant => cases refused
  | shared t =>
    cases t with
    | externalObject =>
      refine admits.elim (fun type => ?_) fun type => byType type rfl
      exact absurd type (type_ne_of_exactly? other (by simp))
    | _ => exact scalar.elim
  | option t ih =>
    rcases admits with type | type | admits
    · exact absurd type (type_ne_of_exactly? other (by simp))
    · exact byType type rfl
    · cases inner : (v.convert K alive t).value with
      | ok p =>
        obtain ⟨q, converted⟩ := convert_option ⟨p, inner⟩
        cases failed.symm.trans converted
      | error e' =>
        obtain ⟨other, refused⟩ := convertFrom_of_error inner
        exact ih scalar inner admits other refused
  | _ => exact scalar.elim

theorem specimen_build (specimen : s.specimen? = some c) :
    c.Attainable ∧ c.build.isEmpty = false ∧ c.build.type = s := by
  unfold Ty.specimen? at specimen
  split at specimen <;> cases specimen <;> refine ⟨?_, rfl, rfl⟩ <;> rintro p ⟨⟩ <;> constructor

/-- **A session with a specimen**, in which the first object that was made is
alive. -/
theorem specimen_reached (K : Converters C) (attainable : c.Attainable) :
    ∃ (history : List (Command C)) (slot : String), (∀ c ∈ history, c.Attainable)
      ∧ (Session.after K history).slot? slot = some c.build
      ∧ (Session.after K history).alive 0 = true := by
  refine ⟨[.object "" .blank, .make "" c], "", ?_, rfl, ?_⟩
  · rintro _ (_ | ⟨_, _ | ⟨_, ⟨⟩⟩⟩) target construction received
    · cases received
    · cases received
      exact attainable
  · rfl

/-- **The error of a failed conversion to a scalar type is faithful.** It names the
type of the stored value and the type that was asked for, whatever was tried on
the way. It carries an explanation exactly if some session comes to have a value of
the same type that does convert, and none exactly if no such value converts at all. -/
theorem convert_error_faithful {e : CastError C} (scalar : t.IsScalar)
    (failed : (v.convert K alive t).value = .error e) :
    e.stored = v.type ∧ e.requested = t
    ∧ (e.detail.isSome = true ↔ ∃ (history : List (Command C)) (slot : String) (w : Variant C),
        (∀ c ∈ history, c.Attainable) ∧ (Session.after K history).slot? slot = some w
        ∧ w.isEmpty = false ∧ w.type = v.type
        ∧ ∃ p, (w.convert K (Session.after K history).alive t).value = .ok p)
    ∧ (e.detail = none ↔ ∀ (w : Variant C) (living : RefSet), w.isEmpty = false →
        w.type = v.type → ∃ e', (w.convert K living t).value = .error e') := by
  obtain ⟨stored, requested, explained⟩ := convert_faithful scalar failed
  have of_convert (w : Variant C) (living : RefSet) (full : w.isEmpty = false)
      (type : w.type = v.type) {p : Payload C} (h : (w.convert K living t).value = .ok p) :
      e.detail.isSome = true :=
    explained.2 (type ▸ admits_of_convert scalar h full)
  have exists_convert (h : e.detail.isSome = true) :
      ∃ (history : List (Command C)) (slot : String) (w : Variant C),
        (∀ c ∈ history, c.Attainable) ∧ (Session.after K history).slot? slot = some w
        ∧ w.isEmpty = false ∧ w.type = v.type
        ∧ ∃ p, (w.convert K (Session.after K history).alive t).value = .ok p := by
    obtain ⟨c, specimen⟩ := exists_specimen scalar failed (explained.1 h)
    obtain ⟨attainable, full, type⟩ := specimen_build specimen
    obtain ⟨history, slot, own, held, live⟩ := specimen_reached K attainable
    exact ⟨history, slot, c.build, own, held, full, type,
      convert_specimen specimen scalar (explained.1 h) live⟩
  refine ⟨stored, requested, ⟨exists_convert, ?_⟩, fun silent w living full type => ?_,
    fun all => ?_⟩
  · rintro ⟨history, slot, w, -, -, full, type, p, h⟩
    exact of_convert w _ full type h
  · cases h : (w.convert K living t).value with
    | error e' => exact ⟨e', rfl⟩
    | ok p =>
      have explains := of_convert w living full type h
      rw [silent] at explains
      cases explains
  · refine Option.not_isSome_iff_eq_none.1 fun h => ?_
    obtain ⟨history, slot, w, -, -, full, type, p, converted⟩ := exists_convert h
    obtain ⟨e', refused⟩ := all w _ full type
    cases converted.symm.trans refused

/-- What is not a number is refused as an optional integer, with an explanation
since another float converts; the explicit null is refused as an integer without
one, since nothing of its type converts. -/
theorem convert_error_faithful_notANumber :
    (((native (.float .double .nan)).convert (.refusing .none) .none
        (.option (.option (.int .widestSigned)))).value
      = .error ⟨.float .double, .option (.option (.int .widestSigned)),
          some Reason.outOfRange.wording⟩
    ∧ ∃ (history : List (Command .none)) (slot : String) (w : Variant .none),
        (∀ c ∈ history, c.Attainable)
        ∧ (Session.after (.refusing .none) history).slot? slot = some w
        ∧ w.isEmpty = false ∧ w.type = .float .double
        ∧ ∃ p, (w.convert (.refusing .none) (Session.after (.refusing .none) history).alive
            (.option (.option (.int .widestSigned)))).value = .ok p)
    ∧ ((native .null).convert (.refusing .none) .none (.int .widestSigned)).value
      = .error ⟨.null, .int .widestSigned, none⟩
    ∧ ∀ (w : Variant .none) (living : RefSet), w.isEmpty = false → w.type = .null →
        ∃ e, (w.convert (.refusing .none) living (.int .widestSigned)).value = .error e := by
  have explained : ((native (.float .double .nan)).convert (.refusing .none) .none
      (.option (.option (.int .widestSigned)))).value
      = .error ⟨.float .double, .option (.option (.int .widestSigned)),
          some Reason.outOfRange.wording⟩ := rfl
  have silent : ((native .null).convert (.refusing .none) .none (.int .widestSigned)).value
      = .error ⟨.null, .int .widestSigned, none⟩ := rfl
  exact ⟨⟨explained, (convert_error_faithful (by trivial) explained).2.2.1.1 rfl⟩, silent,
    (convert_error_faithful (by trivial) silent).2.2.2.1 rfl⟩

end Variant

end DynValue

import DynValue.Proofs.Number.Literals
import DynValue.Scalar.Convert

/-!
# Numbers are read from text by their grammar

A stored text converts to a kind of number if the whole text is a literal of the kind,
and to nothing but the number that the literal denotes. The grammars, and what is
denoted, are said without the readers (`IntKind.Literal`, `Fp.Literal`).

Every other text is refused with an explanation that quotes it. This includes the
literals that denote too much: an integer out of range, however many digits it has,
and a decimal that rounds to infinity, however it is written. Zeros in front of a
number are not what makes it long.
-/

namespace DynValue

variable {C : CallerTypes}

namespace Variant

variable {v : Variant C} {s : String} (K : Converters C) (alive : RefSet)

/-! ## The rules for a stored text -/

theorem convert_int_text (held : v.payload = some (.text s)) (k : IntKind) :
    (v.convert K alive (.int k)).value = (k.ofText? s).elim
      (.error ((v.castError (.int k)).because (.notNumeric s))) fun n => .ok (.int k n) := by
  have other : Payload.type (.text s : Payload C) ≠ .int k := by rintro ⟨⟩
  have text : v.text? = some s := by rw [text?, held]
  rw [convert_of_type_ne K alive held other]
  show v.toInt k = _
  rw [toInt, text]
  dsimp only
  cases k.ofText? s <;> rfl

theorem convert_float_text (held : v.payload = some (.text s)) (L : FloatKind) :
    (v.convert K alive (.float L)).value = (Fp.ofText? L s).elim
      (.error ((v.castError (.float L)).because (.notNumeric s))) fun x => .ok (.float L x) := by
  have other : Payload.type (.text s : Payload C) ≠ .float L := by rintro ⟨⟩
  have text : v.text? = some s := by rw [text?, held]
  rw [convert_of_type_ne K alive held other]
  show v.toFloat L = _
  rw [toFloat, text]
  dsimp only
  cases Fp.ofText? L s <;> rfl

/-- What was read is what a conversion gives. -/
theorem elim_eq_ok_iff {α : Type} {read : Option α} {e : CastError C} {stored : α → Payload C}
    {r : Payload C} :
    read.elim (.error e) (fun a => .ok (stored a)) = (.ok r : Except (CastError C) (Payload C))
      ↔ ∃ a, read = some a ∧ r = stored a := by
  cases read with
  | none => exact iff_of_false nofun nofun
  | some a =>
    rw [Option.elim_some, Except.ok.injEq, eq_comm]
    exact ⟨fun same => ⟨a, rfl, same⟩, fun ⟨_, same, h⟩ => Option.some.inj same ▸ h⟩

/-! ## What is read -/

/-- **A text converts to an integer exactly if it is a literal of one in range**:
digits after an optional sign, and a minus only for the signed kinds. It is this
integer that it converts to, and every other text is refused. Zeros in front, however
many, are accepted. -/
theorem convert_intText_iff (held : v.payload = some (.text s)) (k : IntKind) :
    (∀ r, (v.convert K alive (.int k)).value = .ok r
      ↔ ∃ n, ∃ range : k.Contains n, k.Literal s.toList n ∧ r = .int k ⟨n, range⟩)
    ∧ ((¬ ∃ n, k.Contains n ∧ k.Literal s.toList n) →
        (v.convert K alive (.int k)).value
          = .error ((v.castError (.int k)).because (.notNumeric s)))
    ∧ ∀ (zeros : ℕ) (front ds : List Char) (neg : Bool) (m : ℕ),
        s.toList = front ++ (List.replicate zeros '0' ++ ds) → Sign front neg →
        (neg = true → k.signed = true) → ds ≠ [] → Digits.Denotes ds m →
        ∀ range : k.Contains (negateIf neg m),
          (v.convert K alive (.int k)).value = .ok (.int k ⟨negateIf neg m, range⟩) := by
  rw [convert_int_text K alive held]
  refine ⟨fun r => ?_, fun other => ?_, fun zeros front ds neg m letters sign allowed some digits
    range => ?_⟩
  · simp only [elim_eq_ok_iff, IntKind.ofText?_eq_some_iff, Subtype.exists, exists_and_left]
  · have unread : k.ofText? s = none := Option.eq_none_iff_forall_ne_some.2 fun n read =>
      other ⟨n.1, n.2, IntKind.ofText?_eq_some_iff.1 read⟩
    rw [unread, Option.elim_none]
  · have nonempty : List.replicate zeros '0' ++ ds ≠ [] := List.append_ne_nil_of_right_ne_nil _ some
    rw [IntKind.ofText?_digits letters sign nonempty (digits.zeros_append zeros), if_pos allowed,
      IntKind.ofInt?, dif_pos range, Option.elim_some]

/-- The least value of a signed kind is read behind zeros, and an unsigned kind has no
negative zero. -/
theorem convert_intText_iff_least :
    ((ofValue (.text "-00128")).convert (.refusing .none) .none (.int ⟨true, .w8⟩)).value
      = .ok (.int ⟨true, .w8⟩ ⟨-128, by decide⟩)
    ∧ ((ofValue (.text "-0")).convert (.refusing .none) .none (.int ⟨false, .w8⟩)).value
      = .error ⟨.text, .int ⟨false, .w8⟩, some (Reason.notNumeric "-0").wording⟩ := by
  have digits : Digits.Denotes ['1', '2', '8'] 128 :=
    Digits.denotes_iff.2 ⟨List.all_eq_true.1 rfl, rfl⟩
  have unread : IntKind.ofText? ⟨false, .w8⟩ "-0" = none := by decide
  have held (s : String) : (ofValue (.text s) : Variant .none).payload = some (.text s) := rfl
  obtain ⟨-, -, zeros⟩ :=
    convert_intText_iff (.refusing .none) .none (held "-00128") ⟨true, .w8⟩
  obtain ⟨-, refused, -⟩ :=
    convert_intText_iff (.refusing .none) .none (held "-0") ⟨false, .w8⟩
  refine ⟨zeros 2 _ _ _ _ rfl .minus (fun _ => rfl) nofun digits (by decide), refused ?_⟩
  rintro ⟨n, range, literal⟩
  have read := (IntKind.ofText?_eq_some_iff (v := ⟨n, range⟩)).2 literal
  rw [unread] at read
  cases read

/-- **A text converts to a float exactly if it is a literal of one**: a word for what
is not finite, or a decimal, of which the correct rounding has to be finite. It is this
float that it converts to, and every other text is refused. So is each decimal that
rounds to infinity: the result is infinite only for a word. -/
theorem convert_floatText_iff (held : v.payload = some (.text s)) (L : FloatKind) :
    (∀ r, (v.convert K alive (.float L)).value = .ok r
      ↔ ∃ x : Fp L, Fp.Literal s.toList x ∧ r = .float L x)
    ∧ ((¬ ∃ x : Fp L, Fp.Literal s.toList x) →
        (v.convert K alive (.float L)).value
          = .error ((v.castError (.float L)).because (.notNumeric s)))
    ∧ (∀ (front body : List Char) (neg : Bool) (q : ℚ),
        s.toList = front ++ body → Sign front neg → Decimal.Literal body q →
        (Fp.inf neg : Fp L).IsRoundingOf (Fp.signed neg q) →
          (v.convert K alive (.float L)).value
            = .error ((v.castError (.float L)).because (.notNumeric s)))
    ∧ ∀ neg, (v.convert K alive (.float L)).value = .ok (.float L (.inf neg)) →
        ∃ front body, Sign front neg ∧ s.toList = front ++ body
          ∧ (Spells "inf" body ∨ Spells "infinity" body) := by
  have converts (r : Payload C) : (v.convert K alive (.float L)).value = .ok r
      ↔ ∃ x : Fp L, Fp.Literal s.toList x ∧ r = .float L x := by
    simp only [convert_float_text K alive held, elim_eq_ok_iff, Fp.ofText?_eq_some_iff]
  refine ⟨converts, fun other => ?_, fun front body neg q letters sign literal rounding => ?_,
    fun neg infinite => ?_⟩
  · have unread : Fp.ofText? L s = none := Option.eq_none_iff_forall_ne_some.2 fun x read =>
      other ⟨x, Fp.ofText?_eq_some_iff.1 read⟩
    rw [convert_float_text K alive held, unread, Option.elim_none]
  · have overflow := (Fp.eq_nearestTo_signed_iff literal.nonneg).2 ⟨rounding, rfl⟩
    have past : ¬ |q| < L.limit := by
      rw [← Fp.isFinite_nearestTo L neg q, ← overflow]
      exact Bool.false_ne_true
    rw [convert_float_text K alive held, Fp.ofText?_decimal L letters sign literal, if_neg past,
      Option.elim_none]
  · obtain ⟨x, literal, same⟩ := (converts _).1 infinite
    cases same
    exact literal.spells rfl

/-- An infinity can be spelled, and a decimal that is too large is refused. -/
theorem convert_floatText_iff_infinite :
    ((ofValue (.text "-Inf")).convert (.refusing .none) .none (.float .single)).value
      = .ok (.float .single (.inf true))
    ∧ ((ofValue (.text "1e39")).convert (.refusing .none) .none (.float .single)).value
      = .error ⟨.text, .float .single, some (Reason.notNumeric "1e39").wording⟩ := by
  have held (s : String) : (ofValue (.text s) : Variant .none).payload = some (.text s) := rfl
  obtain ⟨converts, -⟩ := convert_floatText_iff (.refusing .none) .none (held "-Inf") .single
  obtain ⟨-, -, refused, -⟩ := convert_floatText_iff (.refusing .none) .none (held "1e39") .single
  constructor
  · have word : Spells "inf" "Inf".toList :=
      (Spells.iff_toLower (Fp.isLower_of_mem_words _ (by decide))).2 rfl
    exact (converts _).2 ⟨_, .infinity .minus (.inl word), rfl⟩
  · have one : Digits.Denotes ['1'] 1 := Digits.denotes_iff.2 ⟨List.all_eq_true.1 rfl, rfl⟩
    have power : Digits.Denotes ['3', '9'] 39 := Digits.denotes_iff.2 ⟨List.all_eq_true.1 rfl, rfl⟩
    have exponent : Decimal.Exponent ['e', '3', '9'] 39 := .some (.inl rfl) .none nofun power
    have literal : Decimal.Literal (['1'] ++ ['e', '3', '9']) ((1 : ℕ) * 10 ^ (39 : ℤ)) :=
      .whole (List.cons_ne_nil _ _) one exponent
    have number : ((1 : ℕ) * 10 ^ (39 : ℤ) : ℚ) = (10 ^ 39 : ℤ) := by norm_num
    have overflow : Fp.inf false = Fp.nearestTo .single false ((1 : ℕ) * 10 ^ (39 : ℤ)) := by
      have large : Fp.ofInt .single (10 ^ 39) = .inf false := by decide +kernel
      rw [number, ← large, Fp.ofInt_eq_nearestTo]
      rfl
    exact refused [] _ false _ rfl .none literal
      ((Fp.eq_nearestTo_signed_iff literal.nonneg).1 overflow).1

end Variant

end DynValue

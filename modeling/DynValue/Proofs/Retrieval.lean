import DynValue.Proofs.Scalar.Preflight
import DynValue.Proofs.Session.NormalForm

/-!
# What the type query says about reading back

Whether the stored value is exactly of a type can be asked (`Variant.isA`), and
it can be read back as one of the type, by reference (`Variant.view`) or as a
copy (`Variant.cast`). For every type but that of wide text all three look at
the type of what is stored and at nothing else. For wide text each has a rule of
its own: the query counts owned text as well, the copy is made from owned text
and from nothing else, and the reference needs wide text itself.

The rules agree as long as no variant holds wide text, and variants do not where
values are kept in normal form. A variant that holds it nevertheless says that it
does and gives it by reference, and refuses the copy.
-/

namespace DynValue.Variant

variable {C : CallerTypes} {v : Variant C} {p : Payload C} {t : Ty C}

/-! ## Types other than that of wide text -/

theorem cast_of_ne_wide (h : t ≠ .wide) : v.cast t = v.view t := if_neg h

theorem isA_of_ne_wide (held : v.payload = some p) (h : t ≠ .wide) :
    v.isA t = true ↔ p.type = t := by
  rw [isA, held]
  simp [h]

/-- A view of a variant that holds a value is this value. -/
theorem view_eq_ok_iff_eq (held : v.payload = some p) {r : Payload C} :
    v.view t = .ok r ↔ r = p ∧ p.type = t := by
  rw [view_eq_ok_iff, held, Option.some_inj]
  exact ⟨fun ⟨same, type⟩ => ⟨same.symm, same ▸ type⟩, fun ⟨same, type⟩ => ⟨same.symm, same ▸ type⟩⟩

/-! ## Wide text -/

theorem isA_wide (held : v.payload = some p) :
    v.isA .wide = true ↔ p.type = .wide ∨ p.type = .text := by
  rw [isA, held]
  simp

theorem text?_isSome (held : v.payload = some p) : v.text?.isSome = true ↔ p.type = .text := by
  rw [text?, held]
  cases p with
  | text s => exact iff_of_true rfl rfl
  | _ => exact iff_of_false nofun nofun

theorem cast_wide : v.cast .wide = match v.text? with
    | some s => .ok (.wide (WideText.ofString s))
    | none => .error (v.castError .wide) := if_pos rfl

/-- **The copy as wide text is made from owned text only.** -/
theorem cast_wide_iff (held : v.payload = some p) :
    (∃ r, v.cast .wide = .ok r) ↔ p.type = .text := by
  rw [← text?_isSome held, cast_wide]
  cases v.text? with
  | some s => exact iff_of_true ⟨_, rfl⟩ rfl
  | none => exact iff_of_false nofun nofun

/-! ## Errors -/

theorem view_eq_error {e : CastError C} (h : v.view t = .error e) : e = v.castError t := by
  unfold view at h
  split at h
  · cases h
  · cases h
    rfl

/-- **An exact cast fails in one way**: it names the type that is stored and the
one that was asked for, and explains nothing. -/
theorem cast_eq_error {e : CastError C} (h : v.cast t = .error e) : e = v.castError t := by
  by_cases wide : t = .wide
  · subst wide
    rw [cast_wide] at h
    split at h
    · cases h
    · cases h
      rfl
  · exact view_eq_error ((cast_of_ne_wide wide).symm.trans h)

/-! ## Agreement -/

/-- **A variant is of a type exactly if the cast to it succeeds**, and what can
be had by reference the cast gives too, unless wide text is held and asked for:
then the variant is of the type and gives the value by reference, but the cast
is refused. A cast that is refused names the type stored and the type asked
for. -/
theorem isA_iff_cast (held : v.payload = some p) (t : Ty C) :
    ((t = .wide → p.type ≠ .wide) →
      (v.isA t = true ↔ ∃ r, v.cast t = .ok r) ∧ ∀ r, v.view t = .ok r → v.cast t = .ok r)
    ∧ (p.type = .wide →
        v.isA .wide = true ∧ v.view .wide = .ok p ∧ v.cast .wide = .error ⟨.wide, .wide, none⟩)
    ∧ ∀ e, v.cast t = .error e → e = ⟨v.type, t, none⟩ := by
  refine ⟨fun narrow => ?_, fun wide => ?_, fun e => cast_eq_error⟩
  · by_cases asked : t = .wide
    · subst asked
      have other : p.type ≠ .wide := narrow rfl
      refine ⟨?_, fun r given => absurd ((view_eq_ok_iff_eq held).1 given).2 other⟩
      rw [isA_wide held, cast_wide_iff held]
      exact or_iff_right other
    · rw [cast_of_ne_wide asked, isA_of_ne_wide held asked]
      refine ⟨⟨fun type => ⟨p, ?_⟩, fun ⟨r, given⟩ => ?_⟩, fun r => id⟩
      · exact (view_eq_ok_iff_eq held).2 ⟨rfl, type⟩
      · exact ((view_eq_ok_iff_eq held).1 given).2
  · refine ⟨(isA_wide held).2 (.inl wide), (view_eq_ok_iff_eq held).2 ⟨rfl, wide⟩, ?_⟩
    cases p with
    | wide w =>
      rw [cast_wide, text?, held]
      exact congrArg Except.error (by rw [castError, type_of_payload held, wide])
    | _ => cases wide

/-- Owned text is given as wide text, and refused as a number; wide text that was
stored without an order is refused as such. -/
theorem isA_iff_cast_accented :
    (∃ r, (native (.text "é") : Variant .none).cast .wide = .ok r)
    ∧ (∀ e, (native (.text "é") : Variant .none).cast .bool = .error e → e = ⟨.text, .bool, none⟩)
    ∧ (unordered (.wide ⟨[0xE9]⟩) : Variant .none).cast .wide = .error ⟨.wide, .wide, none⟩ :=
  ⟨((isA_iff_cast (v := native (.text "é")) rfl .wide).1 nofun).1.1 rfl,
    (isA_iff_cast (v := native (.text "é")) rfl .bool).2.2,
    ((isA_iff_cast (v := unordered (.wide ⟨[0xE9]⟩)) rfl .wide).2.1 rfl).2.2⟩

/-- **A variant may be of a type and give its value by reference although the
cast is refused.** -/
theorem isA_of_cast_refused :
    (unordered (.wide ⟨[0x61]⟩) : Variant .none).Reachable
    ∧ (unordered (.wide ⟨[0x61]⟩) : Variant .none).isA .wide = true
    ∧ (unordered (.wide ⟨[0x61]⟩) : Variant .none).view .wide = .ok (.wide ⟨[0x61]⟩)
    ∧ (unordered (.wide ⟨[0x61]⟩) : Variant .none).cast .wide = .error ⟨.wide, .wide, none⟩ :=
  ⟨reachable_unordered (.wide _), rfl, rfl, rfl⟩

end DynValue.Variant

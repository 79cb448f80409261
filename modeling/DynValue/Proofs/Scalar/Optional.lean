import DynValue.Proofs.Scalar.Diagnostics

/-!
# Options through a variant

A variant is made of an option by taking the layers off: something becomes the
variant of what is inside, and nothing becomes the explicit null, at whatever depth
it is found. The conversion to an option puts layers on, and asks for the null before
each of them. So how many layers were taken off is not remembered, and need not be: a
value comes back in as many layers as are asked for, and nothing comes back in the
outermost (`Variant.convert_ofValue_options`).

Taking off is a recursion in the value and putting on one in the type. They meet in
the value inside all layers (`Payload.innermost?`), which is what the variant stores.
-/

namespace DynValue

variable {C : CallerTypes}

/-- **The types that options are taken of** here: numbers, truth values, characters
and text. -/
def Ty.IsBase : Ty C → Prop
  | int _ | float _ | bool | char | text => True
  | _ => False

namespace Payload

/-- **A value in a number of nested options**, something at every depth. -/
def inOptions (p : Payload C) : Nat → Payload C
  | 0 => p
  | k + 1 => .option (p.type.options k) (some (p.inOptions k))

/-- **The value inside all options**, if there is something at every depth. -/
def innermost? : Payload C → Option (Payload C)
  | .option _ (some p) => p.innermost?
  | .option _ none => none
  | p => some p

theorem innermost?_of_isBase {p : Payload C} (base : p.type.IsBase) :
    p.innermost? = some p := by
  cases p with
  | option t content => exact base.elim
  | _ => rfl

/-- **What is inside nested options** is of the type that they are taken of, and in
as many options it is the whole value. -/
theorem eq_inOptions {t : Ty C} (base : t.IsBase) {k : Nat} {o p : Payload C}
    (typed : o.WellTyped) (type : o.type = t.options k) (inside : o.innermost? = some p) :
    p.type = t ∧ o = p.inOptions k := by
  induction k generalizing o with
  | zero =>
    subst type
    cases (innermost?_of_isBase base).symm.trans inside
    exact ⟨rfl, rfl⟩
  | succ k ih =>
    cases o with
    | option s content =>
      cases content with
      | none => cases inside
      | some q =>
        obtain rfl : s = t.options k := Ty.option.inj type
        obtain ⟨rfl, rfl⟩ := ih typed.1 (typed.2 q rfl) inside
        exact ⟨rfl, rfl⟩
    | _ => cases type

end Payload

namespace Variant

variable {p o : Payload C} {t : Ty C}

/-! ## Taking layers off -/

theorem ofValue_of_isBase (base : p.type.IsBase) : ofValue p = storeNative p := by
  cases p with
  | int k n => rfl
  | float K x => rfl
  | bool b => rfl
  | char c => rfl
  | text s => rfl
  | _ => exact base.elim

/-- **The variant of an option** stores the value inside all layers. -/
theorem ofValue_of_innermost? (inside : o.innermost? = some p) (base : p.type.IsBase) :
    ofValue o = storeNative p := by
  fun_induction Payload.innermost? o with
  | case1 s q ih => exact ih inside
  | case2 => cases inside
  | case3 q =>
    cases inside
    exact ofValue_of_isBase base

/-- Where there is nothing at some depth it stores the explicit null. -/
theorem ofValue_of_nothing (nothing : o.innermost? = none) : ofValue o = storeNative .null := by
  fun_induction Payload.innermost? o with
  | case1 s q ih => exact ih nothing
  | case2 => rfl
  | case3 q => cases nothing

/-! ## Putting layers on -/

variable (K : Converters C) (alive : RefSet)

/-- **A stored value converts to any number of options around it.** -/
theorem convert_inOptions (base : p.type.IsBase) (j : Nat) :
    ((storeNative p).convert K alive (p.type.options j)).value = .ok (p.inOptions j) := by
  induction j with
  | zero => exact convert_of_type K alive rfl rfl
  | succ j ih =>
    have other : p.type ≠ p.type.options (j + 1) := by
      cases p with
      | option t content => exact base.elim
      | _ => nofun
    have present : (storeNative p).isNull = false := by
      cases p with
      | null => exact base.elim
      | _ => rfl
    rw [convert_of_type_ne K alive rfl other, Ty.options, convertFrom, present]
    show ((storeNative p).attempt _ _ >>= _).value = _
    rw [Logged.value_bind]
    rw [convert] at ih
    rw [ih]
    rfl

/-- **The explicit null converts to nothing**, in the outermost option. -/
theorem convert_null_option (s : Ty C) :
    ((storeNative .null).convert K alive (.option s)).value = .ok (.option s none) := rfl

/-- It converts to nothing else than options. -/
theorem convert_null_base (base : t.IsBase) :
    ((storeNative .null).convert K alive t).value = .error ⟨.null, t, none⟩ := by
  cases t with
  | int k => rfl
  | float L => rfl
  | bool => rfl
  | char => rfl
  | text => rfl
  | _ => exact base.elim

/-! ## There and back -/

/-- **An option survives in a variant up to where nothing was.** If there is
something at every depth, the variant of it converts to the same option again, and to
the same value in any other number of options. If there is nothing at some depth, it
converts to nothing in any number of options, and not to the type inside. -/
theorem convert_ofValue_options (base : t.IsBase) {k : Nat} (typed : o.WellTyped)
    (type : o.type = t.options k) :
    (∀ p, o.innermost? = some p →
      ((ofValue o).convert K alive (t.options k)).value = .ok o
      ∧ p.type = t ∧ o = p.inOptions k
      ∧ ∀ j, ((ofValue o).convert K alive (t.options j)).value = .ok (p.inOptions j))
    ∧ (o.innermost? = none →
      (∀ j, ((ofValue o).convert K alive (t.options (j + 1))).value
        = .ok (.option (t.options j) none))
      ∧ ((ofValue o).convert K alive t).value = .error ⟨.null, t, none⟩) := by
  refine ⟨fun p inside => ?_, fun nothing => ?_⟩
  · obtain ⟨rfl, whole⟩ := Payload.eq_inOptions base typed type inside
    rw [ofValue_of_innermost? inside base]
    have read := convert_inOptions K alive base
    exact ⟨whole ▸ read k, rfl, whole, read⟩
  · rw [ofValue_of_nothing nothing]
    exact ⟨fun j => convert_null_option K alive (t.options j), convert_null_base K alive base⟩

/-- Text in two options converts to these again and to the text. An option with
nothing in the inner one converts to nothing in the outermost. -/
theorem convert_ofValue_options_text :
    (((ofValue (.option (.option .text) (some (.option .text (some (.text "x")))))).convert
        (.refusing .none) .none (.option (.option .text))).value
      = .ok (.option (.option .text) (some (.option .text (some (.text "x"))))))
    ∧ ((ofValue (.option (.option .text) (some (.option .text (some (.text "x")))))).convert
        (.refusing .none) .none .text).value = .ok (.text "x")
    ∧ ((ofValue (.option (.option .text) (some (.option .text none)))).convert
        (.refusing .none) .none (.option (.option .text))).value
      = .ok (.option (.option .text) none)
    ∧ ((ofValue (.option (.option .text) (some (.option .text none)))).convert
        (.refusing .none) .none .text).value = .error ⟨.null, .text, none⟩ := by
  have typed (content : Option (Payload .none)) (text : ∀ p ∈ content, p = .text "x") :
      (Payload.option (.option .text) (some (.option .text content))).WellTyped := by
    refine ⟨⟨?_, fun p mem => text p mem ▸ rfl⟩, fun p mem => Option.mem_some.1 mem ▸ rfl⟩
    cases content with
    | none => trivial
    | some p => exact text p rfl ▸ trivial
  obtain ⟨same, -, -, other⟩ := (convert_ofValue_options (.refusing .none) .none (t := .text)
    trivial (k := 2) (typed (some (.text "x")) (by simp)) rfl).1 _ rfl
  obtain ⟨nothing, refused⟩ := (convert_ofValue_options (.refusing .none) .none (t := .text)
    trivial (k := 2) (typed none nofun) rfl).2 rfl
  exact ⟨same, other 0, nothing 1, refused⟩

end Variant

end DynValue

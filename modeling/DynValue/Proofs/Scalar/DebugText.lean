import DynValue.Proofs.Scalar.Failure
import DynValue.Proofs.Text.Quoting
import Mathlib.Data.List.Nodup

/-!
# The debugging form identifies the value

The debugging form is for people, who take what they read in it for what is stored. They
are right to do so with numbers, truth values, characters and text: two variants of these
have the same debugging form only if they store the same value of the same type
(`Variant.debugText_eq_iff`). What order they were bound to is the one thing that the
form does not show.

There are two forms, and a reader has to tell them apart without knowing which one it is.
A scalar is shown by the name of its type, a colon and its text. The name has no colon in
it, so the first one ends it, and it is the name of no other type (`Ty.label_inj`). What
is behind it is all text, from which the type reads the value (`Payload.eq_of_scalarText?`).
A stored text is shown in quotes, and no name starts with one (`Ty.label_ne_quote`). So
whatever is in the text, a quote as if it was the end or the name of a type, it is not
taken for a scalar, nor for another text (`Text.quote_injective`).

For a float to be the same value means to have the same bits (`Fp.toBits_ofBits`), and all
that is not a number counts as one value.
-/

namespace DynValue

variable {C : CallerTypes}

namespace Ty

/-! ## Labels -/

/-- **The types whose values are shown behind a label**, which is the name of the type:
all integers and floats, truth values and characters. -/
def labelled : List (Ty C) :=
  [true, false].flatMap (fun signed =>
      [.w8, .w16, .w32, .w64, .w128, .word].map fun width => .int ⟨signed, width⟩)
    ++ [.float .single, .float .double, .bool, .char]

/-- Their names. -/
def labels : List String :=
  ["i8", "i16", "i32", "i64", "i128", "isize", "u8", "u16", "u32", "u64", "u128", "usize",
   "f32", "f64", "bool", "char"]

theorem map_name_labelled : (labelled : List (Ty C)).map name = labels := rfl

variable {t u : Ty C} {r s : String}

/-- **No two of them have the same name.** -/
theorem name_inj_of_labelled (ht : t ∈ labelled) (hu : u ∈ labelled) (same : t.name = u.name) :
    t = u := by
  -- The names do not depend on the caller's types, and are compared by evaluation.
  have different : ((labelled : List (Ty C)).map name).Nodup := by
    rw [map_name_labelled]
    decide
  exact List.inj_on_of_nodup_map different ht hu same

/-- There is neither a colon nor a quote in a name. -/
theorem notMem_name_of_labelled (ht : t ∈ labelled) :
    ':' ∉ t.name.toList ∧ '"' ∉ t.name.toList := by
  have free : ∀ n ∈ labels, ':' ∉ n.toList ∧ '"' ∉ n.toList := by decide
  exact free _ (map_name_labelled (C := C) ▸ List.mem_map_of_mem ht)

theorem toList_label (t : Ty C) (s : String) :
    (t.name ++ ": " ++ s).toList = t.name.toList ++ ':' :: ' ' :: s.toList := by
  have colon : ": ".toList = [':', ' '] := rfl
  simp only [String.toList_append, colon, List.append_assoc, List.cons_append, List.nil_append]

/-- **A label can be told from the text behind it.** -/
theorem label_inj (ht : t ∈ labelled) (hu : u ∈ labelled)
    (same : t.name ++ ": " ++ r = u.name ++ ": " ++ s) : t = u ∧ r = s := by
  have letters := congrArg String.toList same
  rw [toList_label, toList_label] at letters
  obtain ⟨name, rest⟩ := append_stop_inj (notMem_name_of_labelled ht).1
    (notMem_name_of_labelled hu).1 letters
  exact ⟨name_inj_of_labelled ht hu (String.toList_inj.1 name),
    String.toList_inj.1 (List.cons.inj rest).2⟩

/-- **Nothing behind a label looks like a quoted text.** -/
theorem label_ne_quote (ht : t ∈ labelled) : t.name ++ ": " ++ r ≠ Text.quote s := by
  intro same
  have letters := congrArg String.toList same
  rw [toList_label, Text.toList_quote] at letters
  rcases List.append_eq_cons_iff.1 letters with ⟨-, colon⟩ | ⟨cs, first, -⟩
  · cases colon
  · exact (notMem_name_of_labelled ht).2 (first ▸ List.mem_cons_self)

end Ty

namespace Payload

variable {p q : Payload C} {s : String}

theorem type_mem_labelled (h : p.scalarText? = some s) : p.type ∈ Ty.labelled := by
  cases p with
  | int k n =>
    obtain ⟨signed, width⟩ := k
    cases signed <;> cases width <;> simp [type, Ty.labelled]
  | float K x => cases K <;> simp [type, Ty.labelled]
  | bool b => simp [type, Ty.labelled]
  | char c => simp [type, Ty.labelled]
  | _ => cases h

/-- **Values of one type with the same text are the same value**, the one that the type
reads from it. -/
theorem eq_of_scalarText? (type : p.type = q.type) (hp : p.scalarText? = some s)
    (hq : q.scalarText? = some s) : p = q := by
  -- Reading a text asks neither the caller's types nor what is alive, so any of these do.
  have readAs {r : Payload C} :=
    Variant.convertFrom_scalarText (p := r) (v := Variant.ofText s) (.refusing C) .none rfl
  exact Except.ok.inj ((readAs hp).symm.trans (type ▸ readAs hq))

end Payload

namespace Variant

variable {v w : Variant C} {p : Payload C} {s : String}

/-! ## The two forms -/

theorem debugText_of_scalarText? (held : v.payload = some p) (h : p.scalarText? = some s) :
    v.debugText = "Variant(" ++ (p.type.name ++ ": " ++ s) ++ ")" := by
  simp only [debugText, held, Option.bind_some, h, type]

theorem debugText_of_text (held : v.payload = some (.text s)) :
    v.debugText = "Variant(" ++ Text.quote s ++ ")" := by
  simp only [debugText, held, Option.bind_some, Payload.scalarText?, text?]

/-- A variant of a type that has a text stores a scalar or a text. -/
theorem exists_text_of_hasText (h : v.type.HasText) :
    (∃ p s, v.payload = some p ∧ p.scalarText? = some s) ∨ ∃ s, v.payload = some (.text s) := by
  obtain ⟨content, binding⟩ := v
  cases content with
  | none => exact h.elim
  | some p =>
    cases p with
    | int k n => exact .inl ⟨_, _, rfl, rfl⟩
    | float K x => exact .inl ⟨_, _, rfl, rfl⟩
    | bool b => exact .inl ⟨_, _, rfl, rfl⟩
    | char c => exact .inl ⟨_, _, rfl, rfl⟩
    | text s => exact .inr ⟨s, rfl⟩
    | _ => exact h.elim

theorem parenthesized_inj {r s : String} (same : "Variant(" ++ r ++ ")" = "Variant(" ++ s ++ ")") :
    r = s :=
  (String.append_right_inj _).1 ((String.append_left_inj _).1 same)

/-- **Scalars of the same form are the same value.** -/
theorem scalar_eq_of_debugText {q : Payload C} {r : String} (heldV : v.payload = some p)
    (hp : p.scalarText? = some r) (heldW : w.payload = some q) (hq : q.scalarText? = some s)
    (same : v.debugText = w.debugText) : p = q := by
  rw [debugText_of_scalarText? heldV hp, debugText_of_scalarText? heldW hq] at same
  obtain ⟨type, rfl⟩ := Ty.label_inj (Payload.type_mem_labelled hp) (Payload.type_mem_labelled hq)
    (parenthesized_inj same)
  exact Payload.eq_of_scalarText? type hp hq

/-- **Texts of the same form are the same text.** -/
theorem text_eq_of_debugText {r : String} (heldV : v.payload = some (.text r))
    (heldW : w.payload = some (.text s)) (same : v.debugText = w.debugText) : r = s := by
  rw [debugText_of_text heldV, debugText_of_text heldW] at same
  exact Text.quote_injective (parenthesized_inj same)

/-- **A text is not taken for a scalar**, whatever is in it. -/
theorem debugText_text_ne_scalar {r : String} (text : v.payload = some (.text r))
    (scalar : w.payload = some p) (h : p.scalarText? = some s) : v.debugText ≠ w.debugText := by
  rw [debugText_of_text text, debugText_of_scalarText? scalar h]
  exact fun same => Ty.label_ne_quote (Payload.type_mem_labelled h) (parenthesized_inj same).symm

/-- **The debugging form identifies the value.** Among variants of numbers, truth values,
characters and text it is the same for two of them exactly if they store the same value
of the same type. -/
theorem debugText_eq_iff (hv : v.type.HasText) (hw : w.type.HasText) :
    v.debugText = w.debugText ↔ v.type = w.type ∧ v.payload = w.payload := by
  constructor
  · intro same
    have payload : v.payload = w.payload := by
      rcases exists_text_of_hasText hv with ⟨p, r, heldV, hp⟩ | ⟨r, heldV⟩
      · rcases exists_text_of_hasText hw with ⟨q, s, heldW, hq⟩ | ⟨s, heldW⟩
        · rw [heldV, heldW, scalar_eq_of_debugText heldV hp heldW hq same]
        · exact (debugText_text_ne_scalar heldW heldV hp same.symm).elim
      · rcases exists_text_of_hasText hw with ⟨q, s, heldW, hq⟩ | ⟨s, heldW⟩
        · exact (debugText_text_ne_scalar heldV heldW hq same).elim
        · rw [heldV, heldW, text_eq_of_debugText heldV heldW same]
    exact ⟨by rw [type, type, payload], payload⟩
  · rintro ⟨-, payload⟩
    rw [debugText, debugText, text?, text?, type, type, payload]

/-- A text that spells the form of a number is not taken for the number, nor one that
spells an escape for the character. The number is shown in the same way however its order
was bound. -/
theorem debugText_eq_iff_spelled :
    (ofText "u8: 7" : Variant .none).debugText
      ≠ (native (.int ⟨false, .w8⟩ ⟨7, by decide⟩) : Variant .none).debugText
    ∧ (ofText "\\n" : Variant .none).debugText ≠ (ofText "\n" : Variant .none).debugText
    ∧ (unordered (.int ⟨false, .w8⟩ ⟨7, by decide⟩) : Variant .none).debugText
      = (native (.int ⟨false, .w8⟩ ⟨7, by decide⟩) : Variant .none).debugText := by
  have text (s : String) : (ofText s : Variant .none).type.HasText := trivial
  have number (n : IntKind.Value ⟨false, .w8⟩) :
      (native (.int _ n) : Variant .none).type.HasText
      ∧ (unordered (.int _ n) : Variant .none).type.HasText := ⟨trivial, trivial⟩
  refine ⟨fun same => ?_, fun same => ?_, ?_⟩
  · cases ((debugText_eq_iff (text _) (number _).1).1 same).1
  · have payload := ((debugText_eq_iff (text _) (text _)).1 same).2
    exact absurd (Payload.text.inj (Option.some.inj payload)) (by decide)
  · exact (debugText_eq_iff (number _).2 (number _).1).2 ⟨rfl, rfl⟩

end Variant

end DynValue

import DynValue.Proofs.Container.Lives
import DynValue.Proofs.Container.Offender

/-!
# Failed container conversions that are diagnosed

A conversion to a container that fails is meant to leave a debugging diagnostic with
both type names of its error. The failure of a scalar and that of a variant without
a source are reported where they arise, and on its way up an error stays what it is;
so every failure that comes from one of them is diagnosed, however deep it is, and
whatever else goes on (`Variant.container_error_diagnosed`).

There is one more way to fail: a list that is asked for a mapping, or a dictionary
that is asked for a sequence. This one is found only when the conversion is driven,
and then nothing is reported.
-/

namespace DynValue

open Schedule

variable {C : CallerTypes}

/-! ## Diagnostics of an error -/

/-- **A diagnostic names the types of an error**, for debugging: that of the value
and that asked for. -/
structure Diagnostic.Names (d : Diagnostic C) (e : CastError C) : Prop where
  level : d.level = .debug
  stored : ("from", e.stored.name) ∈ d.fields
  requested : ("to", e.requested.name) ∈ d.fields

theorem Diagnostic.conversionFailed_names (e : CastError C) : (conversionFailed e).Names e :=
  ⟨rfl, by simp [fields, details], by simp [fields, details]⟩

theorem Diagnostic.containerFailed_names (e : CastError C) : (containerFailed e).Names e :=
  ⟨rfl, by simp [fields, details], by simp [fields, details]⟩

namespace CastError

/-- **An error is diagnosed** among some events. -/
def DiagnosedIn (e : CastError C) (events : List (Event C)) : Prop :=
  ∃ d, Event.diagnostic d ∈ events ∧ d.Names e

/-- **The error of a source of the other kind**: a list that is asked for a mapping,
or a dictionary that is asked for a sequence. -/
inductive Mismatch : CastError C → Prop
  | list (k : MapKind) (t : Ty C) :
      Mismatch (because ⟨.variants, .map k t, none⟩ .listAsMapping)
  | dictionary (k : SeqKind) (t : Ty C) :
      Mismatch (because ⟨.dictionary, .seq k t, none⟩ .dictionaryAsSequence)

variable {e : CastError C} {events more : List (Event C)}

/-- Its value is a list or a dictionary. -/
theorem Mismatch.stored (h : e.Mismatch) : e.stored = .variants ∨ e.stored = .dictionary := by
  cases h with
  | list => exact .inl rfl
  | dictionary => exact .inr rfl

theorem DiagnosedIn.mono (h : e.DiagnosedIn events) (le : events ⊆ more) : e.DiagnosedIn more :=
  h.imp fun _ h => ⟨le h.1, h.2⟩

end CastError

/-! ## Where errors arise -/

namespace Variant

variable {v : Variant C} {alive : RefSet} {t : Ty C} {e : CastError C}

/-- **The failure of a scalar** is diagnosed as it arises. -/
theorem convert_error_diagnosed {K : Converters C}
    (failed : (v.convert K alive t).value = .error e) :
    e.DiagnosedIn (v.convert K alive t).log := by
  unfold convert at failed ⊢
  unfold attempt at failed ⊢
  cases held : v.exactly? t with
  | some p =>
    rw [held] at failed
    cases failed
  | none =>
    rw [held] at failed
    cases outcome : (convertFrom K alive t v).value with
    | ok p =>
      rw [Logged.value_bind, outcome] at failed
      cases failed
    | error e' =>
      rw [Logged.value_bind, outcome] at failed
      obtain rfl : e' = e := Except.error.inj failed
      refine ⟨_, ?_, Diagnostic.conversionFailed_names e'⟩
      rw [Logged.log_bind, outcome]
      exact List.mem_append_right _ List.mem_cons_self

/-- **So is that of a variant without a source.** -/
theorem begin_error_diagnosed (failed : (v.begin alive t).value = .settled (.error e)) :
    e.DiagnosedIn (v.begin alive t).log := by
  unfold Variant.begin at failed ⊢
  cases held : v.exactly? t with
  | some p =>
    rw [held] at failed
    cases failed
  | none =>
    rw [held] at failed
    cases source : v.source alive with
    | ok s =>
      rw [source] at failed
      cases failed
    | error reason =>
      rw [source] at failed
      obtain rfl : (v.castError t).because reason = e :=
        Except.error.inj (Begun.settled.inj failed)
      exact ⟨_, List.mem_cons_self, Diagnostic.containerFailed_names _⟩

end Variant

/-! ## On their way up -/

/-- **The failures of conversions** are diagnosed, except those of sources of the
other kind. -/
def Conversion.Diagnoses {c : Conversion C} (k : c.Progress (Event C)) : Prop :=
  ∀ {v reports e}, k.LifeOf v reports (some (.error e)) → e.DiagnosedIn reports ∨ e.Mismatch

namespace Stage

variable {S : Setting C} {shape : Shape} {t : Ty C} {elem : Conversion C}
  {k : elem.Progress (Event C)} {r : Ref} {reports : List (Event C)} {e : CastError C}

/-- The failure of one of the entries is diagnosed in its life, so among all that is
reported. -/
theorem madeOf_diagnosed {born : List (Event C) → Entry C elem.State → Prop}
    {lives : List (List (Event C) × Option (Except (CastError C) (Payload C)))}
    (made : (Entry.course S id k).MadeOf born reports
      (some (.error e : Except (CastError C) (Payload C))) lives)
    (each : ∀ {life}, (Entry.course S id k).Lifetime born life (some (.error e)) →
      e.DiagnosedIn life ∨ e.Mismatch) :
    e.DiagnosedIn reports ∨ e.Mismatch := by
  obtain ⟨life, mem⟩ := made.fails e rfl
  refine (each (made.each _ mem)).imp_left fun diagnosed => diagnosed.mono fun event h => ?_
  exact made.perm.symm.subset (List.mem_flatMap.2 ⟨_, mem, h⟩)

/-- **A failure in the course of a conversion** is that of an entry, or of a source of
the other kind. -/
theorem story_diagnosed (inner : Conversion.Diagnoses k) {b : Begun C}
    (story : Story S shape t k b reports (some (.error e))) :
    b = .settled (.error e) ∨ e.DiagnosedIn reports ∨ e.Mismatch := by
  cases story with
  | settled => exact .inl rfl
  | @refusesList kind items keyed =>
    subst keyed
    exact .inr (.inr (.list kind t))
  | @refusesDictionary kind entries ordered =>
    subst ordered
    exact .inr (.inr (.dictionary kind t))
  | object made few =>
    refine .inr ((madeOf_diagnosed made fun life => ?_).imp_left fun diagnosed =>
      diagnosed.mono fun event h => ?_)
    · rcases Entry.life_fresh life with ⟨none, -⟩ | ⟨read, n, -, ⟨none, -⟩ | ⟨own, converted, rfl⟩⟩
      · cases none
      · cases none
      · refine (inner converted).imp_left fun diagnosed => diagnosed.mono fun event h => ?_
        exact List.mem_cons_of_mem _ (List.mem_cons_of_mem _ (List.mem_append_left _ h))
    · exact List.mem_cons_of_mem _ (List.mem_cons_of_mem _ (List.mem_cons_of_mem _ h))
  | list ordered made few | dictionary keyed made few =>
    refine .inr ((madeOf_diagnosed made fun life => ?_).imp_left fun diagnosed =>
      diagnosed.mono fun event h => List.mem_cons_of_mem _ h)
    rcases Entry.life_inMemory life with ⟨none, -⟩ | ⟨v, -, converted⟩
    · cases none
    · exact inner converted

theorem progress_diagnoses (inner : Conversion.Diagnoses k) :
    Conversion.Diagnoses (progress S shape t id k) := by
  intro v reports e life
  obtain ⟨alive, rest, rfl, story⟩ := Conversion.container_life life
  rcases story_diagnosed inner story with settled | diagnosed | mismatch
  · exact .inl ((Variant.begin_error_diagnosed settled).mono (List.subset_append_left _ _))
  · exact .inl (diagnosed.mono (List.subset_append_right _ _))
  · exact .inr mismatch

end Stage

/-- **Conversions to every type** report their failures so. -/
theorem Conversion.steps_diagnose (S : Setting C) (t : Ty C) : Diagnoses (steps S t) := by
  have scalar (t : Ty C) : Diagnoses ((Conversion.scalar S t).polls id) := by
    intro v reports e life
    obtain ⟨alive, rfl, none | failed⟩ := scalar_life life
    · cases none
    · exact .inl (Variant.convert_error_diagnosed (Option.some.inj failed).symm)
  induction t with
  | seq k t ih => exact Stage.progress_diagnoses ih
  | map k t ih => exact Stage.progress_diagnoses ih
  | _ => exact scalar _

/-! ## The main statement -/

/-- **A source of the other kind** than a shape asks for. -/
inductive Source.OtherKind : Shape → Source C → Prop
  | list (k : MapKind) (items : List (Variant C)) : OtherKind (.mapping k) (.list items)
  | dictionary (k : SeqKind) (entries : List (String × Variant C)) :
      OtherKind (.sequence k) (.dictionary entries)

namespace Variant

/-- What holds a source of the other kind is not itself what is asked for. -/
theorem exactly?_of_otherKind {v : Variant C} {alive : RefSet} {shape : Shape} {t : Ty C}
    {source : Source C} (found : v.source alive = .ok source) (other : source.OtherKind shape) :
    v.exactly? (shape.type t) = none := by
  rw [exactly?_inMemory found (by cases other <;> nofun)]
  cases other <;> exact nofun

/-- Asking a variant for a container takes its source, and reports nothing. -/
theorem begin_of_source {v : Variant C} {alive : RefSet} {t : Ty C} {source : Source C}
    (held : v.exactly? t = none) (found : v.source alive = .ok source) :
    v.begin alive t = pure (.sourced source) := by
  unfold Variant.begin
  rw [held, found]

/-- A source of the other kind is refused at the first poll, without a word. -/
theorem pollAll_otherKind (S : Setting C) {shape : Shape} {source : Source C}
    (other : source.OtherKind shape) (t : Ty C) (R : RefSet) (surroundings : List RefSet) :
    ∃ e, (⟨shape, t, .sourced source⟩ : Pending C).pollAll S (R :: surroundings)
        = pure (some (.error e))
      ∧ e.Mismatch ∧ e.stored = source.type ∧ e.requested = shape.type t := by
  cases other with
  | list k items => exact ⟨_, rfl, .list k t, rfl, rfl⟩
  | dictionary k entries => exact ⟨_, rfl, .dictionary k t, rfl, rfl⟩

/-- **Every failed container conversion is diagnosed**, except for a source of the
other kind: if a conversion that is driven to its end fails, then one of the
debugging diagnostics since it was asked for names both types of its error – of a
value that is not structured or gone, of a scalar, at any depth – or the error is that
of a list that was asked for a mapping or a dictionary that was asked for a sequence.
And where the variant itself is such a source, nothing is reported at all. -/
theorem container_error_diagnosed (S : Setting C) (alive : RefSet) (shape : Shape) (t : Ty C)
    (v : Variant C) (surroundings : List RefSet) :
    let f := v.pend alive shape t
    let driven := f.value.pollAll S surroundings
    (∀ e, driven.value = some (.error e) → e.DiagnosedIn (f.log ++ driven.log) ∨ e.Mismatch)
    ∧ ∀ source, v.source alive = .ok source → source.OtherKind shape → surroundings ≠ [] →
      ∃ e, driven.value = some (.error e) ∧ e.Mismatch ∧ e.stored = source.type
        ∧ e.requested = shape.type t ∧ f.log ++ driven.log = [] := by
  intro f driven
  have asked : f.log = (v.begin alive (shape.type t)).log := List.append_nil _
  refine ⟨fun e failed => ?_, fun source found other polled => ?_⟩
  · rcases Stage.story_diagnosed (Conversion.steps_diagnose S t) (Pending.story failed)
      with settled | diagnosed | mismatch
    · refine .inl ((begin_error_diagnosed settled).mono ?_)
      rw [asked]
      exact List.subset_append_left _ _
    · exact .inl (diagnosed.mono (List.subset_append_right _ _))
    · exact .inr mismatch
  · obtain ⟨R, rest, rfl⟩ := List.exists_cons_of_ne_nil polled
    have begun := begin_of_source (exactly?_of_otherKind (t := t) found other) found
    have kept : f.value = ⟨shape, t, .sourced source⟩ := congrArg (fun b =>
      (⟨shape, t, b⟩ : Pending C)) (congrArg Logged.value begun)
    obtain ⟨e, refused, mismatch, stored, requested⟩ := pollAll_otherKind S other t R rest
    have ended : driven = pure (some (.error e)) := by
      rw [← refused, ← kept]
    refine ⟨e, congrArg Logged.value ended, mismatch, stored, requested, ?_⟩
    rw [asked, begun, ended]
    rfl

/-- A text within a list of lists that is no number is diagnosed as such. -/
theorem container_error_diagnosed_numberLists :
    let S : Setting .none := ⟨.empty, .refusing .none⟩
    let f := numberLists.pend .none (.sequence .vector) (.seq .vector (.int .widestSigned))
    let e : CastError .none :=
      ⟨.text, .int .widestSigned, some (Reason.notNumeric "x").wording⟩
    (f.value.pollAll S [.none]).value = some (.error e)
      ∧ e.DiagnosedIn (f.log ++ (f.value.pollAll S [.none]).log) := by
  intro S f e
  have failed : (f.value.pollAll S [.none]).value = some (.error e) := rfl
  refine ⟨failed, ((container_error_diagnosed S .none (.sequence .vector)
    (.seq .vector (.int .widestSigned)) numberLists [.none]).1 e failed).resolve_right ?_⟩
  exact fun mismatch => nomatch mismatch.stored

/-- **The failure of a source of the other kind is not diagnosed**: an empty
dictionary that is asked for a list of truth values fails, and nothing says so. -/
theorem dictionary_not_diagnosed :
    let S : Setting .none := ⟨.empty, .refusing .none⟩
    let f := (unordered (.map .sorted .variant [])).pend .none (.sequence .vector) .bool
    ∃ e, (f.value.finish S .none).value = some (.error e)
      ∧ ¬ e.DiagnosedIn (f.log ++ (f.value.finish S .none).log) :=
  ⟨_, rfl, fun ⟨_, mem, _⟩ => List.not_mem_nil mem⟩

end Variant

end DynValue

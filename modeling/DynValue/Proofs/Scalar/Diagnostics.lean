import DynValue.Proofs.Scalar.Failure

/-!
# What a conversion to a scalar reports

A conversion may try several types on the way, and each of them reports a refusal of
its own. An observer sees nothing of a conversion that succeeds, whatever was tried.
Of one that fails it sees every type that was tried, from the innermost outwards, and
each report is the error that asking for just that type gives
(`Variant.convert_diagnostics`).

The types tried before the one that is asked for are `Ty.triedFirst`. The rule of a
type reports their refusals (`Variant.convertFrom_reports`), and the attempt that the
rule is a part of adds one of its own (`Variant.convert_of_reports`). An option's rule
attempts the type inside, so the two alternate along the type, and one induction on it
gives the whole.
-/

namespace DynValue

variable {C : CallerTypes}

namespace Ty

/-- A type in a number of nested options. -/
def options (s : Ty C) : Nat → Ty C
  | 0 => s
  | k + 1 => .option (s.options k)

/-- **The types that are tried before a type**, innermost first. -/
def triedFirst : Ty C → List (Ty C)
  | option t => t.triedFirst ++ [t]
  | wide => [.text]
  | _ => []

theorem options_isScalar {s : Ty C} (scalar : s.IsScalar) : ∀ k, (s.options k).IsScalar
  | 0 => scalar
  | k + 1 => options_isScalar scalar k

/-- Before nested options the innermost type is tried, with all that comes before it,
and then the options from the inside. -/
theorem triedFirst_options (s : Ty C) : ∀ k,
    (s.options k).triedFirst = s.triedFirst ++ (List.range k).map s.options
  | 0 => (List.append_nil _).symm
  | k + 1 => by
    rw [options, triedFirst, triedFirst_options s k, List.range_succ, List.map_append,
      List.append_assoc]
    rfl

/-- Apart from options only wide text tries another type first. -/
theorem triedFirst_of_not_option {s : Ty C} (base : ∀ t, s ≠ .option t) :
    s.triedFirst = if s = .wide then [.text] else [] := by
  cases s with
  | option t => exact absurd rfl (base t)
  | wide => rfl
  | _ => exact (if_neg nofun).symm

end Ty

/-- The report of a refusal. -/
def Event.refusal (e : CastError C) : Event C := .diagnostic (.conversionFailed e)

namespace Variant

variable {v : Variant C} {K : Converters C} {alive : RefSet} {t : Ty C}
  {tried : List (Ty C)} {errors : List (CastError C)} {e : CastError C}

/-- **The errors that a variant gives** when it is asked for some types in order. -/
structure Refusals (K : Converters C) (alive : RefSet) (v : Variant C)
    (tried : List (Ty C)) (errors : List (CastError C)) : Prop where
  requested : errors.map CastError.requested = tried
  stored : ∀ e ∈ errors, e.stored = v.type
  gives : ∀ e ∈ errors, (v.convert K alive e.requested).value = .error e

/-- **What a conversion by way of other types reports**: nothing if it succeeds, and
otherwise the refusals of all of these types. -/
def Reports (K : Converters C) (alive : RefSet) (v : Variant C) (tried : List (Ty C))
    (conversion : Reported C (Except (CastError C) (Payload C))) : Prop :=
  (∀ p, conversion.value = .ok p → conversion.log = [])
  ∧ ∀ e, conversion.value = .error e →
      ∃ errors, v.Refusals K alive tried errors ∧ conversion.log = errors.map .refusal

/-- One type more, with its error. -/
theorem Refusals.snoc (refusals : v.Refusals K alive tried errors) (scalar : t.IsScalar)
    (failed : (v.convert K alive t).value = .error e) :
    v.Refusals K alive (tried ++ [t]) (errors ++ [e]) := by
  have faithful := convert_faithful scalar failed
  refine ⟨?_, fun e' mem => ?_, fun e' mem => ?_⟩
  · rw [List.map_append, refusals.requested, List.map_singleton, faithful.requested]
  · rcases List.mem_append.1 mem with mem | mem
    · exact refusals.stored e' mem
    · exact List.mem_singleton.1 mem ▸ faithful.stored
  · rcases List.mem_append.1 mem with mem | mem
    · exact refusals.gives e' mem
    · rw [List.mem_singleton.1 mem, faithful.requested]
      exact failed

/-- What asks for no other type reports nothing. -/
theorem reports_pure (outcome : Except (CastError C) (Payload C)) :
    v.Reports K alive [] (pure outcome) :=
  ⟨fun _ _ => rfl, fun _ _ => ⟨[], ⟨rfl, nofun, nofun⟩, rfl⟩⟩

/-- Nor does what only makes another answer of the one it was given. -/
theorem Reports.bind {conversion : Reported C (Except (CastError C) (Payload C))}
    {f : Except (CastError C) (Payload C) → Reported C (Except (CastError C) (Payload C))}
    (reports : v.Reports K alive tried conversion)
    (of_ok : ∀ p, conversion.value = .ok p → ∃ q, f (.ok p) = pure (.ok q))
    (of_error : ∀ e, ∃ e', f (.error e) = pure (.error e')) :
    v.Reports K alive tried (conversion >>= f) := by
  obtain ⟨silent, refused⟩ := reports
  cases outcome : conversion.value with
  | ok p =>
    obtain ⟨q, answer⟩ := of_ok p outcome
    refine ⟨fun _ _ => ?_, fun e failed => ?_⟩
    · rw [Logged.log_bind, outcome, answer, silent p outcome]
      rfl
    · rw [Logged.value_bind, outcome, answer] at failed
      cases failed
  | error e =>
    obtain ⟨e', answer⟩ := of_error e
    refine ⟨fun p converted => ?_, fun _ _ => ?_⟩
    · rw [Logged.value_bind, outcome, answer] at converted
      cases converted
    · rw [Logged.log_bind, outcome, answer, Logged.log_pure, List.append_nil]
      exact refused e outcome

/-- **One level of a conversion** reports nothing if it succeeds, and otherwise its own
error after the refusals that its rule reports. -/
theorem convert_of_reports (rule : v.Reports K alive tried (convertFrom K alive t v)) :
    (∀ p, (v.convert K alive t).value = .ok p → (v.convert K alive t).log = [])
    ∧ ∀ e, (v.convert K alive t).value = .error e → ∃ errors,
        v.Refusals K alive tried errors
        ∧ (v.convert K alive t).log = (errors ++ [e]).map .refusal := by
  obtain ⟨silent, refused⟩ := rule
  rw [convert, attempt]
  cases v.exactly? t with
  | some p => exact ⟨fun _ _ => rfl, by rintro _ ⟨⟩⟩
  | none =>
    dsimp only
    rw [Logged.value_bind, Logged.log_bind]
    cases outcome : (convertFrom K alive t v).value with
    | ok p => exact ⟨fun _ _ => by rw [silent p outcome]; rfl, by rintro _ ⟨⟩⟩
    | error e =>
      refine ⟨by rintro _ ⟨⟩, fun _ failed => ?_⟩
      cases failed
      obtain ⟨errors, refusals, log⟩ := refused e outcome
      exact ⟨errors, refusals, by rw [log, List.map_append]; rfl⟩

/-- Asked for on the way to another type, a type counts among those that are tried. -/
theorem reports_convert (scalar : t.IsScalar)
    (rule : v.Reports K alive tried (convertFrom K alive t v)) :
    v.Reports K alive (tried ++ [t]) (v.convert K alive t) := by
  obtain ⟨silent, refused⟩ := convert_of_reports rule
  refine ⟨silent, fun e failed => ?_⟩
  obtain ⟨errors, refusals, log⟩ := refused e failed
  exact ⟨errors ++ [e], refusals.snoc scalar failed, log⟩

/-- What a variant gives as text is text. -/
theorem exists_text_of_convert {p : Payload C}
    (converted : (v.convert K alive .text).value = .ok p) : ∃ s, p = .text s := by
  rw [convert_value] at converted
  split at converted
  · rename_i exact_
    cases converted
    have type := (exactly?_eq_some_iff.1 exact_).2
    cases p with
    | text s => exact ⟨s, rfl⟩
    | _ => cases type
  · have written : v.toText = .ok p := converted
    rw [toText] at written
    split at written <;> cases written
    exact ⟨_, rfl⟩

/-- **The rule of a scalar type reports the types that are tried before it.** -/
theorem convertFrom_reports (scalar : t.IsScalar) :
    v.Reports K alive t.triedFirst (convertFrom K alive t v) := by
  induction t with
  | int _ | float _ | bool | char | text | null | empty | variant => exact reports_pure _
  | shared t =>
    cases t with
    | externalObject => exact reports_pure _
    | _ => exact scalar.elim
  | wide =>
    have text : v.Reports K alive [.text] (v.convert K alive .text) :=
      reports_convert (t := .text) trivial (reports_pure _)
    refine text.bind (fun p converted => ?_) fun e => ⟨_, rfl⟩
    obtain ⟨s, rfl⟩ := exists_text_of_convert converted
    exact ⟨_, rfl⟩
  | option t ih =>
    have inner : v.Reports K alive (t.triedFirst ++ [t]) (v.convert K alive t) :=
      reports_convert scalar (ih scalar)
    rw [convertFrom]
    split
    · exact ⟨fun _ _ => rfl, by rintro _ ⟨⟩⟩
    · exact inner.bind (fun p _ => ⟨_, rfl⟩) fun e => ⟨_, rfl⟩
  | _ => exact scalar.elim

/-- A conversion to a scalar type that succeeds reports nothing. -/
theorem convert_silent {p : Payload C} (scalar : t.IsScalar)
    (converted : (v.convert K alive t).value = .ok p) : (v.convert K alive t).log = [] :=
  (convert_of_reports (convertFrom_reports scalar)).1 p converted

/-- **The diagnostics of a conversion to a scalar match its result**, whatever the
number of options around the scalar. If it succeeds there are none. If it fails there
is one for each option and one for the scalar, with one more for wide text, which asks
for text. They come from the inside out, each of them at the level of debugging, with
the type of the stored value, the type of its own level and the explanation that the
variant gives when it is asked for just that type; and the last is of the error that
is returned. -/
theorem convert_diagnostics {s : Ty C} (scalar : s.IsScalar) (base : ∀ t, s ≠ .option t)
    (k : Nat) :
    (∀ p, (v.convert K alive (s.options k)).value = .ok p →
      (v.convert K alive (s.options k)).log = [])
    ∧ ∀ e, (v.convert K alive (s.options k)).value = .error e →
        ∃ errors : List (CastError C), (v.convert K alive (s.options k)).log
          = errors.map (fun e' => .diagnostic (.conversionFailed e'))
        ∧ errors.length = k + 1 + (if s = .wide then 1 else 0)
        ∧ errors.map CastError.requested
          = (if s = .wide then [.text] else []) ++ (List.range (k + 1)).map s.options
        ∧ (∀ e' ∈ errors, (v.convert K alive e'.requested).value = .error e'
          ∧ (Diagnostic.conversionFailed e').level = .debug
          ∧ (Diagnostic.conversionFailed e').details = [("from", v.type.name),
              ("to", e'.requested.name), ("message", Text.quoteOption e'.detail)])
        ∧ errors.getLast? = some e := by
  have nested := Ty.options_isScalar scalar k
  obtain ⟨silent, refused⟩ := convert_of_reports
    (convertFrom_reports nested : v.Reports K alive _ (convertFrom K alive (s.options k) v))
  refine ⟨silent, fun e failed => ?_⟩
  obtain ⟨before, refusals, log⟩ := refused e failed
  have all := refusals.snoc nested failed
  have requested : (before ++ [e]).map CastError.requested
      = (if s = .wide then [.text] else []) ++ (List.range (k + 1)).map s.options := by
    rw [all.requested, Ty.triedFirst_options, Ty.triedFirst_of_not_option base,
      List.range_succ, List.map_append, List.append_assoc]
    rfl
  refine ⟨before ++ [e], log, ?_, requested, fun e' mem => ⟨all.gives e' mem, rfl, ?_⟩,
    List.getLast?_concat ..⟩
  · rw [← List.length_map (f := CastError.requested), requested, List.length_append,
      List.length_map, List.length_range, Nat.add_comm]
    exact congrArg _ (apply_ite List.length ..)
  · rw [Diagnostic.details, all.stored e' mem]

/-- A weak reference asked for as optional wide text is refused as text, as wide text
and as the option, and one refusal is reported for each. -/
theorem convert_diagnostics_weakReference :
    ((Variant.ofWeak .externalObject 0).convert (.refusing .none) .none (.option .wide)).value
      = .error ⟨.weakObject, .option .wide, none⟩
    ∧ ∃ errors : List (CastError .none),
        ((Variant.ofWeak .externalObject 0).convert (.refusing .none) .none
            (.option .wide)).log
          = errors.map (fun e => .diagnostic (.conversionFailed e))
        ∧ errors.length = 3
        ∧ errors.map CastError.requested = [.text, .wide, .option .wide]
        ∧ errors.getLast? = some ⟨.weakObject, .option .wide, none⟩ := by
  have failed : ((Variant.ofWeak .externalObject 0).convert (.refusing .none) .none
      (Ty.wide.options 1)).value = .error ⟨.weakObject, .option .wide, none⟩ := rfl
  obtain ⟨errors, log, length, requested, -, last⟩ :=
    (convert_diagnostics (s := .wide) trivial nofun 1).2 _ failed
  exact ⟨failed, errors, log, length, requested, last⟩

end Variant

end DynValue

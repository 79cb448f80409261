import DynValue.Proofs.Container.Diagnosed
import DynValue.Proofs.Container.InMemory
import DynValue.Proofs.Scalar.Diagnostics
import DynValue.Proofs.Schedule.Prompt

/-!
# Entries converted for nothing

Once an entry of a container does not convert, the others are not needed any more. What
a failed conversion reports tells which of them were converted nevertheless, because
each refusal on the way to a scalar is reported.

The entries of a dictionary are converted when they are polled, and none is polled after
the first failure. The items of a list are all started before any of them is polled, and
a conversion to a scalar is done as it starts (`Conversion.Immediate`), so that only
results are left to look at. Of a dictionary just the failure that is returned is
reported therefore, and of a list those of all items behind it as well
(`Variant.scalars_failed_reports`). It makes no difference how many entries there are:
all of them are ready at once, and what is ready at once is gone through in order
(`Join.poll_of_prompt`).
-/

namespace DynValue

open Schedule

variable {C : CallerTypes} {S : Setting C} {R asked alive : RefSet} {shape : Shape} {t : Ty C}
  {elem : Conversion C} {v w : Variant C} {source : Source C} {keys : List String}
  {parts before after : List (Variant C)} {e : CastError C}
  {convert : Variant C → Reported C (Except (CastError C) (Payload C))}
  {state : Except (CastError C) (Payload C) → elem.State}

/-! ## Conversions that are done as they start -/

/-- **A conversion is done as it starts**: what it comes to is what is left, as a state
that is ready whenever it is polled. -/
structure Conversion.Immediate (elem : Conversion C)
    (convert : Variant C → Reported C (Except (CastError C) (Payload C)))
    (state : Except (CastError C) (Payload C) → elem.State) : Prop where
  start : ∀ R v, elem.start R v = ⟨(convert v).log, state (convert v).value⟩
  poll : ∀ R outcome, elem.poll R (state outcome) = pure (.ready outcome)
  dropped : ∀ outcome, elem.dropped (state outcome) = []

/-- Converting to a scalar that entries may be is done as it starts, and nothing has to
be alive for it. -/
theorem Conversion.exists_immediate (S : Setting C) (scalar : t.IsScalarElement)
    (alive : RefSet) :
    ∃ state, (Conversion.of S t).Immediate (fun w => w.convert S.converters alive t) state := by
  have same : Conversion.of S t = Conversion.scalar S t := by
    cases t with
    | seq k t | map k t => exact scalar.elim
    | _ => rfl
  rw [same]
  exact ⟨fun outcome => outcome,
    fun R w => Variant.convert_scalarElement scalar S.converters w (S.heap.alive R) alive,
    fun _ _ => rfl, fun _ => rfl⟩

namespace Conversion.Immediate

/-- An entry that is being converted has its result already. -/
theorem converting_prompt (h : elem.Immediate convert state)
    (outcome : Except (CastError C) (Payload C)) :
    (Entry.kind S elem).Prompt (.converting none (state outcome)) (pure outcome) := by
  refine ⟨fun R => ?_, h.dropped outcome⟩
  show Entry.pollConverting elem R none (state outcome) = _
  rw [Entry.pollConverting, h.poll]
  cases outcome <;> rfl

/-- A stored entry is converted when it is polled. -/
theorem stored_prompt (h : elem.Immediate convert state) (w : Variant C) :
    (Entry.kind S elem).Prompt (.stored w) (convert w) := by
  refine ⟨fun R => ?_, rfl⟩
  show (elem.start R w >>= fun s => Entry.pollConverting elem R none s) = _
  rw [h.start, Logged.mk_bind, Entry.pollConverting, h.poll]
  cases (convert w).value <;> exact Logged.ext_parts (List.append_nil _) rfl

/-- **The items of a list are all converted as they start.** -/
theorem startAll (h : elem.Immediate convert state) (started : List elem.State)
    (items : List (Variant C)) :
    Stage.startAll elem R started items
      = ⟨items.flatMap fun w => (convert w).log,
        started.reverse ++ items.map fun w => state (convert w).value⟩ := by
  induction items generalizing started with
  | nil => exact Logged.ext_parts rfl (List.append_nil _).symm
  | cons w items ih =>
    rw [Stage.startAll, h.start, Logged.mk_bind, ih, List.reverse_cons, List.append_assoc]
    rfl

end Conversion.Immediate

namespace Stage

/-- Entries that are ready at once are gone through. -/
theorem pollJoining_of_prompt {β : Type} {task : β → Entry C elem.State}
    {answer : β → Reported C (Except (CastError C) (Payload C))} {xs : List β}
    (prompt : ∀ x ∈ xs, (Entry.kind S elem).Prompt (task x) (answer x)) :
    pollJoining S shape t elem R keys (.ofList (xs.map task))
      = ⟨(inTurn answer xs).log,
        .ready ((inTurn answer xs).value.map (shape.assemble t keys))⟩ := by
  rw [pollJoining, Join.poll_of_prompt prompt, Logged.mk_bind]
  cases (inTurn answer xs).value <;> exact Logged.ext_parts (List.append_nil _) rfl

/-- **The first poll of a list** reports what converting each of its items does. -/
theorem pollSourced_list (h : elem.Immediate convert state) (k : SeqKind)
    (items : List (Variant C)) :
    pollSourced S (.sequence k) t elem R (.list items)
      = ⟨.diagnostic (.convertingList items.length (.seq k t))
          :: items.flatMap fun w => (convert w).log,
        .ready ((items.mapM fun w => (convert w).value).map
          ((Shape.sequence k).assemble t []))⟩ := by
  -- what is polled are results, of which nothing more is reported
  have results : pollJoining S (.sequence k) t elem R []
      (.ofList ((items.map fun w => state (convert w).value).map (.converting none)))
      = ⟨[], .ready ((items.mapM fun w => (convert w).value).map
          ((Shape.sequence k).assemble t []))⟩ := by
    rw [List.map_map]
    refine (pollJoining_of_prompt fun w _ => h.converting_prompt (convert w).value).trans ?_
    rw [inTurn_silent fun _ _ => rfl, inTurn_value]
    rfl
  rw [pollSourced]
  refine Logged.ext_parts ?_ ?_
  · rw [Logged.log_bind, Logged.log_bind, h.startAll, List.reverse_nil, List.nil_append, results,
      List.append_nil]
    rfl
  · rw [Logged.value_bind, Logged.value_bind, h.startAll, List.reverse_nil, List.nil_append,
      results]

/-- **The first poll of a dictionary** reports what converting its entries in turn does. -/
theorem pollSourced_dictionary (h : elem.Immediate convert state) (k : MapKind)
    (entries : List (String × Variant C)) :
    pollSourced S (.mapping k) t elem R (.dictionary entries)
      = ⟨.diagnostic (.convertingDictionary entries.length (.map k t))
          :: (inTurn convert (entries.map Prod.snd)).log,
        .ready (((entries.map Prod.snd).mapM fun w => (convert w).value).map
          ((Shape.mapping k).assemble t (entries.map Prod.fst)))⟩ := by
  have tasks : (entries.map fun e => .stored e.2 : List (Entry C elem.State))
      = (entries.map Prod.snd).map .stored := by
    rw [List.map_map]
    rfl
  rw [pollSourced]
  rw [tasks, pollJoining_of_prompt fun w _ => h.stored_prompt w, inTurn_value]
  rfl

end Stage

/-! ## What a failure leaves behind -/

namespace Shape

/-- The diagnostic of starting to convert entries in memory. -/
def opening (shape : Shape) (count : Nat) (t : Ty C) : Diagnostic C :=
  match shape with
  | sequence _ => .convertingList count (shape.type t)
  | mapping _ => .convertingDictionary count (shape.type t)

/-- **What is reported while the entries are converted**: of a list by all of them, of a
dictionary in turn. -/
def reports (shape : Shape)
    (convert : Variant C → Reported C (Except (CastError C) (Payload C)))
    (parts : List (Variant C)) : List (Event C) :=
  match shape with
  | sequence _ => parts.flatMap fun w => (convert w).log
  | mapping _ => (inTurn convert parts).log

/-- **The entries that are converted for nothing**, of those behind one that fails: of a
list all, of a dictionary none. -/
def unneeded {α : Type} (shape : Shape) (behind : List α) : List α :=
  match shape with
  | sequence _ => behind
  | mapping _ => []

/-- **Where an entry fails**, its failure is reported, and what is converted for
nothing. -/
theorem reports_of_error (good : ∀ x ∈ before, ∃ p, (convert x).value = .ok p)
    (silent : ∀ x ∈ before, (convert x).log = []) (failed : (convert w).value = .error e) :
    shape.reports convert (before ++ w :: after)
      = (convert w).log ++ (shape.unneeded after).flatMap fun x => (convert x).log := by
  have quiet : before.flatMap (fun x => (convert x).log) = [] := List.flatMap_eq_nil_iff.2 silent
  cases shape with
  | sequence k =>
    rw [reports, List.flatMap_append, quiet, List.nil_append, List.flatMap_cons]
    rfl
  | mapping k =>
    rw [reports, inTurn_of_error good failed, quiet, List.nil_append]
    exact (List.append_nil _).symm

end Shape

/-- **The first poll of a source in memory** is the last. -/
theorem Source.pollSourced_inMemory (h : elem.Immediate convert state)
    (inMemory : ∀ r, source ≠ .object r)
    (has : source.parts S.heap.answers shape = .ok (keys, parts)) :
    Stage.pollSourced S shape t elem R source
      = ⟨.diagnostic (shape.opening parts.length t) :: shape.reports convert parts,
        .ready ((parts.mapM fun w => (convert w).value).map (shape.assemble t keys))⟩ := by
  cases source with
  | object r => exact absurd rfl (inMemory r)
  | list items =>
    cases shape with
    | mapping k => cases has
    | sequence k =>
      cases has
      exact Stage.pollSourced_list h k parts
  | dictionary entries =>
    cases shape with
    | sequence k => cases has
    | mapping k =>
      obtain ⟨rfl, rfl⟩ := Prod.mk.inj (Except.ok.inj has)
      rw [Stage.pollSourced_dictionary h, Shape.opening, List.length_map]
      rfl

/-- What is ready at the first poll is not polled again. -/
theorem Conversion.pollAll_of_ready {c : Conversion C} {s : c.State} {log : List (Event C)}
    {outcome : Except (CastError C) (Payload C)} (ready : c.poll R s = ⟨log, .ready outcome⟩)
    (rest : List RefSet) : c.pollAll (R :: rest) s = ⟨log, some outcome⟩ := by
  rw [pollAll, ready]
  exact Logged.ext_parts (List.append_nil _) rfl

/-- **The course of a conversion in memory** to a container of scalars. -/
theorem Pending.pollAll_inMemory (scalar : t.IsScalarElement) (alive : RefSet)
    (inMemory : ∀ r, source ≠ .object r)
    (has : source.parts S.heap.answers shape = .ok (keys, parts)) (rest : List RefSet) :
    (⟨shape, t, .sourced source⟩ : Pending C).pollAll S (R :: rest)
      = ⟨.diagnostic (shape.opening parts.length t)
          :: shape.reports (Variant.convert S.converters alive t) parts,
        some ((parts.mapM fun w => (Variant.convert S.converters alive t w).value).map
          (shape.assemble t keys))⟩ := by
  obtain ⟨state, immediate⟩ := Conversion.exists_immediate S scalar alive
  exact Conversion.pollAll_of_ready (Source.pollSourced_inMemory immediate inMemory has) rest

namespace Variant

/-- A conversion to a scalar reports nothing exactly if it succeeds. -/
theorem log_eq_nil_iff {K : Converters C} (scalar : t.IsScalar) :
    (v.convert K alive t).log = [] ↔ ∃ p, (v.convert K alive t).value = .ok p := by
  refine ⟨fun silent => ?_, fun ⟨p, converted⟩ => convert_silent scalar converted⟩
  cases outcome : (v.convert K alive t).value with
  | ok p => exact ⟨p, rfl⟩
  | error e =>
    obtain ⟨d, mem, -⟩ := convert_error_diagnosed outcome
    rw [silent] at mem
    cases mem

/-- If a conversion in memory fails, it has taken a source, and that is all. -/
theorem pend_of_failed (found : v.source asked = .ok source) {surroundings : List RefSet}
    (failed : ((v.pend asked shape t).value.pollAll S surroundings).value = some (.error e)) :
    v.pend asked shape t = pure ⟨shape, t, .sourced source⟩ := by
  show (v.begin asked (shape.type t) >>= fun b => pure (⟨shape, t, b⟩ : Pending C)) = _
  cases held : v.exactly? (shape.type t) with
  | none => rw [begin_of_source held found, pure_bind]
  | some p =>
    have kept : (v.pend asked shape t).value = ⟨shape, t, .settled (.ok p)⟩ := by
      show (⟨shape, t, (v.begin asked (shape.type t)).value⟩ : Pending C) = _
      rw [begin_value, held]
    rw [kept] at failed
    cases surroundings <;> cases failed

/-- **What a failed conversion to a container of scalars reports.** The error is that of
the first entry of the list or the dictionary that does not convert. After the opening
diagnostic come the reports of converting this entry alone, and then, of a list, those of
converting all entries behind it. So the reports are those of the first failing entry
alone exactly if no further item of a list fails; for a dictionary they always are. -/
theorem scalars_failed_reports (scalar : t.IsScalarElement)
    (found : v.source asked = .ok source) (inMemory : ∀ r, source ≠ .object r)
    (has : source.parts S.heap.answers shape = .ok (keys, parts)) (alive : RefSet)
    {surroundings : List RefSet}
    (failed : ((v.pend asked shape t).value.pollAll S surroundings).value = some (.error e)) :
    let f := v.pend asked shape t
    let reports := f.log ++ (f.value.pollAll S surroundings).log
    let convert := Variant.convert S.converters alive t
    ∃ before w after, parts = before ++ w :: after
      ∧ (∀ x ∈ before, ∃ p, (convert x).value = .ok p) ∧ (convert w).value = .error e
      ∧ reports = .diagnostic (shape.opening parts.length t)
          :: ((convert w).log ++ (shape.unneeded after).flatMap fun x => (convert x).log)
      ∧ (reports = .diagnostic (shape.opening parts.length t) :: (convert w).log
          ↔ ∀ x ∈ shape.unneeded after, ∃ p, (convert x).value = .ok p) := by
  intro f reports convert
  have taken : f = pure ⟨shape, t, .sourced source⟩ := pend_of_failed found failed
  cases surroundings with
  | nil => cases failed
  | cons R rest =>
    have driven := Pending.pollAll_inMemory (R := R) scalar alive inMemory has rest
    have ended : ((⟨shape, t, .sourced source⟩ : Pending C).pollAll S (R :: rest)).value
        = some (.error e) := by
      rw [← failed]
      show _ = (f.value.pollAll S (R :: rest)).value
      rw [taken, Logged.value_pure]
    have first : parts.mapM (fun w => (convert w).value) = .error e := by
      rw [driven] at ended
      cases inTurn : parts.mapM fun w => (convert w).value with
      | ok values =>
        rw [inTurn] at ended
        cases ended
      | error e' =>
        rw [inTurn] at ended
        cases ended
        rfl
    obtain ⟨before, w, after, rfl, good, fails⟩ := mapM_eq_error_iff.1 first
    have silent : ∀ x ∈ before, (convert x).log = [] := fun x mem =>
      (good x mem).elim fun p converted => convert_silent scalar.isScalar converted
    have reported : reports = .diagnostic (shape.opening (before ++ w :: after).length t)
        :: ((convert w).log ++ (shape.unneeded after).flatMap fun x => (convert x).log) := by
      show f.log ++ (f.value.pollAll S (R :: rest)).log = _
      rw [taken, Logged.value_pure, driven, Shape.reports_of_error good silent fails]
      rfl
    refine ⟨before, w, after, rfl, good, fails, reported, ?_⟩
    rw [reported, List.cons.injEq, List.append_right_eq_self, List.flatMap_eq_nil_iff]
    refine (and_iff_right rfl).trans (forall₂_congr fun x _ => ?_)
    exact log_eq_nil_iff scalar.isScalar

/-- A list of two nulls. -/
def twoNulls : Variant .none :=
  ofValue (.seq .vector .variant [(ofValue .null).toPayload, (ofValue .null).toPayload])

/-- Asked for truth values, neither of two nulls converts, and both refusals are
reported. -/
theorem scalars_failed_reports_twoNulls :
    let S : Setting .none := ⟨.empty, .refusing .none⟩
    let f := twoNulls.pend .none (.sequence .vector) .bool
    let e : CastError .none := ⟨.null, .bool, none⟩
    (f.value.pollAll S [.none]).value = some (.error e)
    ∧ f.log ++ (f.value.pollAll S [.none]).log
      = [.diagnostic (.convertingList 2 (.seq .vector .bool)), .refusal e, .refusal e] := by
  intro S f e
  have failed : (f.value.pollAll S [.none]).value = some (.error e) := rfl
  obtain ⟨before, w, after, split, good, -, reported, -⟩ := scalars_failed_reports (t := .bool) trivial
    (rfl : twoNulls.source .none = _) nofun (rfl : Source.parts _ (.sequence .vector) _ = _)
    .none failed
  refine ⟨failed, reported.trans ?_⟩
  cases before with
  | nil =>
    cases split
    rfl
  | cons x before =>
    obtain ⟨rfl, -⟩ := List.cons.inj (split : _ = x :: (before ++ w :: after))
    obtain ⟨p, converted⟩ := good _ List.mem_cons_self
    cases converted

/-- **An item behind the first that fails is converted nevertheless**: of two nulls that
are asked for truth values more is reported than of the first alone. -/
theorem twoNulls_reports_ne :
    let S : Setting .none := ⟨.empty, .refusing .none⟩
    let f := twoNulls.pend .none (.sequence .vector) .bool
    let alone := (ofValue .null).convert S.converters .none .bool
    ∃ e, (f.value.finish S .none).value = some (.error e) ∧ alone.value = .error e
      ∧ f.log ++ (f.value.finish S .none).log
        ≠ .diagnostic (.convertingList 2 (.seq .vector .bool)) :: alone.log :=
  ⟨_, rfl, rfl, fun same => absurd (congrArg List.length same) (by decide)⟩

end Variant

end DynValue

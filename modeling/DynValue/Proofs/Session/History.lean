import DynValue.Proofs.Attainable

/-!
# Where the contents of a slot come from

A history is the list of the commands of a session, the latest first. Looking
back through it, the contents of a slot go back to one construction or
assignment of a whole value: the command before may have left the slot alone,
or may have copied or exchanged it, and then the question is asked of the
slot that the contents were in (`Session.origin`). Each command is described
for this by three small tables: which slots it needs, what whole value a slot
receives, and from which slot it has its contents otherwise.

The main statement is that a slot holds what a new variant would hold that
was made by this construction (`Session.slot?_after`). So payload and binding
cannot part, whatever the commands were, and a variant is bound at the type
that it stores (`Variant.Reachable.wellBound`). Two variants of one type and
one kind of order therefore have the same binding, it accepts both payloads,
and they are compared by what it relates (`Variant.WellBound.less_iff`).
-/

namespace DynValue

variable {C : CallerTypes}

/-! ## What a command does to the slots -/

namespace Command

/-- The slots without which a command does nothing. -/
@[simp] def needs : Command C → List String
  | assign slot _ | assignUnordered slot _ | reset slot => [slot]
  | assignVariant slot source => [slot, source]
  | clone _ source => [source]
  | swap a b => [a, b]
  | _ => []

/-- **The slot that receives a whole value**, and the construction that makes
a new variant of this value. -/
@[simp] def receives? : Command C → Option (String × Construction C)
  | make slot c => some (slot, c)
  | assign slot p => some (slot, .native p)
  | assignUnordered slot p => some (slot, .unordered p)
  | reset slot => some (slot, .empty)
  | _ => none

/-- **The slot from which a slot has its contents**, if no slot receives a
value. -/
@[simp] def source : Command C → String → String
  | assignVariant slot source, other | clone slot source, other =>
    if other = slot then source else other
  | swap a b, other => if other = b then a else if other = a then b else other
  | _, other => other

/-- Whether a slot is given up. -/
@[simp] def drops : Command C → String → Bool
  | drop slot, other => decide (other = slot)
  | _, _ => false

end Command

namespace Session

/-- **The session after a history**, whose latest command comes first. -/
def after (K : Converters C) : List (Command C) → Session C
  | [] => initial
  | c :: past => ((after K past).step K c).value.1

/-- **The construction that the contents of a slot go back to.** -/
def origin : List (Command C) → String → Option (Construction C)
  | [], _ => none
  | c :: past, slot =>
    if c.needs.all fun needed => (origin past needed).isSome then
      if c.drops slot then none
      else match c.receives? with
        | some (target, construction) =>
          if slot = target then some construction else origin past slot
        | none => origin past (c.source slot)
    else origin past slot

variable {s : Session C} {slot other : String}

theorem slot?_put {v : Variant C} :
    (s.put slot v).slot? other = if other = slot then some v else s.slot? other :=
  lookup_setEntry slot other v s.slots

theorem slot?_modify {f : Variant C → Variant C} :
    (s.modify slot f).slot? other
      = if other = slot then (s.slot? slot).map f else s.slot? other := by
  unfold modify
  cases h : s.slot? slot with
  | none =>
    by_cases same : other = slot
    · rw [if_pos same, same, h, Option.map_none]
    · rw [if_neg same]
  | some v => exact slot?_put

theorem slot?_letGo {name : String} : (s.letGo name).slot? other = s.slot? other := by
  unfold letGo
  split <;> rfl

/-- **What one command does to a slot.** -/
theorem slot?_step (K : Converters C) (c : Command C) :
    (s.step K c).value.1.slot? slot
      = if c.needs.all fun needed => (s.slot? needed).isSome then
          if c.drops slot then none
          else match c.receives? with
            | some (target, construction) =>
              if slot = target then some construction.build else s.slot? slot
            | none => s.slot? (c.source slot)
        else s.slot? slot := by
  show (s.run K c).value.1.slot? slot = _
  cases c with
  | make target c =>
    rw [run, Logged.value_pure, slot?_put]
    by_cases same : slot = target <;> simp [same]
  | assign target _ | assignUnordered target _ | reset target =>
    rw [run, Logged.value_pure, slot?_modify]
    by_cases same : slot = target <;> cases h : s.slot? target
      <;> simp [same, h, Construction.build]
  | assignVariant target source =>
    rw [run]
    cases h : s.slot? source <;> cases h' : s.slot? target <;> by_cases same : slot = target
      <;> simp [slot?_modify, same, h, h']
  | clone target source =>
    rw [run]
    cases h : s.slot? source <;> by_cases same : slot = target <;> simp [slot?_put, same, h]
  | swap a b =>
    rw [run]
    cases h : s.slot? a <;> cases h' : s.slot? b <;> by_cases first : slot = a
      <;> by_cases second : slot = b <;> simp_all [slot?_put]
  | drop target =>
    rw [run, Logged.value_pure]
    by_cases same : slot = target <;> simp [slot?, lookup_dropEntry, same]
  | share name p => exact slot?_letGo
  | object name o => exact slot?_letGo
  | release name => exact slot?_letGo
  | begin future target shape elem =>
    rw [run]
    cases s.slot? target <;> rfl
  | finish future =>
    rw [run]
    cases s.pending.lookup future <;> rfl
  | cancel future => rfl
  | restartActivity name =>
    rw [run]
    cases s.ref? name <;> rfl

/-- **A slot holds what a new variant holds that was made by the construction
its contents go back to.** -/
theorem slot?_after (K : Converters C) (history : List (Command C)) (slot : String) :
    (after K history).slot? slot = (origin history slot).map Construction.build := by
  induction history generalizing slot with
  | nil => rfl
  | cons c past ih =>
    have present (needed : String) :
        ((after K past).slot? needed).isSome = (origin past needed).isSome := by
      rw [ih, Option.isSome_map]
    rw [after, slot?_step, origin]
    simp only [present]
    split
    · split
      · rfl
      · rcases c.receives? with - | ⟨target, construction⟩
        · exact ih _
        · dsimp only
          split
          · rfl
          · exact ih slot
    · exact ih slot

end Session

/-! ## Reachable variants -/

/-- A command that brings along a value that a caller can have, if it brings
one. -/
def Command.Attainable (c : Command C) : Prop :=
  ∀ slot construction, c.receives? = some (slot, construction) → construction.Attainable

/-- **What the contents of a slot go back to is the construction of some
command.** -/
theorem Session.exists_receives_of_origin {history : List (Command C)} {slot : String}
    {construction : Construction C} (h : origin history slot = some construction) :
    ∃ c ∈ history, ∃ target, c.receives? = some (target, construction) := by
  induction history generalizing slot with
  | nil => cases h
  | cons c past ih =>
    have before {other : String} (h : origin past other = some construction) :
        ∃ c' ∈ c :: past, ∃ target, c'.receives? = some (target, construction) := by
      obtain ⟨c', member, received⟩ := ih h
      exact ⟨c', .tail _ member, received⟩
    rw [origin] at h
    split at h
    · split at h
      · cases h
      · split at h
        · rename_i target _ received
          split at h
          · cases h
            exact ⟨c, .head _, target, received⟩
          · exact before h
        · exact before h
    · exact before h

/-- What the contents of a slot go back to was brought along by a command. -/
theorem Session.origin_attainable {history : List (Command C)}
    (attainable : ∀ c ∈ history, c.Attainable) {slot : String} {construction : Construction C}
    (h : origin history slot = some construction) : construction.Attainable := by
  obtain ⟨c, member, target, received⟩ := exists_receives_of_origin h
  exact attainable c member target construction received

namespace Variant

/-- **A variant that a session can come to have** in one of its slots. -/
def Reachable (v : Variant C) : Prop :=
  ∃ (K : Converters C) (history : List (Command C)) (slot : String),
    (∀ c ∈ history, c.Attainable) ∧ (Session.after K history).slot? slot = some v

/-- The reachable variants are those that constructions make. -/
theorem reachable_iff {v : Variant C} :
    v.Reachable ↔ ∃ c : Construction C, c.Attainable ∧ c.build = v := by
  constructor
  · rintro ⟨K, history, slot, attainable, h⟩
    rw [Session.slot?_after] at h
    obtain ⟨c, origin, rfl⟩ := Option.map_eq_some_iff.1 h
    exact ⟨c, Session.origin_attainable attainable origin, rfl⟩
  · rintro ⟨c, attainable, rfl⟩
    refine ⟨.refusing C, [.make "" c], "", ?_, rfl⟩
    rintro _ (_ | ⟨_, ⟨⟩⟩) slot construction received
    cases received
    exact attainable

theorem reachable_native {p : Payload C} (h : p.Attainable) : (native p).Reachable :=
  reachable_iff.2 ⟨.native p, by rintro _ ⟨⟩; exact h, rfl⟩

theorem reachable_unordered {p : Payload C} (h : p.Attainable) : (unordered p).Reachable :=
  reachable_iff.2 ⟨.unordered p, by rintro _ ⟨⟩; exact h, rfl⟩

theorem Reachable.wellBound {v : Variant C} (h : v.Reachable) : v.WellBound := by
  obtain ⟨c, attainable, rfl⟩ := reachable_iff.1 h
  exact Construction.build_wellBound attainable

/-- A reachable variant stores a well-typed value. -/
theorem Reachable.wellTyped {v : Variant C} (h : v.Reachable) {p : Payload C}
    (stored : v.payload = some p) : p.WellTyped := by
  obtain ⟨c, attainable, rfl⟩ := reachable_iff.1 h
  exact Payload.optionWellTyped_iff.1
    (Construction.build_wellTyped fun p given => (attainable p given).wellTyped) p stored

/-! ## Comparing bound variants -/

variable {v w : Variant C}

theorem type_of_payload {p : Payload C} (h : v.payload = some p) : v.type = p.type := by
  rw [type, h]

theorem WellBound.accepts (hv : v.WellBound) {p : Payload C} (h : v.payload = some p) :
    v.binding.Accepts p := by
  rwa [WellBound, h] at hv

theorem WellBound.unordered (hv : v.WellBound) (h : v.payload = none) :
    v.binding = .unordered := by
  rwa [WellBound, h] at hv

/-- **One type and one kind of order have one binding.** -/
theorem WellBound.binding_eq (hv : v.WellBound) (hw : w.WellBound) (type : v.type = w.type)
    (kind : v.binding.kind = w.binding.kind) : v.binding = w.binding := by
  cases p : v.payload with
  | none =>
    have none := hv.unordered p
    rw [none] at kind
    rw [none, Binding.eq_unordered kind.symm]
  | some p' =>
    cases q : w.payload with
    | none =>
      have none := hw.unordered q
      rw [none] at kind
      rw [none, Binding.eq_unordered kind]
    | some q' =>
      rw [type_of_payload p, type_of_payload q] at type
      exact (hv.accepts p).eq_of_kind ((hw.accepts q).of_type type.symm) kind

/-- **Two payloads of one type and one kind of order are compared by the
relation of the kind**: the binding of either variant accepts both of them. -/
theorem WellBound.less_iff (hv : v.WellBound) (hw : w.WellBound) {p q : Payload C}
    (hp : v.payload = some p) (hq : w.payload = some q) (type : v.type = w.type)
    (kind : v.binding.kind = w.binding.kind) :
    v.binding.Accepts p ∧ v.binding.Accepts q
      ∧ (v.less w = true ↔ v.binding.kind.Relates p q) := by
  have left := hv.accepts hp
  have right : v.binding.Accepts q := hv.binding_eq hw type kind ▸ hw.accepts hq
  rw [type_of_payload hp, type_of_payload hq] at type
  refine ⟨left, right, ?_⟩
  rw [less, hp, hq]
  dsimp only
  rw [if_pos type, Binding.less, decide_eq_true kind, Bool.true_and, Binding.relates_iff left right]

end Variant

/-! ## The main statement -/

namespace Session

/-- **A binding always comes with its payload.** After every history a slot
holds what the construction makes that its contents go back to, bound at the
type that is stored, and to no order if nothing is. So two reachable variants
of one type and one kind of order have the same binding, and it finds both
payloads to be of its type, references included, when they are compared. -/
theorem contents_eq_origin (K : Converters C) (history : List (Command C))
    (attainable : ∀ c ∈ history, c.Attainable) :
    (∀ slot, (after K history).slot? slot = (origin history slot).map Construction.build)
    ∧ (∀ slot v, (after K history).slot? slot = some v → v.WellBound)
    ∧ ∀ v w : Variant C, v.Reachable → w.Reachable → v.type = w.type →
        v.binding.kind = w.binding.kind →
      v.binding = w.binding ∧ ∀ p q, v.payload = some p → w.payload = some q →
        v.binding.Accepts p ∧ v.binding.Accepts q
        ∧ (v.binding.kind = .identity → p.referent?.isSome = true ∧ q.referent?.isSome = true)
        ∧ (v.less w = true ↔ v.binding.kind.Relates p q) := by
  refine ⟨slot?_after K history, fun slot v h => ?_, fun v w hv hw type kind => ?_⟩
  · exact Variant.Reachable.wellBound ⟨K, history, slot, attainable, h⟩
  · refine ⟨hv.wellBound.binding_eq hw.wellBound type kind, fun p q hp hq => ?_⟩
    obtain ⟨left, right, compared⟩ := hv.wellBound.less_iff hw.wellBound hp hq type kind
    exact ⟨left, right, fun identity => ⟨left.referent?_isSome identity,
      right.referent?_isSome identity⟩, compared⟩

/-- Static text assigned over a weak reference, and exchanged with a copy of
another one. -/
def exchange : List (Command .none) :=
  [.swap "a" "b", .assign "a" (.staticText "x"), .clone "b" "a", .make "a" (.ofWeak .text 0)]

/-- The text is in the one slot and stored as owned text, the reference is in the
other, and each has its own binding. -/
theorem contents_eq_origin_exchange :
    (after (.refusing .none) exchange).slot? "b" = some ⟨some (.text "x"), .native .text⟩
    ∧ (after (.refusing .none) exchange).slot? "a" = some ⟨some (.weak .text 0), .weak .text⟩ := by
  have attainable : ∀ c ∈ exchange, c.Attainable := by
    rintro c member slot construction received
    simp only [exchange, List.mem_cons, List.not_mem_nil, or_false] at member
    rcases member with rfl | rfl | rfl | rfl <;> cases received <;> rintro p ⟨⟩
    exact .staticText "x"
  have contents := (contents_eq_origin (.refusing .none) exchange attainable).1
  exact ⟨contents "b", contents "a"⟩

end Session

end DynValue

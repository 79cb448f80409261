import DynValue.Session.State

/-!
# What a caller does

A `Command` changes a session. Most change one slot and report nothing; a
container conversion that is asked for or driven to its end reports its
events, and the reads among them count for the objects they were made of
(`Session.step`).
-/

namespace DynValue

/-- **How a variant is made.** -/
inductive Construction (C : CallerTypes) where
  | empty
  | native (p : Payload C)
  | unordered (p : Payload C)
  | ofValue (p : Payload C)
  | ofText (s : String)
  | ofWideText (w : WideText)
  | ofShared (r : Ref) (content : Payload C)
  | ofObject (r : Ref)
  | ofWeak (t : Ty C) (r : Ref)

/-- The variant that a construction makes. -/
def Construction.build {C : CallerTypes} : Construction C → Variant C
  | empty => .empty
  | native p => .native p
  | unordered p => .unordered p
  | ofValue p => .ofValue p
  | ofText s => .ofText s
  | ofWideText w => .ofWideText w
  | ofShared r content => .ofShared r content
  | ofObject r => .ofObject r
  | ofWeak t r => .ofWeak t r

/-- **What a caller can do.** -/
inductive Command (C : CallerTypes) where
  /-- A slot gets a new variant. -/
  | make (slot : String) (c : Construction C)
  /-- A slot's variant is assigned a value with its type's own order. -/
  | assign (slot : String) (p : Payload C)
  /-- A slot's variant is assigned a value without an order. -/
  | assignUnordered (slot : String) (p : Payload C)
  /-- A slot's variant is assigned a copy of another's value. -/
  | assignVariant (slot source : String)
  /-- A slot gets a copy of another's variant. -/
  | clone (slot source : String)
  /-- Two slots exchange their variants. -/
  | swap (a b : String)
  /-- A slot's variant loses its value. -/
  | reset (slot : String)
  /-- A slot is given up. -/
  | drop (slot : String)
  /-- A shared value is made and kept. -/
  | share (name : String) (p : Payload C)
  /-- An external object is made and kept. -/
  | object (name : String) (o : ExternalObject C)
  /-- A reference is kept no longer. -/
  | release (name : String)
  /-- The variant of a slot is asked for a container. -/
  | begin (future slot : String) (shape : Shape) (elem : Ty C)
  /-- A conversion is driven to its end and given up. -/
  | finish (future : String)
  /-- A conversion is given up. -/
  | cancel (future : String)
  /-- The activity of an object starts anew. -/
  | restartActivity (name : String)

namespace Session

variable {C : CallerTypes}

/-- The outcome of a command that is a container conversion's, if it was
driven to its end. -/
abbrev Outcome (C : CallerTypes) : Type :=
  Option (Except (CastError C) (Payload C))

/-- **One command.** A command on a slot, name or conversion that is not
there changes nothing. -/
def run (K : Converters C) (s : Session C) :
    Command C → Reported C (Session C × Outcome C)
  | .make slot c => pure (s.put slot c.build, none)
  | .assign slot p => pure (s.modify slot fun _ => .native p, none)
  | .assignUnordered slot p => pure (s.modify slot fun _ => .unordered p, none)
  | .assignVariant slot source =>
    match s.slot? source with
    | some v => pure (s.modify slot fun _ => v, none)
    | none => pure (s, none)
  | .clone slot source =>
    match s.slot? source with
    | some v => pure (s.put slot v, none)
    | none => pure (s, none)
  | .swap a b =>
    match s.slot? a, s.slot? b with
    | some v, some w => pure ((s.put a w).put b v, none)
    | _, _ => pure (s, none)
  | .reset slot => pure (s.modify slot fun _ => .empty, none)
  | .drop slot => pure ({ s with slots := dropEntry slot s.slots }, none)
  | .share name p => pure (s.keep name (.value p), none)
  | .object name o => pure (s.keep name (.object o), none)
  | .release name => pure (s.letGo name, none)
  | .begin future slot shape elem =>
    match s.slot? slot with
    | some v => do
      let f ← v.pend s.alive shape elem
      pure ({ s with pending := setEntry future f s.pending }, none)
    | none => pure (s, none)
  | .finish future =>
    match s.pending.lookup future with
    | some f => do
      let s' := { s with pending := dropEntry future s.pending }
      let outcome ← f.finish (s.setting K) s'.roots
      pure (s', outcome)
    | none => pure (s, none)
  | .cancel future => pure ({ s with pending := dropEntry future s.pending }, none)
  | .restartActivity name =>
    match s.ref? name with
    | some r =>
      pure ({ s with activity := s.activity.map fun (r', a) =>
        (r', if r' = r then a.restart else a) }, none)
    | none => pure (s, none)

/-- **One command, its reads observed**: the new session, the outcome and
the events. -/
def step (K : Converters C) (s : Session C) (c : Command C) :
    Reported C (Session C × Outcome C) :=
  let x := s.run K c
  ⟨x.log, (x.value.1.observe x.log, x.value.2)⟩

end Session

end DynValue

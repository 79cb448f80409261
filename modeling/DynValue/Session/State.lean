import DynValue.Container.Drive
import DynValue.Session.Activity

/-!
# Sessions

A session is a caller that works with variants: it has named slots for
them, makes shared values and objects and keeps a reference to each until
it lets go of it, and keeps container conversions that it has begun.

What is alive in a session is not recorded anywhere. The session's roots
are the references that it keeps, its slots and its conversions
(`Session.roots`), and the rest follows from the heap.
-/

namespace DynValue

/-- The entry of a name in a table, replaced or added. -/
def setEntry {α : Type} (name : String) (a : α) (table : List (String × α)) :
    List (String × α) :=
  if (table.lookup name).isSome then
    table.map fun e => if e.1 = name then (name, a) else e
  else table ++ [(name, a)]

/-- A table without the entry of a name. -/
def dropEntry {α : Type} (name : String) (table : List (String × α)) :
    List (String × α) :=
  table.filter fun e => e.1 != name

/-- Replacing the value of a name keeps what other names have. -/
theorem lookup_map_replace {α : Type} (name other : String) (a : α)
    (table : List (String × α)) :
    (table.map fun e => if e.1 = name then (name, a) else e).lookup other =
      if other = name then (table.lookup name).map fun _ => a else table.lookup other := by
  induction table with
  | nil => simp
  | cons e table ih =>
    obtain ⟨k, b⟩ := e
    by_cases hk : k = name <;> by_cases ho : other = k <;> grind

/-- Setting an entry changes what its own name has, and no other. -/
theorem lookup_setEntry {α : Type} (name other : String) (a : α) (table : List (String × α)) :
    (setEntry name a table).lookup other =
      if other = name then some a else table.lookup other := by
  unfold setEntry
  split
  · rename_i h
    rw [lookup_map_replace]
    obtain ⟨b, hb⟩ := Option.isSome_iff_exists.1 h
    simp [hb]
  · rename_i h
    rw [List.lookup_append]
    by_cases ho : other = name
    · have : table.lookup name = none := Option.not_isSome_iff_eq_none.1 h
      simp [ho, this]
    · simp [List.lookup_cons, ho, beq_eq_false_iff_ne.2 ho]

/-- Dropping an entry changes what its own name has, and no other. -/
theorem lookup_dropEntry {α : Type} (name other : String) (table : List (String × α)) :
    (dropEntry name table).lookup other =
      if other = name then none else table.lookup other := by
  induction table with
  | nil => simp [dropEntry]
  | cons e table ih =>
    obtain ⟨k, b⟩ := e
    unfold dropEntry at *
    by_cases hk : k = name <;> by_cases ho : other = k <;> grind

/-- **A session.** -/
structure Session (C : CallerTypes) where
  /-- The shared values and objects ever made. -/
  heap : Heap C
  /-- The names that they were given, the latest first. -/
  names : List (String × Ref)
  /-- The references that the session keeps. -/
  kept : List Ref
  /-- The variants, by slot. -/
  slots : List (String × Variant C)
  /-- The container conversions begun and neither finished nor dropped. -/
  pending : List (String × Pending C)
  /-- The reads of objects. -/
  activity : List (Ref × Activity)

namespace Session

variable {C : CallerTypes}

/-- The session at its start. -/
def initial : Session C := ⟨.empty, [], [], [], [], []⟩

/-! ## Looking around -/

/-- The variant of a slot. -/
def slot? (s : Session C) (slot : String) : Option (Variant C) := s.slots.lookup slot

/-- What a name refers to. -/
def ref? (s : Session C) (name : String) : Option Ref := s.names.lookup name

/-- The name of a reference. -/
def nameOf (s : Session C) (r : Ref) : String :=
  ((s.names.find? fun e => e.2 == r).map Prod.fst).getD ""

/-- **What the session itself holds.** -/
def roots (s : Session C) : RefSet :=
  RefSet.union (fun r => s.kept.contains r)
    (RefSet.union (RefSet.unionOf (fun e => e.2.holds) s.slots)
      (RefSet.unionOf (fun e => e.2.holds) s.pending))

/-- Whether something is alive. -/
def alive (s : Session C) : RefSet := s.heap.alive s.roots

/-- Whether something is alive while an outcome is looked at, which holds
references of its own. -/
def aliveWith (s : Session C) (p : Payload C) : RefSet :=
  s.heap.alive (RefSet.union s.roots p.holds)

/-- The activity of a reference. -/
def activityOf (s : Session C) (r : Ref) : Activity := (s.activity.lookup r).getD {}

/-- What conversions can consult. -/
def setting (s : Session C) (K : Converters C) : Setting C := ⟨s.heap, K⟩

/-! ## Changes -/

/-- The session with a variant in a slot. -/
def put (s : Session C) (slot : String) (v : Variant C) : Session C :=
  { s with slots := setEntry slot v s.slots }

/-- The session with the variant of a slot changed, if there is one. -/
def modify (s : Session C) (slot : String) (f : Variant C → Variant C) : Session C :=
  match s.slot? slot with
  | some v => s.put slot (f v)
  | none => s

/-- The session without a reference among those it keeps. -/
def letGo (s : Session C) (name : String) : Session C :=
  match s.ref? name with
  | some r => { s with kept := s.kept.filter fun r' => r' != r }
  | none => s

/-- The session with one more cell, kept under a name. What had that name
before is kept no longer. -/
def keep (s : Session C) (name : String) (cell : Cell C) : Session C :=
  let s := s.letGo name
  let (heap, r) := s.heap.alloc cell
  { s with
    heap := heap
    names := (name, r) :: s.names
    kept := r :: s.kept
    activity := (r, {}) :: s.activity }

/-- The session after events: those of reads count for their objects. -/
def observe (s : Session C) (events : List (Event C)) : Session C :=
  { s with activity := s.activity.map fun (r, a) =>
      (r, events.foldl (Activity.observe r) a) }

end Session

end DynValue

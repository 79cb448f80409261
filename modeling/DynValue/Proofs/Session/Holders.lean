import DynValue.Proofs.Liveness
import DynValue.Proofs.Session.Snapshot
import Mathlib.Logic.Relation

/-!
# Who holds what

A session holds references in three ways: the caller keeps those that it has made and
not let go of (`Session.handle`), the slots hold what their contents go back to
(`Session.origin`), and a conversion that is begun and neither finished nor given up
holds what it took from its variant when it was asked for (`Session.asked`). All three
are read off the history, and they are all that the session holds
(`Session.roots_after`): what was overwritten, exchanged or given up has left nothing
behind in a table.
-/

namespace DynValue

variable {C : CallerTypes}

/-! ## Tables -/

/-- **Every entry of a table is current**: it is what its name has. -/
def AllCurrent {α : Type} (table : List (String × α)) : Prop :=
  ∀ e ∈ table, table.lookup e.1 = some e.2

namespace AllCurrent

variable {α : Type} {table : List (String × α)}

theorem nil : AllCurrent ([] : List (String × α)) := List.forall_mem_nil _

/-- What entries have is what names have. -/
theorem exists_mem_iff (h : AllCurrent table) {p : α → Prop} :
    (∃ e ∈ table, p e.2) ↔ ∃ name a, table.lookup name = some a ∧ p a := by
  constructor
  · rintro ⟨e, mem, holds⟩
    exact ⟨e.1, e.2, h e mem, holds⟩
  · rintro ⟨name, a, found, holds⟩
    obtain ⟨before, behind, rfl, -⟩ := List.lookup_eq_some_iff.1 found
    exact ⟨(name, a), List.mem_append_right _ List.mem_cons_self, holds⟩

protected theorem setEntry (h : AllCurrent table) (name : String) (a : α) :
    AllCurrent (setEntry name a table) := by
  intro e mem
  rw [lookup_setEntry]
  unfold DynValue.setEntry at mem
  split at mem
  · obtain ⟨old, was, rfl⟩ := List.mem_map.1 mem
    by_cases same : old.1 = name
    · rw [if_pos same, if_pos rfl]
    · rw [if_neg same, if_neg same]
      exact h old was
  · rename_i missing
    rcases List.mem_append.1 mem with old | new
    · by_cases same : e.1 = name
      · refine absurd ?_ missing
        rw [← same, h e old, Option.isSome_some]
      · rw [if_neg same]
        exact h e old
    · obtain rfl := List.mem_singleton.1 new
      exact if_pos rfl

protected theorem dropEntry (h : AllCurrent table) (name : String) :
    AllCurrent (dropEntry name table) := by
  intro e mem
  obtain ⟨was, other⟩ := List.mem_filter.1 mem
  rw [lookup_dropEntry, if_neg (bne_iff_ne.1 other)]
  exact h e was

end AllCurrent

/-! ## What a command does -/

namespace Command

/-- The cell that a command makes, with the name under which it is kept. -/
@[simp] def creates? : Command C → Option (String × Cell C)
  | share name p => some (name, .value p)
  | object name o => some (name, .object o)
  | _ => none

/-- The name whose reference a command lets go of. -/
@[simp] def releases? : Command C → Option String
  | share name _ | object name _ | release name => some name
  | _ => none

end Command

namespace Session

variable {K : Converters C} {s s' : Session C} {c : Command C} {slot name : String} {r : Ref}

/-- **What a command makes and lets go of.** -/
def stored (s : Session C) (c : Command C) : Session C :=
  match c.creates?, c.releases? with
  | some (name, cell), _ => s.keep name cell
  | none, some name => s.letGo name
  | none, none => s

/-- **A change of a slot, a conversion or what was observed**: all else that commands
do. -/
inductive Touches (s : Session C) : Session C → Prop
  | put (slot : String) (v : Variant C) : Touches s (s.put slot v)
  | drop (slot : String) : Touches s { s with slots := dropEntry slot s.slots }
  | begin (future : String) (f : Pending C) :
      Touches s { s with pending := setEntry future f s.pending }
  | ends (future : String) : Touches s { s with pending := dropEntry future s.pending }
  | restart (r : Ref) : Touches s { s with activity := s.activity.map fun (r', a) =>
      (r', if r' = r then a.restart else a) }

theorem touches_modify (s : Session C) (slot : String) (f : Variant C → Variant C) :
    Relation.ReflTransGen Touches s (s.modify slot f) := by
  unfold modify
  split
  · exact .single (.put slot _)
  · exact .refl

/-- **What a command does**: it makes something or lets go of it, and then changes
slots and conversions. -/
theorem run_touches (K : Converters C) (s : Session C) (c : Command C) :
    Relation.ReflTransGen Touches (s.stored c) (s.run K c).value.1 := by
  cases c with
  | make slot c => exact .single (.put slot _)
  | assign | assignUnordered | reset => exact touches_modify ..
  | assignVariant slot source =>
    rw [run]
    cases s.slot? source with
    | none => exact .refl
    | some v => exact touches_modify ..
  | clone slot source =>
    rw [run]
    cases s.slot? source with
    | none => exact .refl
    | some v => exact .single (.put slot v)
  | swap a b =>
    rw [run]
    cases s.slot? a with
    | none => exact .refl
    | some v =>
      cases s.slot? b with
      | none => exact .refl
      | some w => exact .tail (.single (.put a w)) (.put b v)
  | drop slot => exact .single (.drop slot)
  | share | object | release => exact .refl
  | begin future slot shape elem =>
    rw [run]
    cases s.slot? slot with
    | none => exact .refl
    | some v => exact .single (.begin future _)
  | finish future =>
    rw [run]
    cases s.pending.lookup future with
    | none => exact .refl
    | some f => exact .single (.ends future)
  | cancel future => exact .single (.ends future)
  | restartActivity name =>
    rw [run]
    cases s.ref? name with
    | none => exact .refl
    | some r => exact .single (.restart r)

/-- **What holds after a command** is what every such change keeps. -/
theorem run_induction {P : Session C → Prop} (K : Converters C) (start : P (s.stored c))
    (touches : ∀ {s s'}, P s → Touches s s' → P s') : P (s.run K c).value.1 := by
  have path := run_touches K s c
  generalize (s.run K c).value.1 = s' at path ⊢
  induction path with
  | refl => exact start
  | tail _ last ih => exact touches ih last

/-- It holds before these if letting go and making something keep it. -/
theorem stored_induction {P : Session C → Prop} (h : P s) (letGo : ∀ name, P (s.letGo name))
    (keep : ∀ name cell, P (s.keep name cell)) : P (s.stored c) := by
  unfold stored
  split
  · exact keep _ _
  · exact letGo _
  · exact h

theorem letGo_heap (s : Session C) (name : String) : (s.letGo name).heap = s.heap := by
  unfold letGo
  split <;> rfl

theorem letGo_names (s : Session C) (name : String) : (s.letGo name).names = s.names := by
  unfold letGo
  split <;> rfl

/-! ## What tables hold -/

/-- **A tidy session** has nothing in its tables but what slots and conversions are. -/
structure Tidy (s : Session C) : Prop where
  slots : AllCurrent s.slots
  pending : AllCurrent s.pending

namespace Tidy

theorem letGo (h : s.Tidy) (name : String) : (s.letGo name).Tidy := by
  unfold Session.letGo
  split
  · exact ⟨h.slots, h.pending⟩
  · exact h

theorem touches (h : s.Tidy) (change : s.Touches s') : s'.Tidy := by
  cases change with
  | put slot v => exact ⟨h.slots.setEntry slot v, h.pending⟩
  | drop slot => exact ⟨h.slots.dropEntry slot, h.pending⟩
  | begin future f => exact ⟨h.slots, h.pending.setEntry future f⟩
  | ends future => exact ⟨h.slots, h.pending.dropEntry future⟩
  | restart r => exact ⟨h.slots, h.pending⟩

/-- **A command leaves a session tidy.** -/
theorem step (h : s.Tidy) (K : Converters C) (c : Command C) : (s.step K c).value.1.Tidy := by
  suffices ran : (s.run K c).value.1.Tidy from ⟨ran.slots, ran.pending⟩
  have start : (s.stored c).Tidy := stored_induction h h.letGo fun name cell =>
    ⟨(h.letGo name).slots, (h.letGo name).pending⟩
  exact run_induction K start touches

/-- **What a tidy session holds** is what the caller keeps, and what slots and
conversions hold. -/
theorem roots_iff (h : s.Tidy) : s.roots r = true ↔ r ∈ s.kept
    ∨ (∃ slot v, s.slot? slot = some v ∧ v.holds r = true)
    ∨ ∃ future f, s.pending.lookup future = some f ∧ f.holds r = true := by
  rw [roots, RefSet.union_apply, RefSet.union_apply, Bool.or_eq_true, Bool.or_eq_true,
    List.contains_iff_mem, RefSet.unionOf_apply, RefSet.unionOf_apply]
  exact or_congr_right (or_congr (h.slots.exists_mem_iff (p := fun v => v.holds r = true))
    (h.pending.exists_mem_iff (p := fun f => f.holds r = true)))

end Tidy

/-! ## What the caller keeps -/

/-- **All that was made**, oldest first. -/
def made : List (Command C) → List (Cell C)
  | [] => []
  | c :: past => made past ++ (c.creates?.map Prod.snd).toList

/-- **The reference that the caller keeps** under a name: to what was made for it last,
if it was not let go of since. -/
def handle : List (Command C) → String → Option Ref
  | [], _ => none
  | c :: past, name =>
    if c.releases? = some name then c.creates?.map fun _ => (made past).length
    else handle past name

/-- Sessions that have the same heap and keep the same. -/
structure StoresAs (s s' : Session C) : Prop where
  heap : s'.heap = s.heap
  names : s'.names = s.names
  kept : s'.kept = s.kept

theorem Touches.storesAs (change : s.Touches s') : s.StoresAs s' := by
  cases change <;> exact ⟨rfl, rfl, rfl⟩

/-- A command has no other effect on the heap and on what is kept. -/
theorem storesAs_step (K : Converters C) (s : Session C) (c : Command C) :
    (s.stored c).StoresAs (s.step K c).value.1 := by
  suffices ran : (s.stored c).StoresAs (s.run K c).value.1 from ⟨ran.heap, ran.names, ran.kept⟩
  refine run_induction K ⟨rfl, rfl, rfl⟩ fun before change => ?_
  have same := change.storesAs
  exact ⟨same.heap.trans before.heap, same.names.trans before.names,
    same.kept.trans before.kept⟩

/-- **What is kept under which name.** A reference is kept under the name that it was
made for, and no other was made for that since. -/
structure Handles (s : Session C) (handle : String → Option Ref) : Prop where
  kept : ∀ r, r ∈ s.kept ↔ ∃ name, handle name = some r
  named : ∀ name r, handle name = some r → s.ref? name = some r
  once : ∀ name other r, s.ref? name = some r → s.ref? other = some r → name = other
  within : ∀ name r, s.ref? name = some r → r < s.heap.cells.length

namespace Handles

variable {handle : String → Option Ref}

theorem of_storesAs (h : s.Handles handle) (same : s.StoresAs s') : s'.Handles handle := by
  have ref (name : String) : s'.ref? name = s.ref? name := congrArg (List.lookup name) same.names
  constructor
  · simpa only [same.kept] using h.kept
  · simpa only [ref] using h.named
  · simpa only [ref] using h.once
  · simpa only [ref, same.heap] using h.within

theorem letGo (h : s.Handles handle) (name : String) :
    (s.letGo name).Handles fun other => if name = other then none else handle other := by
  unfold Session.letGo
  cases found : s.ref? name with
  | none =>
    have same : (fun other => if name = other then none else handle other) = handle := by
      funext other
      split
      · rename_i same
        subst same
        exact (Option.eq_none_iff_forall_ne_some.2 fun r kept =>
          nomatch found.symm.trans (h.named _ r kept)).symm
      · rfl
    rw [same]
    exact h
  | some gone =>
    refine ⟨fun r => ?_, fun other r kept => h.named other r ?_, h.once, h.within⟩
    · rw [List.mem_filter, bne_iff_ne, h.kept]
      constructor
      · rintro ⟨⟨other, kept⟩, differs⟩
        refine ⟨other, (if_neg fun same => differs ?_).trans kept⟩
        subst same
        exact Option.some.inj ((h.named _ r kept).symm.trans found)
      · rintro ⟨other, kept⟩
        obtain ⟨differs, kept⟩ := Option.ite_none_left_eq_some.1 kept
        exact ⟨⟨other, kept⟩, fun same =>
          differs (h.once name other r (same ▸ found) (h.named other r kept))⟩
    · exact (Option.ite_none_left_eq_some.1 kept).2

theorem keep (h : s.Handles handle) (name : String) (cell : Cell C) :
    (s.keep name cell).Handles fun other =>
      if name = other then some s.heap.cells.length else handle other := by
  have released := h.letGo name
  have heap : (s.letGo name).heap = s.heap := letGo_heap s name
  have names : (s.letGo name).names = s.names := letGo_names s name
  have ref (other : String) : (s.keep name cell).ref? other
      = if name = other then some s.heap.cells.length else s.ref? other := by
    show List.lookup other ((name, (s.letGo name).heap.cells.length) :: (s.letGo name).names) = _
    rw [heap, names, List.lookup_cons]
    by_cases same : name = other
    · rw [if_pos same, same, beq_self_eq_true]
    · rw [if_neg same, beq_eq_false_iff_ne.2 (Ne.symm same)]
      rfl
  have older (other : String) (r : Ref) (found : s.ref? other = some r) :
      r ≠ s.heap.cells.length := Nat.ne_of_lt (h.within other r found)
  refine ⟨fun r => ?_, fun other r kept => ?_, fun other another r => ?_, fun other r => ?_⟩
  · show r ∈ (s.letGo name).heap.cells.length :: (s.letGo name).kept ↔ _
    rw [List.mem_cons, released.kept, heap]
    constructor
    · rintro (rfl | ⟨other, kept⟩)
      · exact ⟨name, if_pos rfl⟩
      · obtain ⟨differs, kept⟩ := Option.ite_none_left_eq_some.1 kept
        exact ⟨other, (if_neg differs).trans kept⟩
    · rintro ⟨other, kept⟩
      by_cases same : name = other
      · rw [if_pos same] at kept
        exact .inl (Option.some.inj kept).symm
      · rw [if_neg same] at kept
        exact .inr ⟨other, (if_neg same).trans kept⟩
  · rw [ref]
    by_cases same : name = other
    · rwa [if_pos same] at kept ⊢
    · rw [if_neg same] at kept ⊢
      exact h.named other r kept
  · -- what was made for another name is older
    rw [ref, ref]
    split
    · rename_i first
      split
      · rename_i second
        exact fun _ _ => first.symm.trans second
      · intro new old
        exact absurd (Option.some.inj new).symm (older another r old)
    · split
      · intro old new
        exact absurd (Option.some.inj new).symm (older other r old)
      · exact h.once other another r
  · rw [ref]
    show _ → r < ((s.letGo name).heap.cells ++ [cell]).length
    rw [heap, List.length_append, List.length_singleton]
    split
    · intro new
      exact Option.some.inj new ▸ Nat.lt_succ_self _
    · exact fun old => Nat.lt_succ_of_lt (h.within other r old)

end Handles

/-- **What a command makes** is added to the heap. -/
theorem cells_step (K : Converters C) (s : Session C) (c : Command C) :
    (s.step K c).value.1.heap.cells = s.heap.cells ++ (c.creates?.map Prod.snd).toList := by
  rw [(storesAs_step K s c).heap]
  cases c with
  | share name p | object name o => exact congrArg (·.cells ++ _) (letGo_heap s name)
  | release name => exact (congrArg Heap.cells (letGo_heap s name)).trans (List.append_nil _).symm
  | _ => exact (List.append_nil _).symm

/-- **All that is on the heap** is what was made. -/
theorem cells_after (K : Converters C) (history : List (Command C)) :
    (after K history).heap.cells = made history := by
  induction history with
  | nil => rfl
  | cons c past ih =>
    rw [after, cells_step, ih]
    rfl

/-- **What the caller keeps** is what it has made and not let go of. -/
theorem handles_after (K : Converters C) (history : List (Command C)) :
    (after K history).Handles (handle history) := by
  induction history with
  | nil =>
    constructor
    · exact fun r => ⟨fun mem => (List.not_mem_nil mem).elim, fun ⟨_, kept⟩ => nomatch kept⟩
    · exact fun _ _ kept => nomatch kept
    · exact fun _ _ _ found => nomatch found
    · exact fun _ _ found => nomatch found
  | cons c past ih =>
    refine Handles.of_storesAs ?_ (storesAs_step K (after K past) c)
    have length : (made past).length = (after K past).heap.cells.length :=
      congrArg List.length (cells_after K past).symm
    have kept {name : String} (lets : c.releases? = some name) : handle (c :: past)
        = fun other => if name = other then
            c.creates?.map fun _ => (after K past).heap.cells.length
          else handle past other := by
      funext other
      rw [handle, lets, length]
      simp only [Option.some.injEq]
    cases c with
    | share name p | object name o => exact (kept rfl).symm ▸ ih.keep name _
    | release name => exact (kept rfl).symm ▸ ih.letGo name
    | _ => exact ih

end Session

/-! ## What is asked for -/

namespace Variant

/-- **What a variant lends** to the conversion that asks it for a container: all
that the container holds if it is one of the type itself, the object that it refers to –
weakly too, if that is alive – and what is in its list or dictionary. -/
inductive Lends (alive : RefSet) (t : Ty C) (v : Variant C) (r : Ref) : Prop
  | itself {p : Payload C} (exactly : v.exactly? t = some p) (held : p.holds r = true)
  | object (refers : v.payload = some (.object r))
  | weak (refers : v.payload = some (.weak .externalObject r)) (living : alive r = true)
  | list {items : List (Payload C)} (lists : v.payload = some (.seq .vector .variant items))
      (held : ∃ p ∈ items, p.holds r = true)
  | dictionary {entries : List (String × Payload C)}
      (maps : v.payload = some (.map .sorted .variant entries))
      (held : ∃ e ∈ entries, e.2.holds r = true)

variable {v : Variant C} {alive : RefSet} {r : Ref}

/-- What is lent is held by the variant, or is what it refers to weakly. -/
theorem Lends.holds_or_weak {t : Ty C} (h : v.Lends alive t r) :
    v.holds r = true ∨ v.payload = some (.weak .externalObject r) ∧ alive r = true := by
  have held {p : Payload C} (payload : v.payload = some p) (within : p.holds r = true) :
      v.holds r = true := by
    rw [holds, payload]
    exact within
  cases h with
  | itself exactly within => exact .inl (held (exactly?_eq_some_iff.1 exactly).1 within)
  | object refers => exact .inl (held refers (beq_self_eq_true r))
  | weak refers living => exact .inr ⟨refers, living⟩
  | list lists within => exact .inl (held lists (Payload.listHolds_iff.2 within))
  | dictionary maps within => exact .inl (held maps (Payload.entriesHold_iff.2 within))

/-- **What a source holds** is what the variant lends that has no container of the type
itself. -/
theorem source_holds_iff {t : Ty C} (other : v.exactly? t = none) :
    (∃ source, v.source alive = .ok source ∧ source.holds r = true) ↔ v.Lends alive t r := by
  unfold source
  constructor
  · rintro ⟨source, found, held⟩
    split at found
    · cases found
      exact .object (beq_iff_eq.1 held ▸ ‹_›)
    · split at found <;> cases found
      obtain rfl := beq_iff_eq.1 held
      exact .weak ‹_› ‹_›
    · cases found
      obtain ⟨w, among, held⟩ := (RefSet.unionOf_apply _ _ r).1 held
      obtain ⟨p, mem, rfl⟩ := List.mem_map.1 among
      exact .list ‹_› ⟨p, mem, holds_ofEntry p ▸ held⟩
    · cases found
      obtain ⟨w, among, held⟩ := (RefSet.unionOf_apply _ _ r).1 held
      obtain ⟨e, mem, rfl⟩ := List.mem_map.1 among
      exact .dictionary ‹_› ⟨e, mem, holds_ofEntry e.2 ▸ held⟩
    · cases found
  · intro lent
    cases lent with
    | itself exactly => cases other.symm.trans exactly
    | object refers =>
      rw [refers]
      exact ⟨_, rfl, beq_self_eq_true r⟩
    | weak refers living =>
      rw [refers]
      exact ⟨_, if_pos living, beq_self_eq_true r⟩
    | list lists held =>
      obtain ⟨p, mem, held⟩ := held
      rw [lists]
      refine ⟨_, rfl, (RefSet.unionOf_apply _ _ r).2 ⟨_, List.mem_map_of_mem mem, ?_⟩⟩
      rwa [holds_ofEntry]
    | dictionary maps held =>
      obtain ⟨e, mem, held⟩ := held
      rw [maps]
      refine ⟨_, rfl, (RefSet.unionOf_apply _ _ r).2 ⟨_, List.mem_map_of_mem mem, ?_⟩⟩
      rwa [holds_ofEntry]

/-- **What a conversion holds** once it is begun is what it was lent. -/
theorem begin_holds_iff (v : Variant C) (alive : RefSet) (shape : Shape) (t : Ty C) (r : Ref) :
    (v.begin alive (shape.type t)).value.holds r = true
      ↔ v.Lends alive (shape.type t) r := by
  rw [begin_value]
  cases exactly : v.exactly? (shape.type t) with
  | some p =>
    refine ⟨fun held => .itself exactly held, fun lent => ?_⟩
    rcases lent.holds_or_weak with held | ⟨refers, -⟩
    · exact (congrFun (holds_of_exactly? exactly) r).trans held
    · obtain ⟨payload, type⟩ := exactly?_eq_some_iff.1 exactly
      obtain rfl := Option.some.inj (payload.symm.trans refers)
      cases shape <;> cases type
  | none =>
    rw [← source_holds_iff exactly]
    cases v.source alive with
    | ok source =>
      refine ⟨fun held => ⟨source, rfl, held⟩, ?_⟩
      rintro ⟨_, ⟨⟩, held⟩
      exact held
    | error reason =>
      exact ⟨fun held => (Bool.false_ne_true held).elim, fun ⟨_, found, _⟩ => nomatch found⟩

end Variant

/-- The container that a command asks for: the slot of the variant, the shape and the
type of the elements. -/
@[simp] def Command.asks? : Command C → Option (String × Shape × Ty C)
  | begin _ slot shape elem => some (slot, shape, elem)
  | _ => none

namespace Session

variable {K : Converters C} {s : Session C} {future slot : String}

/-- A slot that is not there is asked for nothing. -/
theorem pending_begin_none (K : Converters C) (missing : s.slot? slot = none) (shape : Shape)
    (elem : Ty C) :
    (s.step K (.begin future slot shape elem)).value.1.pending = s.pending := by
  show (s.run K (.begin future slot shape elem)).value.1.pending = s.pending
  rw [run, missing]
  rfl

/-- A conversion that is driven to its end is not there any more. -/
theorem lookup_finish (K : Converters C) (s : Session C) (future : String) :
    (s.step K (.finish future)).value.1.pending.lookup future = none := by
  show (s.run K (.finish future)).value.1.pending.lookup future = none
  rw [run]
  cases found : s.pending.lookup future with
  | none => exact found
  | some f => exact (lookup_dropEntry future future _).trans (if_pos rfl)

/-- **A container that was asked for.** -/
structure Asked (C : CallerTypes) where
  /-- All that was done before. -/
  past : List (Command C)
  /-- What the contents of the variant went back to. -/
  contents : Construction C
  /-- The shape of the container. -/
  shape : Shape
  /-- The type of its elements. -/
  elem : Ty C

/-- The conversion that this began. -/
def Asked.pending (K : Converters C) (a : Asked C) : Pending C :=
  (a.contents.build.pend (after K a.past).alive a.shape a.elem).value

/-- **What it was lent** by the variant as that was then. -/
def Asked.Lent (K : Converters C) (a : Asked C) (r : Ref) : Prop :=
  a.contents.build.Lends (after K a.past).alive (a.shape.type a.elem) r

theorem Asked.pending_holds_iff (K : Converters C) (a : Asked C) (r : Ref) :
    (a.pending K).holds r = true ↔ a.Lent K r :=
  Variant.begin_holds_iff _ _ a.shape a.elem r

/-- **What a conversion was asked for** that is begun and neither finished nor given
up. -/
def asked : List (Command C) → String → Option (Asked C)
  | [], _ => none
  | c :: past, future =>
    if c.conversion? = some future then
      match c.asks? with
      | some (slot, shape, elem) =>
        match origin past slot with
        | some contents => some ⟨past, contents, shape, elem⟩
        | none => asked past future
      | none => none
    else asked past future

/-- **The conversions of a session** are those that were asked for. -/
theorem pending_after (K : Converters C) (history : List (Command C)) (future : String) :
    (after K history).pending.lookup future = (asked history future).map (Asked.pending K) := by
  induction history with
  | nil => rfl
  | cons c past ih =>
    by_cases about : c.conversion? = some future
    · rw [asked, if_pos about]
      cases c with
      | begin begun slot shape elem =>
        obtain rfl : begun = future := Option.some.inj about
        have stored := slot?_after K past slot
        cases contents : origin past slot with
        | none =>
          rw [contents] at stored
          simp only [Command.asks?, contents]
          rw [← ih, after, pending_begin_none K stored]
        | some x =>
          rw [contents] at stored
          simp only [Command.asks?, contents]
          exact (begin_step K stored begun shape elem).2.2
      | finish begun =>
        obtain rfl : begun = future := Option.some.inj about
        exact lookup_finish K (after K past) begun
      | cancel begun =>
        obtain rfl : begun = future := Option.some.inj about
        exact (lookup_dropEntry begun begun _).trans (if_pos rfl)
      | _ => cases about
    · rw [asked, if_neg about, ← ih]
      exact (keeps_step K (after K past) about).pending

theorem tidy_after (K : Converters C) (history : List (Command C)) : (after K history).Tidy := by
  induction history with
  | nil => exact ⟨.nil, .nil⟩
  | cons c past ih => exact ih.step K c

/-- **What a session holds after a history**: what the caller keeps, what the slots
hold by what their contents go back to, and what the conversions that were asked for
have taken. -/
theorem roots_after (K : Converters C) (history : List (Command C)) (r : Ref) :
    (after K history).roots r = true ↔ (∃ name, handle history name = some r)
      ∨ (∃ slot x, origin history slot = some x ∧ x.build.holds r = true)
      ∨ ∃ future a, asked history future = some a ∧ a.Lent K r := by
  rw [(tidy_after K history).roots_iff, (handles_after K history).kept]
  simp only [slot?_after, pending_after, Option.map_eq_some_iff]
  refine or_congr_right (or_congr ?_ ?_)
  · refine exists_congr fun slot => ⟨?_, fun ⟨x, contents, held⟩ =>
      ⟨_, ⟨x, contents, rfl⟩, held⟩⟩
    rintro ⟨_, ⟨x, contents, rfl⟩, held⟩
    exact ⟨x, contents, held⟩
  · refine exists_congr fun future => ⟨?_, fun ⟨a, begun, lent⟩ =>
      ⟨_, ⟨a, begun, rfl⟩, (a.pending_holds_iff K r).2 lent⟩⟩
    rintro ⟨_, ⟨a, begun, rfl⟩, held⟩
    exact ⟨a, begun, (a.pending_holds_iff K r).1 held⟩

end Session

end DynValue

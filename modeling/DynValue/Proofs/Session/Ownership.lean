import DynValue.Proofs.Container.Balance
import DynValue.Proofs.Session.Holders

/-!
# Ownership is exact

Something that was made is alive as long as it is owned: by the caller, by the contents
of a slot, by something alive or by a conversion that is begun. Nothing else keeps it
alive, neither what a slot held before nor a conversion that has ended. In a history
that a caller can have, whatever is held was alive when it was brought along
(`Session.Possible`), so what is on the heap holds older things only and cannot keep
itself alive: the question who owns a reference has one answer
(`Session.alive_iff_owned`).

Reads are settled in the same sense. After every command no read of an object is in
flight, as a conversion that has ended has ended all its reads, also if it failed
early or was given up (`Session.settled_after`).
-/

namespace DynValue

open Schedule

variable {C : CallerTypes}

/-! ## What a caller can bring along -/

/-- **What a command brings along**: what the value of a slot holds, and what is held by
what is made. -/
inductive Command.Brings (c : Command C) (r : Ref) : Prop
  | slot {slot : String} {x : Construction C} (receives : c.receives? = some (slot, x))
      (held : x.build.holds r = true)
  | cell {name : String} {cell : Cell C} (creates : c.creates? = some (name, cell))
      (held : cell.holds r = true)

/-- **The caller's rules read no objects**: all they report is diagnostics. -/
def Converters.Quiet (K : Converters C) : Prop :=
  ∀ tag alive v, OnlyDiagnostics (K.rule tag alive v).log

namespace Session

variable {K : Converters C} {s : Session C} {c : Command C} {history : List (Command C)}
  {slot future : String} {r : Ref}

/-- **A history that a caller can have**: to have a strong reference to something it
takes that this is alive. -/
def Possible (K : Converters C) : List (Command C) → Prop
  | [] => True
  | c :: past => (∀ r, c.Brings r → (after K past).alive r = true) ∧ Possible K past

/-! ## What a command can keep alive -/

/-- What slots hold after a command they held before, or it was brought along. -/
theorem slot?_step_some {v : Variant C} (found : (s.step K c).value.1.slot? slot = some v) :
    (∃ other, s.slot? other = some v)
      ∨ ∃ target x, c.receives? = some (target, x) ∧ x.build = v := by
  rw [slot?_step] at found
  split at found
  · split at found
    · cases found
    · split at found
      · rename_i target x receives
        split at found
        · exact .inr ⟨target, x, receives, Option.some.inj found⟩
        · exact .inl ⟨_, found⟩
      · exact .inl ⟨_, found⟩
  · exact .inl ⟨_, found⟩

/-- A conversion after a command was there before, or a variant was asked for it. -/
theorem lookup_pending_step {f : Pending C}
    (found : (s.step K c).value.1.pending.lookup future = some f) :
    s.pending.lookup future = some f
      ∨ ∃ slot v shape elem, s.slot? slot = some v ∧ (v.pend s.alive shape elem).value = f := by
  by_cases about : c.conversion? = some future
  · cases c with
    | begin begun slot shape elem =>
      obtain rfl : begun = future := Option.some.inj about
      cases stored : s.slot? slot with
      | none =>
        rw [pending_begin_none K stored] at found
        exact .inl found
      | some v =>
        rw [(begin_step K stored begun shape elem).2.2] at found
        exact .inr ⟨slot, v, shape, elem, stored, Option.some.inj found⟩
    | finish begun =>
      obtain rfl : begun = future := Option.some.inj about
      cases (lookup_finish K s begun).symm.trans found
    | cancel begun =>
      obtain rfl : begun = future := Option.some.inj about
      have gone : (dropEntry begun s.pending).lookup begun = none :=
        (lookup_dropEntry begun begun _).trans (if_pos rfl)
      cases gone.symm.trans found
    | _ => cases about
  · exact .inl ((keeps_step K s about).pending.symm.trans found)

/-- What the caller keeps after a command it kept before, or it is new. -/
theorem mem_kept_step (mem : r ∈ (s.step K c).value.1.kept) :
    r ∈ s.kept ∨ c.creates?.isSome = true ∧ r = s.heap.cells.length := by
  rw [(storesAs_step K s c).kept] at mem
  have before {name : String} (mem : r ∈ (s.letGo name).kept) : r ∈ s.kept := by
    unfold letGo at mem
    split at mem
    · exact List.mem_of_mem_filter mem
    · exact mem
  cases c with
  | share name p | object name o =>
    rcases List.mem_cons.1 mem with new | old
    · exact .inr ⟨rfl, new.trans (by rw [letGo_heap])⟩
    · exact .inl (before old)
  | release name => exact .inl (before mem)
  | _ => exact .inl mem

/-- What is held on the heap after a command was held before, or is brought along. -/
theorem heldBy_step {s' : Ref} (held : (s.step K c).value.1.heap.heldBy s' r = true) :
    s.heap.heldBy s' r = true ∨ s' = s.heap.cells.length ∧ c.Brings r := by
  rw [Heap.heldBy, cells_step] at held
  rcases Nat.lt_or_ge s' s.heap.cells.length with old | new
  · rw [List.getElem?_append_left old] at held
    exact .inl held
  · rw [List.getElem?_append_right new] at held
    cases creates : c.creates? with
    | none =>
      rw [creates] at held
      cases held
    | some made =>
      obtain ⟨name, cell⟩ := made
      rw [creates] at held
      cases here : s' - s.heap.cells.length with
      | zero =>
        rw [here] at held
        exact .inr ⟨Nat.le_antisymm (Nat.le_of_sub_eq_zero here) new, .cell creates held⟩
      | succ n =>
        rw [here] at held
        cases held

/-- **An orderly session** holds only what was made, and what was made only what is
older. -/
structure Orderly (s : Session C) : Prop where
  tidy : s.Tidy
  within : ∀ r, s.roots r = true → r < s.heap.cells.length
  older : s.heap.Descends

namespace Orderly

theorem alive_of_roots (h : s.Orderly) (mem : s.roots r = true) : s.alive r = true :=
  Heap.alive_iff.2 ⟨h.within r mem, .root mem⟩

/-- **Whatever is held** after a command was alive before, or is new. -/
theorem roots_step (h : s.Orderly) (possible : ∀ r, c.Brings r → s.alive r = true)
    (mem : (s.step K c).value.1.roots r = true) :
    s.alive r = true ∨ c.creates?.isSome = true ∧ r = s.heap.cells.length := by
  have before (mem : r ∈ s.kept ∨ (∃ slot v, s.slot? slot = some v ∧ v.holds r = true)
      ∨ ∃ future f, s.pending.lookup future = some f ∧ f.holds r = true) : s.alive r = true :=
    h.alive_of_roots (h.tidy.roots_iff.2 mem)
  rcases (h.tidy.step K c).roots_iff.1 mem
    with kept | ⟨slot, v, found, held⟩ | ⟨future, f, found, held⟩
  · exact (mem_kept_step kept).imp_left fun kept => before (.inl kept)
  · rcases slot?_step_some found with ⟨other, found⟩ | ⟨target, x, receives, rfl⟩
    · exact .inl (before (.inr (.inl ⟨other, v, found, held⟩)))
    · exact .inl (possible r (.slot receives held))
  · rcases lookup_pending_step found with found | ⟨slot, v, shape, elem, stored, rfl⟩
    · exact .inl (before (.inr (.inr ⟨future, f, found, held⟩)))
    · rcases ((v.begin_holds_iff s.alive shape elem r).1 held).holds_or_weak with held | ⟨-, living⟩
      · exact .inl (before (.inr (.inl ⟨slot, v, stored, held⟩)))
      · exact .inl living

/-- **What is alive after a command** was alive before, or is new. -/
theorem alive_step (h : s.Orderly) (possible : ∀ r, c.Brings r → s.alive r = true)
    (alive : (s.step K c).value.1.alive r = true) :
    s.alive r = true ∨ c.creates?.isSome = true ∧ r = s.heap.cells.length := by
  induction (Heap.alive_iff.1 alive).2 with
  | root mem => exact h.roots_step possible mem
  | @held r s' path held ih =>
    rcases heldBy_step held with holds | ⟨-, brings⟩
    · have older := Heap.lt_of_heldBy holds
      rcases ih (Heap.alive_iff.2 ⟨Heap.lt_of_heldBy held, path⟩) with lives | ⟨-, new⟩
      · exact .inl (Heap.alive_iff_held.2
          ⟨Nat.lt_trans (h.older s' r holds) older, .inr ⟨s', lives, holds⟩⟩)
      · exact absurd new (Nat.ne_of_lt older)
    · exact .inl (possible r brings)

/-- **A command that can happen leaves a session orderly.** -/
theorem step (h : s.Orderly) (possible : ∀ r, c.Brings r → s.alive r = true) :
    (s.step K c).value.1.Orderly where
  tidy := h.tidy.step K c
  within r mem := by
    rw [cells_step, List.length_append]
    rcases h.roots_step possible mem with alive | ⟨creates, rfl⟩
    · exact Nat.lt_add_right _ (Heap.alive_iff.1 alive).1
    · obtain ⟨made, creates⟩ := Option.isSome_iff_exists.1 creates
      rw [creates]
      exact Nat.lt_succ_self _
  older s' r held := by
    rcases heldBy_step held with held | ⟨rfl, brings⟩
    · exact h.older s' r held
    · exact (Heap.alive_iff.1 (possible r brings)).1

end Orderly

theorem orderly_after (possible : Possible K history) : (after K history).Orderly := by
  induction history with
  | nil => exact ⟨⟨.nil, .nil⟩, fun r mem => (Bool.false_ne_true mem).elim,
      fun s r held => (Bool.false_ne_true held).elim⟩
  | cons c past ih => exact (ih possible.2).step possible.1

theorem length_made_le (later history : List (Command C)) :
    (made history).length ≤ (made (later ++ history)).length := by
  induction later with
  | nil => exact Nat.le_refl _
  | cons c later ih =>
    refine ih.trans ?_
    rw [List.cons_append, made, List.length_append]
    exact Nat.le_add_right _ _

/-- **What is dead stays dead**, whatever is done later. -/
theorem alive_of_alive_later {later : List (Command C)} (possible : Possible K (later ++ history))
    (lt : r < (made history).length) (alive : (after K (later ++ history)).alive r = true) :
    (after K history).alive r = true := by
  induction later with
  | nil => exact alive
  | cons c later ih =>
    refine ih possible.2 (((orderly_after possible.2).alive_step possible.1 alive).resolve_right ?_)
    rintro ⟨-, new⟩
    rw [cells_after] at new
    exact absurd new (Nat.ne_of_lt (Nat.lt_of_lt_of_le lt (length_made_le later history)))

/-! ## Reads -/

/-- **A settled session**: no read of an object is in flight. -/
def Settled (s : Session C) : Prop := ∀ e ∈ s.activity, e.2.inFlight = 0

/-- No command itself changes what is in flight. -/
theorem Settled.run (h : s.Settled) (K : Converters C) (c : Command C) :
    (s.run K c).value.1.Settled := by
  have letGo (name : String) : (s.letGo name).Settled := by
    unfold Session.letGo
    split <;> exact h
  have start : (s.stored c).Settled := stored_induction h letGo fun name cell =>
    List.forall_mem_cons.2 ⟨rfl, letGo name⟩
  refine run_induction K start fun before change => ?_
  cases change with
  | put | drop | begin | ends => exact before
  | restart r =>
    refine List.forall_mem_map.2 fun e mem => ?_
    dsimp only
    split <;> exact before e mem

/-- **What a command reports** leaves no read in flight. -/
theorem step_balanced (quiet : K.Quiet) (s : Session C) (c : Command C) (r : Ref) :
    Event.Balanced r (s.step K c).log := by
  have nothing : Event.Balanced r ([] : List (Event C)) := OnlyDiagnostics.nil.balanced r
  cases c with
  | begin future slot shape elem =>
    cases stored : s.slot? slot with
    | none =>
      unfold step
      rw [Session.run, stored]
      exact nothing
    | some v =>
      rw [(begin_step K stored future shape elem).1]
      exact (Variant.begin_log _).balanced r
  | finish future =>
    unfold step
    rw [Session.run]
    cases s.pending.lookup future with
    | none => exact nothing
    | some f =>
      show Event.Balanced r ((f.finish (s.setting K) _).log ++ [])
      rw [List.append_nil]
      exact f.finish_balanced (S := s.setting K) quiet _ r
  | assignVariant slot source | clone slot source =>
    unfold step
    rw [Session.run]
    cases s.slot? source <;> exact nothing
  | swap a b =>
    unfold step
    rw [Session.run]
    cases s.slot? a <;> cases s.slot? b <;> exact nothing
  | restartActivity name =>
    unfold step
    rw [Session.run]
    cases s.ref? name <;> exact nothing
  | _ => exact nothing

/-- **Every command leaves a session settled.** -/
theorem Settled.step (h : s.Settled) (quiet : K.Quiet) (c : Command C) :
    (s.step K c).value.1.Settled := by
  refine List.forall_mem_map.2 fun e mem => ?_
  exact ((step_balanced quiet s c e.1).inFlight_observe e.2).trans (h.run K c e mem)

theorem settled_after (quiet : K.Quiet) (history : List (Command C)) :
    (after K history).Settled := by
  induction history with
  | nil => exact List.forall_mem_nil _
  | cons c past ih => exact ih.step quiet c

theorem Settled.inFlight_eq (h : s.Settled) (r : Ref) : (s.activityOf r).inFlight = 0 := by
  rw [activityOf]
  cases found : s.activity.lookup r with
  | none => rfl
  | some a =>
    obtain ⟨before, behind, same, -⟩ := List.lookup_eq_some_iff.1 found
    exact h (r, a) (same ▸ List.mem_append_right _ List.mem_cons_self)

/-! ## The main statement -/

/-- **Who owns a reference** after a history, if only what is living holds what is in
it: the caller by a handle of its own, a slot by its contents, what was made and is
living, or a conversion that is begun by what it was lent. -/
inductive Owned (K : Converters C) (history : List (Command C)) (living : Ref → Prop) (r : Ref) :
    Prop
  | caller {name : String} (keeps : handle history name = some r)
  | slot {slot : String} {x : Construction C} (contents : origin history slot = some x)
      (held : x.build.holds r = true)
  | cell {s : Ref} {cell : Cell C} (lives : living s) (was : (made history)[s]? = some cell)
      (held : cell.holds r = true)
  | conversion {future : String} {a : Asked C} (begun : asked history future = some a)
      (lent : a.Lent K r)

/-- The owners are the session itself and what it has made. -/
theorem owned_iff {living : Ref → Prop} : Owned K history living r
    ↔ (after K history).roots r = true
      ∨ ∃ s, living s ∧ (after K history).heap.heldBy s r = true := by
  have heldBy (s : Ref) : (after K history).heap.heldBy s r = true
      ↔ ∃ cell, (made history)[s]? = some cell ∧ cell.holds r = true := by
    rw [Heap.heldBy, cells_after]
    cases (made history)[s]? with
    | none =>
      refine ⟨fun held => (Bool.false_ne_true held).elim, ?_⟩
      rintro ⟨_, ⟨⟩, _⟩
    | some cell =>
      refine ⟨fun held => ⟨cell, rfl, held⟩, ?_⟩
      rintro ⟨_, ⟨⟩, held⟩
      exact held
  rw [roots_after]
  constructor
  · rintro (keeps | ⟨contents, held⟩ | ⟨lives, was, held⟩ | ⟨begun, lent⟩)
    · exact .inl (.inl ⟨_, keeps⟩)
    · exact .inl (.inr (.inl ⟨_, _, contents, held⟩))
    · exact .inr ⟨_, lives, (heldBy _).2 ⟨_, was, held⟩⟩
    · exact .inl (.inr (.inr ⟨_, _, begun, lent⟩))
  · rintro ((⟨_, keeps⟩ | ⟨_, x, contents, held⟩ | ⟨_, a, begun, lent⟩) | ⟨s, lives, held⟩)
    · exact .caller keeps
    · exact .slot contents held
    · exact .conversion begun lent
    · obtain ⟨cell, was, held⟩ := (heldBy s).1 held
      exact .cell lives was held

/-- **Ownership is exact.** After every history that a caller can have, something is
alive exactly if it is owned: kept by the caller itself, held by what the contents of a slot
go back to, held by something alive, or lent to a conversion that is begun and neither
finished nor given up. There is only one way to be alive by this rule, so nothing that
is overwritten, dropped or ended keeps anything alive, and what is dead stays dead.
No read of an object is in flight then, and none is left by a conversion that is given
up at any time. -/
theorem alive_iff_owned (quiet : K.Quiet) (possible : Possible K history) :
    (∀ r, (after K history).alive r = true
      ↔ Owned K history (fun s => (after K history).alive s = true) r)
    ∧ (∀ living : Ref → Prop, (∀ r, living r ↔ Owned K history living r) →
      ∀ r, living r ↔ (after K history).alive r = true)
    ∧ (∀ later r, Possible K (later ++ history) → r < (made history).length →
      (after K (later ++ history)).alive r = true → (after K history).alive r = true)
    ∧ (∀ r, ((after K history).activityOf r).inFlight = 0)
    ∧ ∀ (f : Pending C) surroundings r,
      Event.Balanced r (f.abandon ((after K history).setting K) surroundings).log := by
  have orderly := orderly_after possible
  refine ⟨fun r => ?_, fun living owned r => ?_, fun later r => alive_of_alive_later,
    (settled_after quiet history).inFlight_eq, fun f surroundings r => ?_⟩
  · rw [owned_iff, alive, Heap.alive_iff_held]
    refine and_iff_right_of_imp fun held => ?_
    rcases held with mem | ⟨s, -, held⟩
    · exact orderly.within r mem
    · exact Nat.lt_trans (orderly.older s r held) (Heap.lt_of_heldBy held)
  · exact orderly.older.alive_unique orderly.within (fun r => (owned r).trans owned_iff) r
  · exact f.abandon_balanced (S := (after K history).setting K) quiet surroundings r

/-- An object that the caller has let go of after it asked a weak reference to it for
its elements. -/
def entrusted : List (Command .none) :=
  [.release "o", .begin "f" "x" (.sequence .vector) .bool, .make "x" (.ofWeak .externalObject 0),
    .object "o" .slowFlags]

/-- Only the conversion keeps the object alive, so that it is dead when that is given
up. -/
theorem alive_iff_owned_entrusted :
    Possible (.refusing .none) entrusted
    ∧ (after (.refusing .none) entrusted).alive 0 = true
    ∧ (after (.refusing .none) (.cancel "f" :: entrusted)).alive 0 = false := by
  have nothing (c : Command .none) (past : List (Command .none))
      (brings : ∀ r, ¬ c.Brings r) (possible : Possible (.refusing .none) past) :
      Possible (.refusing .none) (c :: past) := ⟨fun r h => (brings r h).elim, possible⟩
  have possible : Possible (.refusing .none) entrusted := by
    refine nothing _ _ ?_ <| nothing _ _ ?_ <| nothing _ _ ?_ <| nothing _ _ ?_ trivial
    all_goals
      rintro r (⟨receives, held⟩ | ⟨creates, held⟩)
      · cases receives <;> cases held
      · cases creates <;> cases held
  refine ⟨possible, ?_, rfl⟩
  have quiet : (Converters.refusing .none).Quiet := fun tag => nomatch tag
  have begun : asked entrusted "f"
      = some ⟨entrusted.drop 2, .ofWeak .externalObject 0, .sequence .vector, .bool⟩ := rfl
  exact ((alive_iff_owned quiet possible).1 0).2 (.conversion begun (.weak rfl rfl))

end Session

end DynValue

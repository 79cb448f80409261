import DynValue.Proofs.Container.Bounds
import DynValue.Proofs.Schedule.Soonest

/-!
# Conversions that settle

A conversion to a container settles if the conversions of its entries do.
From the outcomes of the entries, by number, follows its own: the container
of all results, or a failure (`Ends`).

For an object the failure is that of the **first** entry that fails, since
the entries go through a window (`Stage.object_settles`). For a list or a
dictionary it is the failure that is met, the first of many entries and the
soonest of few (`Stage.list_settles`, `Stage.dictionary_settles`).
-/

namespace DynValue

open Schedule
open RefSet (Between Below)

variable {C : CallerTypes} {base R : RefSet} {top : Ref → Prop}

/-- A conversion's states as tasks. -/
def Conversion.kind (c : Conversion C) :
    TaskKind (Event C) (CastError C) c.State (Payload C) where
  poll := c.poll
  holds := c.holds
  resultHolds := Payload.holds
  dropped := c.dropped

/-- **The conversion of a variant settles**: between the bounds it starts in
one state, and that settles. -/
def Conversion.Settles (c : Conversion C) (base : RefSet) (top : Ref → Prop) (v : Variant C)
    (o : Except (CastError C) (Payload C)) (n : Nat) : Prop :=
  ∃ s, (∀ {R}, Between base top R → (c.start R v).value = s) ∧ c.kind.Settles base top s o n

theorem Conversion.Settles.narrow {c : Conversion C} {base' : RefSet} {v : Variant C}
    {o : Except (CastError C) (Payload C)} {n : Nat} (h : c.Settles base top v o n)
    (le : ∀ r, base r = true → base' r = true) : c.Settles base' top v o n := by
  obtain ⟨s, starts, settles⟩ := h
  exact ⟨s, fun hR => starts ⟨fun r hr => hR.above r (le r hr), hR.below⟩, settles.narrow le⟩

/-! ## Entries -/

namespace Entry

variable {S : Setting C} {elem : Conversion C} {o : Except (CastError C) (Payload C)}
  {n : Nat} {v : Variant C}

theorem value_of_pending {read : Option Read} {s s' : elem.State}
    (h : (elem.poll R s).value = .pending s') :
    (pollConverting elem R read s).value = .pending (.converting read s') := by
  rw [pollConverting, Logged.value_bind, h]
  rfl

theorem value_of_ready {read : Option Read} {s : elem.State}
    (h : (elem.poll R s).value = .ready o) :
    (pollConverting elem R read s).value = .ready o := by
  rw [pollConverting, Logged.value_bind, h]
  cases o <;> rfl

/-- An entry that is being converted settles as its conversion does. -/
theorem converting_settles {s : elem.State} (h : elem.kind.Settles base top s o n)
    (read : Option Read) :
    (Entry.kind S elem).Settles base top (.converting read s) o n := by
  induction h with
  | ready holds kept polled => exact .ready holds kept (fun hR => value_of_ready (polled hR))
  | pending holds polled _ ih => exact .pending holds (fun hR => value_of_pending (polled hR)) ih

theorem stored_settles (h : elem.Settles base top v o n) (hv : v.holds.Below top) :
    (Entry.kind S elem).Settles base top (.stored v) o n := by
  obtain ⟨s, starts, settles⟩ := h
  refine (converting_settles settles none).of_same_poll hv (fun hR => ?_)
  show (elem.start _ v >>= fun s => pollConverting elem _ none s).value = _
  rw [Logged.value_bind, starts hR]
  rfl

/-- **An entry that is read** waits for the answer, then as long as the
conversion of the answer. -/
theorem reading_settles {r : Ref} {read : Read}
    (h : elem.Settles base top (answer (S.heap.object r) read) o n) (hr : top r) (left : Nat) :
    (Entry.kind S elem).Settles base top (.reading r read (some left)) o (left + n) := by
  induction left with
  | zero =>
    obtain ⟨s, starts, settles⟩ := h
    rw [Nat.zero_add]
    refine (converting_settles settles (some read)).of_same_poll (.single hr) (fun hR => ?_)
    show (elem.start _ (answer (S.heap.object r) read)
      >>= fun s => pollConverting elem _ (some read) s).value = _
    rw [Logged.value_bind, starts hR]
    rfl
  | succ left ih =>
    rw [Nat.add_right_comm]
    exact .pending (.single hr) (fun _ => rfl) ih

/-- The same from the beginning. -/
theorem fresh_settles {r : Ref} {read : Read}
    (h : elem.Settles base top (answer (S.heap.object r) read) o n) (hr : top r) :
    (Entry.kind S elem).Settles base top (.reading r read none) o
      ((S.heap.object r).delayOf read + n) :=
  (reading_settles h hr _).of_same_poll (.single hr) (fun _ => rfl)

end Entry

/-! ## Containers of what is held -/

namespace Payload

theorem mem_insertEntry {key : String} {p : Payload C} {es : List (String × Payload C)}
    {e : String × Payload C} (h : e ∈ insertEntry key p es) : e = (key, p) ∨ e ∈ es := by
  fun_induction insertEntry key p es <;> simp_all
  all_goals grind

/-- A mapping has no other values than those of its pairs. -/
theorem mem_of_mem_foldl_insertEntry {pairs es : List (String × Payload C)}
    {e : String × Payload C}
    (h : e ∈ pairs.foldl (fun es e => insertEntry e.1 e.2 es) es) : e ∈ pairs ∨ e ∈ es := by
  induction pairs generalizing es with
  | nil => exact .inr h
  | cons pair pairs ih =>
    rcases ih h with h | h
    · exact .inl (List.mem_cons_of_mem _ h)
    · rcases mem_insertEntry h with rfl | h
      · exact .inl List.mem_cons_self
      · exact .inr h

end Payload

/-- **A container holds what its values hold.** -/
theorem Shape.holds_assemble {shape : Shape} {t : Ty C} {keys : List String}
    {values : List (Payload C)} (h : ∀ p ∈ values, p.holds.Below top) :
    (shape.assemble t keys values).holds.Below top := by
  intro r hr
  cases shape with
  | sequence k =>
    obtain ⟨p, hp, hr⟩ := Payload.listHolds_iff.1 hr
    exact h p hp r hr
  | mapping k =>
    obtain ⟨e, he, hr⟩ := Payload.entriesHold_iff.1 hr
    have mem := (Payload.mem_of_mem_foldl_insertEntry he).resolve_right List.not_mem_nil
    exact h e.2 (List.of_mem_zip mem).2 r hr

/-! ## Objects -/

namespace Contents

theorem read?_eq_none_iff {contents : Contents} {n : Nat} :
    contents.read? n = none ↔ contents.count ≤ n := by
  cases contents with
  | elements count => simp [read?, Contents.count]
  | properties keys => simp [read?, Contents.count]

/-- The entries of an object, as tasks to begin. -/
def entries {σ : Type} (r : Ref) (contents : Contents) (n : Nat) : Option (Entry C σ) :=
  (contents.read? n).map fun read => .reading r read none

theorem entries_eq_none_iff {σ : Type} {r : Ref} {contents : Contents} {n : Nat} :
    (contents.entries r n : Option (Entry C σ)) = none ↔ contents.count ≤ n := by
  rw [entries, Option.map_eq_none_iff, read?_eq_none_iff]

end Contents

/-- **The outcome of a container** whose entries have outcomes by number:
assembled from the results, or one of the given failures. -/
def Ends (shape : Shape) (t : Ty C) (keys : List String)
    (fails : (Nat → Except (CastError C) (Payload C)) → Nat → CastError C → Prop)
    (out : Nat → Except (CastError C) (Payload C)) (total : Nat) :
    Except (CastError C) (Payload C) → Prop
  | .ok p => ∃ values, Gathers out total values ∧ p = shape.assemble t keys values
  | .error e => fails out total e

namespace Stage

variable {S : Setting C} {shape : Shape} {t : Ty C} {elem : Conversion C} {r : Ref}
  {contents : Contents} {out : Nat → Except (CastError C) (Payload C)} {unit : Nat}
  {waits : Nat → Nat}

theorem pollReading_value (w : Window (CastError C) (Entry C elem.State) (Payload C)) :
    (pollReading S shape t elem R r contents w).value
      = match (w.run (Entry.kind S elem) windowWidth (contents.entries r)
          (RefSet.union R (RefSet.single r)) (contents.count - w.delivered.size + 1)).value with
        | .pending w' => .pending (.reading r contents w')
        | .ready (.ok values) =>
          .ready (.ok (shape.assemble t contents.keys values.toList))
        | .ready (.error e) => .ready (.error e) := by
  show Logged.value (Bind.bind (w.run (Entry.kind S elem) windowWidth (contents.entries r)
    (RefSet.union R (RefSet.single r)) (contents.count - w.delivered.size + 1)) _) = _
  rw [Logged.value_bind]
  generalize (w.run (Entry.kind S elem) _ _ _ _).value = x
  rcases x with (e | a) | w' <;> rfl

/-- What an entry that succeeds gives is not past the upper bound. -/
theorem holds_of_gathers {total : Nat} {values : List (Payload C)}
    (kept : ∀ k a, k < total → out k = .ok a → a.holds.Below top)
    (h : Gathers out total values) : ∀ p ∈ values, p.holds.Below top := by
  intro p hp
  obtain ⟨k, hk⟩ := List.mem_iff_getElem?.1 hp
  have lt : k < total := by
    rw [← h.length_eq]
    exact (List.getElem?_eq_some_iff.1 hk).1
  obtain ⟨a, ha, same⟩ := h.getElem? lt
  obtain rfl := Option.some.inj (hk.symm.trans ha)
  exact kept k p lt same

/-- **Reading the entries of an object** settles if each entry does, with all
results or with the first failure. -/
theorem reading_settles (hr : top r) (hb : base.Below top)
    (entries : ∀ k read, contents.read? k = some read → ∃ n ≤ unit,
      (Entry.kind S elem).Settles (RefSet.union base (RefSet.single r)) top
        (.reading r read none) (out k) n) :
    ∃ o, ∃ n ≤ contents.count * unit,
      (Conversion.container S shape t elem).kind.Settles base top
        (.reading r contents .start) o n
      ∧ Ends shape t contents.keys FailsFirst out contents.count o := by
  have hb' : (RefSet.union base (RefSet.single r)).Below top := hb.union (.single hr)
  have around : ∀ {R}, Between base top R →
      Between (RefSet.union base (RefSet.single r)) top (RefSet.union R (RefSet.single r)) := by
    intro R hR
    refine ⟨fun r' h => ?_, hR.below.union (.single hr)⟩
    rw [RefSet.union_apply, Bool.or_eq_true] at h ⊢
    exact h.imp_left (hR.above r')
  have settles : ∀ n (task : Entry C elem.State), contents.entries r n = some task →
      ∃ m ≤ unit, (Entry.kind S elem).Settles (RefSet.union base (RefSet.single r)) top task
        (out n) m := by
    intro n task h
    obtain ⟨read, hread, rfl⟩ := Option.map_eq_some_iff.1 h
    exact entries n read hread
  have bound : ∀ n (task : Entry C elem.State), contents.entries r n = some task →
      (Entry.kind S elem).waits (RefSet.union base (RefSet.single r)) top task ≤ unit := by
    intro n task h
    obtain ⟨m, le, settles⟩ := settles n task h
    rwa [settles.waits_eq hb']
  have kept : ∀ k a, k < contents.count → out k = .ok a → a.holds.Below top := by
    intro k a hk same
    obtain ⟨read, hread⟩ := Option.ne_none_iff_exists'.1
      (mt Contents.read?_eq_none_iff.1 (Nat.not_le_of_lt hk))
    obtain ⟨n, -, settles⟩ := entries k read hread
    have := settles.kept
    rwa [same] at this
  -- the window stays orderly, and every wait uses up one of those still to come
  refine TaskKind.settles_of_measure (P := fun n stage => ∃ w : Window _ _ _,
    stage = .reading r contents w
      ∧ w.Orderly (Entry.kind S elem) (RefSet.union base (RefSet.single r)) top out
        contents.count windowWidth (contents.entries r)
      ∧ w.waits (Entry.kind S elem) (RefSet.union base (RefSet.single r)) top
        contents.count unit ≤ n) ?_ ?_ ?_ ⟨.start, rfl, ?_, (Window.waits_start).le⟩
  · rintro n _ ⟨w, rfl, h, -⟩
    exact (Below.single hr).union (h.due.queue.holds.union h.due.held)
  · rintro n _ R ⟨w, rfl, h, -⟩ hR
    show (pollReading S shape t elem R r contents w).value
      = (pollReading S shape t elem base r contents w).value
    rw [pollReading_value, pollReading_value,
      Window.run_value_eq h.due (around hR) (around (.self hb))]
  · rintro n _ ⟨w, rfl, h, le⟩
    have cases := h.run_cases hb' (around (.self hb)) bound (Nat.lt_succ_self _)
    show (∃ m s', (pollReading S shape t elem base r contents w).value = .pending s' ∧ _)
      ∨ ∃ o, (pollReading S shape t elem base r contents w).value = .ready o ∧ _
    rw [pollReading_value]
    rcases cases with ⟨w', run, h', less⟩ | ⟨values, run, all⟩ | ⟨e, run, first⟩
    · rw [run]
      exact .inl ⟨_, _, rfl, Nat.lt_of_lt_of_le less le, w', rfl, h', Nat.le_refl _⟩
    · rw [run]
      exact .inr ⟨_, rfl, Shape.holds_assemble (holds_of_gathers kept all), _, all, rfl⟩
    · rw [run]
      exact .inr ⟨_, rfl, .none, first⟩
  · exact .start (fun n task h => (settles n task h).imp fun _ h => h.2)
      (fun n => Contents.entries_eq_none_iff) (by decide)

/-- **The conversion of an object** asks for its size, then reads its
entries. -/
theorem object_settles (hr : top r) (hb : base.Below top)
    (entries : ∀ k read, (Contents.ofObject shape (S.heap.object r)).read? k = some read →
      ∃ n ≤ unit, (Entry.kind S elem).Settles (RefSet.union base (RefSet.single r)) top
        (.reading r read none) (out k) n) :
    ∃ o, ∃ n ≤ (S.heap.object r).delayOf shape.sizeRead
        + (Contents.ofObject shape (S.heap.object r)).count * unit,
      (Conversion.container S shape t elem).kind.Settles base top
        (.begun (.sourced (.object r))) o n
      ∧ Ends shape t (Contents.ofObject shape (S.heap.object r)).keys FailsFirst out
        (Contents.ofObject shape (S.heap.object r)).count o := by
  obtain ⟨o, n, le, settles, ends⟩ := reading_settles hr hb entries
  have sizing : ∀ left, (Conversion.container S shape t elem).kind.Settles base top
      (.sizing r left) o (left + n) := by
    intro left
    induction left with
    | zero =>
      rw [Nat.zero_add]
      exact settles.of_same_poll (.single hr) (fun _ => rfl)
    | succ left ih =>
      rw [Nat.add_right_comm]
      exact .pending (.single hr) (fun _ => rfl) ih
  exact ⟨o, _, Nat.add_le_add_left le _,
    (sizing _).of_same_poll (.single hr) (fun _ => rfl), ends⟩

/-! ## Lists and dictionaries -/

theorem pollJoining_value (keys : List String)
    (join : Join (CastError C) (Entry C elem.State) (Payload C)) :
    (pollJoining S shape t elem R keys join).value
      = match (join.poll (Entry.kind S elem) R).value with
        | .pending join' => .pending (.joining keys join')
        | .ready (.ok values) => .ready (.ok (shape.assemble t keys values))
        | .ready (.error e) => .ready (.error e) := by
  rw [pollJoining, Logged.value_bind]
  generalize (join.poll (Entry.kind S elem) R).value = x
  rcases x with (e | a) | join' <;> rfl

/-- **Converting entries in memory** settles if each entry does, with all
results or with the failure that is met. -/
theorem joining_settles (hb : base.Below top) {keys : List String}
    {tasks : List (Entry C elem.State)}
    (entries : ∀ k task, tasks[k]? = some task → waits k ≤ unit
      ∧ (Entry.kind S elem).Settles base top task (out k) (waits k)) :
    ∃ o, ∃ n ≤ tasks.length * unit,
      (Conversion.container S shape t elem).kind.Settles base top
        (.joining keys (.ofList tasks)) o n
      ∧ Ends shape t keys (FailsMet waits) out tasks.length o := by
  have bound : ∀ task ∈ tasks, (Entry.kind S elem).waits base top task ≤ unit := by
    intro task h
    obtain ⟨k, hk⟩ := List.mem_iff_getElem?.1 h
    obtain ⟨le, settles⟩ := entries k task hk
    rwa [settles.waits_eq hb]
  have kept : ∀ k a, k < tasks.length → out k = .ok a → a.holds.Below top := by
    intro k a hk same
    have := (entries k _ (List.getElem?_eq_getElem hk)).2.kept
    rwa [same] at this
  refine TaskKind.settles_of_measure (P := fun n stage => ∃ join : Join _ _ _,
    stage = .joining keys join
      ∧ join.Timed (Entry.kind S elem) base top waits out tasks.length
      ∧ join.waits (Entry.kind S elem) base top tasks.length ≤ n) ?_ ?_ ?_
    ⟨.ofList tasks, rfl, ?_, Join.Orderly.waits_ofList_le bound⟩
  · rintro n _ ⟨join, rfl, h, -⟩
    exact h.orderly.due.holds
  · rintro n _ R ⟨join, rfl, h, -⟩ hR
    show (pollJoining S shape t elem R keys join).value
      = (pollJoining S shape t elem base keys join).value
    rw [pollJoining_value, pollJoining_value, Join.poll_value_eq h.orderly.due hR (.self hb)]
  · rintro n _ ⟨join, rfl, h, le⟩
    have cases := h.poll_cases hb (.self hb)
    show (∃ m s', (pollJoining S shape t elem base keys join).value = .pending s' ∧ _)
      ∨ ∃ o, (pollJoining S shape t elem base keys join).value = .ready o ∧ _
    rw [pollJoining_value]
    rcases cases with ⟨join', poll, h', less⟩ | ⟨values, poll, all⟩ | ⟨e, poll, met⟩
    · rw [poll]
      exact .inl ⟨_, _, rfl, Nat.lt_of_lt_of_le less le, join', rfl, h', Nat.le_refl _⟩
    · rw [poll]
      exact .inr ⟨_, rfl, Shape.holds_assemble (holds_of_gathers kept all), _, all, rfl⟩
    · rw [poll]
      exact .inr ⟨_, rfl, .none, met⟩
  · exact .ofList fun n task h => (entries n task h).2

/-- All items of a list start as they start alone. -/
theorem startAll_value {items : List (Variant C)} {started : List elem.State}
    (hR : Between base top R) (hb : base.Below top)
    (hs : ∀ s ∈ started, (elem.holds s).Below top)
    (h : ∀ v ∈ items, v.holds.Below top ∧ ∃ o n, elem.Settles base top v o n) :
    (startAll elem R started items).value
      = started.reverse ++ items.map fun v => (elem.start base v).value := by
  induction items generalizing started with
  | nil => exact (List.append_nil _).symm
  | cons v items ih =>
    have behind : ∀ w ∈ items, w.holds.Below top ∧ ∃ o n, elem.Settles base top w o n :=
      fun w hw => h w (List.mem_cons_of_mem _ hw)
    obtain ⟨o, n, s, starts, settles⟩ := (h v List.mem_cons_self).2
    have around : Between base top (RefSet.union R (RefSet.union
        (RefSet.unionOf elem.holds started) (RefSet.unionOf Variant.holds items))) :=
      hR.union (.union (.unionOf hs) (.unionOf fun w hw => (behind w hw).1))
    rw [startAll, Logged.value_bind, starts around, List.map_cons, starts (.self hb),
      ih (List.forall_mem_cons.2 ⟨settles.holds, hs⟩) behind, List.reverse_cons,
      List.append_assoc]
    rfl

/-- **The conversion of a list** starts all its items at once. -/
theorem list_settles {k : SeqKind} {items : List (Variant C)} (hb : base.Below top)
    (entries : ∀ n v, items[n]? = some v →
      v.holds.Below top ∧ waits n ≤ unit ∧ elem.Settles base top v (out n) (waits n)) :
    ∃ o, ∃ n ≤ items.length * unit,
      (Conversion.container S (.sequence k) t elem).kind.Settles base top
        (.begun (.sourced (.list items))) o n
      ∧ Ends (.sequence k) t [] (FailsMet waits) out items.length o := by
  have each : ∀ v ∈ items, v.holds.Below top ∧ ∃ o n, elem.Settles base top v o n := by
    intro v hv
    obtain ⟨n, hn⟩ := List.mem_iff_getElem?.1 hv
    obtain ⟨holds, -, settles⟩ := entries n v hn
    exact ⟨holds, _, _, settles⟩
  have converting : ∀ n task,
      ((items.map fun v => (elem.start base v).value).map
        (Entry.converting none : elem.State → Entry C elem.State))[n]? = some task →
      waits n ≤ unit ∧ (Entry.kind S elem).Settles base top task (out n) (waits n) := by
    intro n task h
    rw [List.map_map, List.getElem?_map] at h
    obtain ⟨v, hv, rfl⟩ := Option.map_eq_some_iff.1 h
    obtain ⟨-, le, s, starts, settles⟩ := entries n v hv
    refine ⟨le, ?_⟩
    rw [Function.comp_apply, starts (.self hb)]
    exact Entry.converting_settles settles none
  obtain ⟨o, n, le, settles, ends⟩ :=
    joining_settles hb converting
  rw [List.length_map, List.length_map] at le ends
  refine ⟨o, n, le, settles.of_same_poll (.unionOf fun v hv => (each v hv).1) ?_, ends⟩
  intro R hR
  show (Stage.startAll elem R [] items >>= fun states => pollJoining S (.sequence k) t elem R []
    (.ofList (states.map (.converting none)))).value = _
  rw [Logged.value_bind, startAll_value hR hb (List.forall_mem_nil _) each]
  rfl

/-- **The conversion of a dictionary** starts an entry when it is polled. -/
theorem dictionary_settles {k : MapKind} {items : List (String × Variant C)}
    (hb : base.Below top)
    (entries : ∀ n e, items[n]? = some e →
      e.2.holds.Below top ∧ waits n ≤ unit ∧ elem.Settles base top e.2 (out n) (waits n)) :
    ∃ o, ∃ n ≤ items.length * unit,
      (Conversion.container S (.mapping k) t elem).kind.Settles base top
        (.begun (.sourced (.dictionary items))) o n
      ∧ Ends (.mapping k) t (items.map Prod.fst) (FailsMet waits) out items.length o := by
  have stored : ∀ n task, (items.map fun e => (Entry.stored e.2 : Entry C elem.State))[n]?
      = some task →
        waits n ≤ unit ∧ (Entry.kind S elem).Settles base top task (out n) (waits n) := by
    intro n task h
    rw [List.getElem?_map] at h
    obtain ⟨e, he, rfl⟩ := Option.map_eq_some_iff.1 h
    obtain ⟨holds, le, settles⟩ := entries n e he
    exact ⟨le, Entry.stored_settles settles holds⟩
  obtain ⟨o, n, le, settles, ends⟩ :=
    joining_settles hb stored
  rw [List.length_map] at le ends
  refine ⟨o, n, le, settles.of_same_poll (.unionOf fun e he => ?_) (fun _ => rfl), ends⟩
  obtain ⟨n, hn⟩ := List.mem_iff_getElem?.1 he
  exact (entries n e hn).1

end Stage

end DynValue

import DynValue.Proofs.Container.Load
import DynValue.Proofs.Schedule.Lives

/-!
# What is reported in the life of a conversion

A conversion that is driven to its end, or dropped before, reports what is
listed here by cases: that of a container by its source (`Stage.Story`), with
the lives of its entries taken apart, that of an entry by how it is read
(`Entry.life_fresh`, `Entry.life_inMemory`), and that of a scalar all at once
(`Conversion.scalar_life`). Everything is given in terms of the lives of the
conversions of the elements, so that what is to be said of all that a conversion
reports is shown by induction on the type.
-/

namespace DynValue

open Schedule

variable {C : CallerTypes}

/-- **The life of the conversion of a variant**, from its start. -/
def Conversion.Progress.LifeOf {c : Conversion C} (k : c.Progress (Event C)) (v : Variant C) :
    List (Event C) → Option (Except (CastError C) (Payload C)) → Prop :=
  k.toCourse.Lifetime (k.starts v)

/-! ## Entries -/

namespace Entry

variable {S : Setting C} {elem : Conversion C} {k : elem.Progress (Event C)} {r : Ref}
  {read : Read} {reports : List (Event C)} {o : Option (Except (CastError C) (Payload C))}

/-- What is reported when an entry has failed that was read. -/
def afterwards (read : Option Read) : Option (Except (CastError C) (Payload C)) → List (Event C)
  | some (.error e) => failure? read e
  | _ => []

/-- **An entry that is being converted** lives as its conversion does. -/
theorem life_converting {read : Option Read} {s : elem.State}
    (life : (course S id k).Life (.converting read s) reports o) :
    ∃ inner, k.toCourse.Life s inner o ∧ reports = inner ++ afterwards read o := by
  have along {reports : List (Event C)} {e : Entry C elem.State}
      (path : Trail (Step S id k) (.converting read s) reports e) :
      ∃ s', e = .converting read s' ∧ Trail k.moves s reports s' := by
    induction path with
    | refl => exact ⟨s, rfl, .refl s⟩
    | tail _ last ih =>
      obtain ⟨s', rfl, inside⟩ := ih
      cases last with
      | converts move => exact ⟨_, rfl, inside.tail move⟩
  cases life with
  | ended path ends =>
    obtain ⟨s', rfl, inside⟩ := along path
    cases ends with
    | succeeds ends => exact ⟨_, .ended inside ends, (List.append_nil _).symm⟩
    | fails ends =>
      refine ⟨_, .ended inside ends, ?_⟩
      rw [List.map_id, ← List.append_assoc]
      rfl
  | dropped path =>
    obtain ⟨s', rfl, inside⟩ := along path
    exact ⟨_, .dropped inside, (List.append_nil _).symm⟩

/-- **A read that is begun** is over when it is answered or dropped. -/
theorem life_asked {left : Nat}
    (life : (course S id k).Life (.reading r read (some left)) reports o) :
    o = none ∧ reports = [.ended r read]
      ∨ ∃ inner, k.LifeOf (answer (S.heap.object r) read) inner o
        ∧ reports = .ended r read :: (inner ++ afterwards (some read) o) := by
  induction left generalizing reports with
  | zero =>
    rcases life.cases_head with dropped | ⟨o', -, ends⟩ | ⟨first, e, rest, move, life, rfl⟩
    · exact .inl dropped
    · cases ends
    · cases move with
      | answers starts =>
        obtain ⟨inner, inside, rfl⟩ := life_converting life
        exact .inr ⟨_, .intro starts inside, by rw [List.append_assoc]; rfl⟩
  | succ left ih =>
    rcases life.cases_head with dropped | ⟨o', -, ends⟩ | ⟨first, e, rest, move, life, rfl⟩
    · exact .inl dropped
    · cases ends
    · cases move with
      | waits => exact ih life

/-- If it was not read, nothing is reported besides. -/
theorem life_started {v : Variant C} {first : List (Event C)} {s : elem.State}
    (starts : k.starts v first s) (life : (course S id k).Life (.converting none s) reports o) :
    k.LifeOf v (first ++ reports) o := by
  obtain ⟨inner, inside, rfl⟩ := life_converting life
  have nothing : afterwards none o = [] := by
    cases o with
    | none => rfl
    | some outcome => cases outcome <;> rfl
  rw [nothing, List.append_nil]
  exact .intro starts inside

/-- The birth of an entry of an object. -/
def FreshOf (r : Ref) (contents : Contents) (first : List (Event C)) (e : Entry C elem.State) :
    Prop :=
  first = [] ∧ ∃ n, contents.entries r n = some e

/-- **The entry of an object** is read once or not at all, and then converted. -/
theorem life_fresh {contents : Contents}
    (life : (course S id k).Lifetime (FreshOf r contents) reports o) :
    o = none ∧ reports = []
      ∨ ∃ read n, contents.read? n = some read
        ∧ (o = none ∧ reports = [.began r read, .ended r read]
          ∨ ∃ inner, k.LifeOf (answer (S.heap.object r) read) inner o
            ∧ reports = .began r read :: .ended r read :: (inner ++ afterwards (some read) o)) := by
  obtain ⟨⟨rfl, n, fresh⟩, life⟩ := life
  obtain ⟨read, found, rfl⟩ := Option.map_eq_some_iff.1 fresh
  rcases life.cases_head with dropped | ⟨o', -, ends⟩ | ⟨first, e, rest, move, life, rfl⟩
  · exact .inl dropped
  · cases ends
  · refine .inr ⟨read, n, found, ?_⟩
    cases move with
    | begins =>
      rcases life_asked life with ⟨none, rfl⟩ | ⟨inner, inside, rfl⟩
      · exact .inl ⟨none, rfl⟩
      · exact .inr ⟨inner, inside, rfl⟩

/-- **The birth of an entry in memory**, one of the given variants: it is started
already, or will be when it is polled. -/
def BornOf (k : elem.Progress (Event C)) (items : List (Variant C)) (first : List (Event C))
    (e : Entry C elem.State) : Prop :=
  ∃ v ∈ items, (∃ s, k.starts v first s ∧ e = .converting none s) ∨ first = [] ∧ e = .stored v

/-- **An entry in memory** is converted if it comes to that. -/
theorem life_inMemory {items : List (Variant C)}
    (life : (course S id k).Lifetime (BornOf k items) reports o) :
    o = none ∧ reports = [] ∨ ∃ v ∈ items, k.LifeOf v reports o := by
  obtain ⟨⟨v, mem, ⟨s, starts, rfl⟩ | ⟨rfl, rfl⟩⟩, life⟩ := life
  · exact .inr ⟨v, mem, life_started starts life⟩
  · rcases life.cases_head with dropped | ⟨o', -, ends⟩ | ⟨first, e, rest, move, later, rfl⟩
    · exact .inl dropped
    · cases ends
    · cases move with
      | takes starts =>
        rw [List.nil_append]
        exact .inr ⟨v, mem, life_started starts later⟩

end Entry

/-! ## Containers -/

namespace Stage

variable {S : Setting C} {shape : Shape} {t : Ty C} {elem : Conversion C}
  {k : elem.Progress (Event C)} {r : Ref} {reports : List (Event C)}
  {o : Option (Except (CastError C) (Payload C))}

/-- **What the conversion of a container reports** once it is asked for, by its
source: nothing unless that has entries, and otherwise what the lives of these
report besides its own. It fails only if one of the entries does, or if the source is
of the other kind. -/
inductive Story (S : Setting C) (shape : Shape) (t : Ty C) (k : elem.Progress (Event C)) :
    Begun C → List (Event C) → Option (Except (CastError C) (Payload C)) → Prop
  | untouched (b : Begun C) : Story S shape t k b [] none
  | settled (outcome : Except (CastError C) (Payload C)) :
      Story S shape t k (.settled outcome) [] (some outcome)
  | refusesList {kind : MapKind} (items : List (Variant C)) (keyed : shape = .mapping kind) :
      Story S shape t k (.sourced (.list items)) []
        (some (.error (CastError.because ⟨.variants, shape.type t, none⟩ .listAsMapping)))
  | refusesDictionary {kind : SeqKind} (entries : List (String × Variant C))
      (ordered : shape = .sequence kind) :
      Story S shape t k (.sourced (.dictionary entries)) []
        (some (.error (CastError.because ⟨.dictionary, shape.type t, none⟩
          .dictionaryAsSequence)))
  | unanswered (r : Ref) :
      Story S shape t k (.sourced (.object r))
        [.began r shape.sizeRead, .ended r shape.sizeRead] none
  | object {r : Ref} {reports : List (Event C)}
      {lives : List (List (Event C) × Option (Except (CastError C) (Payload C)))}
      {o : Option (Except (CastError C) (Payload C))}
      (made : (Entry.course S id k).MadeOf
        (Entry.FreshOf r (Contents.ofObject shape (S.heap.object r))) reports o lives)
      (few : lives.length ≤ (Contents.ofObject shape (S.heap.object r)).count) :
      Story S shape t k (.sourced (.object r))
        (.began r shape.sizeRead :: .ended r shape.sizeRead :: .diagnostic
          ((Contents.ofObject shape (S.heap.object r)).diagnostic (shape.type t)) :: reports) o
  | list {kind : SeqKind} {items : List (Variant C)} {reports : List (Event C)}
      {lives : List (List (Event C) × Option (Except (CastError C) (Payload C)))}
      {o : Option (Except (CastError C) (Payload C))} (ordered : shape = .sequence kind)
      (made : (Entry.course S id k).MadeOf (Entry.BornOf k items) reports o lives)
      (few : lives.length ≤ items.length) :
      Story S shape t k (.sourced (.list items))
        (.diagnostic (.convertingList items.length (shape.type t)) :: reports) o
  | dictionary {kind : MapKind} {entries : List (String × Variant C)}
      {reports : List (Event C)}
      {lives : List (List (Event C) × Option (Except (CastError C) (Payload C)))}
      {o : Option (Except (CastError C) (Payload C))} (keyed : shape = .mapping kind)
      (made : (Entry.course S id k).MadeOf (Entry.BornOf k (entries.map Prod.snd)) reports o
        lives)
      (few : lives.length ≤ entries.length) :
      Story S shape t k (.sourced (.dictionary entries))
        (.diagnostic (.convertingDictionary entries.length (shape.type t)) :: reports) o

/-- **Reading the entries of an object** lives as its window does. -/
theorem life_reading {contents : Contents}
    {w : Window (CastError C) (Entry C elem.State) (Payload C)}
    (life : (progress S shape t id k).Life (.reading r contents w) reports o) :
    ∃ o', (Window.course (Entry.course S id k) windowWidth (contents.entries r)).Life w reports o'
      ∧ o = o'.map (Except.map fun values => shape.assemble t contents.keys values.toList) := by
  have along {reports : List (Event C)} {stage : Stage C elem.State}
      (path : Trail (Step S shape t id k) (.reading r contents w) reports stage) :
      ∃ w', stage = .reading r contents w' ∧ Trail (Window.Step (Entry.course S id k)
        windowWidth (contents.entries r)) w reports w' := by
    induction path with
    | refl => exact ⟨w, rfl, .refl w⟩
    | tail _ last ih =>
      obtain ⟨w', rfl, inside⟩ := ih
      cases last with
      | reads step => exact ⟨_, rfl, inside.tail step⟩
  cases life with
  | ended path ends =>
    obtain ⟨w', rfl, inside⟩ := along path
    cases ends with
    | reading stops => exact ⟨_, .ended inside stops, rfl⟩
  | dropped path =>
    obtain ⟨w', rfl, inside⟩ := along path
    exact ⟨none, .dropped inside, rfl⟩

/-- Converting entries in memory lives as they do together. -/
theorem life_joining {keys : List String}
    {join : Join (CastError C) (Entry C elem.State) (Payload C)}
    (life : (progress S shape t id k).Life (.joining keys join) reports o) :
    ∃ o', (Join.course (Entry.course S id k)).Life join reports o'
      ∧ o = o'.map (Except.map (shape.assemble t keys)) := by
  have along {reports : List (Event C)} {stage : Stage C elem.State}
      (path : Trail (Step S shape t id k) (.joining keys join) reports stage) :
      ∃ join', stage = .joining keys join'
        ∧ Trail (Join.Step (Entry.course S id k)) join reports join' := by
    induction path with
    | refl => exact ⟨join, rfl, .refl join⟩
    | tail _ last ih =>
      obtain ⟨join', rfl, inside⟩ := ih
      cases last with
      | joins step => exact ⟨_, rfl, inside.tail step⟩
  cases life with
  | ended path ends =>
    obtain ⟨join', rfl, inside⟩ := along path
    cases ends with
    | joining stops => exact ⟨_, .ended inside stops, rfl⟩
  | dropped path =>
    obtain ⟨join', rfl, inside⟩ := along path
    exact ⟨none, .dropped inside, rfl⟩

/-- All items of a list are born at once. -/
theorem startsAll_births {items : List (Variant C)} {states : List elem.State}
    (starts : StartsAll k items reports states) :
    ∃ births : List (List (Event C) × Entry C elem.State),
      (∀ b ∈ births, Entry.BornOf k items b.1 b.2)
      ∧ births.map Prod.snd = states.map (.converting none)
      ∧ births.flatMap Prod.fst = reports ∧ births.length = items.length := by
  induction starts with
  | nil => exact ⟨[], List.forall_mem_nil _, rfl, rfl, rfl⟩
  | @cons v items first more s states starts _ ih =>
    obtain ⟨births, born, tasks, reported, length⟩ := ih
    refine ⟨(first, .converting none s) :: births, List.forall_mem_cons.2 ⟨?_, ?_⟩,
      congrArg (_ :: ·) tasks, congrArg (first ++ ·) reported, congrArg (· + 1) length⟩
    · exact ⟨v, List.mem_cons_self, .inl ⟨s, starts, rfl⟩⟩
    · exact fun b mem => (born b mem).imp fun _ => .imp_left (List.mem_cons_of_mem _)

/-- **An object whose size is asked for** has its entries read once that is
answered. -/
theorem life_sizing {left : Nat}
    (life : (progress S shape t id k).Life (.sizing r left) reports o) :
    o = none ∧ reports = [.ended r shape.sizeRead]
      ∨ ∃ lives rest, (Entry.course S id k).MadeOf
          (Entry.FreshOf r (Contents.ofObject shape (S.heap.object r))) rest o lives
        ∧ lives.length ≤ (Contents.ofObject shape (S.heap.object r)).count
        ∧ reports = .ended r shape.sizeRead :: .diagnostic
          ((Contents.ofObject shape (S.heap.object r)).diagnostic (shape.type t)) :: rest := by
  induction left generalizing reports with
  | zero =>
    rcases life.cases_head with dropped | ⟨o', -, ends⟩ | ⟨first, stage, rest, move, later, rfl⟩
    · exact .inl dropped
    · cases ends
    · cases move with
      | answers =>
        have fresh (n : Nat) (e : Entry C elem.State)
            (next : (Contents.ofObject shape (S.heap.object r)).entries r n = some e) :
            Entry.FreshOf r (Contents.ofObject shape (S.heap.object r)) [] e := ⟨rfl, n, next⟩
        obtain ⟨o', inside, rfl⟩ := life_reading later
        obtain ⟨lives, made, few⟩ :=
          Window.exists_lives fresh (fun _ => Contents.entries_eq_none_iff.2) inside
        exact .inr ⟨lives, rest, made.map _, few, rfl⟩
  | succ left ih =>
    rcases life.cases_head with dropped | ⟨o', -, ends⟩ | ⟨first, stage, rest, move, later, rfl⟩
    · exact .inl dropped
    · cases ends
    · cases move with
      | waits => exact ih later

/-- **The life of the conversion of a container** is such a story. -/
theorem story {b : Begun C} (life : (progress S shape t id k).Life (.begun b) reports o) :
    Story S shape t k b reports o := by
  rcases life.cases_head with ⟨rfl, rfl⟩ | ⟨o', rfl, ends⟩ | ⟨first, stage, rest, move, later, rfl⟩
  · exact .untouched b
  · cases ends with
    | settled => exact .settled o'
    | refusesList items keyed => exact .refusesList items keyed
    | refusesDictionary entries ordered => exact .refusesDictionary entries ordered
  · cases move with
    | asks r =>
      rcases life_sizing later with ⟨rfl, rfl⟩ | ⟨lives, inside, made, few, rfl⟩
      · exact .unanswered r
      · exact .object made few
    | @list kind items reports states ordered starts =>
      obtain ⟨births, born, tasks, reported, length⟩ := startsAll_births starts
      rw [← tasks] at later
      obtain ⟨o', inside, rfl⟩ := life_joining later
      obtain ⟨lives, made, few⟩ := Join.exists_lives born inside
      rw [reported] at made
      exact .list ordered (made.map _) (few.trans length).le
    | @dictionary kind entries keyed =>
      have born : ∀ b ∈ entries.map (fun e => (([] : List (Event C)),
          (.stored e.2 : Entry C elem.State))),
          Entry.BornOf k (entries.map Prod.snd) b.1 b.2 := by
        refine List.forall_mem_map.2 fun e mem => ?_
        exact ⟨e.2, List.mem_map_of_mem mem, .inr ⟨rfl, rfl⟩⟩
      have tasks : (entries.map fun e => (.stored e.2 : Entry C elem.State))
          = (entries.map fun e => (([] : List (Event C)),
            (.stored e.2 : Entry C elem.State))).map Prod.snd := by
        rw [List.map_map]
        rfl
      rw [tasks] at later
      obtain ⟨o', inside, rfl⟩ := life_joining later
      obtain ⟨lives, made, few⟩ := Join.exists_lives born inside
      have reported : (entries.map fun e => (([] : List (Event C)),
          (.stored e.2 : Entry C elem.State))).flatMap Prod.fst = [] :=
        List.flatMap_eq_nil_iff.2 (List.forall_mem_map.2 fun _ _ => rfl)
      rw [reported] at made
      exact .dictionary keyed (made.map _) (few.trans (List.length_map _)).le

end Stage

/-! ## Conversions to any type -/

namespace Conversion

variable {S : Setting C} {v : Variant C} {reports : List (Event C)}
  {o : Option (Except (CastError C) (Payload C))}

/-- **The conversion of a variant to a container** asks it for its source first. -/
theorem container_life {shape : Shape} {t : Ty C} {elem : Conversion C}
    {k : elem.Progress (Event C)} (life : (Stage.progress S shape t id k).LifeOf v reports o) :
    ∃ alive rest, reports = (v.begin alive (shape.type t)).log ++ rest
      ∧ Stage.Story S shape t k (v.begin alive (shape.type t)).value rest o := by
  obtain ⟨⟨alive, rfl, rfl⟩, life⟩ := life
  exact ⟨alive, _, by rw [List.map_id], Stage.story life⟩

/-- **The conversion to a scalar** reports all as it starts. -/
theorem scalar_life {t : Ty C} (life : ((scalar S t).polls id).LifeOf v reports o) :
    ∃ alive, reports = (v.convert S.converters alive t).log
      ∧ (o = none ∨ o = some (v.convert S.converters alive t).value) := by
  obtain ⟨⟨R, rfl, rfl⟩, life⟩ := life
  refine ⟨S.heap.alive R, ?_⟩
  rcases life.cases_head with ⟨rfl, rfl⟩ | ⟨o', rfl, R', ready, rfl⟩ | ⟨_, _, _, ⟨_, polled, _⟩, _⟩
  · exact ⟨by rw [List.map_id]; exact List.append_nil _, .inl rfl⟩
  · obtain rfl := Poll.ready.inj ready
    exact ⟨by rw [List.map_id]; exact List.append_nil _, .inr rfl⟩
  · cases polled

/-- **A conversion that is driven to its end** has lived. -/
theorem life_of_pollAll {c : Conversion C} {k : c.Progress (Event C)} (cov : k.Covers id)
    {surroundings : List RefSet} {s : c.State} {outcome : Except (CastError C) (Payload C)}
    (ended : (c.pollAll surroundings s).value = some outcome) :
    k.toCourse.Life s (c.pollAll surroundings s).log (some outcome) := by
  have driven := pollAll_driven cov surroundings s
  generalize c.pollAll surroundings s = x at driven ended ⊢
  cases driven with
  | tires path => cases ended
  | ends path ends =>
    obtain rfl := Option.some.inj ended
    rw [List.map_id]
    exact .ended path ends

end Conversion

namespace Pending

/-- **A kept conversion polled again and again**, with what is held elsewhere each
time. -/
def pollAll (S : Setting C) (f : Pending C) (surroundings : List RefSet) :
    Reported C (Option (Except (CastError C) (Payload C))) :=
  (Conversion.container S f.shape f.elem (Conversion.of S f.elem)).pollAll surroundings
    (.begun f.begun)

/-- **What a kept conversion reports** by its end. -/
theorem story {S : Setting C} {f : Pending C} {surroundings : List RefSet}
    {outcome : Except (CastError C) (Payload C)}
    (ended : (f.pollAll S surroundings).value = some outcome) :
    Stage.Story S f.shape f.elem (Conversion.steps S f.elem) f.begun
      (f.pollAll S surroundings).log (some outcome) :=
  Stage.story (Conversion.life_of_pollAll (f.steps_covers S) ended)

end Pending

end DynValue

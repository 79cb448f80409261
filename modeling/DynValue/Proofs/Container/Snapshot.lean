import DynValue.Proofs.Container.Completion
import DynValue.Proofs.Schedule.Bisimilar

/-!
# A begun conversion depends on its own part of the heap

Asking a variant for a container takes the source out of it, and what the
conversion comes upon later is reached from there. A part of the heap **encloses**
a conversion if what is reached stays inside and has no weak references
(`Heap.Encloses`, `Begun.Inside`). Then it does not matter what else is on the heap
and what is held elsewhere: two conversions of one source, on two heaps that have
the same objects in the part, are polled in step (`Conversion.of_bisimilar`), so they
come to the same outcome, the same failure included.

That there is an outcome at all is shown on a third heap, with the part and nothing
else (`Heap.only`). It has no weak references anywhere, so the conversion settles
there, and within the bounds of both of the others.
-/

namespace DynValue

open Schedule

variable {C : CallerTypes} {K : Converters C} {h h' : Heap C} {part : RefSet}

/-- **The caller's rules learn of liveness only through weak references**: of a
variant without any they always say the same. -/
def Converters.Local (K : Converters C) : Prop :=
  ∀ (tag : C.Tag) (a b : RefSet) (v : Variant C), (∀ r, v.refersWeakly r = false) →
    (K.rule tag a v).value = (K.rule tag b v).value

/-- **A variant is inside a part of the heap**: it holds nothing outside, and has no
weak references. -/
structure Variant.Inside (part : RefSet) (v : Variant C) : Prop where
  holds : ∀ r, v.holds r = true → part r = true
  strong : ∀ r, v.refersWeakly r = false

/-- A source is inside if what it is made of is. -/
def Source.Inside (part : RefSet) : Source C → Prop
  | object r => part r = true
  | list items => ∀ w ∈ items, w.Inside part
  | dictionary entries => ∀ e ∈ entries, e.2.Inside part

/-- What was begun is inside if its source is. -/
def Begun.Inside (part : RefSet) : Begun C → Prop
  | settled _ => True
  | sourced source => source.Inside part

/-- **A part of the heap is closed**: what its objects have is inside. -/
structure Heap.Encloses (h : Heap C) (part : RefSet) : Prop where
  holds : ∀ {r r'}, part r = true → (h.object r).holds r' = true → part r' = true
  strong : ∀ {r} r', part r = true → (h.object r).refersWeakly r' = false

/-- Two heaps have the same objects in a part. -/
def Heap.SameObjects (h h' : Heap C) (part : RefSet) : Prop :=
  ∀ r, part r = true → h.object r = h'.object r

theorem Heap.Encloses.answer {r : Ref} (encloses : h.Encloses part) (hr : part r = true)
    (read : Read) : (Entry.answer (h.object r) read).Inside part where
  holds _ held := encloses.holds hr (ExternalObject.holds_answer held)
  strong r' := Bool.eq_false_iff.2 fun refers =>
    Bool.eq_false_iff.1 (encloses.strong r' hr) (ExternalObject.refersWeakly_answer refers)

namespace Variant

variable {v : Variant C} {a b : RefSet}

theorem Inside.not_refersWeakly (inside : v.Inside part) (r : Ref) : ¬ v.refersWeakly r = true :=
  Bool.eq_false_iff.1 (inside.strong r)

/-- Nothing depends on what is alive. -/
theorem Inside.source_eq (inside : v.Inside part) (a b : RefSet) : v.source a = v.source b :=
  Variant.source_eq fun r refers => (inside.not_refersWeakly r refers).elim

theorem Inside.convert_eq (inside : v.Inside part) (rules : K.Local) (t : Ty C) (a b : RefSet) :
    (v.convert K a t).value = (v.convert K b t).value :=
  convert_value_eq (fun r refers => (inside.not_refersWeakly r refers).elim)
    (fun tag => rules tag a b v inside.strong) t

end Variant

/-! ## Conversions in step -/

variable {shape : Shape} {t : Ty C} {elem elem' : Conversion C} {v : Variant C}

/-- **The conversions of a variant are bisimilar**, in whichever states they start. -/
def Conversion.Bisimilar (c c' : Conversion C) (v : Variant C) : Prop :=
  ∀ R R', c.kind.Bisimilar c'.kind (c.start R v).value (c'.start R' v).value

namespace Entry

variable {S S' : Setting C}

theorem converting_bisimilar {s : elem.State} {s' : elem'.State}
    (bisimilar : elem.kind.Bisimilar elem'.kind s s') (read : Option Read) :
    (Entry.kind S elem).Bisimilar (Entry.kind S' elem') (.converting read s)
      (.converting read s') := by
  refine ⟨fun entry entry' => ∃ s s', entry = .converting read s ∧ entry' = .converting read s'
    ∧ elem.kind.Bisimilar elem'.kind s s', ⟨s, s', rfl, rfl, bisimilar⟩, ?_⟩
  rintro _ _ ⟨s, s', rfl, rfl, bisimilar⟩ R R'
  show (pollConverting elem R read s).value.Alike _ (pollConverting elem' R' read s').value
  have polled : (elem.poll R s).value.Alike _ (elem'.poll R' s').value := bisimilar.polled R R'
  generalize hx : (elem.poll R s).value = x at polled
  generalize hy : (elem'.poll R' s').value = y at polled
  cases polled with
  | ready o =>
    rw [value_of_ready hx, value_of_ready hy]
    exact .ready o
  | pending later =>
    rw [value_of_pending hx, value_of_pending hy]
    exact .pending ⟨_, _, rfl, rfl, later⟩

/-- What entries start to convert they convert without delay. -/
theorem started_bisimilar (bisimilar : elem.Bisimilar elem' v) (read : Option Read)
    (R R' : RefSet) :
    (pollConverting elem R read (elem.start R v).value).value.Alike
      ((Entry.kind S elem).Bisimilar (Entry.kind S' elem'))
      (pollConverting elem' R' read (elem'.start R' v).value).value :=
  (converting_bisimilar (bisimilar R R') read).polled R R'

theorem stored_bisimilar (bisimilar : elem.Bisimilar elem' v) :
    (Entry.kind S elem).Bisimilar (Entry.kind S' elem') (.stored v) (.stored v) :=
  .intro fun R R' => started_bisimilar bisimilar none R R'

/-- **Entries that are read** from the same object are in step. -/
theorem fresh_bisimilar {r : Ref} {read : Read} (same : S.heap.object r = S'.heap.object r)
    (bisimilar : elem.Bisimilar elem' (answer (S.heap.object r) read)) :
    (Entry.kind S elem).Bisimilar (Entry.kind S' elem') (.reading r read none)
      (.reading r read none) := by
  have reading (left : Nat) : (Entry.kind S elem).Bisimilar (Entry.kind S' elem')
      (.reading r read (some left)) (.reading r read (some left)) := by
    induction left with
    | zero =>
      refine .intro fun R R' => ?_
      show Poll.Alike _ (pollConverting elem R (some read)
        (elem.start R (answer (S.heap.object r) read)).value).value (pollConverting elem' R'
        (some read) (elem'.start R' (answer (S'.heap.object r) read)).value).value
      rw [← same]
      exact started_bisimilar bisimilar (some read) R R'
    | succ left ih => exact .intro fun _ _ => .pending ih
  refine (reading ((S.heap.object r).delayOf read)).of_same_poll (fun _ => rfl) fun R' => ?_
  rw [same]
  rfl

end Entry

namespace Stage

variable {S S' : Setting C}

/-- **Two conversions that read the entries of one object** are in step if the
entries are. -/
theorem reading_bisimilar {r : Ref} {contents : Contents}
    (entries : ∀ n read, contents.read? n = some read →
      (Entry.kind S elem).Bisimilar (Entry.kind S' elem') (.reading r read none)
        (.reading r read none)) :
    (Conversion.container S shape t elem).kind.Bisimilar
      (Conversion.container S' shape t elem').kind (.reading r contents .start)
      (.reading r contents .start) := by
  have supplies : Window.SameSupply (Entry.kind S elem) (Entry.kind S' elem')
      (contents.entries r) (contents.entries r) := by
    intro n
    unfold Contents.entries
    cases asked : contents.read? n with
    | none => exact .none
    | some read => exact .some (entries n read asked)
  refine ⟨fun stage stage' => ∃ w w', stage = .reading r contents w
    ∧ stage' = .reading r contents w'
    ∧ Window.Bisimilar (Entry.kind S elem) (Entry.kind S' elem') w w',
    ⟨.start, .start, rfl, rfl, Window.start_bisimilar _ _⟩, ?_⟩
  rintro _ _ ⟨w, w', rfl, rfl, bisimilar⟩ R R'
  show (pollReading S shape t elem R r contents w).value.Alike _
    (pollReading S' shape t elem' R' r contents w').value
  rw [pollReading_value, pollReading_value, ← bisimilar.delivered]
  have polled : Poll.Alike (Window.Bisimilar (Entry.kind S elem) (Entry.kind S' elem'))
      (w.run (Entry.kind S elem) windowWidth (contents.entries r)
        (RefSet.union R (RefSet.single r)) (contents.count - w.delivered.size + 1)).value
      (w'.run (Entry.kind S' elem') windowWidth (contents.entries r)
        (RefSet.union R' (RefSet.single r)) (contents.count - w.delivered.size + 1)).value :=
    Window.run_bisimilar bisimilar supplies _ _ _
  generalize (w.run (Entry.kind S elem) _ _ _ _).value = x at polled
  generalize (w'.run (Entry.kind S' elem') _ _ _ _).value = y at polled
  cases polled with
  | ready o => cases o <;> exact .ready _
  | pending later => exact .pending ⟨_, _, rfl, rfl, later⟩

/-- **Two conversions of one object** are in step if the conversions of its entries
are. -/
theorem object_bisimilar {r : Ref} (same : S.heap.object r = S'.heap.object r)
    (entries : ∀ n read, (Contents.ofObject shape (S.heap.object r)).read? n = some read →
      (Entry.kind S elem).Bisimilar (Entry.kind S' elem') (.reading r read none)
        (.reading r read none)) :
    (Conversion.container S shape t elem).kind.Bisimilar
      (Conversion.container S' shape t elem').kind (.begun (.sourced (.object r)))
      (.begun (.sourced (.object r))) := by
  have sizing (left : Nat) : (Conversion.container S shape t elem).kind.Bisimilar
      (Conversion.container S' shape t elem').kind (.sizing r left) (.sizing r left) := by
    induction left with
    | zero =>
      refine (reading_bisimilar entries).of_same_poll (fun _ => rfl) fun R' => ?_
      rw [same]
      rfl
    | succ left ih => exact .intro fun _ _ => .pending ih
  refine (sizing ((S.heap.object r).delayOf shape.sizeRead)).of_same_poll (fun _ => rfl)
    fun R' => ?_
  rw [same]
  rfl

/-- **Two conversions of entries in memory** are in step if the entries are. -/
theorem joining_bisimilar {keys : List String}
    {join : Join (CastError C) (Entry C elem.State) (Payload C)}
    {join' : Join (CastError C) (Entry C elem'.State) (Payload C)}
    (bisimilar : join.Bisimilar (Entry.kind S elem) (Entry.kind S' elem') join') :
    (Conversion.container S shape t elem).kind.Bisimilar
      (Conversion.container S' shape t elem').kind (.joining keys join)
      (.joining keys join') := by
  refine ⟨fun stage stage' => ∃ join join', stage = .joining keys join
    ∧ stage' = .joining keys join'
    ∧ Join.Bisimilar (Entry.kind S elem) (Entry.kind S' elem') join join',
    ⟨join, join', rfl, rfl, bisimilar⟩, ?_⟩
  rintro _ _ ⟨join, join', rfl, rfl, bisimilar⟩ R R'
  show (pollJoining S shape t elem R keys join).value.Alike _
    (pollJoining S' shape t elem' R' keys join').value
  rw [pollJoining_value, pollJoining_value]
  have polled := Join.poll_bisimilar bisimilar R R'
  generalize (join.poll (Entry.kind S elem) R).value = x at polled
  generalize (join'.poll (Entry.kind S' elem') R').value = y at polled
  cases polled with
  | ready o => cases o <;> exact .ready _
  | pending later => exact .pending ⟨_, _, rfl, rfl, later⟩

/-- The items of a list start in states that are bisimilar, one by one. -/
theorem startAll_bisimilar {items : List (Variant C)} {started : List elem.State}
    {started' : List elem'.State}
    (before : List.Forall₂ (elem.kind.Bisimilar elem'.kind) started started')
    (each : ∀ w ∈ items, elem.Bisimilar elem' w) (R R' : RefSet) :
    List.Forall₂ (elem.kind.Bisimilar elem'.kind) (startAll elem R started items).value
      (startAll elem' R' started' items).value := by
  induction items generalizing started started' with
  | nil => exact List.rel_reverse before
  | cons w items ih =>
    obtain ⟨first, behind⟩ := List.forall_mem_cons.1 each
    rw [startAll, startAll, Logged.value_bind, Logged.value_bind]
    exact ih (.cons (first _ _) before) behind

theorem list_bisimilar {k : SeqKind} {items : List (Variant C)}
    (each : ∀ w ∈ items, elem.Bisimilar elem' w) :
    (Conversion.container S (.sequence k) t elem).kind.Bisimilar
      (Conversion.container S' (.sequence k) t elem').kind (.begun (.sourced (.list items)))
      (.begun (.sourced (.list items))) := by
  refine .intro fun R R' => ?_
  have states : List.Forall₂ (elem.kind.Bisimilar elem'.kind) (startAll elem R [] items).value
      (startAll elem' R' [] items).value := startAll_bisimilar .nil each R R'
  have tasks : List.Forall₂ ((Entry.kind S elem).Bisimilar (Entry.kind S' elem'))
      ((startAll elem R [] items).value.map (.converting none))
      ((startAll elem' R' [] items).value.map (.converting none)) :=
    List.rel_map (fun _ _ h => Entry.converting_bisimilar h none) states
  exact (joining_bisimilar (Join.ofList_bisimilar tasks)).polled R R'

theorem dictionary_bisimilar {k : MapKind} {entries : List (String × Variant C)}
    (each : ∀ e ∈ entries, elem.Bisimilar elem' e.2) :
    (Conversion.container S (.mapping k) t elem).kind.Bisimilar
      (Conversion.container S' (.mapping k) t elem').kind
      (.begun (.sourced (.dictionary entries))) (.begun (.sourced (.dictionary entries))) := by
  refine .intro fun R R' => ?_
  have tasks : List.Forall₂ ((Entry.kind S elem).Bisimilar (Entry.kind S' elem'))
      (entries.map fun e => .stored e.2) (entries.map fun e => .stored e.2) := by
    rw [List.forall₂_map_left_iff, List.forall₂_map_right_iff, List.forall₂_same]
    exact fun e he => Entry.stored_bisimilar (each e he)
  exact (joining_bisimilar (Join.ofList_bisimilar tasks)).polled R R'

/-- **Two conversions of one source** are in step if those of what is inside are. -/
theorem sourced_bisimilar {source : Source C} (inside : source.Inside part)
    (encloses : S.heap.Encloses part) (same : S.heap.SameObjects S'.heap part)
    (elems : ∀ w : Variant C, w.Inside part → elem.Bisimilar elem' w) :
    (Conversion.container S shape t elem).kind.Bisimilar
      (Conversion.container S' shape t elem').kind (.begun (.sourced source))
      (.begun (.sourced source)) := by
  cases source with
  | object r =>
    exact object_bisimilar (same r inside) fun n read _ =>
      Entry.fresh_bisimilar (same r inside) (elems _ (encloses.answer inside read))
  | list items =>
    cases shape with
    | sequence k => exact list_bisimilar fun w hw => elems w (inside w hw)
    | mapping k => exact .intro fun _ _ => .ready _
  | dictionary entries =>
    cases shape with
    | sequence k => exact .intro fun _ _ => .ready _
    | mapping k => exact dictionary_bisimilar fun e he => elems e.2 (inside e he)

theorem begun_bisimilar {b : Begun C} (inside : b.Inside part) (encloses : S.heap.Encloses part)
    (same : S.heap.SameObjects S'.heap part)
    (elems : ∀ w : Variant C, w.Inside part → elem.Bisimilar elem' w) :
    (Conversion.container S shape t elem).kind.Bisimilar
      (Conversion.container S' shape t elem').kind (.begun b) (.begun b) := by
  cases b with
  | settled o => exact .intro fun _ _ => .ready _
  | sourced source => exact sourced_bisimilar inside encloses same elems

end Stage

/-! ## Conversions to any type -/

namespace Variant

/-- What a variant inside is made of is inside. -/
theorem Inside.source {alive : RefSet} {source : Source C} (inside : v.Inside part)
    (hs : v.source alive = .ok source) : source.Inside part := by
  have of_partOf {w : Variant C} (h : w.PartOf v) : w.Inside part :=
    ⟨fun r held => inside.holds r (h.holds r held), fun r => Bool.eq_false_iff.2 fun refers =>
      inside.not_refersWeakly r (h.refersWeakly r refers)⟩
  cases source with
  | object r =>
    rcases payload_of_object hs with strong | ⟨weak, -⟩
    · exact inside.holds r (by rw [Variant.holds, strong]; exact beq_self_eq_true r)
    · exact (inside.not_refersWeakly r (refersWeakly_weak weak)).elim
  | list items => exact fun w hw => of_partOf ((partOf_list hs).2 w hw)
  | dictionary entries => exact fun e he => of_partOf ((partOf_dictionary hs).2 e he)

theorem Inside.begin_inside {alive : RefSet} (inside : v.Inside part) (t : Ty C) :
    (v.begin alive t).value.Inside part := by
  rw [begin_value]
  cases v.exactly? t with
  | some p => exact trivial
  | none =>
    cases hs : v.source alive with
    | ok source => exact inside.source hs
    | error reason => exact trivial

end Variant

namespace Conversion

theorem scalar_bisimilar (rules : K.Local) (inside : v.Inside part) (t : Ty C) :
    (scalar ⟨h, K⟩ t).Bisimilar (scalar ⟨h', K⟩ t) v := by
  intro R R'
  refine .intro fun _ _ => ?_
  show Poll.Alike _ (.ready (v.convert K (h.alive R) t).value)
    (.ready (v.convert K (h'.alive R') t).value)
  rw [inside.convert_eq rules t (h.alive R) (h'.alive R')]
  exact .ready _

theorem container_bisimilar (encloses : h.Encloses part) (same : h.SameObjects h' part)
    (elems : ∀ w : Variant C, w.Inside part → elem.Bisimilar elem' w) (inside : v.Inside part) :
    (container ⟨h, K⟩ shape t elem).Bisimilar (container ⟨h', K⟩ shape t elem') v := by
  intro R R'
  show TaskKind.Bisimilar _ _ (Stage.begun (v.begin (h.alive R) (shape.type t)).value)
    (Stage.begun (v.begin (h'.alive R') (shape.type t)).value)
  have begun : (v.begin (h'.alive R') (shape.type t)).value
      = (v.begin (h.alive R) (shape.type t)).value := by
    rw [Variant.begin_value, Variant.begin_value, inside.source_eq (h'.alive R') (h.alive R)]
  rw [begun]
  exact Stage.begun_bisimilar (inside.begin_inside _) encloses same elems

/-- **The conversion of what is inside** is the same on both heaps. -/
theorem of_bisimilar (rules : K.Local) (encloses : h.Encloses part)
    (same : h.SameObjects h' part) (t : Ty C) (inside : v.Inside part) :
    (of ⟨h, K⟩ t).Bisimilar (of ⟨h', K⟩ t) v := by
  induction t generalizing v with
  | seq k t ih => exact container_bisimilar encloses same (fun w hw => ih hw) inside
  | map k t ih => exact container_bisimilar encloses same (fun w hw => ih hw) inside
  | _ => exact scalar_bisimilar rules inside _

/-- **Bisimilar conversions come to the same** in as many polls. -/
theorem drive_bisimilar {c c' : Conversion C} {s : c.State} {s' : c'.State}
    (bisimilar : c.kind.Bisimilar c'.kind s s') (R R' : RefSet) (n : Nat) :
    (c.drive R n s).value = (c'.drive R' n s').value := by
  induction n generalizing s s' with
  | zero => rfl
  | succ n ih =>
    have polled : (c.poll R s).value.Alike _ (c'.poll R' s').value := bisimilar.polled R R'
    rw [drive, drive, Logged.value_bind, Logged.value_bind]
    generalize (c.poll R s).value = x at polled
    generalize (c'.poll R' s').value = y at polled
    cases polled with
    | ready o => rfl
    | pending later => exact ih later

end Conversion

/-! ## The part alone -/

namespace Heap

/-- **The heap with a part of the objects** and nothing else. -/
def only (h : Heap C) (part : RefSet) : Heap C :=
  ⟨(List.range h.cells.length).map fun r => .object (if part r then h.object r else .blank)⟩

theorem object_only (h : Heap C) (part : RefSet) (r : Ref) :
    (h.only part).object r = if part r then h.object r else .blank := by
  have cell : (h.only part).cells[r]?
      = (List.range h.cells.length)[r]?.map fun r =>
        .object (if part r then h.object r else .blank) := List.getElem?_map
  rw [object, cell]
  rcases Nat.lt_or_ge r h.cells.length with lt | le
  · rw [List.getElem?_range lt]
    rfl
  · have blank : h.object r = .blank := by
      rw [object, List.getElem?_eq_none le]
    rw [List.getElem?_eq_none (by rwa [List.length_range]), blank, ite_self]
    rfl

theorem object_only_of_mem {r : Ref} (hr : part r = true) :
    (h.only part).object r = h.object r := by
  rw [object_only, if_pos hr]

theorem Encloses.only (encloses : h.Encloses part) : (h.only part).Encloses part where
  holds hr held := encloses.holds hr (by rwa [object_only_of_mem hr] at held)
  strong r' hr := by
    rw [object_only_of_mem hr]
    exact encloses.strong r' hr

theorem SameObjects.only (same : h.SameObjects h' part) : (h.only part).SameObjects h' part :=
  fun r hr => (object_only_of_mem hr).trans (same r hr)

/-- There are no weak references anywhere on it. -/
theorem Encloses.strong_only (encloses : h.Encloses part) (r : Ref) :
    (h.only part).refersWeakly r = false := by
  refine Bool.eq_false_iff.2 fun refers => ?_
  obtain ⟨cell, mem, refers⟩ := (RefSet.unionOf_apply _ _ r).1 refers
  obtain ⟨s, -, rfl⟩ := List.mem_map.1 mem
  have refers : ExternalObject.refersWeakly (if part s then h.object s else .blank) r = true :=
    refers
  split at refers
  · rename_i hs
    exact Bool.eq_false_iff.1 (encloses.strong r hs) refers
  · cases refers

/-- A measure of the objects is no greater on it than on any heap that has the part. -/
theorem foldl_only_le (measure : ExternalObject C → Nat) {bound : Nat}
    (blank : measure .blank ≤ bound) (le : ∀ r, part r = true → measure (h.object r) ≤ bound) :
    ((h.only part).cells.map fun
      | .object o => measure o
      | .value _ => 0).foldl max 0 ≤ bound := by
  rw [only, List.map_map]
  refine foldl_max_le (Nat.zero_le _) fun n mem => ?_
  obtain ⟨r, -, rfl⟩ := List.mem_map.1 mem
  show measure (if part r then h.object r else .blank) ≤ bound
  split
  · rename_i hr
    exact le r hr
  · exact blank

theorem SameObjects.delayBound_only_le (same : h.SameObjects h' part) :
    (h.only part).delayBound ≤ h'.delayBound :=
  foldl_only_le ExternalObject.delayBound (Nat.zero_le _) fun r hr =>
    same r hr ▸ h'.delayBound_object_le r

theorem SameObjects.breadth_only_le (same : h.SameObjects h' part) :
    (h.only part).breadth ≤ h'.breadth :=
  foldl_only_le ExternalObject.breadth (Nat.zero_le _) fun r hr =>
    same r hr ▸ h'.breadth_object_le r

/-- It is a scene, whatever is held. -/
theorem Encloses.scene (encloses : h.Encloses part) (rules : K.Local) (base : RefSet) :
    Scene ⟨h.only part, K⟩ base (fun _ => True) (fun _ => False) where
  below _ _ := trivial
  closed _ _ _ _ := trivial
  weak_of_heap r refers := Bool.eq_false_iff.1 (encloses.strong_only r) refers
  alive_eq _ weak := weak.elim
  rule_eq tag v _ strong := rules tag _ _ v fun r => Bool.eq_false_iff.2 (strong r)

end Heap

theorem Variant.Inside.known (inside : v.Inside part) {breadth : Nat} (le : v.breadth ≤ breadth) :
    Known (fun _ => True) (fun _ => False) breadth v :=
  ⟨fun _ _ => trivial, inside.not_refersWeakly, le⟩

theorem Source.Inside.allKnown {source : Source C} (inside : source.Inside part) {breadth : Nat}
    (le : source.breadth ≤ breadth) :
    source.AllKnown (fun _ => True) (fun _ => False) breadth := by
  cases source with
  | object r => exact trivial
  | list items =>
    refine ⟨(le_foldl_max _ _).trans le, fun w hw => (inside w hw).known ?_⟩
    exact (le_foldl_max_of_mem (List.mem_map_of_mem hw)).trans le
  | dictionary entries =>
    refine ⟨(le_foldl_max _ _).trans le, fun e he => (inside e he).known ?_⟩
    exact (le_foldl_max_of_mem (List.mem_map.2 ⟨e, he, rfl⟩)).trans le

/-- **What was begun settles on the part alone**, whatever else there was. -/
theorem Begun.Inside.settles (rules : K.Local) (encloses : h.Encloses part) {b : Begun C}
    (inside : b.Inside part) (shape : Shape) (t : Ty C) :
    ∃ o, ∃ n ≤ pollBound (h.only part).delayBound (max (h.only part).breadth b.breadth)
        (shape.type t),
      (Conversion.container ⟨h.only part, K⟩ shape t
        (Conversion.of ⟨h.only part, K⟩ t)).kind.Settles RefSet.none (fun _ => True)
          (.begun b) o n := by
  cases b with
  | settled o => exact ⟨o, 0, Nat.zero_le _, Stage.settled_settles fun _ _ => trivial⟩
  | sourced source =>
    have sc := encloses.scene rules RefSet.none
    have parts := sc.partsRefine (Nat.le_max_left _ _) (inside.allKnown (Nat.le_max_right _ _))
      fun w hw => Conversion.of_refines sc (Nat.le_max_left _ source.breadth) t hw
    obtain ⟨o, n, le, settles, -⟩ := Source.settles sc.below (Nat.le_max_left _ _) parts
    rw [← pollBound_type] at le
    exact ⟨o, n, le, settles⟩

/-- **A begun conversion has one outcome** on all heaps with the same objects in its
part, whatever is held besides. -/
theorem Pending.finish_inside (rules : K.Local) (encloses : h.Encloses part) {f : Pending C}
    (inside : f.begun.Inside part) :
    ∃ o, ∀ g : Heap C, h.SameObjects g part → ∀ held, (f.finish ⟨g, K⟩ held).value = some o := by
  obtain ⟨o, n, le, settles⟩ := inside.settles rules encloses f.shape f.elem
  refine ⟨o, fun g same held => ?_⟩
  have enough : n < f.pollLimit ⟨g, K⟩ := Nat.lt_succ_of_le <| le.trans <|
    pollBound_mono same.delayBound_only_le (max_le_max same.breadth_only_le (Nat.le_refl _)) _
  have bisimilar : (Conversion.container ⟨h.only part, K⟩ f.shape f.elem
        (Conversion.of ⟨h.only part, K⟩ f.elem)).kind.Bisimilar
      (Conversion.container ⟨g, K⟩ f.shape f.elem (Conversion.of ⟨g, K⟩ f.elem)).kind
      (.begun f.begun) (.begun f.begun) :=
    Stage.begun_bisimilar inside encloses.only same.only fun w hw =>
      Conversion.of_bisimilar rules encloses.only same.only f.elem hw
  rw [Pending.finish, ← Conversion.drive_bisimilar bisimilar RefSet.none held]
  exact Conversion.drive_value settles (.self fun _ _ => trivial) enough

end DynValue

import DynValue.Proofs.Container.Refinement
import DynValue.Proofs.Scalar.Failure
import DynValue.Proofs.Schedule.Failing

/-!
# The value that a failed container conversion is about

When a container conversion fails it hands on one error, from however deep, and
which one it is depends on the order in which reads are answered. Whatever the
order, the error is about a value that is really there: a path of indices and keys
leads from the variant to it (`Variant.LeadsTo`), and on its own it cannot become
what stands at its place in the type that was asked for (`Variant.Refused`).

Nothing is assumed of weak references here. One may be alive when it is come upon
and gone when its twin is, so the outcome is not determined. What can be told is
that a reference that was followed was alive at some time, and one that was refused
gone at some time (`Outlook`). The rest is that a conversion fails only in such
ways if those of its entries do (`Conversion.container_failsOnly`), and this goes
through by induction on the type.
-/

namespace DynValue

open Schedule
open RefSet (Between Below)

variable {C : CallerTypes}

/-! ## Offending values -/

/-- A step into a structured value. -/
inductive PathStep where
  | index (n : Nat)
  | key (key : String)
  deriving DecidableEq, Repr

namespace Variant

/-- **Where a path leads**, in a variant that is asked for a type: to the value
that is there, and to the type that it is asked for. -/
inductive LeadsTo (h : Heap C) (alive : RefSet) :
    Variant C → Ty C → List PathStep → Variant C → Ty C → Prop
  | here (v : Variant C) (t : Ty C) : LeadsTo h alive v t [] v t
  /-- An element that an object has, by the length that it reports. -/
  | element {v y : Variant C} {k : SeqKind} {t u : Ty C} {path : List PathStep} {r : Ref}
      {n : Nat} (source : v.source alive = .ok (.object r)) (present : n < (h.object r).length)
      (rest : LeadsTo h alive ((h.object r).element n) t path y u) :
      LeadsTo h alive v (.seq k t) (.index n :: path) y u
  | item {v w y : Variant C} {k : SeqKind} {t u : Ty C} {path : List PathStep}
      {items : List (Variant C)} {n : Nat} (source : v.source alive = .ok (.list items))
      (present : items[n]? = some w) (rest : LeadsTo h alive w t path y u) :
      LeadsTo h alive v (.seq k t) (.index n :: path) y u
  /-- A property that an object has, by the keys that it reports. -/
  | property {v y : Variant C} {k : MapKind} {t u : Ty C} {path : List PathStep} {r : Ref}
      {key : String} (source : v.source alive = .ok (.object r))
      (present : key ∈ (h.object r).keys)
      (rest : LeadsTo h alive ((h.object r).property key) t path y u) :
      LeadsTo h alive v (.map k t) (.key key :: path) y u
  | entry {v w y : Variant C} {k : MapKind} {t u : Ty C} {path : List PathStep}
      {entries : List (String × Variant C)} {key : String}
      (source : v.source alive = .ok (.dictionary entries)) (present : (key, w) ∈ entries)
      (rest : LeadsTo h alive w t path y u) :
      LeadsTo h alive v (.map k t) (.key key :: path) y u

/-- **A value cannot become a type on its own**, and the error that says so. -/
inductive Refused (K : Converters C) (gone : Ref → Prop) (y : Variant C) :
    Ty C → CastError C → Prop
  | notStructured {shape : Shape} {t : Ty C} (other : y.exactly? (shape.type t) = none)
      (source : ∀ alive, y.source alive = .error .notStructured) :
      Refused K gone y (shape.type t) ((y.castError (shape.type t)).because .notStructured)
  | released {shape : Shape} {t : Ty C} {r : Ref}
      (weak : y.payload = some (.weak .externalObject r)) (released : gone r) :
      Refused K gone y (shape.type t) ((y.castError (shape.type t)).because .released)
  | listAsMapping {k : MapKind} {t : Ty C} {items : List (Payload C)}
      (list : y.payload = some (.seq .vector .variant items)) :
      Refused K gone y (.map k t) ((y.castError (.map k t)).because .listAsMapping)
  | dictionaryAsSequence {k : SeqKind} {t : Ty C} {entries : List (String × Payload C)}
      (dictionary : y.payload = some (.map .sorted .variant entries)) :
      Refused K gone y (.seq k t) ((y.castError (.seq k t)).because .dictionaryAsSequence)
  | scalar {t : Ty C} {e : CastError C} (simple : t.shape? = none)
      (refused : ∀ alive, (y.convert K alive t).value = .error e) : Refused K gone y t e

/-- **An error is about a value** that a path leads to. For the variant itself,
`asked` are the references that are gone, for a value within it `gone` are. -/
def Blames (S : Setting C) (alive : RefSet) (asked gone : Ref → Prop) (v : Variant C)
    (t : Ty C) (e : CastError C) : Prop :=
  ∃ path y u, v.LeadsTo S.heap alive t path y u
    ∧ y.Refused S.converters (fun r => if path = [] then asked r else gone r) u e

/-! ## Sources -/

variable {v : Variant C} {alive living : RefSet}

/-- A variant is no source for one of two reasons, of which one does not depend on
what is alive. -/
theorem source_eq_error {reason : Reason} (h : v.source alive = .error reason) :
    (reason = .notStructured ∧ ∀ living, v.source living = .error .notStructured)
    ∨ reason = .released
      ∧ ∃ r, v.payload = some (.weak .externalObject r) ∧ alive r = false := by
  unfold source at h ⊢
  split at h
  · cases h
  · rename_i r payload
    split at h
    · cases h
    · rename_i dead
      cases h
      exact .inr ⟨rfl, r, payload, Bool.eq_false_iff.2 dead⟩
  · cases h
  · cases h
  · cases h
    exact .inl ⟨rfl, fun _ => rfl⟩

/-- A source stays one when more is alive. -/
theorem source_mono {source : Source C} (h : v.source alive = .ok source)
    (le : ∀ r, alive r = true → living r = true) : v.source living = .ok source := by
  unfold Variant.source at h ⊢
  split at h
  · exact h
  · rename_i r payload
    split at h
    · rename_i live
      rw [if_pos (le r live)]
      exact h
    · cases h
  · exact h
  · exact h
  · cases h

/-- What a source holds, its variant holds, or it was a weak reference. -/
theorem holds_source {taken : Source C} {r : Ref} (h : v.source alive = .ok taken)
    (hr : taken.holds r = true) : v.holds r = true ∨ alive r = true := by
  cases taken with
  | object s =>
    obtain rfl : r = s := beq_iff_eq.1 hr
    exact holds_object h
  | list items =>
    obtain ⟨w, mem, hr⟩ := (RefSet.unionOf_apply _ _ r).1 hr
    exact .inl (((partOf_list h).2 w mem).holds r hr)
  | dictionary entries =>
    obtain ⟨e, mem, hr⟩ := (RefSet.unionOf_apply _ _ r).1 hr
    exact .inl (((partOf_dictionary h).2 e mem).holds r hr)

theorem holds_begin {t : Ty C} {r : Ref} (hr : (v.begin alive t).value.holds r = true) :
    v.holds r = true ∨ alive r = true := by
  rw [begin_value] at hr
  cases exact_ : v.exactly? t with
  | some p =>
    rw [exact_] at hr
    exact .inl (holds_of_exactly? exact_ ▸ hr)
  | none =>
    rw [exact_] at hr
    cases source : v.source alive with
    | error reason =>
      rw [source] at hr
      cases hr
    | ok taken =>
      rw [source] at hr
      exact holds_source source hr

theorem payload_of_list {items : List (Variant C)} (h : v.source alive = .ok (.list items)) :
    ∃ ps, v.payload = some (.seq .vector .variant ps) := by
  unfold source at h
  split at h
  · cases h
  · split at h <;> cases h
  · exact ⟨_, ‹_›⟩
  · cases h
  · cases h

theorem payload_of_dictionary {entries : List (String × Variant C)}
    (h : v.source alive = .ok (.dictionary entries)) :
    ∃ ps, v.payload = some (.map .sorted .variant ps) := by
  unfold source at h
  split at h
  · cases h
  · split at h <;> cases h
  · cases h
  · exact ⟨_, ‹_›⟩
  · cases h

/-- A source in memory is there whatever is alive. -/
theorem source_inMemory {taken : Source C} (h : v.source alive = .ok taken)
    (inMemory : ∀ r, taken ≠ .object r) (living : RefSet) : v.source living = .ok taken := by
  unfold source at h ⊢
  split at h
  · cases h
    exact absurd rfl (inMemory _)
  · split at h <;> cases h
    exact absurd rfl (inMemory _)
  · exact h
  · exact h
  · cases h

/-- What holds a source in memory holds just what is asked for if the types agree. -/
theorem exactly?_inMemory {taken : Source C} (h : v.source alive = .ok taken)
    (inMemory : ∀ r, taken ≠ .object r) {u : Ty C} : v.exactly? u = none ↔ taken.type ≠ u := by
  obtain ⟨p, payload, type⟩ : ∃ p, v.payload = some p ∧ p.type = taken.type := by
    cases taken with
    | object r => exact absurd rfl (inMemory r)
    | list items => exact (payload_of_list h).imp' _ fun ps payload => ⟨payload, rfl⟩
    | dictionary entries =>
      exact (payload_of_dictionary h).imp' _ fun ps payload => ⟨payload, rfl⟩
  rw [exactly?, payload, ← type, Option.filter_some]
  split <;> simp_all

end Variant

/-! ## Conversions -/

variable {S : Setting C} {base R : RefSet} {top asked gone : Ref → Prop} {alive : RefSet}
  {shape : Shape} {t : Ty C} {elem : Conversion C} {v : Variant C} {blame : CastError C → Prop}

/-- **What a conversion may find alive and what it may find gone**, while what is
held lies between two bounds. -/
structure Outlook (S : Setting C) (base : RefSet) (top : Ref → Prop) (alive : RefSet)
    (gone : Ref → Prop) : Prop where
  /-- The upper bound has what is held by anything that it has. -/
  closed : ∀ s r, top s → S.heap.heldBy s r = true → top r
  found : ∀ {R r}, Between base top R → S.heap.alive R r = true → top r ∧ alive r = true
  missed : ∀ {R r}, Between base top R → S.heap.alive R r = false → gone r

/-- While a conversion is driven, what is found alive was so when it was begun or is
reached from what is held, and what is missed is not held. -/
theorem Outlook.of_held (S : Setting C) (asked held more : RefSet) :
    Outlook S held (S.heap.Reach (RefSet.union held more))
      (RefSet.union asked (S.heap.alive (RefSet.union held more)))
      (fun r => S.heap.alive held r = false) where
  closed _ _ path holds := path.held holds
  found hR live := by
    obtain ⟨lt, path⟩ := Heap.alive_iff.1 live
    have path := path.trans hR.below
    refine ⟨path, ?_⟩
    rw [RefSet.union_apply, Heap.alive_iff.2 ⟨lt, path⟩, Bool.or_true]
  missed hR dead := by
    refine Bool.eq_false_iff.2 fun live => ?_
    rw [Heap.alive_mono hR.above live] at dead
    cases dead

/-- **The conversion of a variant fails only in some ways**, in whichever state it
starts. -/
def Conversion.FailsOnly (c : Conversion C) (base : RefSet) (top : Ref → Prop)
    (blame : CastError C → Prop) (v : Variant C) : Prop :=
  ∀ R, Between base top R → c.kind.FailsOnly base top blame (c.start R v).value

namespace Entry

theorem converting_failsOnly {s : elem.State} (h : elem.kind.FailsOnly base top blame s)
    (read : Option Read) : (Entry.kind S elem).FailsOnly base top blame (.converting read s) := by
  refine ⟨fun entry => ∃ s, entry = .converting read s ∧ elem.kind.FailsOnly base top blame s,
    ?_, s, rfl, h⟩
  rintro _ ⟨s, rfl, h⟩
  refine ⟨h.holds, fun R hR => ?_⟩
  show (Entry.kind S elem).Accounts top blame _ (pollConverting elem R read s).value
  cases polled : (elem.poll R s).value with
  | pending s' =>
    rw [value_of_pending polled]
    exact ⟨s', rfl, h.of_pending hR polled⟩
  | ready o =>
    rw [value_of_ready polled]
    have expected := h.of_ready hR polled
    cases o <;> exact expected

/-- What an entry starts to convert it converts without delay. -/
theorem started_failsOnly (h : elem.FailsOnly base top blame v) (hR : Between base top R)
    (read : Option Read) :
    (Entry.kind S elem).Accounts top blame ((Entry.kind S elem).FailsOnly base top blame)
      (pollConverting elem R read (elem.start R v).value).value :=
  (converting_failsOnly (h R hR) read).polled hR

theorem stored_failsOnly (h : elem.FailsOnly base top blame v) (hv : v.holds.Below top) :
    (Entry.kind S elem).FailsOnly base top blame (.stored v) :=
  .intro hv fun _ hR => started_failsOnly h hR none

/-- **An entry that is read** fails as the conversion of the answer. -/
theorem reading_failsOnly {r : Ref} {read : Read}
    (h : elem.FailsOnly base top blame (answer (S.heap.object r) read)) (hr : top r)
    (left : Nat) :
    (Entry.kind S elem).FailsOnly base top blame (.reading r read (some left)) := by
  induction left with
  | zero => exact .intro (.single hr) fun _ hR => started_failsOnly h hR (some read)
  | succ left ih => exact .intro (.single hr) fun _ _ => ih

theorem fresh_failsOnly {r : Ref} {read : Read}
    (h : elem.FailsOnly base top blame (answer (S.heap.object r) read)) (hr : top r) :
    (Entry.kind S elem).FailsOnly base top blame (.reading r read none) :=
  (reading_failsOnly h hr ((S.heap.object r).delayOf read)).of_same_poll (.single hr)
    fun _ _ => rfl

end Entry

namespace Stage

/-- **Reading the entries of an object** fails only as one of them. -/
theorem reading_failsOnly {r : Ref} {contents : Contents} (hr : top r)
    (entries : ∀ n read, contents.read? n = some read →
      (Entry.kind S elem).FailsOnly base top blame (.reading r read none)) :
    (Conversion.container S shape t elem).kind.FailsOnly base top blame
      (.reading r contents .start) := by
  have supplied : ∀ n task, contents.entries r n = some task →
      (Entry.kind S elem).FailsOnly base top blame task := by
    intro n task h
    obtain ⟨read, hread, rfl⟩ := Option.map_eq_some_iff.1 h
    exact entries n read hread
  refine ⟨fun stage => ∃ w : Window (CastError C) (Entry C elem.State) (Payload C),
    stage = .reading r contents w
      ∧ w.FailsOnly (Entry.kind S elem) base top blame (contents.entries r),
    ?_, .start, rfl, .start supplied⟩
  rintro _ ⟨w, rfl, h⟩
  refine ⟨.union (.single hr) h.holds, fun R hR => ?_⟩
  show (Conversion.container S shape t elem).kind.Accounts top blame _
    (pollReading S shape t elem R r contents w).value
  rw [pollReading_value]
  have accounted : Window.Accounts (Entry.kind S elem) base top blame (contents.entries r)
      (w.run (Entry.kind S elem) windowWidth (contents.entries r)
        (RefSet.union R (RefSet.single r)) (contents.count - w.delivered.size + 1)).value :=
    h.run_accounts (hR.union (.single hr)) _
  generalize (w.run (Entry.kind S elem) _ _ _ _).value = x at accounted
  rcases x with (e | values) | w'
  · exact accounted
  · exact Shape.holds_assemble fun p mem => accounted p (Array.mem_def.2 mem)
  · exact ⟨w', rfl, accounted⟩

/-- **The conversion of an object** fails only as one of its entries. -/
theorem object_failsOnly {r : Ref} (hr : top r)
    (entries : ∀ n read, (Contents.ofObject shape (S.heap.object r)).read? n = some read →
      (Entry.kind S elem).FailsOnly base top blame (.reading r read none)) :
    (Conversion.container S shape t elem).kind.FailsOnly base top blame
      (.begun (.sourced (.object r))) := by
  have sizing (left : Nat) : (Conversion.container S shape t elem).kind.FailsOnly base top blame
      (.sizing r left) := by
    induction left with
    | zero => exact (reading_failsOnly hr entries).of_same_poll (.single hr) fun _ _ => rfl
    | succ left ih => exact .intro (.single hr) fun _ _ => ih
  exact (sizing _).of_same_poll (.single hr) fun _ _ => rfl

/-- **Converting entries in memory** fails only as one of them. -/
theorem joining_failsOnly {keys : List String}
    {join : Join (CastError C) (Entry C elem.State) (Payload C)}
    (h : join.FailsOnly (Entry.kind S elem) base top blame) :
    (Conversion.container S shape t elem).kind.FailsOnly base top blame
      (.joining keys join) := by
  refine ⟨fun stage => ∃ join : Join (CastError C) (Entry C elem.State) (Payload C),
    stage = .joining keys join ∧ join.FailsOnly (Entry.kind S elem) base top blame,
    ?_, join, rfl, h⟩
  rintro _ ⟨join, rfl, h⟩
  refine ⟨h.holds, fun R hR => ?_⟩
  show (Conversion.container S shape t elem).kind.Accounts top blame _
    (pollJoining S shape t elem R keys join).value
  have accounted := h.poll_accounts hR
  rw [pollJoining_value]
  generalize (join.poll (Entry.kind S elem) R).value = x at accounted
  rcases x with (e | values) | join'
  · exact accounted
  · exact Shape.holds_assemble accounted
  · exact ⟨join', rfl, accounted⟩

/-- The items of a list start in states that fail only as they do. -/
theorem startAll_failsOnly {items : List (Variant C)} {started : List elem.State}
    (hR : Between base top R) (hs : ∀ s ∈ started, elem.kind.FailsOnly base top blame s)
    (h : ∀ w ∈ items, w.holds.Below top ∧ elem.FailsOnly base top blame w) :
    ∀ s ∈ (startAll elem R started items).value, elem.kind.FailsOnly base top blame s := by
  induction items generalizing started with
  | nil => exact fun s mem => hs s (List.mem_reverse.1 mem)
  | cons w items ih =>
    obtain ⟨first, behind⟩ := List.forall_mem_cons.1 h
    have around : Between base top (RefSet.union R (RefSet.union
        (RefSet.unionOf elem.holds started) (RefSet.unionOf Variant.holds items))) :=
      hR.union (.union (.unionOf fun s mem => (hs s mem).holds)
        (.unionOf fun w mem => (behind w mem).1))
    rw [startAll, Logged.value_bind]
    exact ih (List.forall_mem_cons.2 ⟨first.2 _ around, hs⟩) behind

/-- **The conversion of a list** fails only as one of its items. -/
theorem list_failsOnly {k : SeqKind} {items : List (Variant C)}
    (h : ∀ w ∈ items, w.holds.Below top ∧ elem.FailsOnly base top blame w) :
    (Conversion.container S (.sequence k) t elem).kind.FailsOnly base top blame
      (.begun (.sourced (.list items))) := by
  refine .intro (.unionOf fun w mem => (h w mem).1) fun R hR => ?_
  have states : ∀ s ∈ (startAll elem R [] items).value, elem.kind.FailsOnly base top blame s :=
    startAll_failsOnly hR (List.forall_mem_nil _) h
  refine (joining_failsOnly (.ofList fun task mem => ?_)).polled hR
  obtain ⟨s, hs, rfl⟩ := List.mem_map.1 mem
  exact Entry.converting_failsOnly (states s hs) none

/-- **The conversion of a dictionary** fails only as one of its entries. -/
theorem dictionary_failsOnly {k : MapKind} {entries : List (String × Variant C)}
    (h : ∀ e ∈ entries, e.2.holds.Below top ∧ elem.FailsOnly base top blame e.2) :
    (Conversion.container S (.mapping k) t elem).kind.FailsOnly base top blame
      (.begun (.sourced (.dictionary entries))) := by
  refine .intro (.unionOf fun e mem => (h e mem).1) fun R hR => ?_
  refine (joining_failsOnly (.ofList fun task mem => ?_)).polled hR
  obtain ⟨e, he, rfl⟩ := List.mem_map.1 mem
  exact Entry.stored_failsOnly (h e he).2 (h e he).1

end Stage

/-! ## Blame -/

namespace Variant

/-- What an entry of an object is blamed for, the object is. -/
theorem Blames.of_read {r : Ref} {e : CastError C} {n : Nat} {read : Read}
    (source : v.source alive = .ok (.object r))
    (entry : (Contents.ofObject shape (S.heap.object r)).read? n = some read)
    (h : (Entry.answer (S.heap.object r) read).Blames S alive gone gone t e) :
    v.Blames S alive asked gone (shape.type t) e := by
  obtain ⟨path, y, u, leads, refused⟩ := h
  simp only [ite_self] at refused
  cases shape with
  | sequence k =>
    obtain ⟨present, rfl⟩ : n < (S.heap.object r).length ∧ Read.element n = read := by
      simpa [Contents.ofObject, Contents.read?] using entry
    exact ⟨_, y, u, .element source present leads, refused⟩
  | mapping k =>
    obtain ⟨key, present, rfl⟩ : ∃ key, (S.heap.object r).keys[n]? = some key
        ∧ Read.property key = read := by
      simpa [Contents.ofObject, Contents.read?] using entry
    exact ⟨_, y, u, .property source (List.mem_of_getElem? present) leads, refused⟩

theorem Blames.of_item {items : List (Variant C)} {w : Variant C} {e : CastError C}
    {k : SeqKind} (source : v.source alive = .ok (.list items)) (mem : w ∈ items)
    (h : w.Blames S alive gone gone t e) : v.Blames S alive asked gone (.seq k t) e := by
  obtain ⟨n, present⟩ := List.mem_iff_getElem?.1 mem
  obtain ⟨path, y, u, leads, refused⟩ := h
  simp only [ite_self] at refused
  exact ⟨_, y, u, .item source present leads, refused⟩

theorem Blames.of_entry {entries : List (String × Variant C)} {entry : String × Variant C}
    {e : CastError C} {k : MapKind} (source : v.source alive = .ok (.dictionary entries))
    (mem : entry ∈ entries) (h : entry.2.Blames S alive gone gone t e) :
    v.Blames S alive asked gone (.map k t) e := by
  obtain ⟨path, y, u, leads, refused⟩ := h
  simp only [ite_self] at refused
  exact ⟨_, y, u, .entry source mem leads, refused⟩

/-- A refused value is to blame itself. -/
theorem Blames.here {e : CastError C} (refused : v.Refused S.converters asked t e) :
    v.Blames S alive asked gone t e := ⟨[], v, t, .here v t, refused⟩

/-- So is one without a source. -/
theorem Blames.of_source {living : RefSet} {reason : Reason}
    (inexact : v.exactly? (shape.type t) = none) (source : v.source living = .error reason)
    (missed : ∀ r, living r = false → asked r) :
    v.Blames S alive asked gone (shape.type t)
      ((v.castError (shape.type t)).because reason) := by
  rcases source_eq_error source with ⟨rfl, never⟩ | ⟨rfl, r, weak, dead⟩
  · exact .here (.notStructured inexact never)
  · exact .here (.released weak (missed r dead))

end Variant

/-- **A source that was taken fails only with an error about a value** within, if the
conversions of its entries do. -/
theorem Stage.sourced_failsOnly (outlook : Outlook S base top alive gone)
    (elems : ∀ w : Variant C, w.holds.Below top →
      elem.FailsOnly base top (w.Blames S alive gone gone t) w)
    {taken : Source C} (source : v.source alive = .ok taken) (held : taken.holds.Below top) :
    (Conversion.container S shape t elem).kind.FailsOnly base top
      (v.Blames S alive asked gone (shape.type t)) (.begun (.sourced taken)) := by
  cases taken with
  | object r =>
    have hr : top r := held r (beq_self_eq_true r)
    refine object_failsOnly hr fun n read asked => Entry.fresh_failsOnly ?_ hr
    have answer : (Entry.answer (S.heap.object r) read).holds.Below top :=
      fun _ held => outlook.closed r _ hr (Heap.holds_answer held)
    exact fun R hR => (elems _ answer R hR).mono fun e => .of_read source asked
  | list items =>
    have holds (w) (mem : w ∈ items) : w.holds.Below top :=
      fun r hr => held r ((RefSet.unionOf_apply _ _ r).2 ⟨w, mem, hr⟩)
    cases shape with
    | sequence k =>
      refine list_failsOnly fun w mem => ⟨holds w mem, fun R hR => ?_⟩
      exact (elems w (holds w mem) R hR).mono fun e => .of_item source mem
    | mapping k =>
      obtain ⟨ps, payload⟩ := Variant.payload_of_list source
      have blamed : v.Blames S alive asked gone (.map k t)
          (CastError.because ⟨v.type, .map k t, none⟩ .listAsMapping) :=
        .here (.listAsMapping payload)
      rw [Variant.type_of_payload payload] at blamed
      exact .intro held fun _ _ => blamed
  | dictionary entries =>
    have holds (entry) (mem : entry ∈ entries) : entry.2.holds.Below top :=
      fun r hr => held r ((RefSet.unionOf_apply _ _ r).2 ⟨entry, mem, hr⟩)
    cases shape with
    | sequence k =>
      obtain ⟨ps, payload⟩ := Variant.payload_of_dictionary source
      have blamed : v.Blames S alive asked gone (.seq k t)
          (CastError.because ⟨v.type, .seq k t, none⟩ .dictionaryAsSequence) :=
        .here (.dictionaryAsSequence payload)
      rw [Variant.type_of_payload payload] at blamed
      exact .intro held fun _ _ => blamed
    | mapping k =>
      refine dictionary_failsOnly fun entry mem => ⟨holds entry mem, fun R hR => ?_⟩
      exact (elems entry.2 (holds entry mem) R hR).mono fun e => .of_entry source mem

/-- **What was begun fails only with an error about a value** within, if the
conversions of the entries do. `living` is what was alive then. -/
theorem Stage.begun_failsOnly (outlook : Outlook S base top alive gone)
    (elems : ∀ w : Variant C, w.holds.Below top →
      elem.FailsOnly base top (w.Blames S alive gone gone t) w)
    {living : RefSet} (found : ∀ r, living r = true → alive r = true)
    (missed : ∀ r, living r = false → asked r)
    (held : (v.begin living (shape.type t)).value.holds.Below top) :
    (Conversion.container S shape t elem).kind.FailsOnly base top
      (v.Blames S alive asked gone (shape.type t))
      (.begun (v.begin living (shape.type t)).value) := by
  rw [Variant.begin_value] at held ⊢
  cases inexact : v.exactly? (shape.type t) with
  | some p =>
    rw [inexact] at held
    exact .intro held fun _ _ => held
  | none =>
    rw [inexact] at held
    cases source : v.source living with
    | error reason => exact .intro .none fun _ _ => .of_source inexact source missed
    | ok taken =>
      rw [source] at held
      exact sourced_failsOnly outlook elems (Variant.source_mono source found) held

/-- **The conversion to a container fails only with an error about a value** within,
if the conversions of its entries do. -/
theorem Conversion.container_failsOnly (outlook : Outlook S base top alive gone)
    (elems : ∀ w : Variant C, w.holds.Below top →
      elem.FailsOnly base top (w.Blames S alive gone gone t) w) (hv : v.holds.Below top) :
    (Conversion.container S shape t elem).FailsOnly base top
      (v.Blames S alive gone gone (shape.type t)) v := by
  intro R hR
  refine Stage.begun_failsOnly outlook elems (fun r live => (outlook.found hR live).2)
    (fun r dead => outlook.missed hR dead) fun r held => ?_
  exact (Variant.holds_begin held).elim (hv r) fun live => (outlook.found hR live).1

/-! ## Element types -/

namespace Ty

/-- **The scalar types that entries of a container may have**: numbers, truth values,
characters, text, the explicit null, variants, and options of these. -/
def IsScalarElement : Ty C → Prop
  | int _ | float _ | bool | char | text | wide | null | variant => True
  | option t => t.IsScalarElement
  | _ => False

/-- **The types that entries of a container may have**: scalars, and containers of
any depth. -/
def IsElement : Ty C → Prop
  | seq _ t | map _ t => t.IsElement
  | t => t.IsScalarElement

theorem IsScalarElement.isScalar {t : Ty C} (h : t.IsScalarElement) : t.IsScalar := by
  induction t with
  | option t ih => exact ih h
  | int _ | float _ | bool | char | text | wide | null | variant => trivial
  | _ => exact h.elim

end Ty

/-- The conversion to a scalar element does not depend on what is alive, nor does what
it reports. -/
theorem Variant.convertFrom_scalarElement {t : Ty C} (h : t.IsScalarElement)
    (K : Converters C) (v : Variant C) (a b : RefSet) :
    convertFrom K a t v = convertFrom K b t v := by
  induction t with
  | option t ih => rw [convertFrom, convertFrom, ih h]
  | int _ | float _ | bool | char | text | wide | null | variant => rfl
  | _ => exact h.elim

theorem Variant.convert_scalarElement {t : Ty C} (h : t.IsScalarElement)
    (K : Converters C) (v : Variant C) (a b : RefSet) :
    v.convert K a t = v.convert K b t := by
  rw [convert, convert, convertFrom_scalarElement h K v a b]

theorem Conversion.scalar_failsOnly (outlook : Outlook S base top alive gone)
    (scalar : t.IsScalarElement) (simple : t.shape? = none) (hv : v.holds.Below top) :
    (Conversion.scalar S t).FailsOnly base top (v.Blames S alive gone gone t) v := by
  intro R hR
  show (Conversion.scalar S t).kind.FailsOnly base top _
    (v.convert S.converters (S.heap.alive R) t).value
  cases outcome : (v.convert S.converters (S.heap.alive R) t).value with
  | ok p =>
    have kept : p.holds.Below top := fun r held =>
      (Variant.holds_convert outcome held).elim (hv r) fun live => (outlook.found hR live).1
    exact .intro kept fun _ _ => kept
  | error e =>
    refine .intro .none fun _ _ => Variant.Blames.here (.scalar simple fun living => ?_)
    rw [← outcome, Variant.convert_scalarElement scalar _ v]

/-- **The conversion to any element type** fails only with an error about a value
within. -/
theorem Conversion.of_failsOnly (outlook : Outlook S base top alive gone)
    (element : t.IsElement) (hv : v.holds.Below top) :
    (Conversion.of S t).FailsOnly base top (v.Blames S alive gone gone t) v := by
  induction t generalizing v with
  | seq k t ih =>
    show (Conversion.container S (.sequence k) t (Conversion.of S t)).FailsOnly base top
      (v.Blames S alive gone gone (Shape.type (.sequence k) t)) v
    exact Conversion.container_failsOnly outlook (fun w hw => ih element hw) hv
  | map k t ih =>
    show (Conversion.container S (.mapping k) t (Conversion.of S t)).FailsOnly base top
      (v.Blames S alive gone gone (Shape.type (.mapping k) t)) v
    exact Conversion.container_failsOnly outlook (fun w hw => ih element hw) hv
  | int _ | float _ | bool | char | text | wide | null | variant | option _ =>
    exact Conversion.scalar_failsOnly outlook element rfl hv
  | _ => exact element.elim

/-- A conversion that is driven to a failure fails only in its ways. -/
theorem Conversion.error_of_drive {c : Conversion C} {state : c.State} {n : Nat}
    {e : CastError C} (h : c.kind.FailsOnly base top blame state) (hR : Between base top R)
    (failed : (c.drive R n state).value = some (.error e)) : blame e := by
  induction n generalizing state with
  | zero => cases failed
  | succ n ih =>
    rw [drive, Logged.value_bind] at failed
    cases polled : (c.poll R state).value with
    | pending state' =>
      rw [polled] at failed
      exact ih (h.of_pending hR polled) failed
    | ready o =>
      rw [polled] at failed
      obtain rfl := Option.some.inj failed
      exact h.of_ready hR polled

namespace Variant

/-- The values on the way to a refused one are asked for element types. -/
theorem LeadsTo.isElement {h : Heap C} {y : Variant C} {u : Ty C} {path : List PathStep}
    (leads : v.LeadsTo h alive t path y u) (element : t.IsElement) : u.IsElement := by
  induction leads with
  | here => exact element
  | element _ _ _ ih | item _ _ _ ih | property _ _ _ ih | entry _ _ _ ih => exact ih element

/-- **What the error of a refused value says.** -/
theorem Refused.error {y : Variant C} {u : Ty C} {e : CastError C} {K : Converters C}
    (h : y.Refused K gone u e) (element : u.IsElement) :
    e.stored = y.type ∧ e.requested = u ∧ (u.shape?.isSome = true → e.detail.isSome = true) := by
  cases h with
  | notStructured | released | listAsMapping | dictionaryAsSequence =>
    exact ⟨rfl, rfl, fun _ => rfl⟩
  | scalar simple refused =>
    have scalar : u.IsScalar := by
      cases u with
      | seq k t => cases simple
      | map k t => cases simple
      | _ => exact Ty.IsScalarElement.isScalar element
    have faithful := convert_faithful scalar (refused .none)
    refine ⟨faithful.stored, faithful.requested, fun h => ?_⟩
    rw [simple] at h
    cases h

/-- A conversion that is kept fails only with an error about a value within. -/
theorem pend_failsOnly (S : Setting C) (v : Variant C) (shape : Shape) {t : Ty C}
    (element : t.IsElement) (asked held : RefSet) :
    (Conversion.container S shape t (Conversion.of S t)).kind.FailsOnly held
      (S.heap.Reach (RefSet.union held (v.pend asked shape t).value.holds))
      (v.Blames S (RefSet.union asked
          (S.heap.alive (RefSet.union held (v.pend asked shape t).value.holds)))
        (fun r => asked r = false) (fun r => S.heap.alive held r = false) (shape.type t))
      (.begun (v.pend asked shape t).value.begun) := by
  have outlook := Outlook.of_held S asked held (v.pend asked shape t).value.holds
  refine Stage.begun_failsOnly outlook (fun w hw => Conversion.of_failsOnly outlook element hw)
    (fun r live => ?_) (fun _ dead => dead) fun r kept => .root ?_
  · rw [RefSet.union_apply, live, Bool.true_or]
  · have kept : (v.pend asked shape t).value.holds r = true := kept
    rw [RefSet.union_apply, kept, Bool.or_true]

/-- **The error of a failed container conversion is about a value that is there.** A
path of indices and keys leads to it, and on its own it cannot become what it is
asked for: it is not structured, or a weak reference to what is gone, or a list that
is asked for as a mapping, or a dictionary that is asked for as a sequence, or it
does not convert to a scalar. The error names its type and the type that it is asked
for, and has an explanation if this is a container. `asked` is what was alive when
the container was asked for, `held` what is held elsewhere while the conversion is
driven. -/
theorem container_error_blames {S : Setting C} {v : Variant C} {shape : Shape} {t : Ty C}
    (element : t.IsElement) {asked held : RefSet} {n : Nat} {e : CastError C}
    (failed : ((Conversion.container S shape t (Conversion.of S t)).drive held n
      (.begun (v.pend asked shape t).value.begun)).value = some (.error e)) :
    ∃ (path : List PathStep) (y : Variant C) (u : Ty C),
      v.LeadsTo S.heap (RefSet.union asked
        (S.heap.alive (RefSet.union held (v.pend asked shape t).value.holds)))
        (shape.type t) path y u
      ∧ y.Refused S.converters
        (fun r => if path = [] then asked r = false else S.heap.alive held r = false) u e
      ∧ e.stored = y.type ∧ e.requested = u
      ∧ (u.shape?.isSome = true → e.detail.isSome = true) := by
  have below : held.Below
      (S.heap.Reach (RefSet.union held (v.pend asked shape t).value.holds)) :=
    fun r hr => .root (by rw [RefSet.union_apply, hr, Bool.true_or])
  obtain ⟨path, y, u, leads, refused⟩ :=
    Conversion.error_of_drive (pend_failsOnly S v shape element asked held) (.self below) failed
  have container : (shape.type t).IsElement := by
    cases shape <;> exact element
  exact ⟨path, y, u, leads, refused, refused.error (leads.isElement container)⟩

/-- A list of two lists, of which the second has a text that is no number. -/
def numberLists : Variant .none :=
  ofValue (.seq .vector .variant
    [(ofValue (.seq .vector .variant [(ofText "1").toPayload])).toPayload,
      (ofValue (.seq .vector .variant [(ofText "x").toPayload])).toPayload])

/-- Asked for lists of integers, it fails with the error of that text. -/
theorem container_error_blames_numberLists :
    let S : Setting .none := ⟨.empty, .refusing .none⟩
    let e : CastError .none :=
      ⟨.text, .int .widestSigned, some (Reason.notNumeric "x").wording⟩
    ((Conversion.container S (.sequence .vector) (.seq .vector (.int .widestSigned))
        (Conversion.of S (.seq .vector (.int .widestSigned)))).drive .none 1
      (.begun (numberLists.pend .none (.sequence .vector)
        (.seq .vector (.int .widestSigned))).value.begun)).value = some (.error e)
    ∧ ∃ (path : List PathStep) (y : Variant .none) (u : Ty .none),
      numberLists.LeadsTo S.heap (RefSet.union .none (S.heap.alive (RefSet.union .none
        (numberLists.pend .none (.sequence .vector)
          (.seq .vector (.int .widestSigned))).value.holds)))
        (Shape.type (.sequence .vector) (.seq .vector (.int .widestSigned))) path y u
      ∧ y.Refused S.converters
        (fun r => if path = [] then RefSet.none r = false else S.heap.alive .none r = false) u e
      ∧ e.stored = y.type ∧ e.requested = u
      ∧ (u.shape?.isSome = true → e.detail.isSome = true) := by
  intro S e
  have failed : ((Conversion.container S (.sequence .vector) (.seq .vector (.int .widestSigned))
      (Conversion.of S (.seq .vector (.int .widestSigned)))).drive .none 1
    (.begun (numberLists.pend .none (.sequence .vector)
      (.seq .vector (.int .widestSigned))).value.begun)).value = some (.error e) := rfl
  exact ⟨failed, container_error_blames (by trivial) failed⟩

end Variant

end DynValue

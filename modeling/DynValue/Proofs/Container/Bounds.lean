import DynValue.Container.Collect
import DynValue.Proofs.WeakReferences
import Mathlib.Order.Lattice

/-!
# What can be reached within bounds

The number of polls that a conversion may take is bounded by the largest
delay and the largest number of entries of anything on the heap. This
module says that these are bounds: of every read of an object
(`Heap.delayOf_le`), of every answer to one (`Heap.breadth_answer`), and of
the parts of every list and dictionary (`Variant.breadth_of_list`,
`Variant.breadth_of_dictionary`).

In the same way, what the parts of a source hold and refer to weakly is
held and referred to by the source (`Heap.holds_answer` and the lemmas
beside it).
-/

namespace DynValue

variable {C : CallerTypes}

/-! ## Largest numbers -/

theorem le_foldl_max (start : Nat) (ns : List Nat) : start ≤ ns.foldl max start := by
  induction ns generalizing start with
  | nil => exact Nat.le_refl start
  | cons n ns ih => exact Nat.le_trans (Nat.le_max_left start n) (ih _)

theorem le_foldl_max_of_mem {start n : Nat} {ns : List Nat} (h : n ∈ ns) :
    n ≤ ns.foldl max start := by
  induction ns generalizing start with
  | nil => cases h
  | cons m ns ih =>
    cases h with
    | head => exact Nat.le_trans (Nat.le_max_right start n) (le_foldl_max _ ns)
    | tail _ h => exact ih h

theorem foldl_max_le {start bound : Nat} {ns : List Nat} (first : start ≤ bound)
    (le : ∀ n ∈ ns, n ≤ bound) : ns.foldl max start ≤ bound := by
  induction ns generalizing start with
  | nil => exact first
  | cons n ns ih =>
    obtain ⟨here, behind⟩ := List.forall_mem_cons.1 le
    exact ih (max_le first here) behind

namespace Heap

variable {h : Heap C} {r r' : Ref} {read : Read}

/-! ## Objects -/

/-- What has or reports anything is on the heap. -/
theorem object_eq (h : Heap C) (r : Ref) :
    h.object r = .blank ∨ h.cells[r]? = some (.object (h.object r)) := by
  unfold object
  split
  · rename_i o cell
    exact .inr cell
  · exact .inl rfl

end Heap

namespace ExternalObject

variable {o : ExternalObject C} {r : Ref}

/-- An answer is one of the things that an object has, or without a value. -/
theorem answer_mem (o : ExternalObject C) (read : Read) :
    Entry.answer o read ∈ o.elements ∨ (∃ key, (key, Entry.answer o read) ∈ o.properties)
      ∨ Entry.answer o read = .empty := by
  cases read with
  | length => exact .inr (.inr rfl)
  | keys => exact .inr (.inr rfl)
  | element index =>
    show o.element index ∈ _ ∨ _ ∨ o.element index = _
    unfold element
    cases he : o.elements[index]? with
    | none => exact .inr (.inr rfl)
    | some v => exact .inl (List.mem_of_getElem? he)
  | property key =>
    show o.property key ∈ _ ∨ (∃ k, (k, o.property key) ∈ _) ∨ o.property key = _
    unfold property
    cases hp : o.properties.lookup key with
    | none => exact .inr (.inr rfl)
    | some v =>
      obtain ⟨before, behind, same, -⟩ := List.lookup_eq_some_iff.1 hp
      refine .inr (.inl ⟨key, ?_⟩)
      rw [same]
      exact List.mem_append_right _ List.mem_cons_self

theorem holds_answer {read : Read} (hr : (Entry.answer o read).holds r = true) :
    o.holds r = true := by
  rw [holds, RefSet.union_apply, Bool.or_eq_true]
  rcases o.answer_mem read with mem | ⟨key, mem⟩ | none
  · exact .inl ((RefSet.unionOf_apply _ _ r).2 ⟨_, mem, hr⟩)
  · exact .inr ((RefSet.unionOf_apply _ _ r).2 ⟨_, mem, hr⟩)
  · rw [none] at hr
    cases hr

theorem refersWeakly_answer {read : Read}
    (hr : (Entry.answer o read).refersWeakly r = true) : o.refersWeakly r = true := by
  rw [refersWeakly, RefSet.union_apply, Bool.or_eq_true]
  rcases o.answer_mem read with mem | ⟨key, mem⟩ | none
  · exact .inl ((RefSet.unionOf_apply _ _ r).2 ⟨_, mem, hr⟩)
  · exact .inr ((RefSet.unionOf_apply _ _ r).2 ⟨_, mem, hr⟩)
  · rw [none] at hr
    cases hr

theorem breadth_answer (o : ExternalObject C) (read : Read) :
    (Entry.answer o read).breadth ≤ o.breadth := by
  rcases o.answer_mem read with mem | ⟨key, mem⟩ | none
  · exact le_foldl_max_of_mem (List.mem_append_left _ (List.mem_map_of_mem mem))
  · exact le_foldl_max_of_mem (List.mem_append_right _ (List.mem_map.2 ⟨_, mem, rfl⟩))
  · rw [none]
    exact Nat.zero_le _

theorem count_le (o : ExternalObject C) (shape : Shape) :
    (Contents.ofObject shape o).count ≤ o.breadth := by
  cases shape with
  | sequence k => exact (Nat.le_max_left _ _).trans (le_foldl_max _ _)
  | mapping k => exact (Nat.le_max_right _ _).trans (le_foldl_max _ _)

theorem delayOf_le (o : ExternalObject C) (read : Read) : o.delayOf read ≤ o.delayBound := by
  unfold delayOf
  cases hd : o.delays.lookup read.name with
  | none => exact le_foldl_max _ _
  | some d =>
    obtain ⟨before, behind, same, -⟩ := List.lookup_eq_some_iff.1 hd
    have mem : (read.name, d) ∈ o.delays := same ▸ List.mem_append_right _ List.mem_cons_self
    exact le_foldl_max_of_mem (List.mem_map.2 ⟨_, mem, rfl⟩)

end ExternalObject

namespace Heap

variable {h : Heap C} {r r' : Ref} {read : Read}

/-- What an object answers it holds. -/
theorem holds_answer (hr : (Entry.answer (h.object r) read).holds r' = true) :
    h.heldBy r r' = true := by
  have held := ExternalObject.holds_answer hr
  rcases h.object_eq r with blank | cell
  · rw [blank] at held
    cases held
  · rw [heldBy, cell]
    exact held

theorem refersWeakly_answer (hr : (Entry.answer (h.object r) read).refersWeakly r' = true) :
    h.refersWeakly r' = true := by
  have refers := ExternalObject.refersWeakly_answer hr
  rcases h.object_eq r with blank | cell
  · rw [blank] at refers
    cases refers
  · exact (RefSet.unionOf_apply _ _ r').2 ⟨_, List.mem_of_getElem? cell, refers⟩

theorem breadth_object_le (h : Heap C) (r : Ref) : (h.object r).breadth ≤ h.breadth := by
  rcases h.object_eq r with blank | cell
  · rw [blank]
    exact Nat.zero_le _
  · exact le_foldl_max_of_mem (List.mem_map.2 ⟨_, List.mem_of_getElem? cell, rfl⟩)

theorem breadth_answer_le (h : Heap C) (r : Ref) (read : Read) :
    (Entry.answer (h.object r) read).breadth ≤ h.breadth :=
  (ExternalObject.breadth_answer _ read).trans (h.breadth_object_le r)

theorem count_le (h : Heap C) (r : Ref) (shape : Shape) :
    (Contents.ofObject shape (h.object r)).count ≤ h.breadth :=
  ((h.object r).count_le shape).trans (h.breadth_object_le r)

theorem delayBound_object_le (h : Heap C) (r : Ref) :
    (h.object r).delayBound ≤ h.delayBound := by
  rcases h.object_eq r with blank | cell
  · rw [blank]
    exact Nat.zero_le _
  · exact le_foldl_max_of_mem (List.mem_map.2 ⟨_, List.mem_of_getElem? cell, rfl⟩)

theorem delayOf_le (h : Heap C) (r : Ref) (read : Read) :
    (h.object r).delayOf read ≤ h.delayBound :=
  ((h.object r).delayOf_le read).trans (h.delayBound_object_le r)

end Heap

/-! ## Lists and dictionaries -/

namespace Payload

theorem breadth_le_of_mem {ps : List (Payload C)} {p : Payload C} (hp : p ∈ ps) :
    p.breadth ≤ listBreadth ps := by
  induction ps with
  | nil => cases hp
  | cons q ps ih =>
    cases hp with
    | head => exact Nat.le_max_left _ _
    | tail _ hp => exact (ih hp).trans (Nat.le_max_right _ _)

theorem breadth_le_of_mem_entries {es : List (String × Payload C)} {e : String × Payload C}
    (he : e ∈ es) : e.2.breadth ≤ entriesBreadth es := by
  induction es with
  | nil => cases he
  | cons q es ih =>
    obtain ⟨k, q⟩ := q
    cases he with
    | head => exact Nat.le_max_left _ _
    | tail _ he => exact (ih he).trans (Nat.le_max_right _ _)

theorem listBreadth_le {ps : List (Payload C)} {n : Nat} (h : ∀ p ∈ ps, p.breadth ≤ n) :
    listBreadth ps ≤ n := by
  induction ps with
  | nil => exact Nat.zero_le n
  | cons p ps ih =>
    exact max_le (h p List.mem_cons_self) (ih fun q hq => h q (List.mem_cons_of_mem _ hq))

theorem entriesBreadth_le {es : List (String × Payload C)} {n : Nat}
    (h : ∀ e ∈ es, e.2.breadth ≤ n) : entriesBreadth es ≤ n := by
  induction es with
  | nil => exact Nat.zero_le n
  | cons e es ih =>
    exact max_le (h e List.mem_cons_self) (ih fun q hq => h q (List.mem_cons_of_mem _ hq))

theorem listHolds_iff {ps : List (Payload C)} {r : Ref} :
    listHolds ps r = true ↔ ∃ p ∈ ps, p.holds r = true := by
  induction ps with
  | nil => simp [listHolds]
  | cons p ps ih => simp [listHolds, ih]

theorem entriesHold_iff {es : List (String × Payload C)} {r : Ref} :
    entriesHold es r = true ↔ ∃ e ∈ es, e.2.holds r = true := by
  induction es with
  | nil => simp [entriesHold]
  | cons e es ih => obtain ⟨k, p⟩ := e; simp [entriesHold, ih]

end Payload

/-- **A part of a variant**: it holds, refers to and is as broad as nothing
that the variant is not. -/
structure Variant.PartOf (w v : Variant C) : Prop where
  holds : ∀ r, w.holds r = true → v.holds r = true
  refersWeakly : ∀ r, w.refersWeakly r = true → v.refersWeakly r = true
  breadth : w.breadth ≤ v.breadth

namespace Variant

variable {v w : Variant C} {alive : RefSet}

theorem partOf_list {items : List (Variant C)} (h : v.source alive = .ok (.list items)) :
    items.length ≤ v.breadth ∧ ∀ w ∈ items, w.PartOf v := by
  unfold source at h
  split at h
  · cases h
  · split at h <;> cases h
  · rename_i ps payload
    obtain rfl := Source.list.inj (Except.ok.inj h)
    have breadth : v.breadth = max ps.length (Payload.listBreadth ps) := by
      rw [Variant.breadth, payload]
      rfl
    refine ⟨?_, fun w hw => ?_⟩
    · rw [List.length_map, breadth]
      exact Nat.le_max_left _ _
    · obtain ⟨p, hp, rfl⟩ := List.mem_map.1 hw
      refine ⟨fun r hr => ?_, fun r hr => ?_, ?_⟩
      · rw [holds_ofEntry] at hr
        rw [holds, payload]
        exact Payload.listHolds_iff.2 ⟨p, hp, hr⟩
      · rw [refersWeakly_ofEntry] at hr
        rw [refersWeakly, payload]
        exact Payload.listRefersWeakly_of_mem hp hr
      · rw [breadth_ofEntry, breadth]
        exact (Payload.breadth_le_of_mem hp).trans (Nat.le_max_right _ _)
  · cases h
  · cases h

theorem partOf_dictionary {entries : List (String × Variant C)}
    (h : v.source alive = .ok (.dictionary entries)) :
    entries.length ≤ v.breadth ∧ ∀ e ∈ entries, e.2.PartOf v := by
  unfold source at h
  split at h
  · cases h
  · split at h <;> cases h
  · cases h
  · rename_i ps payload
    obtain rfl := Source.dictionary.inj (Except.ok.inj h)
    have breadth : v.breadth = max ps.length (Payload.entriesBreadth ps) := by
      rw [Variant.breadth, payload]
      rfl
    refine ⟨?_, fun e he => ?_⟩
    · rw [List.length_map, breadth]
      exact Nat.le_max_left _ _
    · obtain ⟨p, hp, rfl⟩ := List.mem_map.1 he
      refine ⟨fun r hr => ?_, fun r hr => ?_, ?_⟩
      · rw [holds_ofEntry] at hr
        rw [holds, payload]
        exact Payload.entriesHold_iff.2 ⟨p, hp, hr⟩
      · rw [refersWeakly_ofEntry] at hr
        rw [refersWeakly, payload]
        exact Payload.entriesReferWeakly_of_mem hp hr
      · rw [breadth_ofEntry, breadth]
        exact (Payload.breadth_le_of_mem_entries hp).trans (Nat.le_max_right _ _)
  · cases h

/-- A source is as broad as its variant. -/
theorem breadth_le_source {s : Source C} (h : v.source alive = .ok s) :
    v.breadth ≤ s.breadth := by
  unfold source at h
  split at h
  · rename_i r payload
    rw [Variant.breadth, payload]
    exact Nat.zero_le _
  · rename_i r payload
    rw [Variant.breadth, payload]
    exact Nat.zero_le _
  · rename_i ps payload
    obtain rfl := Except.ok.inj h
    rw [Variant.breadth, payload]
    refine max_le ?_ (Payload.listBreadth_le fun p hp => ?_)
    · rw [← List.length_map Variant.ofEntry]
      exact le_foldl_max _ _
    · rw [← breadth_ofEntry]
      exact le_foldl_max_of_mem (List.mem_map_of_mem (List.mem_map_of_mem hp))
  · rename_i es payload
    obtain rfl := Except.ok.inj h
    rw [Variant.breadth, payload]
    refine max_le ?_ (Payload.entriesBreadth_le fun e he => ?_)
    · rw [← List.length_map (fun e : String × Payload C => (e.1, Variant.ofEntry e.2))]
      exact le_foldl_max _ _
    · rw [← breadth_ofEntry]
      exact le_foldl_max_of_mem (List.mem_map.2 ⟨_, List.mem_map_of_mem he, rfl⟩)
  · cases h

/-- A variant that is a source with an object refers to it, strongly or
weakly. -/
theorem payload_of_object {r : Ref} (h : v.source alive = .ok (.object r)) :
    v.payload = some (.object r)
      ∨ v.payload = some (.weak .externalObject r) ∧ alive r = true := by
  unfold source at h
  split at h
  · rename_i s payload
    obtain rfl := Source.object.inj (Except.ok.inj h)
    exact .inl payload
  · rename_i s payload
    split at h
    · rename_i living
      obtain rfl := Source.object.inj (Except.ok.inj h)
      exact .inr ⟨payload, living⟩
    · cases h
  · cases h
  · cases h
  · cases h

theorem holds_object {r : Ref} (h : v.source alive = .ok (.object r)) :
    v.holds r = true ∨ alive r = true := by
  rcases payload_of_object h with payload | ⟨-, living⟩
  · rw [holds, payload]
    exact .inl (beq_self_eq_true r)
  · exact .inr living

theorem eq_of_holds_object {r r' : Ref} (h : v.source alive = .ok (.object r))
    (hr' : v.holds r' = true) : r' = r := by
  rcases payload_of_object h with payload | ⟨payload, -⟩
  · rw [holds, payload] at hr'
    exact beq_iff_eq.1 hr'
  · rw [holds, payload] at hr'
    cases hr'

/-- It is no container itself. -/
theorem exactly?_of_object {r : Ref} (h : v.source alive = .ok (.object r)) (shape : Shape)
    (t : Ty C) : v.exactly? (shape.type t) = none := by
  refine Option.eq_none_iff_forall_ne_some.2 (fun p hp => ?_)
  obtain ⟨payload, type⟩ := exactly?_eq_some_iff.1 hp
  rcases payload_of_object h with same | ⟨same, -⟩
  · obtain rfl := Option.some.inj (payload.symm.trans same)
    cases shape <;> cases type
  · obtain rfl := Option.some.inj (payload.symm.trans same)
    cases shape <;> cases type

end Variant

end DynValue

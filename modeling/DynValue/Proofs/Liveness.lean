import DynValue.Heap

/-!
# What is alive

`Heap.living` iterates a step as often as there are cells. That is enough:
a step that adds nothing adds nothing ever after, and each other one adds a
cell. So what is alive is what can be **reached** from the roots, a root
being reached and whatever something reached holds (`Heap.alive_iff`).

Larger roots keep more alive (`Heap.alive_mono`), and roots keep no more
alive if something that they keep alive joins them
(`Heap.alive_eq_of_between`). What is alive is held by the roots or by
something alive, and on a heap whose cells hold only older ones there is
no other answer to the question who holds what
(`Heap.Descends.alive_unique`).
-/

namespace DynValue.Heap

open DynValue

variable {C : CallerTypes} {h : Heap C} {roots roots' : RefSet} {r s : Ref}

/-- **What can be reached** from roots along strong references. -/
inductive Reach (h : Heap C) (roots : RefSet) : Ref → Prop
  | root {r : Ref} (mem : roots r = true) : Reach h roots r
  | held {r s : Ref} (path : Reach h roots s) (holds : h.heldBy s r = true) : Reach h roots r

/-- Reaching from what is reached reaches nothing new. -/
theorem Reach.trans (path : h.Reach roots' r) (le : ∀ r, roots' r = true → h.Reach roots r) :
    h.Reach roots r := by
  induction path with
  | root mem => exact le _ mem
  | held _ holds ih => exact ih.held holds

theorem Reach.mono (path : h.Reach roots r) (le : ∀ r, roots r = true → roots' r = true) :
    h.Reach roots' r :=
  path.trans fun r hr => .root (le r hr)

/-- Only what is on the heap holds anything. -/
theorem lt_of_heldBy (holds : h.heldBy s r = true) : s < h.cells.length := by
  refine Nat.not_le.1 (fun le => ?_)
  rw [heldBy, List.getElem?_eq_none le] at holds
  cases holds

/-! ## The iteration -/

theorem mem_grow {living : List Ref} :
    r ∈ h.grow living
      ↔ r < h.cells.length ∧ (r ∈ living ∨ ∃ s ∈ living, h.heldBy s r = true) := by
  rw [grow, List.mem_filter, List.mem_range, Bool.or_eq_true, List.contains_iff_mem,
    List.any_eq_true]

theorem grow_sublist_range (living : List Ref) :
    (h.grow living).Sublist (List.range h.cells.length) := List.filter_sublist

/-- A step loses nothing. -/
theorem sublist_grow {living : List Ref} (le : living.Sublist (List.range h.cells.length)) :
    living.Sublist (h.grow living) := by
  have same : living.filter (fun r => living.contains r || living.any fun s => h.heldBy s r)
      = living :=
    List.filter_eq_self.2 (fun r hr => by
      rw [List.contains_iff_mem.2 hr, Bool.true_or])
  have kept := le.filter (fun r => living.contains r || living.any fun s => h.heldBy s r)
  rwa [same] at kept

/-- What is reached after so many steps. -/
def after (h : Heap C) (roots : RefSet) (n : Nat) : List Ref :=
  Nat.repeat h.grow n ((List.range h.cells.length).filter roots)

theorem after_sublist_range (h : Heap C) (roots : RefSet) (n : Nat) :
    (h.after roots n).Sublist (List.range h.cells.length) := by
  cases n with
  | zero => exact List.filter_sublist
  | succ n => exact grow_sublist_range _

/-- **Every step adds a cell, until one adds nothing.** -/
theorem fixed_or_le_length (h : Heap C) (roots : RefSet) (n : Nat) :
    (∃ k < n, h.grow (h.after roots k) = h.after roots k) ∨ n ≤ (h.after roots n).length := by
  induction n with
  | zero => exact .inr (Nat.zero_le _)
  | succ n ih =>
    rcases ih with ⟨k, hk, fixed⟩ | le
    · exact .inl ⟨k, Nat.lt_succ_of_lt hk, fixed⟩
    · have grows := sublist_grow (h.after_sublist_range roots n)
      rcases Nat.eq_or_lt_of_le grows.length_le with same | more
      · exact .inl ⟨n, Nat.lt_succ_self n, (grows.eq_of_length same).symm⟩
      · exact .inr (Nat.lt_of_le_of_lt le more)

/-- **As many steps as there are cells** are enough. -/
theorem grow_living (h : Heap C) (roots : RefSet) :
    h.grow (h.living roots) = h.living roots := by
  have stays : ∀ {k n}, k ≤ n → h.grow (h.after roots k) = h.after roots k →
      h.after roots n = h.after roots k := by
    intro k n le fixed
    induction le with
    | refl => rfl
    | step _ ih => exact (congrArg h.grow ih).trans fixed
  rcases h.fixed_or_le_length roots (h.cells.length + 1) with ⟨k, hk, fixed⟩ | le
  · show h.grow (h.after roots _) = h.after roots _
    rw [stays (Nat.le_of_lt_succ hk) fixed, fixed]
  · have := (h.after_sublist_range roots (h.cells.length + 1)).length_le
    rw [List.length_range] at this
    exact absurd (Nat.le_trans le this) (Nat.not_succ_le_self _)

theorem reach_of_mem_after {n : Nat} (mem : r ∈ h.after roots n) : h.Reach roots r := by
  induction n generalizing r with
  | zero => exact .root (List.mem_filter.1 mem).2
  | succ n ih =>
    obtain ⟨-, mem | ⟨s, hs, holds⟩⟩ := mem_grow.1 mem
    · exact ih mem
    · exact (ih hs).held holds

/-- **What is alive is what is reached**, of all that is on the heap. -/
theorem alive_iff : h.alive roots r = true ↔ r < h.cells.length ∧ h.Reach roots r := by
  rw [alive, List.contains_iff_mem]
  constructor
  · intro mem
    have range := (h.after_sublist_range roots h.cells.length).subset mem
    exact ⟨List.mem_range.1 range, reach_of_mem_after mem⟩
  · rintro ⟨lt, path⟩
    induction path with
    | root mem =>
      have start : ∀ n, (h.after roots 0).Sublist (h.after roots n) := by
        intro n
        induction n with
        | zero => exact List.Sublist.refl _
        | succ n ih => exact ih.trans (sublist_grow (h.after_sublist_range roots n))
      exact (start _).subset (List.mem_filter.2 ⟨List.mem_range.2 lt, mem⟩)
    | held _ holds ih =>
      rw [← h.grow_living roots]
      exact mem_grow.2 ⟨lt, .inr ⟨_, ih (lt_of_heldBy holds), holds⟩⟩

/-- Larger roots keep more alive. -/
theorem alive_mono (le : ∀ r, roots r = true → roots' r = true)
    (alive : h.alive roots r = true) : h.alive roots' r = true := by
  obtain ⟨lt, path⟩ := alive_iff.1 alive
  exact alive_iff.2 ⟨lt, path.mono le⟩

/-- **Roots that reach each other** keep the same alive. -/
theorem alive_eq_of_between (above : ∀ r, roots r = true → roots' r = true)
    (below : ∀ r, roots' r = true → h.Reach roots r) : h.alive roots' = h.alive roots := by
  funext r
  rw [Bool.eq_iff_iff, alive_iff, alive_iff]
  exact ⟨fun ⟨lt, path⟩ => ⟨lt, path.trans below⟩, fun ⟨lt, path⟩ => ⟨lt, path.mono above⟩⟩

/-! ## Who keeps what alive -/

/-- **What is alive is held** by the roots or by something alive. -/
theorem alive_iff_held : h.alive roots r = true ↔ r < h.cells.length
    ∧ (roots r = true ∨ ∃ s, h.alive roots s = true ∧ h.heldBy s r = true) := by
  rw [alive_iff]
  refine and_congr_right fun _ => ⟨fun path => ?_, fun held => ?_⟩
  · cases path with
    | root mem => exact .inl mem
    | held path holds => exact .inr ⟨_, alive_iff.2 ⟨lt_of_heldBy holds, path⟩, holds⟩
  · rcases held with mem | ⟨s, alive, holds⟩
    · exact .root mem
    · exact (alive_iff.1 alive).2.held holds

/-- **What is on the heap holds only what is older.** -/
def Descends (h : Heap C) : Prop := ∀ s r : Nat, h.heldBy s r = true → r < s

/-- **Nothing else can be alive**: on such a heap, the question who holds a reference has
one answer only, so that nothing keeps itself alive. -/
theorem Descends.alive_unique (older : h.Descends)
    (within : ∀ r, roots r = true → r < h.cells.length) {living : Ref → Prop}
    (held : ∀ r, living r ↔ roots r = true ∨ ∃ s, living s ∧ h.heldBy s r = true) (r : Ref) :
    living r ↔ h.alive roots r = true := by
  -- downwards from the latest cell, which nothing on the heap holds
  have reached (n : Nat) (r : Ref) (here : h.cells.length - r ≤ n) (lives : living r) :
      h.Reach roots r := by
    induction n generalizing r with
    | zero =>
      rcases (held r).1 lives with mem | ⟨s, -, holds⟩
      · exact .root mem
      · have between := Nat.lt_trans (older s r holds) (lt_of_heldBy holds)
        omega
    | succ n ih =>
      rcases (held r).1 lives with mem | ⟨s, lives, holds⟩
      · exact .root mem
      · have after := older s r holds
        have before := lt_of_heldBy holds
        exact .held (ih s (by omega) lives) holds
  constructor
  · intro lives
    refine alive_iff.2 ⟨?_, reached _ r (Nat.le_refl _) lives⟩
    rcases (held r).1 lives with mem | ⟨s, -, holds⟩
    · exact within r mem
    · exact Nat.lt_trans (older s r holds) (lt_of_heldBy holds)
  · intro alive
    induction (alive_iff.1 alive).2 with
    | root mem => exact (held _).2 (.inl mem)
    | held path holds ih =>
      exact (held _).2 (.inr ⟨_, ih (alive_iff.2 ⟨lt_of_heldBy holds, path⟩), holds⟩)

end DynValue.Heap

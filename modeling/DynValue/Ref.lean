/-!
# References

Things that are shared have an identity. A `Ref` is that identity and
nothing more: what it refers to is on the heap, and whether that is still
alive depends on who holds it. Who holds what is a set of references,
given as the question whether a reference is in it.
-/

namespace DynValue

/-- **The identity of something shared**: a value or an external object
with its place among all that were ever made. -/
abbrev Ref : Type := Nat

/-- A set of references, as the question whether it has one. -/
abbrev RefSet : Type := Ref → Bool

namespace RefSet

/-- The set without members. -/
def none : RefSet := fun _ => false

/-- The set of one reference. -/
def single (r : Ref) : RefSet := fun r' => r' == r

/-- What is in either set. -/
def union (a b : RefSet) : RefSet := fun r => a r || b r

/-- What is in the set of some element of a list. -/
def unionOf {α : Type} (f : α → RefSet) (xs : List α) : RefSet :=
  fun r => xs.any fun x => f x r

/-! ## Members -/

@[simp] theorem none_apply (r : Ref) : none r = false := rfl

@[simp] theorem single_apply (r r' : Ref) : single r r' = decide (r' = r) := by
  rw [Bool.eq_iff_iff]; simp [single]

@[simp] theorem union_apply (a b : RefSet) (r : Ref) : union a b r = (a r || b r) := rfl

theorem unionOf_apply {α : Type} (f : α → RefSet) (xs : List α) (r : Ref) :
    unionOf f xs r = true ↔ ∃ x ∈ xs, f x r = true := by simp [unionOf]

end RefSet

end DynValue

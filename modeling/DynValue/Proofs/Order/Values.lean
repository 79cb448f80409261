import DynValue.Proofs.Attainable

/-!
# The order of values

Whether the `<` of lists is a strict partial order is decided by more than
the `<` of items. A list is compared by the first pair of items that is not
equal, so equal items have to have the same place: where one of two equal
items is before a third one and the other is not, the order of items is not
harmed, but that of lists is. What is carried from the items to the list is
therefore a little more than an order (`ComparesWell`): no value is before
itself, and `<` and `<=` continue each other as they do in every partial
order. This is what lists need and no more (`comparesWell_iff_items`).

A strict partial order comes with it where the comparisons of a type keep to
what is promised of them anyway (`Coherent`): equality is an equality, and
`<=` is transitive.

All values of the library's own types compare well, whatever is not a number
among them, and so do values that hold a caller's values if these do
(`Payload.comparesWell`).
-/

namespace DynValue

/-! ## Comparisons -/

/-- **One value is at most another one**: less or equal. -/
def AtMost {α : Type} (cmp : α → α → Option Ordering) (x y : α) : Prop :=
  cmp x y = some .lt ∨ cmp x y = some .eq

theorem AtMost.exists {α : Type} {cmp : α → α → Option Ordering} {x y : α} (h : AtMost cmp x y) :
    ∃ a, cmp x y = some a ∧ a.isLE = true :=
  h.elim (⟨.lt, ·, rfl⟩) (⟨.eq, ·, rfl⟩)

/-- **A value compares well**: it is not before itself, and what it is less
than or equal to is continued by what that is less than or equal to. A chain
that is strict at one place is strict as a whole, so values that are equal
have the same place. -/
structure ComparesWell {α : Type} (cmp : α → α → Option Ordering) (x : α) : Prop where
  /-- It is not before itself. -/
  irrefl : cmp x x ≠ some .lt
  le_trans : ∀ {y z : α}, AtMost cmp x y → AtMost cmp y z → AtMost cmp x z
  lt_of_lt_of_le : ∀ {y z : α}, cmp x y = some .lt → AtMost cmp y z → cmp x z = some .lt
  lt_of_le_of_lt : ∀ {y z : α}, AtMost cmp x y → cmp y z = some .lt → cmp x z = some .lt

/-- **The comparisons of a type belong together**: what is equal is so both ways
and all along a chain, and what is less or equal is so along a chain. Every
type with an order promises this of its `==`, its `<` and its `<=`. -/
structure Coherent {α : Type} (cmp : α → α → Option Ordering) : Prop where
  eq_symm : ∀ {x y : α}, cmp x y = some .eq → cmp y x = some .eq
  eq_trans : ∀ {x y z : α}, cmp x y = some .eq → cmp y z = some .eq → cmp x z = some .eq
  le_trans : ∀ {x y z : α}, AtMost cmp x y → AtMost cmp y z → AtMost cmp x z

/-- One comparison, and where it finds equality a second one. -/
def thenCompare : Option Ordering → Option Ordering → Option Ordering
  | some .eq, second => second
  | first, _ => first

theorem thenCompare_eq_some_iff {first second : Option Ordering} {a : Ordering} :
    thenCompare first second = some a
      ↔ first = some .eq ∧ second = some a ∨ first = some a ∧ a ≠ .eq := by
  rcases first with - | (- | - | -) <;> cases a <;> simp [thenCompare]

theorem thenCompare_eq_lt_iff {first second : Option Ordering} :
    thenCompare first second = some .lt
      ↔ first = some .lt ∨ first = some .eq ∧ second = some .lt := by
  simp [thenCompare_eq_some_iff, or_comm]

theorem thenCompare_eq_eq_iff {first second : Option Ordering} :
    thenCompare first second = some .eq ↔ first = some .eq ∧ second = some .eq := by
  simp [thenCompare_eq_some_iff]

/-- Comparison of pairs, by what comes first in them and then by what comes
second. -/
def comparePair {α β : Type} (cmp : α → α → Option Ordering) (cmp' : β → β → Option Ordering)
    (x y : α × β) : Option Ordering :=
  thenCompare (cmp x.1 y.1) (cmp' x.2 y.2)

/-- Comparison of lists, by the first pair of items that is not equal. Where
one runs out first, the shorter is less. -/
def compareItems {α : Type} (cmp : α → α → Option Ordering) :
    List α → List α → Option Ordering
  | [], [] => some .eq
  | [], _ :: _ => some .lt
  | _ :: _, [] => some .gt
  | x :: xs, y :: ys => thenCompare (cmp x y) (compareItems cmp xs ys)

/-- Lists of values made from others are compared as the lists of the others. -/
theorem compareItems_map {α β : Type} (cmp : α → α → Option Ordering) (f : β → α)
    (xs ys : List β) :
    compareItems cmp (xs.map f) (ys.map f) = compareItems (fun x y => cmp (f x) (f y)) xs ys := by
  induction xs generalizing ys with
  | nil => cases ys <;> rfl
  | cons x xs ih =>
    cases ys with
    | nil => rfl
    | cons y ys => simp only [List.map_cons, compareItems, ih]

namespace ComparesWell

variable {α β : Type} {cmp : α → α → Option Ordering} {cmp' : β → β → Option Ordering} {x : α}

/-- What compares well is before all that a value after it is before. -/
theorem lt_trans (h : ComparesWell cmp x) {y z : α} (hxy : cmp x y = some .lt)
    (hyz : cmp y z = some .lt) : cmp x z = some .lt :=
  h.lt_of_lt_of_le hxy (.inl hyz)

/-- A value compares well if two comparisons upwards are one comparison upwards,
which is strict where one of them is. -/
theorem of_upwards (irrefl : cmp x x ≠ some .lt)
    (upwards : ∀ {y z}, AtMost cmp x y → AtMost cmp y z → AtMost cmp x z
      ∧ (cmp x y = some .lt ∨ cmp y z = some .lt → cmp x z = some .lt)) :
    ComparesWell cmp x where
  irrefl := irrefl
  le_trans hxy hyz := (upwards hxy hyz).1
  lt_of_lt_of_le hxy hyz := (upwards (.inl hxy) hyz).2 (.inl hxy)
  lt_of_le_of_lt hxy hyz := (upwards hxy (.inl hyz)).2 (.inr hyz)

/-- **A strict partial order** makes all values compare well if the comparisons
belong together. -/
theorem of_coherent (coherent : Coherent cmp) (irrefl : ∀ x, cmp x x ≠ some .lt)
    (trans : ∀ x y z, cmp x y = some .lt → cmp y z = some .lt → cmp x z = some .lt) (x : α) :
    ComparesWell cmp x := by
  refine of_upwards (irrefl x) fun {y z} hxy hyz => ⟨coherent.le_trans hxy hyz, fun strict => ?_⟩
  refine (coherent.le_trans hxy hyz).resolve_right fun same => ?_
  -- equal ends would make the middle equal to both of them
  rcases hxy with hxy | hxy <;> rcases hyz with hyz | hyz
  · cases (trans x y z hxy hyz).symm.trans same
  · cases hxy.symm.trans (coherent.eq_trans same (coherent.eq_symm hyz))
  · cases hyz.symm.trans (coherent.eq_trans (coherent.eq_symm hxy) same)
  · rcases strict with less | less
    · cases less.symm.trans hxy
    · cases less.symm.trans hyz

/-- A value that compares with nothing. -/
theorem of_none (h : ∀ y, cmp x y = none) : ComparesWell cmp x := by
  constructor <;> simp [AtMost, h]

/-- **A value that is made from another one**, and compared by it with all that
are made in the same way, compares well if the other one does. Nothing else
is above it. -/
theorem of_mk (cmp : α → α → Option Ordering) {b : β} (h : ComparesWell cmp' b) (mk : β → α)
    (same : ∀ b c, cmp (mk b) (mk c) = cmp' b c)
    (only : ∀ b y a, cmp (mk b) y = some a → a.isLE = true → ∃ c, mk c = y) :
    ComparesWell cmp (mk b) := by
  have made {b : β} {y : α} (le : AtMost cmp (mk b) y) : ∃ c, mk c = y := by
    obtain ⟨a, above, le⟩ := le.exists
    exact only b y a above le
  refine of_upwards (same b b ▸ h.irrefl) fun {y z} hxy hyz => ?_
  obtain ⟨c, rfl⟩ := made hxy
  obtain ⟨d, rfl⟩ := made hyz
  simp only [AtMost, same] at hxy hyz ⊢
  exact ⟨h.le_trans hxy hyz, fun strict => strict.elim (h.lt_of_lt_of_le · hyz)
    (h.lt_of_le_of_lt hxy)⟩

/-- A value that is compared by a part of it. -/
theorem comap (f : β → α) (b : β) (h : ComparesWell cmp (f b)) :
    ComparesWell (fun b c => cmp (f b) (f c)) b :=
  ⟨h.irrefl, h.le_trans, h.lt_of_lt_of_le, h.lt_of_le_of_lt⟩

/-- **Values compared by a key in a linear order** compare well. Those without
a key compare with nothing. -/
theorem of_key [Ord β] [Std.TransOrd β] (key : α → Option β)
    (by_key : ∀ x y, cmp x y = (key x).bind fun b => (key y).map (compare b)) (x : α) :
    ComparesWell cmp x := by
  have eq_iff (y z : α) (a : Ordering) :
      cmp y z = some a ↔ ∃ b c, key y = some b ∧ key z = some c ∧ compare b c = a := by
    simp only [by_key, Option.bind_eq_some_iff, Option.map_eq_some_iff, exists_and_left]
  have keyed {y z : α} (le : AtMost cmp y z) :
      ∃ b c, key y = some b ∧ key z = some c ∧ (compare b c).isLE = true := by
    obtain ⟨a, order, le⟩ := le.exists
    obtain ⟨b, c, hb, hc, rfl⟩ := (eq_iff y z a).1 order
    exact ⟨b, c, hb, hc, le⟩
  refine of_upwards (fun less => ?_) fun {y z} hxy hyz => ?_
  · obtain ⟨b, c, hb, hc, order⟩ := (eq_iff x x _).1 less
    cases hb.symm.trans hc
    cases Std.ReflCmp.compare_self.symm.trans order
  · obtain ⟨b, c, hb, hc, first⟩ := keyed hxy
    obtain ⟨c', d, hc', hd, second⟩ := keyed hyz
    cases hc.symm.trans hc'
    have compared {y z : α} {b c : β} (hb : key y = some b) (hc : key z = some c) :
        cmp y z = some (compare b c) :=
      (eq_iff y z _).2 ⟨b, c, hb, hc, rfl⟩
    simp only [AtMost, compared hb hc, compared hb hd, compared hc hd, Option.some.injEq]
    exact ⟨Ordering.isLE_iff_eq_lt_or_eq_eq.1 (Std.TransCmp.isLE_trans first second),
      fun strict => strict.elim (Std.TransCmp.lt_of_lt_of_isLE · second)
        (Std.TransCmp.lt_of_isLE_of_lt first)⟩

/-- In a linear order every value compares well. -/
theorem of_compare [Ord β] [Std.TransOrd β] (b : β) :
    ComparesWell (fun b c => some (compare b c)) b :=
  of_key some (fun _ _ => rfl) b

/-- Where all values are equal each of them compares well. -/
theorem of_eq (b : β) : ComparesWell (fun _ _ => some .eq) b := by
  constructor <;> simp [AtMost]

/-- **Two comparisons one after the other**: where the first ones are equal all
along the chain, the second ones are left to decide. -/
theorem chain (h : ComparesWell cmp x) {y z : α} {p q r : Prop}
    (hxy : cmp x y = some .lt ∨ cmp x y = some .eq ∧ p)
    (hyz : cmp y z = some .lt ∨ cmp y z = some .eq ∧ q) (next : p → q → r) :
    cmp x z = some .lt ∨ cmp x z = some .eq ∧ r := by
  rcases hxy with less | ⟨same, hp⟩
  · exact .inl (h.lt_of_lt_of_le less (hyz.imp_right And.left))
  · rcases hyz with less' | ⟨same', hq⟩
    · exact .inl (h.lt_of_le_of_lt (.inr same) less')
    · exact (h.le_trans (.inr same) (.inr same')).imp_right fun both => ⟨both, next hp hq⟩

theorem pair {y : β} (hx : ComparesWell cmp x) (hy : ComparesWell cmp' y) :
    ComparesWell (comparePair cmp cmp') (x, y) := by
  have lt_iff (v w : α × β) : comparePair cmp cmp' v w = some .lt
      ↔ cmp v.1 w.1 = some .lt ∨ cmp v.1 w.1 = some .eq ∧ cmp' v.2 w.2 = some .lt :=
    thenCompare_eq_lt_iff
  have le_iff (v w : α × β) : AtMost (comparePair cmp cmp') v w
      ↔ cmp v.1 w.1 = some .lt ∨ cmp v.1 w.1 = some .eq ∧ AtMost cmp' v.2 w.2 := by
    rw [AtMost, lt_iff, comparePair, thenCompare_eq_eq_iff, or_assoc, ← and_or_left, AtMost]
  constructor <;> simp only [Ne, lt_iff, le_iff]
  case irrefl => exact fun h => h.elim hx.irrefl fun second => hy.irrefl second.2
  case le_trans => exact fun hxy hyz => hx.chain hxy hyz hy.le_trans
  case lt_of_lt_of_le => exact fun hxy hyz => hx.chain hxy hyz hy.lt_of_lt_of_le
  case lt_of_le_of_lt => exact fun hxy hyz => hx.chain hxy hyz hy.lt_of_le_of_lt

/-- **A list compares well if its items do.** -/
theorem items {xs : List α} (h : ∀ x ∈ xs, ComparesWell cmp x) :
    ComparesWell (compareItems cmp) xs := by
  induction xs with
  | nil =>
    have nil_le (zs : List α) : AtMost (compareItems cmp) [] zs := by
      cases zs
      · exact .inr rfl
      · exact .inl rfl
    refine ⟨nofun, fun {y z} _ _ => nil_le z, fun {y z} hy hz => ?_, fun {y z} _ hz => ?_⟩
    · rcases y with - | ⟨y, ys⟩ <;> rcases z with - | ⟨z, zs⟩
      · cases hy
      · rfl
      · rcases hz with hz | hz <;> cases hz
      · rfl
    · rcases y with - | ⟨y, ys⟩ <;> rcases z with - | ⟨z, zs⟩
      · cases hz
      · rfl
      · cases hz
      · rfl
  | cons x xs ih =>
    rw [List.forall_mem_cons] at h
    refine of_mk _ (h.1.pair (ih h.2)) (fun b => b.1 :: b.2) (fun _ _ => rfl) ?_
    rintro b (- | ⟨y, ys⟩) a above le
    · cases above
      cases le
    · exact ⟨(y, ys), rfl⟩

end ComparesWell

/-- **Values compare well exactly if the `<` of lists of them is a strict partial
order.** Lists tell whether equal values have the same place, since what comes
behind the values decides where they are equal. -/
theorem comparesWell_iff_items {α : Type} {cmp : α → α → Option Ordering} :
    (∀ x, ComparesWell cmp x)
      ↔ (∀ xs, compareItems cmp xs xs ≠ some .lt)
        ∧ ∀ xs ys zs, compareItems cmp xs ys = some .lt → compareItems cmp ys zs = some .lt →
          compareItems cmp xs zs = some .lt := by
  refine ⟨fun h => ⟨fun xs => (ComparesWell.items fun x _ => h x).irrefl,
    fun xs ys zs => (ComparesWell.items fun x _ => h x).lt_trans⟩, ?_⟩
  rintro ⟨irrefl, trans⟩ x
  have nil_lt (y : α) (ys : List α) : compareItems cmp [] (y :: ys) = some .lt := rfl
  have cons_lt_iff (y z : α) (ys zs : List α) : compareItems cmp (y :: ys) (z :: zs) = some .lt
      ↔ cmp y z = some .lt ∨ cmp y z = some .eq ∧ compareItems cmp ys zs = some .lt :=
    thenCompare_eq_lt_iff
  constructor
  case irrefl => exact fun less => irrefl [x] ((cons_lt_iff ..).2 (.inl less))
  case le_trans =>
    -- each list goes on longer than the one before it
    intro y z hxy hyz
    have first : compareItems cmp [x] [y, x] = some .lt :=
      (cons_lt_iff ..).2 (hxy.imp_right fun same => ⟨same, nil_lt _ _⟩)
    have second : compareItems cmp [y, x] [z, y, x] = some .lt :=
      (cons_lt_iff ..).2 (hyz.imp_right fun same => ⟨same, first⟩)
    exact ((cons_lt_iff ..).1 (trans _ _ _ first second)).imp_right And.left
  case lt_of_lt_of_le =>
    -- the outer lists end alike, so it is not their ends that decide
    intro y z hxy hyz
    have first : compareItems cmp [x, x] [y] = some .lt := (cons_lt_iff ..).2 (.inl hxy)
    have second : compareItems cmp [y] [z, x] = some .lt :=
      (cons_lt_iff ..).2 (hyz.imp_right fun same => ⟨same, nil_lt _ _⟩)
    exact ((cons_lt_iff ..).1 (trans _ _ _ first second)).resolve_right
      fun same => irrefl [x] same.2
  case lt_of_le_of_lt =>
    intro y z hxy hyz
    have first : compareItems cmp [x] [y, y] = some .lt :=
      (cons_lt_iff ..).2 (hxy.imp_right fun same => ⟨same, nil_lt _ _⟩)
    have second : compareItems cmp [y, y] [z] = some .lt := (cons_lt_iff ..).2 (.inl hyz)
    exact ((cons_lt_iff ..).1 (trans _ _ _ first second)).resolve_right
      fun same => irrefl [] same.2

/-- **Floats compare well**, those of both kinds together. -/
theorem Fp.comparesWell (x : (K : FloatKind) × Fp K) :
    ComparesWell (fun x y : (K : FloatKind) × Fp K => x.2.compare? y.2) x :=
  .of_key (fun x => x.2.place?)
    (fun x y => by rw [compare?]; cases x.2.place? <;> cases y.2.place? <;> rfl) x

/-- The comparisons of floats belong together. -/
theorem Fp.coherent {K : FloatKind} : Coherent (Fp.compare? (K := K) (L := K)) := by
  have eq_iff (x y : Fp K) :
      x.compare? y = some .eq ↔ ∃ a, x.place? = some a ∧ y.place? = some a := by
    rw [compare?]
    cases x.place? <;> cases y.place? <;> simp [@eq_comm Int]
  refine ⟨fun {x y} same => ?_, fun {x y z} hxy hyz => ?_, fun {x y z} hxy hyz =>
    (Fp.comparesWell ⟨K, x⟩).le_trans (y := ⟨K, y⟩) (z := ⟨K, z⟩) hxy hyz⟩
  · obtain ⟨a, hx, hy⟩ := (eq_iff x y).1 same
    exact (eq_iff y x).2 ⟨a, hy, hx⟩
  · obtain ⟨a, hx, hy⟩ := (eq_iff x y).1 hxy
    obtain ⟨b, hy', hz⟩ := (eq_iff y z).1 hyz
    cases hy.symm.trans hy'
    exact (eq_iff x z).2 ⟨a, hx, hz⟩

namespace Payload

variable {C : CallerTypes}

/-! ## The comparison of containers -/

theorem compareList_eq (items items' : List (Payload C)) :
    compareList items items' = compareItems compare? items items' := by
  induction items generalizing items' with
  | nil => cases items' <;> rfl
  | cons p ps ih =>
    cases items' with
    | nil => rfl
    | cons q qs =>
      rw [compareItems, ← ih, compareList]
      rcases p.compare? q with - | (- | - | -) <;> rfl

/-- An option is compared as a list of one item at most. -/
theorem compareOption_eq (content content' : Option (Payload C)) :
    compareOption content content' = compareItems compare? content.toList content'.toList := by
  cases content with
  | none => cases content' <;> rfl
  | some p =>
    cases content' with
    | none => rfl
    | some q =>
      show p.compare? q = thenCompare (p.compare? q) (some .eq)
      rcases p.compare? q with - | (- | - | -) <;> rfl

theorem compareEntries_eq (entries entries' : List (String × Payload C)) :
    compareEntries entries entries'
      = compareItems (comparePair (fun k l => some (compare k l)) compare?) entries entries' := by
  induction entries generalizing entries' with
  | nil => cases entries' <;> rfl
  | cons e es ih =>
    cases entries' with
    | nil => rfl
    | cons f fs =>
      rw [compareItems, ← ih, compareEntries, comparePair]
      cases compare e.1 f.1
      · rfl
      · rcases e.2.compare? f.2 with - | (- | - | -) <;> rfl
      · rfl

/-! ## Induction on the parts of a payload -/

/-- **The payloads that a payload is made of.** -/
@[simp] def parts : Payload C → List (Payload C)
  | variant content _ | option _ content => content.toList
  | seq _ _ items => items
  | map _ _ entries => entries.map Prod.snd
  | shared _ p => [p]
  | _ => []

theorem sizeOf_lt_of_mem_parts {p q : Payload C} (h : q ∈ p.parts) : sizeOf q < sizeOf p := by
  have option_lt {content : Option (Payload C)} (h : q ∈ content.toList) :
      sizeOf q < sizeOf content := by
    cases Option.mem_toList.1 h
    simp
  cases p with
  | variant content _ | option _ content =>
    have := option_lt h
    simp only [variant.sizeOf_spec, option.sizeOf_spec]
    omega
  | seq _ _ items =>
    have := List.sizeOf_lt_of_mem (show q ∈ items from h)
    simp only [seq.sizeOf_spec]
    omega
  | map _ _ entries =>
    obtain ⟨⟨key, value⟩, member, rfl⟩ := List.mem_map.1 h
    have := List.sizeOf_lt_of_mem member
    simp only [map.sizeOf_spec, Prod.mk.sizeOf_spec] at this ⊢
    omega
  | shared _ p =>
    cases List.mem_singleton.1 h
    simp only [shared.sizeOf_spec]
    omega
  | _ => cases h

/-- **Induction on a payload**, from its parts to the whole. -/
theorem induction_parts {motive : Payload C → Prop}
    (whole : ∀ p : Payload C, (∀ q ∈ p.parts, motive q) → motive p) (p : Payload C) : motive p :=
  whole p fun q _ => induction_parts whole q
termination_by sizeOf p
decreasing_by exact sizeOf_lt_of_mem_parts ‹_›

/-- The parts of a well-typed payload are well typed. -/
theorem WellTyped.part {p q : Payload C} (h : p.WellTyped) (member : q ∈ p.parts) :
    q.WellTyped := by
  cases p with
  | variant content _ => exact optionWellTyped_iff.1 h q (Option.mem_toList.1 member)
  | option t content => exact optionWellTyped_iff.1 h.1 q (Option.mem_toList.1 member)
  | seq k t items => exact listWellTyped_iff.1 h.1 q member
  | map k t entries =>
    obtain ⟨e, inside, rfl⟩ := List.mem_map.1 member
    exact entriesWellTyped_iff.1 h.1 e inside
  | shared r p =>
    cases List.mem_singleton.1 member
    exact h
  | _ => cases member

end Payload

/-! ## Values of a type -/

/-- **A type is made of a caller's type**, it or another one inside. -/
def Ty.Mentions {C : CallerTypes} (tag : C.Tag) : Ty C → Prop
  | option t | seq _ t | map _ t | slice t | shared t | weak t => t.Mentions tag
  | caller other => other = tag
  | _ => False

namespace Payload

variable {C : CallerTypes}

/-- A container is made of the types that its parts are made of. -/
theorem mentions_of_mem_parts {p q : Payload C} (h : p.WellTyped) (member : q ∈ p.parts)
    (ordered : p.type ≠ .variant) {tag : C.Tag} (mentions : q.type.Mentions tag) :
    p.type.Mentions tag := by
  cases p with
  | variant content _ => exact absurd rfl ordered
  | option t content => exact h.2 q (Option.mem_toList.1 member) ▸ mentions
  | seq k t items => exact h.2 q member ▸ mentions
  | map k t entries =>
    obtain ⟨e, inside, rfl⟩ := List.mem_map.1 member
    exact h.2 e inside ▸ mentions
  | shared r p =>
    cases List.mem_singleton.1 member
    exact mentions
  | _ => cases member

/-! ### Containers and callers -/

theorem option_comparesWell {t : Ty C} {content : Option (Payload C)}
    (h : ∀ q ∈ content.toList, ComparesWell compare? q) :
    ComparesWell compare? (option t content) := by
  refine .of_mk _ (.comap (fun b : Ty C × Option (Payload C) => b.2.toList) (t, content) (.items h))
    (fun b => option b.1 b.2) (fun _ _ => compareOption_eq _ _) (fun b y a above _ => ?_)
  cases y with
  | option t content => exact ⟨(t, content), rfl⟩
  | _ => cases above

theorem seq_comparesWell {k : SeqKind} {t : Ty C} {items : List (Payload C)}
    (h : ∀ q ∈ items, ComparesWell compare? q) : ComparesWell compare? (seq k t items) := by
  refine .of_mk _ (.comap (fun b : SeqKind × Ty C × List (Payload C) => b.2.2) (k, t, items)
      (.items h))
    (fun b => seq b.1 b.2.1 b.2.2) (fun _ _ => compareList_eq _ _) (fun b y a above _ => ?_)
  cases y with
  | seq k t items => exact ⟨(k, t, items), rfl⟩
  | _ => cases above

theorem map_comparesWell {k : MapKind} {t : Ty C} {entries : List (String × Payload C)}
    (h : ∀ e ∈ entries, ComparesWell compare? e.2) : ComparesWell compare? (map k t entries) := by
  cases k with
  | hashed => exact .of_none (by intro y; cases y <;> rfl)
  | sorted =>
    have well := ComparesWell.items fun e member => (ComparesWell.of_compare e.1).pair (h e member)
    refine .of_mk _ (.comap (fun b : Ty C × List (String × Payload C) => b.2) (t, entries) well)
      (fun b => map .sorted b.1 b.2) (fun _ _ => compareEntries_eq _ _) (fun b y a above _ => ?_)
    cases y with
    | map k t entries =>
      cases k with
      | sorted => exact ⟨(t, entries), rfl⟩
      | hashed => cases above
    | _ => cases above

theorem caller_comparesWell {tag : C.Tag} {v : C.Val tag} (h : ComparesWell (C.compare? tag) v) :
    ComparesWell compare? (caller tag v) := by
  refine .of_mk _ h (caller tag) (fun _ _ => by simp [compare?]) (fun b y a above _ => ?_)
  cases y with
  | caller other w =>
    by_cases same : tag = other
    · subst same
      exact ⟨w, rfl⟩
    · simp [compare?, same] at above
  | _ => cases above

/-! ### All values -/

/-- **Every value compares well**, if those of the caller's types do that its
type is made of. -/
theorem comparesWell {p : Payload C} (typed : p.WellTyped)
    (callers : ∀ tag, p.type.Mentions tag → ∀ v, ComparesWell (C.compare? tag) v) :
    ComparesWell compare? p := by
  induction p using induction_parts with
  | whole p ih =>
    have inside (ordered : p.type ≠ .variant) (q : Payload C) (member : q ∈ p.parts) :
        ComparesWell compare? q :=
      ih q member (typed.part member) fun tag mentions =>
        callers tag (mentions_of_mem_parts typed member ordered mentions)
    cases p with
    | int k n =>
      exact .of_mk _ (.comap (fun b : (k : IntKind) × k.Value => b.2.1) ⟨k, n⟩ (.of_compare n.1))
        (fun b => int b.1 b.2) (fun _ _ => rfl)
        (by intro b y a h; cases y <;> cases h; exact fun _ => ⟨⟨_, _⟩, rfl⟩)
    | float K x =>
      refine .of_mk _ (Fp.comparesWell ⟨K, x⟩) (fun b => float b.1 b.2) (fun _ _ => rfl)
        (fun b y a above _ => ?_)
      cases y with
      | float K x => exact ⟨⟨K, x⟩, rfl⟩
      | _ => cases above
    | bool b =>
      exact .of_mk _ (.of_compare b) bool (fun _ _ => rfl)
        (by intro b y a h; cases y <;> cases h; exact fun _ => ⟨_, rfl⟩)
    | char c =>
      exact .of_mk _ (.of_compare c) char (fun _ _ => rfl)
        (by intro b y a h; cases y <;> cases h; exact fun _ => ⟨_, rfl⟩)
    | text s =>
      exact .of_mk _ (.of_compare s) text (fun _ _ => rfl)
        (by intro b y a h; cases y <;> cases h; exact fun _ => ⟨_, rfl⟩)
    | staticText s =>
      exact .of_mk _ (.of_compare s) staticText (fun _ _ => rfl)
        (by intro b y a h; cases y <;> cases h; exact fun _ => ⟨_, rfl⟩)
    | wide w =>
      exact .of_mk _ (.comap WideText.units w (.of_compare w.units)) wide (fun _ _ => rfl)
        (by intro b y a h; cases y <;> cases h; exact fun _ => ⟨_, rfl⟩)
    | null =>
      exact .of_mk _ (.of_eq ()) (fun _ => null) (fun _ _ => rfl)
        (by intro b y a h; cases y <;> cases h; exact fun _ => ⟨(), rfl⟩)
    | empty =>
      exact .of_mk _ (.of_eq ()) (fun _ => empty) (fun _ _ => rfl)
        (by intro b y a h; cases y <;> cases h; exact fun _ => ⟨(), rfl⟩)
    | variant content binding => exact .of_none (by intro y; cases y <;> rfl)
    | object r => exact .of_none (by intro y; cases y <;> rfl)
    | weak t r => exact .of_none (by intro y; cases y <;> rfl)
    | option t content => exact option_comparesWell (inside nofun)
    | seq k t items => exact seq_comparesWell (inside nofun)
    | map k t entries =>
      exact map_comparesWell fun e member => inside nofun e.2 (List.mem_map_of_mem member)
    | shared r q =>
      have well := inside nofun q (List.mem_singleton_self q)
      refine .of_mk _ (.comap (fun b : Ref × Payload C => b.2) (r, q) well)
        (fun b => shared b.1 b.2) (fun _ _ => rfl) (fun b y a above _ => ?_)
      cases y with
      | shared r q => exact ⟨(r, q), rfl⟩
      | _ => cases above
    | caller tag v => exact caller_comparesWell (callers tag rfl v)

end Payload

end DynValue

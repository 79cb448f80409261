import DynValue.Proofs.Number.CorrectRounding
import DynValue.Proofs.Order.SortKey
import DynValue.Proofs.Text.UnitOrder
import Mathlib.Order.Monotone.Basic

/-!
# Values by the order of their type

What the `<` of a type says is documented for each type: numbers are ordered by their
values, floats by the points where they stand, if they are numbers, text by its bytes and
wide text by its units, lists by the first items that differ, and what is shared by the
value that is shared. `Payload.Ranks` says this of two values without a comparison that
is run, and the comparison of two values of one type comes to it
(`Payload.compare?_eq_some_iff`).

A variant that is given a value with the order of its type does not always keep it as it
is: the text kinds become text, and the marker of the empty type leaves it without a
value. The order that it is bound to is that of what is kept, so every new form needs to
be in the order of the old one. This is so for all but wide text, which is kept as text
and ordered as text (`Variant.less_iff_ranks`).
-/

namespace DynValue

variable {C : CallerTypes}

/-! ## Floats -/

namespace FloatKind

/-- The point at a place on the line of floats. -/
def pointAt (K : FloatKind) : ℤ → ℚ
  | .ofNat mag => K.valueAt mag
  | .negSucc mag => -K.valueAt (mag + 1)

theorem pointAt_neg (K : FloatKind) (mag : ℕ) : K.pointAt (-mag) = -K.valueAt mag := by
  cases mag with
  | zero => exact K.valueAt_zero.trans (by rw [K.valueAt_zero, neg_zero])
  | succ mag => rfl

theorem pointAt_strictMono (K : FloatKind) : StrictMono K.pointAt := by
  refine strictMono_int_of_lt_succ fun i => ?_
  cases i with
  | ofNat mag => exact K.valueAt_strictMono (Nat.lt_succ_self mag)
  | negSucc mag =>
    have next : Int.negSucc mag + 1 = -(mag : ℤ) := by omega
    rw [next, pointAt_neg]
    exact neg_lt_neg (K.valueAt_strictMono (Nat.lt_succ_self mag))

end FloatKind

namespace Fp

variable {K : FloatKind}

/-- **A float stands at the point of its place.** -/
theorem point?_eq (x : Fp K) : x.point? = x.place?.map K.pointAt := by
  have signed_eq (neg : Bool) (mag : ℕ) :
      signed neg (K.valueAt mag) = K.pointAt (if neg then -(mag : ℤ) else mag) := by
    cases neg with
    | false => rfl
    | true => exact (K.pointAt_neg mag).symm
  cases x with
  | nan => rfl
  | inf neg => rw [point?, ← K.valueAt_infMag, signed_eq]; rfl
  | finite neg mag => exact congrArg some (signed_eq neg mag)

theorem compare?_eq_some_iff {x y : Fp K} {o : Ordering} :
    x.compare? y = some o
      ↔ ∃ a b, x.point? = some a ∧ y.point? = some b ∧ o.Compares a b := by
  rw [compare?, point?_eq, point?_eq]
  cases x.place? <;> cases y.place? <;>
    simp [compare_iff, K.pointAt_strictMono.compares]

end Fp

/-! ## Lists -/

/-- **How two lists stand to each other**, given how items do: the first pair of items
that are not equal decides, and where one list runs out first it is less. -/
inductive Lexicographic {α : Type} (R : α → α → Ordering → Prop) :
    List α → List α → Ordering → Prop
  | nil : Lexicographic R [] [] .eq
  | shorter (b : α) (bs : List α) : Lexicographic R [] (b :: bs) .lt
  | longer (a : α) (as : List α) : Lexicographic R (a :: as) [] .gt
  | first {a b : α} {o : Ordering} (decides : R a b o) (differ : o ≠ .eq) (as bs : List α) :
    Lexicographic R (a :: as) (b :: bs) o
  | rest {a b : α} {as bs : List α} {o : Ordering} (equal : R a b .eq)
    (decides : Lexicographic R as bs o) : Lexicographic R (a :: as) (b :: bs) o

section Lexicographic

variable {α β : Type} {R : α → α → Ordering → Prop} {a b : α} {as bs : List α} {o : Ordering}

@[simp] theorem lexicographic_nil_iff : Lexicographic R [] [] o ↔ o = .eq :=
  ⟨fun h => by cases h; rfl, fun h => h ▸ .nil⟩

@[simp] theorem lexicographic_shorter_iff : Lexicographic R [] (b :: bs) o ↔ o = .lt :=
  ⟨fun h => by cases h; rfl, fun h => h ▸ .shorter b bs⟩

@[simp] theorem lexicographic_longer_iff : Lexicographic R (a :: as) [] o ↔ o = .gt :=
  ⟨fun h => by cases h; rfl, fun h => h ▸ .longer a as⟩

theorem lexicographic_cons_iff :
    Lexicographic R (a :: as) (b :: bs) o
      ↔ R a b .eq ∧ Lexicographic R as bs o ∨ R a b o ∧ o ≠ .eq := by
  constructor
  · rintro (- | - | - | ⟨decides, differ⟩ | ⟨equal, decides⟩)
    · exact .inr ⟨decides, differ⟩
    · exact .inl ⟨equal, decides⟩
  · rintro (⟨equal, decides⟩ | ⟨decides, differ⟩)
    · exact .rest equal decides
    · exact .first decides differ as bs

/-- **The comparison of lists** says how they stand to each other, if that of items does. -/
theorem compareItems_eq_some_iff {cmp : α → α → Option Ordering}
    (same : ∀ a ∈ as, ∀ b ∈ bs, ∀ o, cmp a b = some o ↔ R a b o) :
    compareItems cmp as bs = some o ↔ Lexicographic R as bs o := by
  induction as generalizing bs with
  | nil =>
    cases bs with
    | nil => simp [compareItems, eq_comm]
    | cons b bs => simp [compareItems, eq_comm]
  | cons a as ih =>
    cases bs with
    | nil => simp [compareItems, eq_comm]
    | cons b bs =>
      have head := same a (.head as) b (.head bs)
      rw [compareItems, thenCompare_eq_some_iff, lexicographic_cons_iff, head, head,
        ih fun a mem b mem' => same a (.tail _ mem) b (.tail _ mem')]

/-- **Lists that are compared by keys** stand to each other as the lists of the keys do. -/
theorem lexicographic_key [LinearOrder β] (key : α → β) :
    Lexicographic (fun a b o => o.Compares (key a) (key b)) as bs o
      ↔ o.Compares (as.map key) (bs.map key) := by
  induction as generalizing bs with
  | nil =>
    cases bs with
    | nil => cases o <;> simp [Ordering.Compares]
    | cons b bs => cases o <;> simp [Ordering.Compares]
  | cons a as ih =>
    cases bs with
    | nil => cases o <;> simp [Ordering.Compares]
    | cons b bs =>
      rw [lexicographic_cons_iff, ih]
      cases o with
      | lt => simp [Ordering.Compares, List.cons_lt_cons_iff, or_comm]
      | eq => simp [Ordering.Compares]
      | gt => simp [Ordering.Compares, List.cons_lt_cons_iff, or_comm, eq_comm]

end Lexicographic

namespace Payload

mutual

/-- **How a value stands to another one of its type**: less, equal or greater, by what
the `<` of its type is documented to be. -/
inductive Ranks : Payload C → Payload C → Ordering → Prop
  | int {k : IntKind} {m n : k.Value} {o : Ordering} (h : o.Compares m.1 n.1) :
    Ranks (.int k m) (.int k n) o
  | float {K : FloatKind} {x y : Fp K} {a b : ℚ} {o : Ordering} (left : x.point? = some a)
    (right : y.point? = some b) (h : o.Compares a b) : Ranks (.float K x) (.float K y) o
  | bool {a b : Bool} {o : Ordering} (h : o.Compares a b) : Ranks (.bool a) (.bool b) o
  | char {c d : Char} {o : Ordering} (h : o.Compares c d) : Ranks (.char c) (.char d) o
  | text {s t : String} {o : Ordering} (h : o.Compares (Text.bytes s) (Text.bytes t)) :
    Ranks (.text s) (.text t) o
  | staticText {s t : String} {o : Ordering} (h : o.Compares (Text.bytes s) (Text.bytes t)) :
    Ranks (.staticText s) (.staticText t) o
  | wide {u w : WideText} {o : Ordering}
    (h : o.Compares (u.units.map UInt16.toNat) (w.units.map UInt16.toNat)) :
    Ranks (.wide u) (.wide w) o
  | null : Ranks .null .null .eq
  | empty : Ranks .empty .empty .eq
  | option {t : Ty C} {content content' : Option (Payload C)} {o : Ordering}
    (h : Lexicographic Ranks content.toList content'.toList o) :
    Ranks (.option t content) (.option t content') o
  | seq {k : SeqKind} {t : Ty C} {items items' : List (Payload C)} {o : Ordering}
    (h : Lexicographic Ranks items items' o) : Ranks (.seq k t items) (.seq k t items') o
  | map {t : Ty C} {entries entries' : List (String × Payload C)} {o : Ordering}
    (h : Lexicographic EntryRanks entries entries' o) :
    Ranks (.map .sorted t entries) (.map .sorted t entries') o
  | shared {r s : Ref} {p q : Payload C} {o : Ordering} (h : Ranks p q o) :
    Ranks (.shared r p) (.shared s q) o
  | caller {tag : C.Tag} {v w : C.Val tag} {o : Ordering} (h : C.compare? tag v w = some o) :
    Ranks (.caller tag v) (.caller tag w) o

/-- How an entry stands to another one, by their keys and for one key by their values. -/
inductive EntryRanks : String × Payload C → String × Payload C → Ordering → Prop
  | key {k l : String} {o : Ordering} (h : o.Compares (Text.bytes k) (Text.bytes l))
    (differ : o ≠ .eq) (p q : Payload C) : EntryRanks (k, p) (l, q) o
  | value {k : String} {p q : Payload C} {o : Ordering} (h : Ranks p q o) :
    EntryRanks (k, p) (k, q) o

end

/-! ## What the rules say of two values of one kind -/

section Rules

variable {o : Ordering}

@[simp] theorem ranks_int_iff {k : IntKind} {m n : k.Value} :
    (int k m : Payload C).Ranks (int k n) o ↔ o.Compares m.1 n.1 :=
  ⟨fun h => by cases h with | int h => exact h, .int⟩

@[simp] theorem ranks_float_iff {K : FloatKind} {x y : Fp K} :
    (float K x : Payload C).Ranks (float K y) o
      ↔ ∃ a b, x.point? = some a ∧ y.point? = some b ∧ o.Compares a b := by
  constructor
  · intro h
    cases h with
    | float left right h => exact ⟨_, _, left, right, h⟩
  · rintro ⟨a, b, left, right, h⟩
    exact .float left right h

@[simp] theorem ranks_bool_iff {a b : Bool} :
    (bool a : Payload C).Ranks (bool b) o ↔ o.Compares a b :=
  ⟨fun h => by cases h with | bool h => exact h, .bool⟩

@[simp] theorem ranks_char_iff {c d : Char} :
    (char c : Payload C).Ranks (char d) o ↔ o.Compares c d :=
  ⟨fun h => by cases h with | char h => exact h, .char⟩

@[simp] theorem ranks_text_iff {s t : String} :
    (text s : Payload C).Ranks (text t) o ↔ o.Compares (Text.bytes s) (Text.bytes t) :=
  ⟨fun h => by cases h with | text h => exact h, .text⟩

@[simp] theorem ranks_staticText_iff {s t : String} :
    (staticText s : Payload C).Ranks (staticText t) o
      ↔ o.Compares (Text.bytes s) (Text.bytes t) :=
  ⟨fun h => by cases h with | staticText h => exact h, .staticText⟩

@[simp] theorem ranks_wide_iff {u w : WideText} :
    (wide u : Payload C).Ranks (wide w) o
      ↔ o.Compares (u.units.map UInt16.toNat) (w.units.map UInt16.toNat) :=
  ⟨fun h => by cases h with | wide h => exact h, .wide⟩

@[simp] theorem ranks_null_iff : (null : Payload C).Ranks null o ↔ o = .eq :=
  ⟨fun h => by cases h; rfl, fun h => h ▸ .null⟩

@[simp] theorem ranks_empty_iff : (empty : Payload C).Ranks empty o ↔ o = .eq :=
  ⟨fun h => by cases h; rfl, fun h => h ▸ .empty⟩

@[simp] theorem ranks_option_iff {t : Ty C} {content content' : Option (Payload C)} :
    (option t content).Ranks (option t content') o
      ↔ Lexicographic Ranks content.toList content'.toList o :=
  ⟨fun h => by cases h with | option h => exact h, .option⟩

@[simp] theorem ranks_seq_iff {k : SeqKind} {t : Ty C} {items items' : List (Payload C)} :
    (seq k t items).Ranks (seq k t items') o ↔ Lexicographic Ranks items items' o :=
  ⟨fun h => by cases h with | seq h => exact h, .seq⟩

@[simp] theorem ranks_map_iff {t : Ty C} {entries entries' : List (String × Payload C)} :
    (map .sorted t entries).Ranks (map .sorted t entries') o
      ↔ Lexicographic EntryRanks entries entries' o :=
  ⟨fun h => by cases h with | map h => exact h, .map⟩

@[simp] theorem not_ranks_hashed {t : Ty C} {entries : List (String × Payload C)}
    {q : Payload C} : ¬ (map .hashed t entries).Ranks q o :=
  fun h => by cases h

@[simp] theorem ranks_shared_iff {r s : Ref} {p q : Payload C} :
    (shared r p).Ranks (shared s q) o ↔ p.Ranks q o :=
  ⟨fun h => by cases h with | shared h => exact h, .shared⟩

@[simp] theorem ranks_caller_iff {tag : C.Tag} {v w : C.Val tag} :
    (caller tag v).Ranks (caller tag w) o ↔ C.compare? tag v w = some o :=
  ⟨fun h => by cases h with | caller h => exact h, .caller⟩

end Rules

/-! ## The comparison says how values stand -/

/-- The comparison of units that never fails is that of the items. -/
theorem compareItems_units (us vs : List UInt16) :
    compareItems (fun a b => some (compare a b)) us vs = some (compare us vs) := by
  induction us generalizing vs with
  | nil => cases vs <;> rfl
  | cons u us ih =>
    cases vs with
    | nil => rfl
    | cons v vs =>
      rw [compareItems, ih]
      show _ = some (List.compareLex compare (u :: us) (v :: vs))
      rw [List.compareLex_cons_cons]
      cases compare u v <;> rfl

theorem compareUnits_eq_iff {u w : WideText} {o : Ordering} :
    u.compareUnits w = o ↔ o.Compares (u.units.map UInt16.toNat) (w.units.map UInt16.toNat) := by
  have unit (a b : UInt16) (o : Ordering) :
      some (compare a b) = some o ↔ o.Compares a.toNat b.toNat := by
    rw [Option.some_inj]
    cases o with
    | lt => exact Std.compare_eq_lt.trans UInt16.lt_iff_toNat_lt
    | eq => exact Std.LawfulEqCmp.compare_eq_iff_eq.trans UInt16.toNat_inj.symm
    | gt => exact Std.compare_eq_gt.trans UInt16.lt_iff_toNat_lt
  rw [← lexicographic_key, ← compareItems_eq_some_iff fun a _ b _ => unit a b,
    compareItems_units, Option.some_inj]
  rfl

theorem compare_text_eq_iff {s t : String} {o : Ordering} :
    compare s t = o ↔ o.Compares (Text.bytes s) (Text.bytes t) :=
  (compare_iff s t).trans Text.bytes_strictMono.compares.symm

theorem compareEntry_eq_some_iff {e f : String × Payload C} {o : Ordering}
    (same : ∀ o, e.2.compare? f.2 = some o ↔ e.2.Ranks f.2 o) :
    comparePair (fun k l => some (compare k l)) compare? e f = some o ↔ EntryRanks e f o := by
  obtain ⟨k, p⟩ := e
  obtain ⟨l, q⟩ := f
  rw [comparePair, thenCompare_eq_some_iff, same, Option.some_inj, Option.some_inj,
    compare_eq_iff_eq]
  constructor
  · rintro (⟨rfl, values⟩ | ⟨keys, differ⟩)
    · exact .value values
    · exact .key (compare_text_eq_iff.1 keys) differ p q
  · rintro (⟨keys, differ, -, -⟩ | ⟨values⟩)
    · exact .inr ⟨compare_text_eq_iff.2 keys, differ⟩
    · exact .inl ⟨rfl, values⟩

section Containers

variable {o : Ordering}

theorem option_compare?_iff {t : Ty C} {content content' : Option (Payload C)}
    (parts : ∀ p ∈ content.toList, ∀ q ∈ content'.toList, ∀ o,
      p.compare? q = some o ↔ p.Ranks q o) :
    (option t content).compare? (option t content') = some o
      ↔ (option t content).Ranks (option t content') o := by
  rw [compare?, compareOption_eq, compareItems_eq_some_iff parts, ranks_option_iff]

theorem seq_compare?_iff {k : SeqKind} {t : Ty C} {items items' : List (Payload C)}
    (parts : ∀ p ∈ items, ∀ q ∈ items', ∀ o, p.compare? q = some o ↔ p.Ranks q o) :
    (seq k t items).compare? (seq k t items') = some o
      ↔ (seq k t items).Ranks (seq k t items') o := by
  rw [compare?, compareList_eq, compareItems_eq_some_iff parts, ranks_seq_iff]

/-- Mappings are compared if they are kept in the order of their keys. -/
theorem map_compare?_iff {k : MapKind} {t : Ty C} {entries entries' : List (String × Payload C)}
    (parts : ∀ e ∈ entries, ∀ f ∈ entries', ∀ o, e.2.compare? f.2 = some o ↔ e.2.Ranks f.2 o) :
    (map k t entries).compare? (map k t entries') = some o
      ↔ (map k t entries).Ranks (map k t entries') o := by
  cases k with
  | sorted =>
    rw [compare?, compareEntries_eq, ranks_map_iff, compareItems_eq_some_iff
      fun e mem f mem' _ => compareEntry_eq_some_iff (parts e mem f mem')]
  | hashed => exact iff_of_false (fun h => by cases h) not_ranks_hashed

end Containers

/-- **Two values of one type are compared by how they stand to each other.** -/
theorem compare?_eq_some_iff {p q : Payload C} (hp : p.WellTyped) (hq : q.WellTyped)
    (type : p.type = q.type) {o : Ordering} : p.compare? q = some o ↔ p.Ranks q o := by
  induction p using induction_parts generalizing q o with
  | whole p ih =>
    have parts {p' q' : Payload C} (mem : p' ∈ p.parts) (mem' : q' ∈ q.parts)
        (type : p'.type = q'.type) (o : Ordering) : p'.compare? q' = some o ↔ p'.Ranks q' o :=
      ih p' mem (hp.part mem) (hq.part mem') type
    -- the type leaves one kind of `q` for each of `p`, and gives their parts one type
    cases p with
    | int k m =>
      cases q with
      | int k' n =>
        cases type
        rw [compare?, Option.some_inj, compare_iff, ranks_int_iff]
      | _ => cases type
    | float K x =>
      cases q with
      | float K' y =>
        cases type
        rw [compare?, Fp.compare?_eq_some_iff, ranks_float_iff]
      | _ => cases type
    | bool a =>
      cases q with
      | bool b => rw [compare?, Option.some_inj, compare_iff, ranks_bool_iff]
      | _ => cases type
    | char c =>
      cases q with
      | char d => rw [compare?, Option.some_inj, compare_iff, ranks_char_iff]
      | _ => cases type
    | text s =>
      cases q with
      | text t => rw [compare?, Option.some_inj, compare_text_eq_iff, ranks_text_iff]
      | _ => cases type
    | staticText s =>
      cases q with
      | staticText t => rw [compare?, Option.some_inj, compare_text_eq_iff, ranks_staticText_iff]
      | _ => cases type
    | wide u =>
      cases q with
      | wide w => rw [compare?, Option.some_inj, compareUnits_eq_iff, ranks_wide_iff]
      | _ => cases type
    | null =>
      cases q with
      | null => rw [compare?, Option.some_inj, ranks_null_iff, eq_comm]
      | _ => cases type
    | empty =>
      cases q with
      | empty => rw [compare?, Option.some_inj, ranks_empty_iff, eq_comm]
      | _ => cases type
    | option t content =>
      cases q with
      | option t' content' =>
        cases type
        exact option_compare?_iff fun p mem q mem' => parts mem mem'
          ((hp.2 p (Option.mem_toList.1 mem)).trans (hq.2 q (Option.mem_toList.1 mem')).symm)
      | _ => cases type
    | seq k t items =>
      cases q with
      | seq k' t' items' =>
        cases type
        exact seq_compare?_iff fun p mem q mem' =>
          parts mem mem' ((hp.2 p mem).trans (hq.2 q mem').symm)
      | _ => cases type
    | map k t entries =>
      cases q with
      | map k' t' entries' =>
        cases type
        exact map_compare?_iff fun e mem f mem' => parts (List.mem_map_of_mem mem)
          (List.mem_map_of_mem mem') ((hp.2 e mem).trans (hq.2 f mem').symm)
      | _ => cases type
    | shared r p =>
      cases q with
      | shared s q =>
        rw [compare?, parts (.head _) (.head _) (Ty.shared.inj type), ranks_shared_iff]
      | object s =>
        -- the pointers have one type, but an object is in no order with anything
        exact iff_of_false (fun h => by cases h) fun h => by cases h
      | _ => cases type
    | caller tag v =>
      cases q with
      | caller tag' w =>
        cases type
        rw [compare?, dif_pos rfl, ranks_caller_iff]
      | _ => cases type
    | variant | object | weak =>
      -- these have no order, whatever they are compared with
      refine iff_of_false (fun h => ?_) fun h => by cases h
      cases q <;> cases h

end Payload

/-! ## Variants -/

namespace Variant

variable {p q x y : Payload C}

/-- **Values that are stored as they are** with the order of their type. -/
theorem storeNative_less_iff (hp : p.WellTyped) (hq : q.WellTyped) (type : p.type = q.type) :
    (storeNative p).less (storeNative q) = true ↔ p.Ranks q .lt := by
  have bound (r : Payload C) : (storeNative r).WellBound := rfl
  exact ((bound p).less_iff_values (bound q) type rfl rfl rfl rfl).trans
    (Payload.compare?_eq_some_iff hp hq type)

/-- **Values of every type but wide text**, brought into the form in which variants keep
them. -/
theorem native_less_iff (hx : x.WellTyped) (hy : y.WellTyped) (type : x.type = y.type)
    (narrow : x.type ≠ .wide) : (native x).less (native y) = true ↔ x.Ranks y .lt := by
  cases x with
  | staticText s =>
    cases y with
    | staticText t =>
      rw [Payload.ranks_staticText_iff, ← Payload.ranks_text_iff (C := C)]
      exact storeNative_less_iff (p := .text s) (q := .text t) trivial trivial rfl
    | _ => cases type
  | empty =>
    cases y with
    | empty => exact iff_of_false (fun h => by cases h) fun h => by cases h
    | _ => cases type
  | wide u => exact absurd rfl narrow
  | _ =>
    cases y with
    | staticText t => cases type
    | empty => cases type
    | wide w => cases type
    | _ => exact storeNative_less_iff hx hy type

/-- Wide text is kept as text, and ordered as this is. -/
theorem native_wide_less_iff_text (u w : WideText) :
    (native (.wide u) : Variant C).less (native (.wide w)) = true
      ↔ (.text u.toText : Payload C).Ranks (.text w.toText) .lt :=
  storeNative_less_iff (p := .text u.toText) (q := .text w.toText) trivial trivial rfl

theorem native_wide_less_iff (u w : WideText) :
    (native (.wide u) : Variant C).less (native (.wide w)) = true
      ↔ (WideText.repaired u.units).map WideText.rank
        < (WideText.repaired w.units).map WideText.rank := by
  rw [native_wide_less_iff_text, Payload.ranks_text_iff, ← WideText.toText_lt_iff]
  exact Text.bytes_strictMono.lt_iff_lt

/-- Where no unit is replaced and none changes places it is in the order of the units. -/
theorem native_wide_less_iff_of_whole {u w : WideText} (left : ∀ i, ¬ WideText.Unpaired u.units i)
    (right : ∀ i, ¬ WideText.Unpaired w.units i) (top : WideText.HalvesOnTop u.units w.units)
    (top' : WideText.HalvesOnTop w.units u.units) :
    (native (.wide u) : Variant C).less (native (.wide w)) = true
      ↔ (.wide u : Payload C).Ranks (.wide w) .lt := by
  rw [native_wide_less_iff, (WideText.repaired_eq_self_iff _).2 left,
    (WideText.repaired_eq_self_iff _).2 right, WideText.map_rank_lt_iff top top',
    Payload.ranks_wide_iff]
  rfl

/-- **Variants that were given two values of one type** with the order of this type are
ordered as the values are, whatever was in their slots before. Wide text is kept as text
and ordered as such: the first units that differ decide, once unpaired surrogates are
replaced, and a surrogate is greater than all other units. This is the order of wide text
itself if nothing is replaced, and if not one text has a surrogate and the other one a
unit above the surrogates. -/
theorem less_iff_ranks (K : Converters C) {history : List (Command C)}
    (attainable : ∀ c ∈ history, c.Attainable) {a b : String}
    (ha : Session.origin history a = some (.native x))
    (hb : Session.origin history b = some (.native y)) (type : x.type = y.type) :
    ∃ v w, (Session.after K history).slot? a = some v
      ∧ (Session.after K history).slot? b = some w
      ∧ (x.type ≠ .wide → (v.less w = true ↔ x.Ranks y .lt))
      ∧ ∀ s t, x = .wide s → y = .wide t →
        (v.less w = true ↔ (.text s.toText : Payload C).Ranks (.text t.toText) .lt)
        ∧ (v.less w = true ↔ (WideText.repaired s.units).map WideText.rank
          < (WideText.repaired t.units).map WideText.rank)
        ∧ ((∀ i, ¬ WideText.Unpaired s.units i) → (∀ i, ¬ WideText.Unpaired t.units i) →
          WideText.HalvesOnTop s.units t.units → WideText.HalvesOnTop t.units s.units →
          (v.less w = true ↔ x.Ranks y .lt)) := by
  have hx : x.WellTyped := (Session.origin_attainable attainable ha x rfl).wellTyped
  have hy : y.WellTyped := (Session.origin_attainable attainable hb y rfl).wellTyped
  refine ⟨native x, native y, ?_, ?_, native_less_iff hx hy type, ?_⟩
  · rw [Session.slot?_after, ha]
    rfl
  · rw [Session.slot?_after, hb]
    rfl
  · rintro s t rfl rfl
    exact ⟨native_wide_less_iff_text s t, native_wide_less_iff s t,
      native_wide_less_iff_of_whole⟩

/-- The last unit is above a pair of surrogates, and the character that it stands for is
below the character of the pair. -/
theorem wide_less_not_ranks :
    ((native (.wide ⟨[0xFFFF]⟩) : Variant .none).less (native (.wide ⟨[0xD83D, 0xDE00]⟩)) = true
      ∧ ¬ (.wide ⟨[0xFFFF]⟩ : Payload .none).Ranks (.wide ⟨[0xD83D, 0xDE00]⟩) .lt)
    ∧ (native (.wide ⟨[0xD83D, 0xDE00]⟩) : Variant .none).less (native (.wide ⟨[0xFFFF]⟩)) = false
    ∧ (.wide ⟨[0xD83D, 0xDE00]⟩ : Payload .none).Ranks (.wide ⟨[0xFFFF]⟩) .lt := by
  have units : [0xD83D, 0xDE00].map UInt16.toNat < [0xFFFF].map UInt16.toNat := by decide
  refine ⟨⟨(native_wide_less_iff _ _).2 (by decide), ?_⟩, ?_, .wide (o := .lt) units⟩
  · rw [Payload.ranks_wide_iff]
    exact lt_asymm units
  · rw [Bool.eq_false_iff, Ne, native_wide_less_iff]
    decide

/-- Static text in one slot, and in the other one static text that was assigned over a
truth value. -/
def assignedTexts : List (Command .none) :=
  [.assign "b" (.staticText "é"), .make "b" (.native (.bool true)),
    .make "a" (.native (.staticText "z"))]

/-- They are ordered by their bytes. -/
theorem less_iff_ranks_assignedTexts :
    ∃ v w, (Session.after (.refusing .none) assignedTexts).slot? "a" = some v
      ∧ (Session.after (.refusing .none) assignedTexts).slot? "b" = some w
      ∧ v.less w = true := by
  have attainable : ∀ c ∈ assignedTexts, c.Attainable := by
    rintro c member slot construction received
    simp only [assignedTexts, List.mem_cons, List.not_mem_nil, or_false] at member
    rcases member with rfl | rfl | rfl <;> cases received <;> rintro p ⟨⟩
    · exact .staticText "é"
    · exact .bool true
    · exact .staticText "z"
  obtain ⟨v, w, hv, hw, less, -⟩ := less_iff_ranks (x := .staticText "z") (y := .staticText "é")
    (.refusing .none) attainable (a := "a") (b := "b") rfl rfl rfl
  refine ⟨v, w, hv, hw, (less nofun).2 (.staticText (o := .lt) ?_)⟩
  show Text.bytes "z" < Text.bytes "é"
  rw [Text.bytes_eq, Text.bytes_eq]
  decide

end Variant

end DynValue

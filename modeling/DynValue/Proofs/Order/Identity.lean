import DynValue.Proofs.Order.SortKey

/-!
# References by their referents

A reference may be bound to the order of referents. Then it is less than another one
of its type if its referent comes first, and nothing else about either of them is
asked: not what the referents are, and not whether they are alive
(`Variant.Refers.less_eq`). Which referent comes first is a matter of where they are. A
`Ref` is any number here, and the order of references is the order of these numbers, so
that what is said holds wherever the referents were put, as long as no two of them are
in one place.

A reference comes to other slots by copies, exchanges and assignments of a variant.
Followed back from a slot (`Session.carriedFrom`), they end at the slot where it was
before, and it is still the same variant (`Session.slot?_of_carriedFrom`). So two
references are compared later as they were before, wherever they are by then and
whatever was let go of in between (`Variant.less_by_referent`).
-/

namespace DynValue

variable {C : CallerTypes}

/-! ## Where contents were before -/

namespace Session

/-- **The slot that the contents of a slot were in** before some later commands, the
latest of them first. There is none if they were made or assigned by one of these. -/
def carriedFrom (history : List (Command C)) : List (Command C) → String → Option String
  | [], slot => some slot
  | c :: later, slot =>
    if c.needs.all fun needed => (origin (later ++ history) needed).isSome then
      if c.drops slot then none
      else match c.receives? with
        | some (target, _) => if slot = target then none else carriedFrom history later slot
        | none => carriedFrom history later (c.source slot)
    else carriedFrom history later slot

/-- **Contents that were in another slot before** are what this slot held. -/
theorem slot?_of_carriedFrom (K : Converters C) {history later : List (Command C)}
    {slot before : String} (carried : carriedFrom history later slot = some before) :
    (after K (later ++ history)).slot? slot = (after K history).slot? before := by
  induction later generalizing slot with
  | nil =>
    cases carried
    rfl
  | cons c later ih =>
    have present (needed : String) : ((after K (later ++ history)).slot? needed).isSome
        = (origin (later ++ history) needed).isSome := by
      rw [slot?_after, Option.isSome_map]
    rw [List.cons_append, after, slot?_step]
    simp only [present]
    rw [carriedFrom] at carried
    by_cases possible : (c.needs.all fun needed => (origin (later ++ history) needed).isSome) = true
    · rw [if_pos possible] at carried ⊢
      by_cases drops : c.drops slot = true
      · rw [if_pos drops] at carried
        cases carried
      · rw [if_neg drops] at carried ⊢
        cases received : c.receives? with
        | none =>
          rw [received] at carried
          exact ih carried
        | some receives =>
          rw [received] at carried
          by_cases same : slot = receives.1
          · cases (if_pos same).symm.trans carried
          · exact (if_neg same).trans (ih ((if_neg same).symm.trans carried))
    · rw [if_neg possible] at carried ⊢
      exact ih carried

end Session

/-! ## References -/

namespace Variant

variable {v w u : Variant C} {t : Ty C} {r s : Ref}

/-- **A variant is a reference of a type** to something, ordered by what it refers to. -/
structure Refers (v : Variant C) (t : Ty C) (r : Ref) : Prop where
  identity : v.binding.kind = .identity
  held : ∃ p, v.payload = some p ∧ p.type = t ∧ p.referent? = some r

theorem refers_ofShared (r : Ref) (p : Payload C) : (ofShared r p).Refers (.shared p.type) r :=
  ⟨rfl, _, rfl, rfl, rfl⟩

theorem refers_ofWeak (t : Ty C) (r : Ref) : (ofWeak t r).Refers (.weak t) r :=
  ⟨rfl, _, rfl, rfl, rfl⟩

theorem refers_ofObject (r : Ref) :
    (ofValue (.object r) : Variant C).Refers (.shared .externalObject) r :=
  ⟨rfl, _, rfl, rfl, rfl⟩

theorem refers_ofWeakObject (r : Ref) :
    (ofValue (.weak .externalObject r) : Variant C).Refers (.weak .externalObject) r :=
  ⟨rfl, _, rfl, rfl, rfl⟩

/-- **What is ordered by identity refers to something.** -/
theorem WellBound.exists_refers (hv : v.WellBound) (identity : v.binding.kind = .identity) :
    ∃ r, v.Refers v.type r := by
  obtain ⟨p, held⟩ := hv.exists_payload (by rw [identity]; nofun)
  obtain ⟨r, refers⟩ := Option.isSome_iff_exists.1 ((hv.accepts held).referent?_isSome identity)
  exact ⟨r, identity, p, held, (type_of_payload held).symm, refers⟩

theorem Refers.type_eq (h : v.Refers t r) : v.type = t := by
  obtain ⟨p, held, type, -⟩ := h.held
  rw [type_of_payload held, type]

/-- **References of one type are ordered by their referents.** -/
theorem Refers.less_eq (hv : v.WellBound) (hw : w.WellBound) (h : v.Refers t r)
    (h' : w.Refers t s) : v.less w = decide (r < s) := by
  obtain ⟨p, held, -, refers⟩ := h.held
  obtain ⟨q, held', -, refers'⟩ := h'.held
  rw [Bool.eq_iff_iff, decide_eq_true_iff]
  show v.Less w ↔ r < s
  rw [hv.less_iff_of_type hw (h.type_eq.trans h'.type_eq.symm) (h.identity.trans h'.identity.symm),
    h.identity]
  simp [held, held', refers, refers', OrderKind.Relates]

/-- Neither of them is less than the other if they refer to the same, and only then. -/
theorem Refers.incomparable_iff (hv : v.WellBound) (hw : w.WellBound) (h : v.Refers t r)
    (h' : w.Refers t s) : (v.less w = false ∧ w.less v = false) ↔ r = s := by
  rw [h.less_eq hv hw h', h'.less_eq hw hv h, decide_eq_false_iff_not, decide_eq_false_iff_not,
    Nat.not_lt, Nat.not_lt, and_comm, ← Nat.le_antisymm_iff]

/-- Otherwise just one of them is less than the other. -/
theorem Refers.less_eq_not (hv : v.WellBound) (hw : w.WellBound) (h : v.Refers t r)
    (h' : w.Refers t s) (other : r ≠ s) : v.less w = !w.less v := by
  rw [h.less_eq hv hw h', h'.less_eq hw hv h, Bool.eq_iff_iff, Bool.not_eq_true',
    decide_eq_true_iff, decide_eq_false_iff_not, Nat.not_lt]
  exact Nat.lt_iff_le_and_ne.trans (and_iff_left other)

/-- **Two variants of one type that are bound differently** are not less than each
other. -/
theorem WellBound.not_less_of_kind_ne (hv : v.WellBound) (hw : w.WellBound)
    (type : v.type = w.type) (other : v.binding.kind ≠ w.binding.kind) : v.less w = false := by
  rw [Bool.eq_false_iff, Ne, hv.less_iff_or hw, type, Ty.before_irrefl]
  rintro (⟨-, -, -, -, -, kind, -⟩ | name)
  · exact other kind
  · cases name

/-! ## The main statement -/

/-- **References that are bound by identity are ordered by what they refer to, dead or
alive.** After every history two of them of one type refer to something. Neither is less
if this is the same, and otherwise exactly one is less than the other. After all that
happens later the answers are the same, for the slots that the two references were
carried to and for any two slots with references to the same two referents. A reference
of this type that is bound by value is neither less nor greater. -/
theorem less_by_referent (K : Converters C) {history : List (Command C)}
    (attainable : ∀ c ∈ history, c.Attainable) {a b : String}
    (ha : (Session.after K history).slot? a = some v)
    (hb : (Session.after K history).slot? b = some w) (type : v.type = w.type)
    (identity : v.binding.kind = .identity) (identity' : w.binding.kind = .identity) :
    ∃ r s, v.Refers v.type r ∧ w.Refers v.type s
      ∧ ((v.less w = false ∧ w.less v = false) ↔ r = s)
      ∧ (r ≠ s → v.less w = !w.less v)
      ∧ (∀ later a' b', Session.carriedFrom history later a' = some a →
          Session.carriedFrom history later b' = some b →
          ∃ v' w', (Session.after K (later ++ history)).slot? a' = some v'
            ∧ (Session.after K (later ++ history)).slot? b' = some w'
            ∧ v'.less w' = v.less w ∧ w'.less v' = w.less v)
      ∧ (∀ later, (∀ c ∈ later, c.Attainable) → ∀ a' b' v' w',
          (Session.after K (later ++ history)).slot? a' = some v' →
          (Session.after K (later ++ history)).slot? b' = some w' →
          v'.Refers v.type r → w'.Refers v.type s →
          v'.less w' = v.less w ∧ w'.less v' = w.less v)
      ∧ ∀ slot u, (Session.after K history).slot? slot = some u → u.type = v.type →
          u.binding.kind = .native → v.less u = false ∧ u.less v = false := by
  have bound {past : List (Command C)} (attainable : ∀ c ∈ past, c.Attainable) {slot : String}
      {u : Variant C} (held : (Session.after K past).slot? slot = some u) : u.WellBound :=
    Reachable.wellBound ⟨K, past, slot, attainable, held⟩
  have hv := bound attainable ha
  have hw := bound attainable hb
  obtain ⟨r, refers⟩ := hv.exists_refers identity
  obtain ⟨s, refers'⟩ := hw.exists_refers identity'
  rw [← type] at refers'
  refine ⟨r, s, refers, refers', refers.incomparable_iff hv hw refers',
    refers.less_eq_not hv hw refers', fun later a' b' carried carried' => ?_,
    fun later more a' b' v' w' held held' same same' => ?_, fun slot u held of_type native => ?_⟩
  · exact ⟨v, w, (Session.slot?_of_carriedFrom K carried).trans ha,
      (Session.slot?_of_carriedFrom K carried').trans hb, rfl, rfl⟩
  · have all : ∀ c ∈ later ++ history, c.Attainable :=
      fun c mem => (List.mem_append.1 mem).elim (more c) (attainable c)
    have left := bound all held
    have right := bound all held'
    exact ⟨(same.less_eq left right same').trans (refers.less_eq hv hw refers').symm,
      (same'.less_eq right left same).trans (refers'.less_eq hw hv refers).symm⟩
  · have hu := bound attainable held
    have other : v.binding.kind ≠ u.binding.kind := by
      rw [identity, native]
      nofun
    exact ⟨hv.not_less_of_kind_ne hu of_type.symm other,
      hu.not_less_of_kind_ne hv of_type other.symm⟩

/-- Weak references to two texts, which nothing else refers to later. -/
def twoTexts : List (Command .none) :=
  [.make "b" (.ofWeak .text 1), .make "a" (.ofWeak .text 0), .share "y" (.text "same"),
    .share "x" (.text "same")]

/-- The references are exchanged, one of them is copied and both texts are let go of. -/
def releases : List (Command .none) :=
  [.release "y", .release "x", .clone "c" "b", .swap "a" "b"]

/-- The texts are dead, and the references are ordered as they were. -/
theorem less_by_referent_releases :
    ((Session.after (.refusing .none) twoTexts).alive 0 = true
      ∧ (Session.after (.refusing .none) twoTexts).alive 1 = true)
    ∧ ((Session.after (.refusing .none) (releases ++ twoTexts)).alive 0 = false
      ∧ (Session.after (.refusing .none) (releases ++ twoTexts)).alive 1 = false)
    ∧ ∃ v w, (Session.after (.refusing .none) (releases ++ twoTexts)).slot? "c" = some v
      ∧ (Session.after (.refusing .none) (releases ++ twoTexts)).slot? "a" = some w
      ∧ v.less w = true ∧ w.less v = false := by
  have attainable : ∀ c ∈ twoTexts, c.Attainable := by
    rintro c member slot construction received
    simp only [twoTexts, List.mem_cons, List.not_mem_nil, or_false] at member
    rcases member with rfl | rfl | rfl | rfl <;> cases received <;> rintro p ⟨⟩
  obtain ⟨r, s, -, -, -, -, carried, -, -⟩ :=
    less_by_referent (.refusing .none) attainable (a := "a") (b := "b") rfl rfl rfl rfl rfl
  have before : (ofWeak .text 0 : Variant .none).less (ofWeak .text 1) = true
      ∧ (ofWeak .text 1 : Variant .none).less (ofWeak .text 0) = false := by decide
  obtain ⟨v, w, hv, hw, less, less'⟩ := carried releases "c" "a" rfl rfl
  exact ⟨⟨rfl, rfl⟩, ⟨rfl, rfl⟩, v, w, hv, hw, less.trans before.1, less'.trans before.2⟩

end Variant

end DynValue

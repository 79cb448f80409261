import DynValue.Proofs.Container.Completion
import DynValue.Proofs.Container.Load
import Mathlib

/-!
# How many reads of an object are in flight

The window bounds the reads in flight of **one run** over an object, not of
all of them. A list may hold the same object twice, and then two runs over it
are under way at once, each with a window of its own. So what is true of a
conversion is that the reads in flight against an object are those of the runs
over it, each of which keeps to its window (`Pending.inFlight_le_sum`).

One window bounds them all if there cannot be two runs, and that is so
exactly for the targets that are not nested
(`Pending.inFlight_le_runs_and_iff`).
-/

namespace DynValue

open Schedule

variable {C : CallerTypes} {S : Setting C} {r : Ref}

namespace Pending

/-- The runs over an object in a kept conversion. -/
def runs (S : Setting C) (r : Ref) (f : Pending C) :
    Stage C (Conversion.of S f.elem).State → List Nat :=
  Stage.runs r (Conversion.runs S r f.elem)

/-- **The reads in flight against an object are those of the runs over it**,
none of which has more than sixteen. -/
theorem inFlight_le_sum (quiet : S.Quiet) (f : Pending C) (held : RefSet)
    {events : List (Event C)} (h : events <+: (f.finish S held).log) :
    ∃ stage, (f.steps S).Moment (.begun f.begun) events stage
      ∧ Event.inFlight r events ≤ (f.runs S r stage).sum
      ∧ ∀ n ∈ f.runs S r stage, n ≤ windowWidth := by
  have gauged : Conversion.Gauged (f.steps S) r (f.runs S r)
      (Stage.Sound (Conversion.Sound S f.elem)) :=
    Stage.progress_gauged (Conversion.gauged quiet r f.elem)
  have driven : Conversion.Driven (f.steps S) id (.begun f.begun) (f.finish S held) := by
    rw [finish_eq]
    exact Conversion.pollAll_driven (f.steps_covers S) _ _
  obtain ⟨stage, moment⟩ : ∃ stage, (f.steps S).Moment (.begun f.begun) events stage := by
    generalize f.finish S held = x at driven h
    cases driven with
    | tires path =>
      rw [List.map_id] at h
      exact Course.exists_moment path h
    | ends path ends =>
      rw [List.map_id] at h
      exact Course.exists_moment_of_ends path ends h
  have start : Stage.Sound (Conversion.Sound S f.elem) (.begun f.begun) := trivial
  -- nothing is in flight at the start, so what is begun and not over is the load
  obtain ⟨stage, moment, sound, le⟩ := gauged.conserves.moment start moment
  refine ⟨stage, moment, ?_, gauged.le sound⟩
  rw [Event.inFlight, Nat.sub_le_iff_le_add]
  exact (Nat.zero_add _).symm.le.trans le

/-! ## Targets that are not nested -/

theorem runs_scalar {t : Ty C} (h : t.shape? = none) :
    Conversion.runs S r t = fun _ => [] := by
  cases t with
  | seq k t => cases h
  | map k t => cases h
  | _ => rfl

/-- A conversion to a container of scalars has one run at most. -/
theorem length_runs_le {f : Pending C} (h : f.elem.shape? = none)
    (stage : Stage C (Conversion.of S f.elem).State) : (f.runs S r stage).length ≤ 1 := by
  have none : ∀ entries : List (Entry C (Conversion.of S f.elem).State),
      entries.flatMap (Entry.runs fun _ => []) = [] := by
    refine fun entries => List.flatMap_eq_nil_iff.2 fun e _ => ?_
    cases e <;> rfl
  rw [runs, runs_scalar h]
  cases stage with
  | begun b => exact Nat.zero_le 1
  | sizing r' left => exact Nat.zero_le 1
  | joining keys join =>
    rw [Stage.runs, none]
    exact Nat.zero_le 1
  | reading r' contents w =>
    rw [Stage.runs, none, List.append_nil]
    split
    · exact Nat.le_refl 1
    · exact Nat.zero_le 1

/-- **For a target that is not nested** the window bounds all reads. -/
theorem inFlight_le (quiet : S.Quiet) {f : Pending C} (scalar : f.elem.shape? = none)
    (held : RefSet) {events : List (Event C)} (h : events <+: (f.finish S held).log) :
    Event.inFlight r events ≤ windowWidth := by
  obtain ⟨stage, -, le, each⟩ := inFlight_le_sum (r := r) quiet f held h
  have sum_le : (f.runs S r stage).sum ≤ (f.runs S r stage).length * windowWidth :=
    List.sum_le_card_nsmul _ _ each
  have one := Nat.mul_le_mul_right windowWidth (length_runs_le (r := r) scalar stage)
  rw [Nat.one_mul] at one
  exact le.trans (sum_le.trans one)

end Pending

/-! ## Targets that are nested -/

/-- More polls report the same and more. -/
theorem Conversion.pollAll_prefix (c : Conversion C) (surroundings more : List RefSet)
    (s : c.State) :
    (c.pollAll surroundings s).log <+: (c.pollAll (surroundings ++ more) s).log := by
  induction surroundings generalizing s with
  | nil => exact List.nil_prefix
  | cons R surroundings ih =>
    rw [List.cons_append, pollAll, pollAll, Logged.log_bind, Logged.log_bind,
      List.prefix_append_right_inj]
    cases (c.poll R s).value with
    | ready outcome => exact List.prefix_refl _
    | pending s' => exact ih s'

/-- An object with two entries, none of which comes at once. -/
def ExternalObject.slowPair (C : CallerTypes) : ExternalObject C where
  length := 2
  elements := []
  keys := ["", ""]
  properties := []
  delay := 1
  delays := []

/-- A setting with this object. -/
def Setting.slowPair (C : CallerTypes) : Setting C := ⟨⟨[.object (.slowPair C)]⟩, .refusing C⟩

theorem Setting.slowPair_quiet : (Setting.slowPair C).Quiet := fun _ _ _ => .nil

/-- Nine references to one object, in a list or in a dictionary. -/
def Variant.ninefold (C : CallerTypes) : Shape → Variant C
  | .sequence _ => .unordered (.seq .vector .variant (List.replicate 9 (ofObject 0).toPayload))
  | .mapping _ => .unordered (.map .sorted .variant
      (["a", "b", "c", "d", "e", "f", "g", "h", "i"].map fun key => (key, (ofObject 0).toPayload)))

/-- The source that they are. -/
def Source.ninefold (C : CallerTypes) : Shape → Source C
  | .sequence _ => .list (List.replicate 9 (.ofObject 0))
  | .mapping _ => .dictionary
      (["a", "b", "c", "d", "e", "f", "g", "h", "i"].map fun key => (key, .ofObject 0))

theorem Variant.pending_ninefold (shape shape' : Shape) (t : Ty C) (held : RefSet) :
    (Variant.ninefold C shape).pending (.slowPair C) held shape (shape'.type t)
      = ⟨shape, shape'.type t, .sourced (.ninefold C shape)⟩ := by
  cases shape with
  | sequence k => cases shape' <;> cases k <;> rfl
  | mapping k => cases shape' <;> cases k <;> rfl

theorem Pending.pollLimit_slowPair (shape : Shape) (t : Ty C) (b : Begun C) :
    ∃ n, (⟨shape, t, b⟩ : Pending C).pollLimit (.slowPair C) = 2 + n := by
  have limit : (⟨shape, t, b⟩ : Pending C).pollLimit (.slowPair C) = 1 + _ + 1 :=
    congrArg (· + 1) (pollBound_type _ _ shape t)
  exact ⟨_, limit.trans (Nat.add_right_comm _ _ _)⟩

/-- In two polls each of nine runs has asked for the size and begun two reads. -/
theorem Conversion.inFlight_ninefold (shape shape' : Shape) (t : Ty C) :
    Event.inFlight 0 ((container (.slowPair C) shape (shape'.type t)
      (of (.slowPair C) (shape'.type t))).pollAll [RefSet.none, RefSet.none]
        (Stage.begun (.sourced (.ninefold C shape)))).log = 18 := by
  cases shape <;> cases shape' <;> cbv

/-- **For a target that is nested** the window does not bound all reads. -/
theorem Pending.lt_inFlight_ninefold (shape shape' : Shape) (t : Ty C) :
    ∃ events, events <+: (((Variant.ninefold C shape).pending (.slowPair C) RefSet.none shape
        (shape'.type t)).finish (.slowPair C) RefSet.none).log
      ∧ windowWidth < Event.inFlight 0 events := by
  obtain ⟨n, enough⟩ := Pending.pollLimit_slowPair shape (shape'.type t)
    (.sourced (.ninefold C shape))
  have exceeds : windowWidth < 18 := by decide
  refine ⟨_, ?_, exceeds.trans_eq (Conversion.inFlight_ninefold shape shape' t).symm⟩
  rw [Variant.pending_ninefold, finish_eq, enough, List.replicate_add]
  exact Conversion.pollAll_prefix _ _ _ _

/-! ## The bound -/

/-- **How many reads of an object are in flight.** They are the reads of the
runs over it that are under way, and each run has sixteen at most. All together
are sixteen at most exactly for the targets that are not nested, since only for
those there cannot be two runs over one object. -/
theorem Pending.inFlight_le_runs_and_iff :
    (∀ S : Setting C, S.Quiet → ∀ (f : Pending C) held r events,
        events <+: (f.finish S held).log →
      ∃ stage, (f.steps S).Moment (.begun f.begun) events stage
        ∧ Event.inFlight r events ≤ (f.runs S r stage).sum
        ∧ ∀ n ∈ f.runs S r stage, n ≤ windowWidth)
    ∧ ∀ (shape : Shape) (t : Ty C),
      (∀ S : Setting C, S.Quiet → ∀ held (v : Variant C) r events,
        events <+: ((v.pending S held shape t).finish S held).log →
        Event.inFlight r events ≤ windowWidth)
      ↔ t.shape? = none := by
  refine ⟨fun S quiet f held r events h => inFlight_le_sum quiet f held h,
    fun shape t => ⟨fun bounded => ?_, fun scalar S quiet held v r events h => ?_⟩⟩
  · by_contra nested
    obtain ⟨⟨shape', t'⟩, same⟩ := Option.ne_none_iff_exists'.1 nested
    obtain rfl : t = shape'.type t' := by
      cases t with
      | seq k t => cases same; rfl
      | map k t => cases same; rfl
      | _ => cases same
    obtain ⟨events, h, exceeds⟩ := lt_inFlight_ninefold shape shape' t'
    exact absurd exceeds (Nat.not_lt.2 (bounded _ Setting.slowPair_quiet _ _ 0 events h))
  · refine inFlight_le quiet ?_ held h
    rw [Variant.begun_pending]
    exact scalar

/-- An object with sixteen elements, none of which comes at once. -/
def ExternalObject.slowSixteen : ExternalObject CallerTypes.none where
  length := 16
  elements := List.replicate 16 (.native (.bool true))
  keys := []
  properties := []
  delay := 1
  delays := []

/-- A setting with this object. -/
def Setting.slowSixteen : Setting CallerTypes.none := ⟨⟨[.object .slowSixteen]⟩, .refusing .none⟩

/-- Asking for the elements of two references to it, as numbers. -/
def Pending.twice : Pending CallerTypes.none :=
  (Variant.unordered (.seq .vector .variant
    [(Variant.ofObject 0).toPayload, (Variant.ofObject 0).toPayload])).pending .slowSixteen
      RefSet.none (.sequence .vector) (.seq .vector (.int ⟨true, .w32⟩))

/-- Two runs over it, each with a full window. -/
theorem Pending.inFlight_le_runs_and_iff_twice :
    ∃ stage, 2 * windowWidth ≤ (Pending.twice.runs .slowSixteen 0 stage).sum
      ∧ ∀ n ∈ Pending.twice.runs .slowSixteen 0 stage, n ≤ windowWidth := by
  obtain ⟨stage, -, le, each⟩ := Pending.inFlight_le_runs_and_iff.1 .slowSixteen
    (fun _ _ _ => .nil) .twice RefSet.none 0 _ (List.take_prefix 39 _)
  have many : 2 * windowWidth
      ≤ Event.inFlight 0 ((Pending.twice.finish .slowSixteen RefSet.none).log.take 39) := by
    decide +kernel
  exact ⟨stage, many.trans le, each⟩

/-- At some moment twice as many of its reads are in flight as one window
allows. -/
theorem Pending.inFlight_twice :
    ∃ events, events <+: (Pending.twice.finish .slowSixteen RefSet.none).log
      ∧ Event.inFlight 0 events = 2 * windowWidth :=
  ⟨_, List.take_prefix 39 _, by decide +kernel⟩

end DynValue

import DynValue.Proofs.Container.Steps
import DynValue.Proofs.Schedule.Numbering

/-!
# In which order an object is read

An object is first asked for its size, and nothing else is done before the
answer. Then its entries are read in order, each once, and never more than
sixteen past the last result delivered – whatever the size is, however long
a read takes, and whatever the conversions of the entries do
(`Conversion.reads_in_order`).

The entries that are begun as tasks but not read yet wait at the back of the
queue, in order and behind all others that were not polled again since. So
the next one to be read is always the first not read (`Reading`).
-/

namespace DynValue

open Schedule

variable {C : CallerTypes}

/-! ## Own reports -/

/-- **A report of a conversion**: its own, or that of a conversion of one of
its elements. -/
inductive Report (C : CallerTypes) where
  | own (event : Event C)
  | inner (event : Event C)

namespace Report

/-- What is reported. -/
def event : Report C → Event C
  | own event => event
  | inner event => event

/-- The read that a conversion begins itself, if this is a report of one. -/
def read? : Report C → Option (Ref × Read)
  | own (.began r read) => some (r, read)
  | _ => none

/-- **The reads that a conversion has begun itself**, in order. -/
def reads (reports : List (Report C)) : List (Ref × Read) := reports.filterMap read?

theorem reads_append (reports more : List (Report C)) :
    reads (reports ++ more) = reads reports ++ reads more :=
  List.filterMap_append

theorem reads_inner (events : List (Event C)) : reads (events.map inner) = [] := by
  rw [reads, List.filterMap_map]
  exact List.filterMap_eq_nil_iff.2 (fun event _ => rfl)

theorem reads_prefix {reports more : List (Report C)} (h : reports <+: more) :
    reads reports <+: reads more := by
  obtain ⟨rest, rfl⟩ := h
  rw [reads_append]
  exact List.prefix_append _ _

end Report

/-! ## Entries -/

namespace Entry

/-- **Entries with their own reports apart**: a poll of a conversion of an
element is one step. -/
abbrev tagged (S : Setting C) (elem : Conversion C) :
    Course (CastError C) (Entry C elem.State) (Payload C) (Report C) :=
  course S Report.own (elem.polls .inner)

/-- Whether an entry is to be read and not begun. -/
def fresh {σ : Type} : Entry C σ → Bool
  | reading _ _ none => true
  | _ => false

variable {S : Setting C} {elem : Conversion C} {reports : List (Report C)}

/-- **An entry is read once**, in its first step. -/
theorem Step.reads {e e' : Entry C elem.State} (h : (tagged S elem).moves e reports e') :
    e'.fresh = false
      ∧ ((∃ r read, e = .reading r read none ∧ Report.reads reports = [(r, read)])
        ∨ e.fresh = false ∧ Report.reads reports = []) := by
  cases h with
  | begins r read => exact ⟨rfl, .inl ⟨r, read, rfl, rfl⟩⟩
  | waits r read left => exact ⟨rfl, .inr ⟨rfl, rfl⟩⟩
  | answers starts =>
    obtain ⟨R, -, rfl⟩ := starts
    exact ⟨rfl, .inr ⟨rfl, Report.reads_inner _⟩⟩
  | takes starts =>
    obtain ⟨R, -, rfl⟩ := starts
    exact ⟨rfl, .inr ⟨rfl, Report.reads_inner _⟩⟩
  | converts move =>
    obtain ⟨R, -, rfl⟩ := move
    exact ⟨rfl, .inr ⟨rfl, Report.reads_inner _⟩⟩

theorem reads_failure? (read : Option Read) (e : CastError C) :
    Report.reads ((failure? read e).map Report.own) = [] := by
  unfold failure?
  split <;> rfl

theorem Stops.reads {e : Entry C elem.State} {o : Except (CastError C) (Payload C)}
    (h : (tagged S elem).ends e reports o) :
    e.fresh = false ∧ Report.reads reports = [] := by
  cases h with
  | succeeds ends =>
    obtain ⟨R, -, rfl⟩ := ends
    exact ⟨rfl, Report.reads_inner _⟩
  | fails ends =>
    obtain ⟨R, -, rfl⟩ := ends
    rw [Report.reads_append, Report.reads_inner, reads_failure?]
    exact ⟨rfl, rfl⟩

theorem fresh_of_rests {e : Entry C elem.State} (h : (tagged S elem).rests e) :
    e.fresh = false := by
  cases e with
  | reading r read left =>
    cases left with
    | none => exact absurd rfl h
    | some left => rfl
  | stored v => rfl
  | converting read s => rfl

theorem reads_dropAll (entries : List (Nat × Entry C elem.State)) :
    Report.reads ((tagged S elem).dropAll entries) = [] := by
  induction entries with
  | nil => rfl
  | cons e entries ih =>
    rw [Course.dropAll, List.flatMap_cons, Report.reads_append]
    refine List.append_eq_nil_iff.2 ⟨?_, ih⟩
    obtain ⟨n, e⟩ := e
    cases e with
    | reading r read left => cases left <;> rfl
    | stored v => rfl
    | converting read s => exact Report.reads_inner _

end Entry

namespace Entry

/-! ### The entries not read -/

variable {σ : Type} {n : Nat} {e : Entry C σ} {entries others : List (Nat × Entry C σ)}

/-- The numbers of the entries not read, in the order in which they wait. -/
def unread (entries : List (Nat × Entry C σ)) : List Nat :=
  entries.filterMap fun e => if e.2.fresh then some e.1 else none

theorem unread_append : unread (entries ++ others) = unread entries ++ unread others :=
  List.filterMap_append

theorem unread_cons_of_fresh (h : e.fresh = true) :
    unread ((n, e) :: others) = n :: unread others :=
  List.filterMap_cons_some (if_pos h)

theorem unread_cons_of_read (h : e.fresh = false) :
    unread ((n, e) :: others) = unread others :=
  List.filterMap_cons_none (if_neg (Bool.eq_false_iff.1 h))

end Entry

/-! ## The entries of an object -/

/-- **The reads of the first entries**: elements by index, properties in the
order of the keys. -/
def Contents.reads : Contents → Nat → List Read
  | elements count, k => (List.range (min k count)).map .element
  | properties keys, k => (keys.take k).map .property

theorem Contents.reads_zero (contents : Contents) : contents.reads 0 = [] := by
  cases contents with
  | elements count => rw [reads, Nat.zero_min]; rfl
  | properties keys => rfl

theorem Contents.reads_succ {contents : Contents} {k : Nat} {read : Read}
    (h : contents.read? k = some read) :
    contents.reads (k + 1) = contents.reads k ++ [read] := by
  cases contents with
  | elements count =>
    obtain ⟨lt, same⟩ := Option.ite_none_right_eq_some.1 h
    obtain rfl := Option.some.inj same
    rw [reads, reads, min_eq_left lt, min_eq_left (Nat.le_of_lt lt), List.range_succ,
      List.map_append]
    rfl
  | properties keys =>
    obtain ⟨key, found, rfl⟩ := Option.map_eq_some_iff.1 h
    rw [reads, reads, List.take_add_one, found, List.map_append]
    rfl

/-- **The reading of an object under way**, with `k` of its entries read:
those begun as tasks and not read are the next ones, and wait in order. -/
structure Reading {σ : Type} (r : Ref) (contents : Contents) (k : Nat)
    (w : Window (CastError C) (Entry C σ) (Payload C)) : Prop where
  numbered : w.Numbered
  within : w.Within contents.count (contents.entries r)
  /-- There are never more under way than the width. -/
  size_le : w.queue.size ≤ windowWidth
  /-- No entry is read that is not begun as a task. -/
  le : k ≤ w.begun
  /-- Those not read are the last ones begun, in order. -/
  order : Entry.unread w.queue.waiting = List.range' k (w.begun - k)
  /-- Each is the entry of its number. -/
  entry : ∀ e ∈ w.queue.waiting, e.2.fresh = true → contents.entries r e.1 = some e.2

namespace Reading

variable {S : Setting C} {elem : Conversion C} {r : Ref} {contents : Contents} {k : Nat}
  {w w' : Window (CastError C) (Entry C elem.State) (Payload C)} {reports : List (Report C)}

theorem start {σ : Type} : Reading r contents 0
    (.start : Window (CastError C) (Entry C σ) (Payload C)) where
  numbered := .start
  within := ⟨Nat.zero_le _, fun _ => Contents.entries_eq_none_iff.2⟩
  size_le := Nat.zero_le _
  le := Nat.le_refl _
  order := rfl
  entry := fun _ h => (List.not_mem_nil h).elim

theorem begun_le (h : Reading r contents k w) : w.begun ≤ w.delivered.size + windowWidth := by
  rw [← h.numbered.size_eq]
  exact Nat.add_le_add_left h.size_le _

/-- An entry that is not read and at the front is the next to be read. -/
theorem front_fresh (h : Reading r contents k w) {n : Nat} {e : Entry C elem.State}
    {others : List (Nat × Entry C elem.State)} (front : w.queue.waiting = (n, e) :: others)
    (fresh : e.fresh = true) :
    n = k ∧ k < w.begun ∧ Entry.unread others = List.range' (k + 1) (w.begun - (k + 1)) := by
  have order := h.order
  rw [front, Entry.unread_cons_of_fresh fresh] at order
  cases left : w.begun - k with
  | zero =>
    rw [left] at order
    cases order
  | succ m =>
    rw [left, List.range'_succ] at order
    obtain ⟨same, rest⟩ := List.cons.inj order
    refine ⟨same, Nat.lt_of_sub_eq_succ left, ?_⟩
    rw [Nat.sub_add_eq, left]
    exact rest

/-- One that is read does not count. -/
theorem front_read (h : Reading r contents k w) {n : Nat} {e : Entry C elem.State}
    {others : List (Nat × Entry C elem.State)} (front : w.queue.waiting = (n, e) :: others)
    (read : e.fresh = false) : Entry.unread others = List.range' k (w.begun - k) := by
  rw [← h.order, front, Entry.unread_cons_of_read read]

/-- **A step reads the next entry or none.** -/
theorem step (h : Reading r contents k w)
    (s : Window.Step (Entry.tagged S elem) windowWidth (contents.entries r)
      w reports w') :
    (Reading r contents k w' ∧ Report.reads reports = [])
      ∨ ∃ read, contents.read? k = some read ∧ k < w.begun ∧ Reading r contents (k + 1) w'
        ∧ Report.reads reports = [(r, read)] := by
  have numbered := h.numbered.step s
  have within := h.within.step s
  have size_le := s.size_le h.size_le
  cases s with
  | @begins e room next =>
    have fresh : e.fresh = true := by
      obtain ⟨read, -, rfl⟩ := Option.map_eq_some_iff.1 next
      rfl
    refine .inl ⟨⟨numbered, within, size_le, Nat.le_succ_of_le h.le, ?_, ?_⟩, rfl⟩
    · show Entry.unread (w.queue.waiting ++ [(w.begun, e)]) = List.range' k (w.begun + 1 - k)
      rw [Entry.unread_append, h.order, Nat.sub_add_comm h.le, List.range'_concat, Nat.one_mul,
        Nat.add_sub_of_le h.le, Entry.unread_cons_of_fresh fresh]
      rfl
    · intro e' mem fresh'
      rcases List.mem_append.1 mem with mem | mem
      · exact h.entry e' mem fresh'
      · rw [List.mem_singleton.1 mem]
        exact next
  | @works n e e' others _ front move =>
    obtain ⟨read', cases⟩ := Entry.Step.reads move
    have entry : ∀ e'' ∈ (n, e') :: others, e''.2.fresh = true →
        contents.entries r e''.1 = some e''.2 := by
      intro e'' mem fresh
      rcases List.mem_cons.1 mem with rfl | mem
      · exact absurd fresh (Bool.eq_false_iff.1 read')
      · exact h.entry e'' (front ▸ List.mem_cons_of_mem _ mem) fresh
    -- the front entry begins its read, as the first one not read, or none is begun
    rcases cases with ⟨r', read, rfl, once⟩ | ⟨read, none⟩
    · obtain ⟨rfl, lt, order⟩ := h.front_fresh front rfl
      obtain ⟨read₁, found, same⟩ := Option.map_eq_some_iff.1
        (h.entry (n, _) (front ▸ List.mem_cons_self) rfl)
      cases same
      exact .inr ⟨read, found, lt, ⟨numbered, within, size_le, lt,
        (Entry.unread_cons_of_read read').trans order, entry⟩, once⟩
    · exact .inl ⟨⟨numbered, within, size_le, h.le,
        (Entry.unread_cons_of_read read').trans (h.front_read front read), entry⟩, none⟩
  | @turns n e others front rests =>
    -- an entry goes to the back only once it is begun, so those not read keep their order
    have read := Entry.fresh_of_rests rests
    refine .inl ⟨⟨numbered, within, size_le, h.le, ?_, fun e' mem => ?_⟩, rfl⟩
    · show Entry.unread (others ++ [(n, e)]) = _
      rw [Entry.unread_append, Entry.unread_cons_of_read read, h.front_read front read]
      exact List.append_nil _
    · refine h.entry e' ?_
      rw [front]
      exact List.perm_append_singleton _ _ |>.mem_iff.1 mem
  | @finishes n e others _ o front ends =>
    obtain ⟨read, none⟩ := Entry.Stops.reads ends
    exact .inl ⟨⟨numbered, within, size_le, h.le, h.front_read front read,
      fun e' mem => h.entry e' (front ▸ List.mem_cons_of_mem _ mem)⟩, none⟩
  | delivers turn =>
    obtain ⟨-, rfl⟩ := Queue.takeEarly?_eq_some turn
    exact .inl ⟨⟨numbered, within, size_le, h.le, h.order, h.entry⟩, rfl⟩

end Reading

/-! ## The conversion of an object -/

namespace Stage

/-- **Conversions of containers with their own reports apart.** -/
abbrev tagged (S : Setting C) (shape : Shape) (t : Ty C) (elem : Conversion C) :
    (Conversion.container S shape t elem).Progress (Report C) :=
  progress S shape t Report.own (elem.polls .inner)

/-- How many results of entries are delivered. -/
def delivered {σ : Type} : Stage C σ → Nat
  | reading _ _ w => w.delivered.size
  | _ => 0

/-- How many entries are begun as tasks and not delivered. -/
def underWay {σ : Type} : Stage C σ → Nat
  | reading _ _ w => w.queue.size
  | _ => 0

/-- The conversion of an object fails at an entry, if the result to be
delivered next is a failure. -/
def FailsAt {σ : Type} (k : Nat) (e : CastError C) : Stage C σ → Prop
  | reading _ _ w => w.delivered.size = k ∧ (k, .error e) ∈ w.queue.early
  | _ => False

variable (S : Setting C) (shape : Shape) (t : Ty C) (r : Ref)

/-- What the conversion of an object reports before it reads any entry. -/
def opening : List (Report C) :=
  [.own (.began r shape.sizeRead), .own (.ended r shape.sizeRead), .own (.diagnostic
    ((Contents.ofObject shape (S.heap.object r)).diagnostic (shape.type t)))]

/-- **The reads of an object**: its size, and the first entries in order. -/
def objectReads (k : Nat) : List (Ref × Read) :=
  (r, shape.sizeRead) :: ((Contents.ofObject shape (S.heap.object r)).reads k).map (r, ·)

/-- **The read discipline** of one conversion of an object, at a moment. -/
structure Disciplined {σ : Type} (reports : List (Report C)) (stage : Stage C σ) : Prop where
  /-- The size is asked for and answered before all else. -/
  size_first : reports <+: opening S shape t r ∨ opening S shape t r <+: reports
  /-- Read are the size and the first entries, in order and each once: none
  past the last, and less than sixteen past the results delivered. -/
  in_order : Report.reads reports = [] ∨ ∃ k, Report.reads reports = objectReads S shape r k
    ∧ k ≤ (Contents.ofObject shape (S.heap.object r)).count
    ∧ k ≤ stage.delivered + windowWidth
  /-- At most sixteen entries are begun and not delivered. -/
  underWay_le : stage.underWay ≤ windowWidth

variable {S shape t r} {elem : Conversion C}

/-- **The conversion of an object goes along this line.** -/
inductive Along (S : Setting C) (shape : Shape) (t : Ty C) (r : Ref) {σ : Type} :
    List (Report C) → Stage C σ → Prop
  | begun : Along S shape t r [] (.begun (.sourced (.object r)))
  | sizing (left : Nat) : Along S shape t r [.own (.began r shape.sizeRead)] (.sizing r left)
  | reading {k : Nat} {rest : List (Report C)} {w : Window (CastError C) (Entry C σ) (Payload C)}
      (h : Reading r (Contents.ofObject shape (S.heap.object r)) k w)
      (reads : Report.reads rest
        = ((Contents.ofObject shape (S.heap.object r)).reads k).map (r, ·)) :
      Along S shape t r (opening S shape t r ++ rest)
        (.reading r (Contents.ofObject shape (S.heap.object r)) w)

theorem Along.start {σ : Type} : Along S shape t r (opening S shape t r)
    (.reading r (Contents.ofObject shape (S.heap.object r))
      (.start : Window (CastError C) (Entry C σ) (Payload C))) := by
  rw [← List.append_nil (opening S shape t r)]
  refine .reading .start ?_
  rw [Contents.reads_zero]
  rfl

theorem Along.step {reports more : List (Report C)} {stage stage' : Stage C elem.State}
    (h : Along S shape t r reports stage)
    (s : (tagged S shape t elem).moves stage more stage') :
    Along S shape t r (reports ++ more) stage' := by
  cases h with
  | begun =>
    cases s
    exact .sizing _
  | sizing left =>
    cases s with
    | waits =>
      rw [List.append_nil]
      exact .sizing _
    | answers =>
      exact Along.start
  | @reading k rest w h reads =>
    cases s with
    | reads s =>
      rw [List.append_assoc]
      rcases h.step s with ⟨h, none⟩ | ⟨read, found, -, h, once⟩
      · refine .reading h ?_
        rw [Report.reads_append, none, List.append_nil, reads]
      · refine .reading h ?_
        rw [Report.reads_append, once, reads, Contents.reads_succ found, List.map_append]
        rfl

theorem Along.trail {reports : List (Report C)} {stage : Stage C elem.State}
    (path : Trail (tagged S shape t elem).moves (.begun (.sourced (.object r)))
      reports stage) : Along S shape t r reports stage := by
  induction path with
  | refl => exact .begun
  | tail _ last ih => exact ih.step last

theorem prefix_singleton {α : Type} {l : List α} {a : α} (h : l <+: [a]) : l = [] ∨ l = [a] := by
  rcases List.prefix_cons_iff.1 h with rfl | ⟨rest, rfl, le⟩
  · exact .inl rfl
  · rw [List.prefix_nil.1 le]
    exact .inr rfl

/-- Before the entries are read the discipline is kept. -/
theorem disciplined_opening {reports : List (Report C)} {stage : Stage C elem.State}
    (le : reports <+: opening S shape t r) (none : stage.underWay = 0) :
    Disciplined S shape t r reports stage := by
  have first : Report.reads reports <+: [(r, shape.sizeRead)] := Report.reads_prefix le
  refine ⟨.inl le, (prefix_singleton first).imp_right (fun reads => ?_),
    none.le.trans (Nat.zero_le _)⟩
  refine ⟨0, ?_, Nat.zero_le _, Nat.zero_le _⟩
  rw [reads, objectReads, Contents.reads_zero]
  rfl

/-- While they are read it is kept if the right ones are. -/
theorem disciplined_reading {k : Nat} {rest : List (Report C)}
    {w : Window (CastError C) (Entry C elem.State) (Payload C)}
    (reads : Report.reads rest
      = ((Contents.ofObject shape (S.heap.object r)).reads k).map (r, ·))
    (count : k ≤ (Contents.ofObject shape (S.heap.object r)).count)
    (ahead : k ≤ w.delivered.size + windowWidth) (size : w.queue.size ≤ windowWidth) :
    Disciplined S shape t r (opening S shape t r ++ rest)
      (.reading r (Contents.ofObject shape (S.heap.object r)) w) := by
  refine ⟨.inr (List.prefix_append _ _), .inr ⟨k, ?_, count, ahead⟩, size⟩
  rw [Report.reads_append, reads]
  rfl

/-- So it is while no other read begins. -/
theorem disciplined_of_reading {k : Nat} {rest more : List (Report C)}
    {w : Window (CastError C) (Entry C elem.State) (Payload C)}
    (h : Reading r (Contents.ofObject shape (S.heap.object r)) k w)
    (reads : Report.reads rest
      = ((Contents.ofObject shape (S.heap.object r)).reads k).map (r, ·))
    (none : Report.reads more = []) :
    Disciplined S shape t r (opening S shape t r ++ rest ++ more)
      (.reading r (Contents.ofObject shape (S.heap.object r)) w) := by
  rw [List.append_assoc]
  refine disciplined_reading ?_ (h.le.trans h.within.begun_le) (h.le.trans h.begun_le) h.size_le
  rw [Report.reads_append, none, List.append_nil, reads]

/-- **Between two steps** the discipline is kept. -/
theorem Along.disciplined {reports : List (Report C)} {stage : Stage C elem.State}
    (h : Along S shape t r reports stage) : Disciplined S shape t r reports stage := by
  cases h with
  | begun => exact disciplined_opening List.nil_prefix rfl
  | sizing left => exact disciplined_opening ⟨_, rfl⟩ rfl
  | reading h reads =>
    rw [← List.append_nil (_ ++ _)]
    exact disciplined_of_reading h reads rfl

/-- **In the middle of a step** it is kept, since a step begins one read at
most. -/
theorem Along.disciplined_within {reports part whole : List (Report C)}
    {stage stage' : Stage C elem.State} (h : Along S shape t r reports stage)
    (s : (tagged S shape t elem).moves stage whole stage') (le : part <+: whole) :
    Disciplined S shape t r (reports ++ part) stage := by
  cases h with
  | begun =>
    cases s
    exact disciplined_opening (le.trans ⟨_, rfl⟩) rfl
  | sizing left =>
    cases s with
    | waits => exact disciplined_opening ((List.prefix_append_right_inj _).2
        (le.trans List.nil_prefix)) rfl
    | answers => exact disciplined_opening ((List.prefix_append_right_inj _).2 le) rfl
  | @reading k rest w h reads =>
    cases s with
    | reads s =>
      have part_le := Report.reads_prefix le
      rcases h.step s with ⟨-, none⟩ | ⟨read, found, lt, h', once⟩
      · rw [none, List.prefix_nil] at part_le
        exact disciplined_of_reading h reads part_le
      · rw [once] at part_le
        rcases prefix_singleton part_le with none | all
        · exact disciplined_of_reading h reads none
        · rw [List.append_assoc]
          refine disciplined_reading (k := k + 1) ?_ (h'.le.trans h'.within.begun_le)
            (Nat.le_trans lt h.begun_le) h.size_le
          rw [Report.reads_append, all, reads, Contents.reads_succ found, List.map_append]
          rfl

/-- The end begins no read. -/
theorem Stops.reads {reports : List (Report C)} {w : Window (CastError C) (Entry C elem.State) _}
    {contents : Contents} {o : Except (CastError C) (Array (Payload C))}
    (h : Window.Stops (Entry.tagged S elem) windowWidth (contents.entries r)
      w reports o) : Report.reads reports = [] := by
  cases h with
  | finishes => rfl
  | fails turn => exact Entry.reads_dropAll _

/-- **At the end** it is kept. -/
theorem Along.disciplined_ending {reports part whole : List (Report C)}
    {stage : Stage C elem.State} {o : Except (CastError C) (Payload C)}
    (h : Along S shape t r reports stage)
    (ends : (tagged S shape t elem).ends stage whole o) (le : part <+: whole) :
    Disciplined S shape t r (reports ++ part) stage := by
  cases h with
  | begun => cases ends
  | sizing left => cases ends
  | @reading k rest w h reads =>
    cases ends with
    | reading stops =>
      have part_le := Report.reads_prefix le
      rw [Stops.reads stops, List.prefix_nil] at part_le
      exact disciplined_of_reading h reads part_le

/-- **At every moment** it is kept. -/
theorem Moment.disciplined {reports : List (Report C)} {stage : Stage C elem.State}
    (h : (tagged S shape t elem).Moment (.begun (.sourced (.object r)))
      reports stage) : Disciplined S shape t r reports stage := by
  cases h with
  | between path => exact (Along.trail path).disciplined
  | within path step le => exact (Along.trail path).disciplined_within step le
  | ending path ends le => exact (Along.trail path).disciplined_ending ends le

/-! ### The end of the conversion -/

theorem exists_stops {last : List (Report C)} {contents : Contents}
    {w : Window (CastError C) (Entry C elem.State) (Payload C)}
    {o : Except (CastError C) (Payload C)}
    (ends : (tagged S shape t elem).ends (.reading r contents w) last o) :
    ∃ o', Window.Stops (Entry.tagged S elem) windowWidth (contents.entries r)
        w last o'
      ∧ o = o'.map fun values => shape.assemble t contents.keys values.toList := by
  cases ends with
  | reading stops => exact ⟨_, stops, rfl⟩

/-- **A conversion that succeeds** has read every entry. -/
theorem Along.reads_of_ok {reports last : List (Report C)} {stage : Stage C elem.State}
    {p : Payload C} (h : Along S shape t r reports stage)
    (ends : (tagged S shape t elem).ends stage last (.ok p)) :
    Report.reads (reports ++ last) = objectReads S shape r
      (Contents.ofObject shape (S.heap.object r)).count := by
  cases h with
  | begun => cases ends
  | sizing left => cases ends
  | @reading k rest w h reads =>
    obtain ⟨o, stops, same⟩ := exists_stops ends
    have none := Stops.reads stops
    cases stops with
    | fails turn => cases same
    | finishes empty missing full =>
      -- nothing is under way, so everything begun is delivered, and there is no more to begin
      have delivered := h.numbered.delivered_eq_begun empty missing
      have size : w.queue.size = 0 := by
        have := h.numbered.size_eq
        omega
      have all : (Contents.ofObject shape (S.heap.object r)).count ≤ w.begun := by
        refine Contents.entries_eq_none_iff.1 (full.resolve_right (fun full => ?_))
        exact absurd (size ▸ full) (by decide)
      have order := h.order
      rw [empty] at order
      have read : w.begun - k = 0 := List.range'_eq_nil_iff.1 order.symm
      have same : k = (Contents.ofObject shape (S.heap.object r)).count := by
        have := h.le
        have := h.within.begun_le
        omega
      rw [Report.reads_append, none, List.append_nil, Report.reads_append, reads, same]
      rfl

/-- **A conversion that fails** at some entry has read none from sixteen past
it on. -/
theorem Along.reads_of_error {reports last : List (Report C)} {stage : Stage C elem.State}
    {e : CastError C} (h : Along S shape t r reports stage)
    (ends : (tagged S shape t elem).ends stage last (.error e)) :
    ∃ k, stage.FailsAt k e ∧ ∃ n ≤ k + windowWidth,
      Report.reads (reports ++ last) = objectReads S shape r n := by
  cases h with
  | begun => cases ends
  | sizing left => cases ends
  | @reading k rest w h reads =>
    obtain ⟨o, stops, same⟩ := exists_stops ends
    have none := Stops.reads stops
    cases stops with
    | finishes empty missing full => cases same
    | fails turn =>
      cases same
      obtain ⟨mem, -⟩ := Queue.takeEarly?_eq_some turn
      refine ⟨w.delivered.size, ⟨rfl, h.numbered.turn ▸ mem⟩, k, h.le.trans h.begun_le, ?_⟩
      rw [Report.reads_append, none, List.append_nil, Report.reads_append, reads]
      rfl

end Stage

/-! ## The conversion of an object, driven -/

/-- **One conversion of an object reads it in order.** At every moment the
size was read first and then the first entries, each once: none past the last,
and none from sixteen past the results delivered on; at most sixteen entries
are begun and not delivered. So it is for the polls of any driver and for any
conversion of the entries. One that succeeds has read every entry, and one
that fails at some entry none from sixteen past it on. -/
theorem Conversion.reads_in_order (S : Setting C) (shape : Shape) (t : Ty C)
    (elem : Conversion C) (r : Ref) :
    (∀ reports stage, (Stage.tagged S shape t elem).Moment
        (.begun (.sourced (.object r))) reports stage →
      Stage.Disciplined S shape t r reports stage)
    ∧ ∀ surroundings, ∃ reports : List (Report C),
      reports.map Report.event = ((container S shape t elem).pollAll surroundings
        (.begun (.sourced (.object r)))).log
      ∧ (∀ first, first <+: reports →
        ∃ stage, (Stage.tagged S shape t elem).Moment
          (.begun (.sourced (.object r))) first stage)
      ∧ (∀ p, ((container S shape t elem).pollAll surroundings
          (.begun (.sourced (.object r)))).value = some (.ok p) →
        Report.reads reports = Stage.objectReads S shape r
          (Contents.ofObject shape (S.heap.object r)).count)
      ∧ ∀ e, ((container S shape t elem).pollAll surroundings
          (.begun (.sourced (.object r)))).value = some (.error e) →
        ∃ stage k, (Stage.tagged S shape t elem).Moment
            (.begun (.sourced (.object r))) reports stage
          ∧ stage.FailsAt k e ∧ ∃ n ≤ k + windowWidth,
            Report.reads reports = Stage.objectReads S shape r n := by
  refine ⟨fun _ _ => Stage.Moment.disciplined, fun surroundings => ?_⟩
  have covers : (Stage.tagged S shape t elem).Covers Report.event :=
    container_covers (elem.polls_covers fun _ => rfl) fun _ => rfl
  have driven := pollAll_driven covers surroundings (Stage.begun (.sourced (.object r)))
  generalize (container S shape t elem).pollAll surroundings
    (Stage.begun (.sourced (.object r))) = x at driven ⊢
  cases driven with
  | tires path =>
    exact ⟨_, rfl, fun first le => Course.exists_moment path le, nofun, nofun⟩
  | ends path ends =>
    refine ⟨_, rfl, fun first le => Course.exists_moment_of_ends path ends le, ?_, ?_⟩
    · intro p same
      obtain rfl := Option.some.inj same
      exact (Stage.Along.trail path).reads_of_ok ends
    · intro e same
      obtain rfl := Option.some.inj same
      obtain ⟨k, fails, bounded⟩ := (Stage.Along.trail path).reads_of_error ends
      exact ⟨_, k, .ending path ends (List.prefix_refl _), fails, bounded⟩

/-- An object with more elements than a window holds, the first of them slow to
come. -/
def ExternalObject.slowFirst : ExternalObject CallerTypes.none where
  length := 18
  elements := List.replicate 18 (.native (.bool true))
  keys := []
  properties := []
  delay := 0
  delays := [("element 0", 2)]

/-- A setting with this object. -/
def Setting.slowFirst : Setting CallerTypes.none := ⟨⟨[.object .slowFirst]⟩, .refusing .none⟩

/-- Its elements are read in order, though the first one is the last to come of
those in the window. -/
theorem Conversion.reads_in_order_slowFirst :
    ∃ reports : List (Report CallerTypes.none),
      reports.map Report.event = ((container .slowFirst (.sequence .vector) .bool
        (of .slowFirst .bool)).pollAll (List.replicate 3 RefSet.none)
          (Stage.begun (.sourced (.object 0)))).log
      ∧ Report.reads reports = (0, .length) :: (List.range 18).map fun n => (0, .element n) := by
  obtain ⟨reports, log, -, all, -⟩ := (Conversion.reads_in_order .slowFirst
    (.sequence .vector) .bool (of .slowFirst .bool) 0).2 (List.replicate 3 RefSet.none)
  exact ⟨reports, log, all (.seq .vector .bool (List.replicate 18 (.bool true))) rfl⟩

end DynValue

import DynValue.Proofs.Number.CorrectRounding
import Mathlib.Data.List.Forall2
import Mathlib.Data.List.Infix

/-!
# Literals

The two readers of numbers are defined by what they do: they split off a sign, take
digits while there are some, look for a point and an exponent. Here is what they
accept, as three grammars in which each production says what it denotes: integers
of a kind (`IntKind.Literal`), decimals (`Decimal.Literal`) and floats of a kind
(`Fp.Literal`). A reader gives a value exactly if the text is a literal of this
value (`IntKind.ofText?_eq_some_iff`, `Fp.ofText?_eq_some_iff`).

The float reader also refuses each infinity of a text without the letters `inf`.
That these make the difference between a spelled infinity and a decimal that is too
large comes down to one letter: every word has an `n` in it and no decimal has
(`Decimal.Literal.no_n`).
-/

namespace DynValue

/-- **An optional sign**, and whether it is a minus. -/
inductive Sign : List Char → Bool → Prop
  | none : Sign [] false
  | plus : Sign ['+'] false
  | minus : Sign ['-'] true

namespace Sign

variable {front body cs : List Char} {neg : Bool}

theorem of_splitSign (h : splitSign cs = (neg, body)) :
    ∃ front, Sign front neg ∧ cs = front ++ body := by
  unfold splitSign at h
  split at h <;> cases h
  · exact ⟨_, .minus, rfl⟩
  · exact ⟨_, .plus, rfl⟩
  · exact ⟨_, .none, rfl⟩

/-- Nothing is split off a text of which all characters are of some sort, where no
sign is. -/
theorem splitSign_unsigned {p : Char → Bool} (all : ∀ c ∈ cs, p c = true) (plus : p '+' = false)
    (minus : p '-' = false) : splitSign cs = (false, cs) := by
  unfold splitSign
  split
  · rw [(List.forall_mem_cons.1 all).1] at minus
    cases minus
  · rw [(List.forall_mem_cons.1 all).1] at plus
    cases plus
  · rfl

/-- A sign is split off what does not start with another. -/
theorem splitSign_append (sign : Sign front neg) (unsigned : splitSign body = (false, body)) :
    splitSign (front ++ body) = (neg, body) := by
  cases sign with
  | none => exact unsigned
  | plus => rfl
  | minus => rfl

end Sign

/-- Zeros in front leave the number alone. -/
theorem Digits.Denotes.zeros_append {ds : List Char} {n : ℕ} (digits : Denotes ds n) (zeros : ℕ) :
    Denotes (List.replicate zeros '0' ++ ds) n := by
  obtain ⟨digit, rfl⟩ := denotes_iff.1 digits
  exact denotes_iff.2 ⟨isDigit_of_mem_append isDigit_of_mem_zeros digit,
    (ofDigitChars_zeros_append zeros ds).symm⟩

/-! ## Integers -/

namespace IntKind

variable {k : IntKind} {s : String} {front ds : List Char} {neg : Bool} {n : ℕ}

/-- **A literal of an integer kind and the number that it denotes**: digits, of which
there is at least one, after an optional sign, which is a minus for the signed kinds
only. -/
inductive Literal (k : IntKind) : List Char → ℤ → Prop
  | mk {front ds : List Char} {neg : Bool} {n : ℕ} (sign : Sign front neg)
    (allowed : neg = true → k.signed = true) (some : ds ≠ []) (digits : Digits.Denotes ds n) :
    Literal k (front ++ ds) (negateIf neg n)

/-- **A sign and digits are read as the number that they denote**, or refused as out
of range. A minus is refused by the unsigned kinds. -/
theorem ofText?_digits (letters : s.toList = front ++ ds) (sign : Sign front neg)
    (some : ds ≠ []) (digits : Digits.Denotes ds n) :
    k.ofText? s =
      if neg = true → k.signed = true then k.ofInt? (negateIf neg n) else none := by
  rw [← ofDigits?_eq some digits, ofText?, letters]
  cases sign with
  | none =>
    have digit := digits.isDigit
    rw [List.nil_append, if_pos nofun]
    split
    · cases (List.forall_mem_cons.1 digit).1
    · cases (List.forall_mem_cons.1 digit).1
    · rfl
  | plus => exact (if_pos nofun).symm
  | minus => exact if_congr ⟨fun signed _ => signed, fun allowed => allowed rfl⟩ rfl rfl

/-- **An integer is read exactly from the literals that denote it.** -/
theorem ofText?_eq_some_iff {v : k.Value} : k.ofText? s = some v ↔ k.Literal s.toList v.1 := by
  constructor
  · intro h
    rw [ofText?] at h
    split at h
    · rename_i letters
      obtain ⟨some, n, digits, value⟩ := ofDigits?_eq_some_iff.1 h
      rw [letters, value]
      exact .mk .plus nofun some digits
    · rename_i letters
      obtain ⟨signed, h⟩ := Option.ite_none_right_eq_some.1 h
      obtain ⟨some, n, digits, value⟩ := ofDigits?_eq_some_iff.1 h
      rw [letters, value]
      exact .mk .minus (fun _ => signed) some digits
    · obtain ⟨some, n, digits, value⟩ := ofDigits?_eq_some_iff.1 h
      rw [value]
      exact .mk .none nofun some digits
  · intro h
    generalize letters : s.toList = cs, value : v.1 = n at h
    obtain ⟨sign, allowed, some, digits⟩ := h
    rw [ofText?_digits letters sign some digits, if_pos allowed, ofInt?_eq_some_iff, value]

end IntKind

/-! ## Decimals -/

namespace Decimal

variable {cs : List Char} {e : ℤ} {q : ℚ} {d : Decimal}

/-- **An exponent part**: nothing, or the letter `e` in either case, an optional sign
and digits. -/
inductive Exponent : List Char → ℤ → Prop
  | none : Exponent [] 0
  | some {e : Char} {front ds : List Char} {neg : Bool} {n : ℕ} (letter : e = 'e' ∨ e = 'E')
    (sign : Sign front neg) (some : ds ≠ []) (digits : Digits.Denotes ds n) :
    Exponent (e :: (front ++ ds)) (negateIf neg n)

/-- **A decimal literal and the number that it denotes**: digits, or digits with a
point before, among or behind them, and an exponent part. -/
inductive Literal : List Char → ℚ → Prop
  | whole {ds tail : List Char} {n : ℕ} {e : ℤ} (some : ds ≠ []) (digits : Digits.Denotes ds n)
    (exponent : Exponent tail e) : Literal (ds ++ tail) (n * 10 ^ e)
  | point {ds fs tail : List Char} {n m : ℕ} {e : ℤ} (some : ds ≠ [] ∨ fs ≠ [])
    (digits : Digits.Denotes ds n) (places : Digits.Denotes fs m) (exponent : Exponent tail e) :
    Literal (ds ++ '.' :: (fs ++ tail)) ((n + m / 10 ^ fs.length) * 10 ^ e)

theorem exponent?_eq_some_iff : exponent? cs = some e ↔ Exponent cs e := by
  constructor
  · intro h
    cases cs with
    | nil => cases h; exact .none
    | cons c cs =>
      rw [exponent?, Option.ite_none_right_eq_some] at h
      obtain ⟨letter, h⟩ := h
      cases split : splitSign cs with
      | mk neg ds =>
        obtain ⟨front, sign, rfl⟩ := Sign.of_splitSign split
        rw [split] at h
        obtain ⟨n, value, rfl⟩ := Option.map_eq_some_iff.1 h
        obtain ⟨some, digits⟩ := Digits.value?_eq_some_iff.1 value
        exact .some letter sign some digits
  · rintro (_ | ⟨letter, sign, some, digits⟩)
    · rfl
    · have unsigned := Sign.splitSign_unsigned digits.isDigit rfl rfl
      rw [exponent?, if_pos letter, sign.splitSign_append unsigned]
      dsimp only
      rw [Digits.value?_eq_some_iff.2 ⟨some, digits⟩]
      rfl

/-- **The digits behind the point** are decimal places, whether they are read with
those before it or as a fraction. -/
theorem value_places (ds fs : List Char) (e : ℤ) :
    value ⟨Nat.ofDigitChars 10 (ds ++ fs) 0, e - fs.length⟩
      = (Nat.ofDigitChars 10 ds 0 + Nat.ofDigitChars 10 fs 0 / 10 ^ fs.length) * 10 ^ e := by
  rw [value, Nat.ofDigitChars_append, Nat.ofDigitChars_eq_ofDigitChars_zero,
    zpow_sub₀ (by norm_num), zpow_natCast, Nat.cast_add, Nat.cast_mul, Nat.cast_pow,
    Nat.cast_ofNat]
  field_simp

/-- What is taken for a literal is one. -/
theorem literal_of_ofChars? (h : ofChars? cs = some d) : Literal cs d.value := by
  have run (cs : List Char) : Digits.Denotes (cs.takeWhile Char.isDigit)
      (Nat.ofDigitChars 10 (cs.takeWhile Char.isDigit) 0) :=
    Digits.denotes_iff.2 ⟨fun _ => List.mem_takeWhile_imp, rfl⟩
  have digits := run cs
  have whole : cs = cs.takeWhile Char.isDigit ++ cs.dropWhile Char.isDigit :=
    List.takeWhile_append_dropWhile.symm
  rw [ofChars?] at h
  generalize cs.takeWhile Char.isDigit = ds, cs.dropWhile Char.isDigit = rest at digits whole h
  subst whole
  split at h
  rename_i fraction tail parts
  obtain ⟨some, h⟩ := Option.ite_none_left_eq_some.1 h
  obtain ⟨e, exponent, rfl⟩ := Option.map_eq_some_iff.1 h
  rw [Bool.and_eq_true, List.isEmpty_iff, List.isEmpty_iff, not_and_or] at some
  rw [exponent?_eq_some_iff] at exponent
  rw [value_places]
  split at parts
  · rename_i places
    obtain ⟨rfl, rfl⟩ := Prod.mk.inj parts
    have := Literal.point some digits (run places) exponent
    rwa [List.takeWhile_append_dropWhile] at this
  · obtain ⟨rfl, rfl⟩ := Prod.mk.inj parts
    have := Literal.whole (some.resolve_right fun h => h rfl) digits exponent
    simpa using this

/-- **A decimal is taken apart as the literal that it is**, and the parts stand for
the number that it denotes. -/
theorem literal_iff : Literal cs q ↔ ∃ d, ofChars? cs = some d ∧ d.value = q := by
  constructor
  · rintro (⟨some, digits, exponent⟩ | ⟨some, digits, places, exponent⟩)
    · obtain ⟨digit, rfl⟩ := Digits.denotes_iff.1 digits
      exact ⟨_, ofChars?_whole some digit (exponent?_eq_some_iff.2 exponent), rfl⟩
    · obtain ⟨digit, rfl⟩ := Digits.denotes_iff.1 digits
      obtain ⟨digit', rfl⟩ := Digits.denotes_iff.1 places
      exact ⟨_, ofChars?_point some digit digit' (exponent?_eq_some_iff.2 exponent),
        value_places _ _ _⟩
  · rintro ⟨d, h, rfl⟩
    exact literal_of_ofChars? h

/-- The digits of a number are a decimal of it. -/
theorem literal_ofNat (n : ℕ) : Literal (Digits.ofNat n) n := by
  have literal := Literal.whole (Digits.ofNat_ne_nil n) (Digits.denotes_ofNat n) .none
  rwa [List.append_nil, zpow_zero, mul_one] at literal

end Decimal

/-! ## Words -/

theorem occursIn_iff {word cs : List Char} : occursIn word cs = true ↔ word <:+: cs := by
  induction cs with
  | nil => rw [occursIn, List.isEmpty_iff, List.infix_nil]
  | cons c cs ih =>
    rw [occursIn, Bool.or_eq_true, ih, List.isPrefixOf_iff_prefix, List.infix_cons_iff]

/-- **A text spells a word**, each letter in either case. -/
def Spells (word : String) (cs : List Char) : Prop :=
  List.Forall₂ (fun w c => c = w ∨ c = w.toUpper) word.toList cs

namespace Letter

variable {w c : Char}

theorem toNat_toLower (c : Char) : c.toLower.toNat =
    if 'A'.toNat ≤ c.toNat ∧ c.toNat ≤ 'Z'.toNat then c.toNat + 32 else c.toNat := by
  delta Char.toLower
  simp only [ge_iff_le, UInt32.le_iff_toNat_le, Char.toNat_val]
  split <;> rename_i range
  · show (c.val + ('a'.val - 'A'.val)).toNat = _
    rw [UInt32.toNat_add, Char.toNat_val]
    simp at range ⊢
    omega
  · rfl

theorem toNat_toUpper (c : Char) : c.toUpper.toNat =
    if 'a'.toNat ≤ c.toNat ∧ c.toNat ≤ 'z'.toNat then c.toNat - 32 else c.toNat := by
  delta Char.toUpper
  simp only [UInt32.le_iff_toNat_le, Char.toNat_val]
  split <;> rename_i range
  · show (c.val + ('A'.val - 'a'.val)).toNat = _
    rw [UInt32.toNat_add, Char.toNat_val]
    simp at range ⊢
    omega
  · rfl

/-- **What becomes a small letter** is this letter, small or capital. -/
theorem toLower_eq_iff (lower : w.isLower = true) : c.toLower = w ↔ c = w ∨ c = w.toUpper := by
  have range : 97 ≤ w.toNat ∧ w.toNat ≤ 122 := by
    delta Char.isLower at lower
    simpa [UInt32.le_iff_toNat_le] using lower
  simp only [← Char.toNat_inj, toNat_toLower, toNat_toUpper, Char.reduceToNat, if_pos range]
  split <;> omega

end Letter

/-! ## Floats -/

namespace Spells

variable {word : String} {cs : List Char}

/-- A word of small letters is spelled by what becomes this word. -/
theorem iff_toLower (lower : ∀ w ∈ word.toList, w.isLower = true) :
    Spells word cs ↔ cs.map Char.toLower = word.toList := by
  unfold Spells
  generalize word.toList = ws at lower ⊢
  induction ws generalizing cs with
  | nil => rw [List.forall₂_nil_left_iff, List.map_eq_nil_iff]
  | cons w ws ih =>
    obtain ⟨first, behind⟩ := List.forall_mem_cons.1 lower
    cases cs with
    | nil => exact iff_of_false nofun nofun
    | cons c cs =>
      rw [List.forall₂_cons, List.map_cons, List.cons.injEq, ih behind, Letter.toLower_eq_iff first]

/-- A word has no sign in front. -/
theorem splitSign_eq (lower : ∀ w ∈ word.toList, w.isLower = true) (spelled : Spells word cs) :
    splitSign cs = (false, cs) := by
  rw [iff_toLower lower] at spelled
  rw [← spelled, List.forall_mem_map] at lower
  exact Sign.splitSign_unsigned lower rfl rfl

end Spells

/-! The only letter that a decimal has in it is an `e`. -/

theorem Digits.Denotes.no_n {ds : List Char} {n : ℕ} (digits : Denotes ds n) :
    ∀ c ∈ ds, c.toLower ≠ 'n' := by
  intro c member same
  have digit := digits.isDigit c member
  rcases (Letter.toLower_eq_iff (by decide)).1 same with rfl | rfl <;> cases digit

theorem Sign.no_n {front : List Char} {neg : Bool} (sign : Sign front neg) :
    ∀ c ∈ front, c.toLower ≠ 'n' := by
  cases sign with
  | none => exact nofun
  | plus | minus => exact List.forall_mem_singleton.2 (by decide)

namespace Decimal

variable {cs : List Char} {e : ℤ} {q : ℚ}

theorem Exponent.no_n (exponent : Exponent cs e) : ∀ c ∈ cs, c.toLower ≠ 'n' := by
  cases exponent with
  | none => exact nofun
  | some letter sign _ digits =>
    refine List.forall_mem_cons.2 ⟨?_, List.forall_mem_append.2 ⟨sign.no_n, digits.no_n⟩⟩
    rcases letter with rfl | rfl <;> decide

theorem Literal.no_n (literal : Literal cs q) : ∀ c ∈ cs, c.toLower ≠ 'n' := by
  cases literal with
  | whole _ digits exponent => exact List.forall_mem_append.2 ⟨digits.no_n, exponent.no_n⟩
  | point _ digits places exponent =>
    exact List.forall_mem_append.2 ⟨digits.no_n, List.forall_mem_cons.2
      ⟨by decide, List.forall_mem_append.2 ⟨places.no_n, exponent.no_n⟩⟩⟩

theorem Literal.nonneg (literal : Literal cs q) : 0 ≤ q := by
  obtain ⟨d, -, rfl⟩ := literal_iff.1 literal
  exact d.value_nonneg

/-- A literal has no sign in front. -/
theorem Literal.splitSign_eq (literal : Literal cs q) : splitSign cs = (false, cs) := by
  obtain ⟨d, read, -⟩ := literal_iff.1 literal
  exact splitSign_of_ofChars? read

end Decimal

namespace Fp

variable {K : FloatKind} {s word : String} {front body : List Char} {neg : Bool} {q : ℚ}
  {x : Fp K}

/-- The words that stand for floats. -/
def words : List String := ["inf", "infinity", "nan"]

theorem isLower_of_mem_words (word : String) (member : word ∈ words) :
    ∀ w ∈ word.toList, w.isLower = true := by
  have letters : ∀ word ∈ words, word.toList.all Char.isLower = true := by decide
  exact List.all_eq_true.1 (letters word member)

theorem n_mem_of_mem_words : ∀ word ∈ words, 'n' ∈ word.toList := by decide

/-- **No word is a decimal.** -/
theorem ofChars?_of_spells (member : word ∈ words) (spelled : Spells word body) :
    Decimal.ofChars? body = none := by
  have letter := n_mem_of_mem_words word member
  rw [← (Spells.iff_toLower (isLower_of_mem_words word member)).1 spelled] at letter
  obtain ⟨c, within, same⟩ := List.mem_map.1 letter
  exact Option.eq_none_iff_forall_ne_some.2 fun d read =>
    (Decimal.literal_of_ofChars? read).no_n c within same

theorem ofWord?_eq_some_iff : ofWord? K neg body = some x ↔
    (Spells "inf" body ∨ Spells "infinity" body) ∧ x = .inf neg
      ∨ Spells "nan" body ∧ x = .nan := by
  have spells (word : String) (member : word ∈ words) :
      String.ofList (body.map Char.toLower) = word ↔ Spells word body := by
    rw [Spells.iff_toLower (isLower_of_mem_words word member), ← String.toList_inj,
      String.toList_ofList]
  rw [ofWord?, ← spells "inf" (by decide), ← spells "infinity" (by decide),
    ← spells "nan" (by decide)]
  generalize String.ofList (body.map Char.toLower) = letters
  by_cases infinity : letters = "inf" ∨ letters = "infinity"
  · have other : letters ≠ "nan" := by rcases infinity with rfl | rfl <;> decide
    simp [infinity, other, eq_comm]
  · simp [infinity, eq_comm]

/-! ### What is read -/

/-- **A decimal is read as the float nearest to its number**, unless this is an
infinity. -/
theorem ofText?_decimal (K : FloatKind) (letters : s.toList = front ++ body)
    (sign : Sign front neg) (literal : Decimal.Literal body q) :
    ofText? K s = if |q| < K.limit then some (nearestTo K neg q) else none := by
  have plain : spellsInfinity s = false := by
    rw [spellsInfinity, letters, Bool.eq_false_iff, ne_eq, occursIn_iff]
    intro found
    obtain ⟨c, within, same⟩ := List.mem_map.1 (found.mem (by decide : 'n' ∈ "inf".toList))
    exact List.forall_mem_append.2 ⟨sign.no_n, literal.no_n⟩ c within same
  have unsigned := literal.splitSign_eq
  obtain ⟨d, read, rfl⟩ := Decimal.literal_iff.1 literal
  have denoted : parse? K s = some (nearestTo K neg d.value) := by
    rw [parse?, letters, sign.splitSign_append unsigned]
    dsimp only
    rw [read, ← ofDecimal_eq_nearestTo]
  rw [ofText?, denoted, plain, Option.filter_some]
  rcases lt_or_ge |d.value| K.limit with within | past
  · have finite := (isFinite_nearestTo K neg d.value).2 within
    rw [if_pos within]
    cases rounded : nearestTo K neg d.value with
    | finite => rfl
    | _ => rw [rounded] at finite; cases finite
  · rw [nearestTo_eq_inf neg past, if_neg past.not_gt]
    rfl

/-- What is no decimal is read as a word, and a word for infinity spells it. -/
theorem ofText?_eq_ofWord? (K : FloatKind) (letters : s.toList = front ++ body)
    (split : splitSign s.toList = (neg, body)) (other : Decimal.ofChars? body = none) :
    ofText? K s = ofWord? K neg body := by
  have denoted : parse? K s = ofWord? K neg body := by
    rw [parse?, split]
    dsimp only
    rw [other]
  rw [ofText?, denoted]
  cases word : ofWord? K neg body with
  | none => rfl
  | some x =>
    rcases ofWord?_eq_some_iff.1 word with ⟨named, rfl⟩ | ⟨-, rfl⟩
    · have spelled : spellsInfinity s = true := by
        rw [spellsInfinity, letters, occursIn_iff, List.map_append]
        refine List.infix_append_of_infix_right ?_
        rcases named with spelled | spelled
        · rw [(Spells.iff_toLower (isLower_of_mem_words _ (by decide))).1 spelled]
        · rw [(Spells.iff_toLower (isLower_of_mem_words _ (by decide))).1 spelled]
          exact ⟨[], "inity".toList, rfl⟩
      rw [Option.filter_some, spelled, Bool.or_true, if_pos rfl]
    · rfl

theorem ofText?_word (K : FloatKind) (letters : s.toList = front ++ body)
    (sign : Sign front neg) (member : word ∈ words) (spelled : Spells word body) :
    ofText? K s = ofWord? K neg body := by
  have split := sign.splitSign_append
    (Spells.splitSign_eq (isLower_of_mem_words word member) spelled)
  rw [← letters] at split
  exact ofText?_eq_ofWord? K letters split (ofChars?_of_spells member spelled)

/-- **A literal of a kind of floats and the float that it denotes**: after an optional
sign either a decimal whose correct rounding is finite, with the sign also if it is
zero, or a word. -/
inductive Literal : List Char → Fp K → Prop
  | decimal {front body : List Char} {neg : Bool} {q : ℚ} {x : Fp K} (sign : Sign front neg)
    (literal : Decimal.Literal body q) (rounding : x.IsRoundingOf (signed neg q))
    (negative : x.negative = neg) (finite : x.isFinite = true) : Literal (front ++ body) x
  | infinity {front body : List Char} {neg : Bool} (sign : Sign front neg)
    (word : Spells "inf" body ∨ Spells "infinity" body) : Literal (front ++ body) (.inf neg)
  | nan {front body : List Char} {neg : Bool} (sign : Sign front neg)
    (word : Spells "nan" body) : Literal (front ++ body) .nan

/-- **A float is read exactly from the literals that denote it.** -/
theorem ofText?_eq_some_iff : ofText? K s = some x ↔ Literal s.toList x := by
  constructor
  · intro read
    cases split : splitSign s.toList with
    | mk neg body =>
      obtain ⟨front, sign, letters⟩ := Sign.of_splitSign split
      rw [letters]
      cases literal : Decimal.ofChars? body with
      | some d =>
        have literal := Decimal.literal_of_ofChars? literal
        rw [ofText?_decimal K letters sign literal] at read
        obtain ⟨within, rounded⟩ := Option.ite_none_right_eq_some.1 read
        obtain ⟨rounding, negative⟩ :=
          (eq_nearestTo_signed_iff d.value_nonneg).1 (Option.some.inj rounded).symm
        have finite := (isFinite_nearestTo K neg d.value).2 within
        rw [Option.some.inj rounded] at finite
        exact .decimal sign literal rounding negative finite
      | none =>
        rw [ofText?_eq_ofWord? K letters split literal] at read
        rcases ofWord?_eq_some_iff.1 read with ⟨word, rfl⟩ | ⟨word, rfl⟩
        · exact .infinity sign word
        · exact .nan sign word
  · intro h
    generalize letters : s.toList = cs at h
    cases h with
    | decimal sign literal rounding negative finite =>
      obtain rfl := (eq_nearestTo_signed_iff literal.nonneg).2 ⟨rounding, negative⟩
      rw [ofText?_decimal K letters sign literal, if_pos ((isFinite_nearestTo ..).1 finite)]
    | infinity sign word =>
      rcases word with spelled | spelled
      · rw [ofText?_word K letters sign (by decide) spelled, ofWord?_eq_some_iff]
        exact .inl ⟨.inl spelled, rfl⟩
      · rw [ofText?_word K letters sign (by decide) spelled, ofWord?_eq_some_iff]
        exact .inl ⟨.inr spelled, rfl⟩
    | nan sign spelled =>
      rw [ofText?_word K letters sign (by decide) spelled, ofWord?_eq_some_iff]
      exact .inr ⟨spelled, rfl⟩

/-- **An infinity is denoted by nothing but a word.** -/
theorem Literal.spells {cs : List Char} (literal : Literal cs x) (infinite : x = .inf neg) :
    ∃ front body, Sign front neg ∧ cs = front ++ body
      ∧ (Spells "inf" body ∨ Spells "infinity" body) := by
  cases literal with
  | decimal _ _ _ _ finite => rw [infinite] at finite; cases finite
  | infinity sign word => cases infinite; exact ⟨_, _, sign, rfl, word⟩
  | nan => cases infinite

end Fp

end DynValue

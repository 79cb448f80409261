import DynValue.Text.Quoted
import Mathlib.Data.List.Basic

/-!
# Quoted text can be told apart

What is written in quotes is read by somebody who sees more than the quoted text: other
text stands behind it, and the quoted one may have quotes of its own. It is not enough
then that different texts are quoted differently. It has to be known as well where the
quoted text ends, and it is if what is written can be cut off the front of any longer
text in one way only (`PrefixFree`).

The characters inside the quotes have this property, because all that is written with a
backslash in front is an escape, and what comes next says which one (`Text.Escaped`). A
whole text has it (`Text.prefixFree_quote`), since no character is written with an
unescaped quote in front. That only equal texts are quoted equally is the least part of
it (`Text.quote_injective`).

Which characters are hidden does not matter for this. The code point of any character
could be written, and would not be mistaken for anything else.
-/

namespace DynValue

/-! ## What can be cut off the front -/

/-- **A way of writing that needs no end mark**: what is written can be cut off the front
of any longer text, and it is known for what it was written. -/
def PrefixFree {α β : Type} (write : α → List β) : Prop :=
  ∀ a b s t, write a ++ s = write b ++ t → a = b ∧ s = t

namespace PrefixFree

variable {α β : Type} {write : α → List β} {stop : β}

theorem injective (free : PrefixFree write) : Function.Injective write := fun a b same =>
  (free a b [] [] (congrArg (· ++ []) same)).1

/-- **Several in a row** can be cut off together, if behind the last one stands something
that none of them starts with. -/
theorem flatMap (free : PrefixFree write) (apart : ∀ a s t, write a ++ s ≠ stop :: t) :
    PrefixFree fun as : List α => as.flatMap write ++ [stop] := by
  intro as
  induction as with
  | nil =>
    rintro (- | ⟨b, bs⟩) s t same
    · exact ⟨rfl, (List.cons.inj same).2⟩
    · simp only [List.flatMap_cons, List.append_assoc] at same
      exact (apart b _ _ same.symm).elim
  | cons a as ih =>
    rintro (- | ⟨b, bs⟩) s t same
    · simp only [List.flatMap_cons, List.append_assoc] at same
      exact (apart a _ _ same).elim
    · simp only [List.flatMap_cons, List.append_assoc] at same
      obtain ⟨rfl, rest⟩ := free a b _ _ same
      obtain ⟨rfl, behind⟩ := ih bs s t (by simpa only [List.append_assoc] using rest)
      exact ⟨rfl, behind⟩

end PrefixFree

/-- What has an end mark can be cut off as well, if the mark does not occur in it. -/
theorem append_stop_inj {β : Type} {stop : β} {as bs s t : List β} (ha : stop ∉ as)
    (hb : stop ∉ bs) (same : as ++ stop :: s = bs ++ stop :: t) : as = bs ∧ s = t := by
  induction as generalizing bs with
  | nil =>
    cases bs with
    | nil => exact ⟨rfl, (List.cons.inj same).2⟩
    | cons b bs => exact (List.ne_of_not_mem_cons hb (List.cons.inj same).1).elim
  | cons a as ih =>
    cases bs with
    | nil => exact (List.ne_of_not_mem_cons ha (List.cons.inj same).1.symm).elim
    | cons b bs =>
      obtain ⟨rfl, rest⟩ := List.cons.inj same
      obtain ⟨rfl, behind⟩ :=
        ih (List.not_mem_of_not_mem_cons ha) (List.not_mem_of_not_mem_cons hb) rest
      exact ⟨rfl, behind⟩

/-! ## The digits of a code point -/

namespace Digits

/-- The value of a digit to the base of sixteen, the letters in lower case. -/
def hexDigitValue (c : Char) : Nat :=
  if c.isDigit then c.toNat - '0'.toNat else c.toNat - 'a'.toNat + 10

/-- The number that digits to the base of sixteen denote. -/
def hexValue (cs : List Char) : Nat := cs.foldl (fun n c => 16 * n + hexDigitValue c) 0

theorem hexDigitValue_digitChar : ∀ d < 16, hexDigitValue d.digitChar = d := by decide

/-- **The digits of a number denote it.** -/
theorem hexValue_toDigits (n : Nat) : hexValue (Nat.toDigits 16 n) = n := by
  induction n using Nat.base_induction 16 (by decide) with
  | single d small =>
    rw [Nat.toDigits_of_lt_base small]
    simpa [hexValue] using hexDigitValue_digitChar d small
  | digit n d small pos ih =>
    rw [hexValue] at ih ⊢
    rw [← Nat.toDigits_append_toDigits (by decide) pos small, Nat.toDigits_of_lt_base small,
      List.foldl_append, ih, List.foldl_cons, List.foldl_nil, hexDigitValue_digitChar d small]

theorem toDigits_hex_injective : Function.Injective (Nat.toDigits 16) :=
  Function.LeftInverse.injective hexValue_toDigits

/-- A closing brace is no digit. -/
theorem brace_notMem_toDigits (n : Nat) : '\x7d' ∉ Nat.toDigits 16 n := by
  have brace (d : Nat) : '\x7d' ∉ [d.digitChar] := fun h =>
    Nat.digitChar_ne '\x7d' (by decide) (List.mem_singleton.1 h).symm
  induction n using Nat.base_induction 16 (by decide) with
  | single d small =>
    rw [Nat.toDigits_of_lt_base small]
    exact brace d
  | digit n d small pos ih =>
    rw [← Nat.toDigits_append_toDigits (by decide) pos small, Nat.toDigits_of_lt_base small]
    exact List.mem_append.not.2 (not_or.2 ⟨ih, brace d⟩)

end Digits

namespace Text

/-! ## Escapes -/

/-- The characters that have an escape of their own, each with the letter behind the
backslash. -/
def escapeLetters : List (Char × Char) :=
  [('\x00', '0'), ('\t', 't'), ('\n', 'n'), ('\r', 'r'), ('\\', '\\'), ('"', '"')]

/-- **What may be written for a character inside quotes**: the character itself, if it is
no backslash and no quote, its letter behind a backslash, or its code point. -/
inductive Escaped : Char → List Char → Prop
  | itself {c : Char} (backslash : c ≠ '\\') (quote : c ≠ '"') : Escaped c [c]
  | letter {c l : Char} (entry : (c, l) ∈ escapeLetters) : Escaped c ['\\', l]
  | code (c : Char) : Escaped c (codePoint c)

theorem escaped_escapeChar (c : Char) : Escaped c (escapeChar c) := by
  unfold escapeChar
  split_ifs with zero tab newline carriage backslash quote hidden
  · exact .letter (by simp [zero, escapeLetters])
  · exact .letter (by simp [tab, escapeLetters])
  · exact .letter (by simp [newline, escapeLetters])
  · exact .letter (by simp [carriage, escapeLetters])
  · exact .letter (by simp [backslash, escapeLetters])
  · exact .letter (by simp [quote, escapeLetters])
  · exact .code c
  · exact .itself backslash quote

/-- Different characters have different letters. -/
theorem escapeLetters_unique {c d l : Char} (hc : (c, l) ∈ escapeLetters)
    (hd : (d, l) ∈ escapeLetters) : c = d := by
  have unique : ∀ p ∈ escapeLetters, ∀ q ∈ escapeLetters, p.2 = q.2 → p.1 = q.1 := by decide
  exact unique _ hc _ hd rfl

/-- The letter of code points is not among them. -/
theorem escapeLetters_ne_code {c l : Char} (entry : (c, l) ∈ escapeLetters) : l ≠ 'u' := by
  have other : ∀ p ∈ escapeLetters, p.2 ≠ 'u' := by decide
  exact other _ entry

theorem codePoint_append (c : Char) (s : List Char) :
    codePoint c ++ s = '\\' :: 'u' :: '\x7b' :: (Nat.toDigits 16 c.toNat ++ '\x7d' :: s) := by
  have front : "\\u\x7b".toList = ['\\', 'u', '\x7b'] := rfl
  have back : "\x7d".toList = ['\x7d'] := rfl
  simp only [codePoint, front, back, List.append_assoc, List.cons_append, List.nil_append]

namespace Escaped

variable {c d : Char} {cs ds s t : List Char}

/-- **A written character can be cut off the front**, whatever it is written by. -/
theorem unique (hc : Escaped c cs) (hd : Escaped d ds) (same : cs ++ s = ds ++ t) :
    c = d ∧ s = t := by
  -- The first letter tells a character itself from the escapes, and the second one a code
  -- point from the others. What is left are the cases of one way of writing.
  cases hc with
  | itself backslash _ =>
    cases hd with
    | itself => exact List.cons.inj same
    | letter => exact absurd (List.cons.inj same).1 backslash
    | code =>
      rw [codePoint_append] at same
      exact absurd (List.cons.inj same).1 backslash
  | letter entry =>
    cases hd with
    | itself backslash _ => exact absurd (List.cons.inj same).1.symm backslash
    | letter other =>
      obtain ⟨rfl, rest⟩ := List.cons.inj (List.cons.inj same).2
      exact ⟨escapeLetters_unique entry other, rest⟩
    | code =>
      rw [codePoint_append] at same
      exact absurd (List.cons.inj (List.cons.inj same).2).1 (escapeLetters_ne_code entry)
  | code =>
    rw [codePoint_append] at same
    cases hd with
    | itself backslash _ => exact absurd (List.cons.inj same).1.symm backslash
    | letter entry =>
      exact absurd (List.cons.inj (List.cons.inj same).2).1.symm (escapeLetters_ne_code entry)
    | code =>
      rw [codePoint_append] at same
      simp only [List.cons.injEq, true_and] at same
      obtain ⟨digits, rest⟩ := append_stop_inj (Digits.brace_notMem_toDigits _)
        (Digits.brace_notMem_toDigits _) same
      exact ⟨Char.toNat_inj.1 (Digits.toDigits_hex_injective digits), rest⟩

/-- No character is written with an unescaped quote in front. -/
theorem append_ne_quote (hc : Escaped c cs) : cs ++ s ≠ '"' :: t := by
  intro same
  cases hc with
  | itself _ quote => exact quote (List.cons.inj same).1
  | letter => cases same
  | code =>
    rw [codePoint_append] at same
    cases same

end Escaped

/-! ## Whole texts -/

/-- **One character of a quoted text** can be told from what is behind it. -/
theorem prefixFree_escapeChar : PrefixFree escapeChar := fun c d _ _ same =>
  (escaped_escapeChar c).unique (escaped_escapeChar d) same

theorem toList_quote (s : String) :
    (quote s).toList = '"' :: (s.toList.flatMap escapeChar ++ ['"']) := by
  rw [quote, String.toList_ofList, List.cons_append]

/-- **A quoted text can be told from what is behind it**, and read back. -/
theorem prefixFree_quote : PrefixFree fun s : String => (quote s).toList := by
  intro s t behind other same
  simp only [toList_quote, List.cons_append, List.cons.injEq, true_and] at same
  obtain ⟨chars, rest⟩ := prefixFree_escapeChar.flatMap
    (fun c _ _ => (escaped_escapeChar c).append_ne_quote) _ _ _ _ same
  exact ⟨String.toList_inj.1 chars, rest⟩

/-- **Only equal texts are quoted equally.** -/
theorem quote_injective : Function.Injective quote := fun _ _ same =>
  prefixFree_quote.injective (congrArg String.toList same)

end Text

end DynValue

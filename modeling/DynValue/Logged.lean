/-!
# Computations that keep a log

Reading a variant has two results: the answer, and what an observer is
told on the way – failed conversions, reads of external objects. A
`Logged ε α` is an answer of type `α` together with the list of what was
reported, in the order it happened.

The point is that the log is *data*: a statement about the diagnostics
of a conversion, or about the reads it begins, is a statement about a
list. Nothing below depends on the log already written, so a
computation's own log is the whole story (`log_bind`).
-/

namespace DynValue

/-- **An answer with a log**: the value computed and the entries
reported while computing it, oldest first. -/
structure Logged (ε α : Type) where
  /-- What was reported, oldest entry first. -/
  log : List ε
  /-- The answer. -/
  value : α

namespace Logged

variable {ε α β : Type}

instance : Monad (Logged ε) where
  pure a := ⟨[], a⟩
  bind x f := ⟨x.log ++ (f x.value).log, (f x.value).value⟩

/-- Reports entries and answers nothing else. -/
def tell (entries : List ε) : Logged ε Unit := ⟨entries, ()⟩

/-- Reports one entry. -/
def report (entry : ε) : Logged ε Unit := tell [entry]

/-! ## What the operations do to the two parts -/

@[simp] theorem log_pure (a : α) : (pure a : Logged ε α).log = [] := rfl

@[simp] theorem value_pure (a : α) : (pure a : Logged ε α).value = a := rfl

@[simp] theorem log_bind (x : Logged ε α) (f : α → Logged ε β) :
    (x >>= f).log = x.log ++ (f x.value).log := rfl

@[simp] theorem value_bind (x : Logged ε α) (f : α → Logged ε β) :
    (x >>= f).value = (f x.value).value := rfl

/-- What comes after an answer is reported after it. -/
theorem mk_bind (log : List ε) (a : α) (f : α → Logged ε β) :
    (⟨log, a⟩ : Logged ε α) >>= f = ⟨log ++ (f a).log, (f a).value⟩ := rfl

@[simp] theorem log_tell (entries : List ε) : (tell entries).log = entries := rfl

@[simp] theorem log_report (entry : ε) : (report entry).log = [entry] := rfl

@[ext] theorem ext_parts {x y : Logged ε α} (hlog : x.log = y.log)
    (hvalue : x.value = y.value) : x = y := by
  cases x; cases y; simp_all

instance : LawfulMonad (Logged ε) :=
  LawfulMonad.mk' (Logged ε)
    (fun x => ext_parts (List.append_nil x.log) rfl)
    (fun _ _ => ext_parts (List.nil_append _) rfl)
    (fun x f g => ext_parts
      (List.append_assoc x.log (f x.value).log (g (f x.value).value).log) rfl)

end Logged

end DynValue

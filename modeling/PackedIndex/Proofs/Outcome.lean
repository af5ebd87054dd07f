import Mathlib.Tactic
/-! # Outcomes of steps that can be refused

A chain of steps answers exactly when each of its steps does.
-/
namespace PackedIndex.Outcome

theorem ok_bind (a : α) (f : α → Except ε β) : ((Except.ok a : Except ε α) >>= f) = f a := rfl

theorem throw_bind (fault : ε) (f : α → Except ε β) :
    ((throw fault : Except ε α) >>= f) = throw fault := rfl

theorem mapError_ok (f : ε → δ) (a : α) : (Except.ok a : Except ε α).mapError f = .ok a := rfl

theorem bind_eq_ok {x : Except ε α} {f : α → Except ε β} {b : β} :
    (x >>= f) = .ok b ↔ ∃ a, x = .ok a ∧ f a = .ok b := by
  cases x <;> simp [bind, Except.bind]

theorem isOk_iff {x : Except ε α} : x.isOk = true ↔ ∃ a, x = .ok a := by
  cases x <;> simp [Except.isOk, Except.toBool]

theorem guard_eq_ok {c : Prop} [Decidable c] {fault : ε} {k : PUnit → Except ε β}
    {rest : Except ε β} {b : β} :
    (if c then (throw fault : Except ε PUnit) >>= k else rest) = .ok b ↔ ¬c ∧ rest = .ok b := by
  by_cases h : c
  · simp [h, bind, Except.bind, throw, throwThe, MonadExceptOf.throw]
  · simp [h]

@[simp] theorem pure_eq_ok {a b : α} : (pure a : Except ε α) = .ok b ↔ a = b := by
  simp [pure, Except.pure]

@[simp] theorem mapError_eq_ok {x : Except ε α} {f : ε → δ} {a : α} :
    x.mapError f = .ok a ↔ x = .ok a := by
  cases x <;> simp [Except.mapError]

end PackedIndex.Outcome

/-
  Polyglot.Proofs.Except — when a computation that can fail gives a result, and when it
  fails.
-/

namespace Polyglot

variable {ε ε' α β : Type}

theorem bind_eq_ok_iff {x : Except ε α} {f : α → Except ε β} {b : β} :
    x >>= f = .ok b ↔ ∃ a, x = .ok a ∧ f a = .ok b := by
  cases x with
  | error e => simp [bind, Except.bind]
  | ok a => simp [bind, Except.bind]

theorem bind_eq_error_iff {x : Except ε α} {f : α → Except ε β} {e : ε} :
    x >>= f = .error e ↔ x = .error e ∨ ∃ a, x = .ok a ∧ f a = .error e := by
  cases x with
  | error e' => simp [bind, Except.bind]
  | ok a => simp [bind, Except.bind]

theorem mapError_eq_ok_iff {x : Except ε α} {f : ε → ε'} {a : α} : x.mapError f = .ok a ↔ x = .ok a := by
  cases x with
  | error e =>
    show Except.error (f e) = .ok a ↔ Except.error e = .ok a
    simp
  | ok b =>
    show Except.ok b = .ok a ↔ Except.ok b = .ok a
    simp

/-! ## With a failure of another kind around it -/

theorem lift_bind (o : Option α) (f : α → ExceptT ε Option β) :
    ((liftM o : ExceptT ε Option α) >>= f) = o.bind f := by
  cases o with
  | none => rfl
  | some a => rfl

theorem liftExcept_eq_some (x : Except ε α) : (liftExcept x : ExceptT ε Option α) = some x := by
  cases x with
  | error e => rfl
  | ok a => rfl

end Polyglot

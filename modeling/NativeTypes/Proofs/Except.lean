/-! # Steps that may fail

When a step that is made of others succeeds: each of them does, and what they yield is passed on.
When it fails, it fails as the first of them that does (`failure?_bind`). -/

namespace NativeTypes

variable {ε δ α β : Type}

theorem pure_eq_ok_iff {a b : α} : (pure a : Except ε α) = .ok b ↔ a = b :=
  Except.ok.injEq a b ▸ Iff.rfl

theorem bind_eq_ok_iff {x : Except ε α} {k : α → Except ε β} {b : β} :
    (x >>= k) = .ok b ↔ ∃ a, x = .ok a ∧ k a = .ok b := by
  cases x with
  | error e =>
    constructor
    · intro h
      cases h
    · rintro ⟨a, h, -⟩
      cases h
  | ok a =>
    constructor
    · exact fun h => ⟨a, rfl, h⟩
    · rintro ⟨b, h, hb⟩
      cases h
      exact hb

theorem mapError_eq_ok_iff {x : Except ε α} {f : ε → δ} {a : α} :
    x.mapError f = .ok a ↔ x = .ok a := by
  cases x with
  | error e =>
    constructor
    · intro h
      cases h
    · intro h
      cases h
  | ok b =>
    constructor
    · intro h
      cases h
      rfl
    · intro h
      cases h
      rfl

/-! ### Failures -/

theorem mapError_eq_error_iff {x : Except ε α} {f : ε → δ} {d : δ} :
    x.mapError f = .error d ↔ ∃ e, x = .error e ∧ f e = d := by
  cases x with
  | error e =>
    constructor
    · intro h
      cases h
      exact ⟨e, rfl, rfl⟩
    · rintro ⟨e, he, rfl⟩
      cases he
      rfl
  | ok a =>
    constructor
    · intro h
      cases h
    · rintro ⟨e, he, -⟩
      cases he

/-- How a step fails, if it does. -/
def failure? : Except ε α → Option ε
  | .error e => some e
  | .ok _ => none

theorem failure?_eq_some_iff {x : Except ε α} {e : ε} : failure? x = some e ↔ x = .error e := by
  cases x <;> simp [failure?]

theorem failure?_mapError {x : Except ε α} {f : ε → δ} :
    failure? (x.mapError f) = (failure? x).map f := by
  cases x <;> rfl

/-- A second step whose failure does not depend on what the first yields. -/
theorem failure?_bind {x : Except ε α} {k : α → Except ε β} {o : Option ε}
    (h : ∀ a, failure? (k a) = o) : failure? (x >>= k) = (failure? x).or o := by
  cases x with
  | error e => rfl
  | ok a => exact h a

theorem failure?_bind_ok {x : Except ε α} {f : α → β} :
    failure? (x >>= fun a => .ok (f a)) = failure? x := by
  cases x <;> rfl

end NativeTypes

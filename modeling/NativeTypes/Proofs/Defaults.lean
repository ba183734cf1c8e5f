import NativeTypes.Proofs.FirstViolation

/-! # Defaults under wrappers

The rule of a default forbids an optional type and another default directly under it, and it looks
for the type that the text has to fit through wrappers of one argument. It does not look through
another default: what stands under one takes every text that is not blank. Where a wrapper parts two
defaults, as in a default of an immutable type that has a default itself, the outer text is
therefore free.

* `Ty.rule_withDefault_iff_of_hidesDefault`, `Ty.acceptsDefault_of_underWrappers`: what the rule
  demands of the text, with such a default in between and without.
* `Ty.default_fits_unless_hidden`: an accepted default fits the primitive type under all wrappers,
  if no other default stands in between. -/

namespace NativeTypes.Ty

/-- The type under all outer wrappers, those with a default included. -/
def underWrappers : Ty → Ty
  | operator _ t => t.underWrappers
  | withDefault t _ => t.underWrappers
  | t => t

/-- Whether the wrappers of one argument around a type end at a default. -/
def hidesDefault (t : Ty) : Bool :=
  match t.underOperators with
  | withDefault .. => true
  | _ => false

theorem accepts_underOperators (l : String) : ∀ t : Ty, t.underOperators.accepts l = t.accepts l
  | operator _ t => by rw [underOperators, accepts, accepts_underOperators l t]
  | primitive _ | predefined _ | reference _ | array .. | withDefault .. | function ..
  | objectLiteral .. | union _ | enumeration _ | event .. => rfl

/-- Under wrappers that end at a default, every text spells a value. -/
theorem accepts_of_hidesDefault {t : Ty} (h : t.hidesDefault = true) (l : String) :
    t.accepts l = true := by
  rw [← accepts_underOperators l t]
  unfold hidesDefault at h
  split at h
  · rename_i u v hu
    rw [hu, accepts]
  · cases h

/-- Wrappers that do not end at a default are all there is around the type under them. -/
theorem underOperators_eq_underWrappers : ∀ t : Ty, t.hidesDefault = false →
    t.underOperators = t.underWrappers
  | operator _ t, h => underOperators_eq_underWrappers t h
  | withDefault .., h => by cases h
  | primitive _, _ | predefined _, _ | reference _, _ | array .., _ | function .., _
  | objectLiteral .., _ | union _, _ | enumeration _, _ | event .., _ => rfl

/-- **Without a default in between, an accepted text fits the type under all wrappers.** -/
theorem acceptsDefault_of_underWrappers {e : Ty} {v : String} (h : (withDefault e v).Rule)
    (he : e.hidesDefault = false) : e.underWrappers.acceptsDefault v = true := by
  rw [← underOperators_eq_underWrappers e he, acceptsDefault, accepts_underOperators]
  exact h.2.2

/-- **With a default in between, the text must not be blank**, and that is all. -/
theorem rule_withDefault_iff_of_hidesDefault {e : Ty} {v : String} (h : (withDefault e v).Rule)
    (he : e.hidesDefault = true) (w : String) :
    (withDefault e w).Rule ↔ Text.isBlank w = false := by
  have hw : e.acceptsDefault w = !Text.isBlank w := by
    rw [acceptsDefault, accepts_of_hidesDefault he, Bool.and_true]
  rw [Rule, hw, Bool.not_eq_true']
  exact ⟨fun hr => hr.2.2, fun hb => ⟨h.1, h.2.1, hb⟩⟩

/-- **An accepted default fits the primitive type under all its wrappers**, if no other default
stands between them. If one does, the default could have been any text that is not blank. -/
theorem default_fits_unless_hidden {t e : Ty} {p : Path} {v : String} {q : Primitive}
    (ht : t.shapeError? = none) (hp : t.Reaches p (withDefault e v))
    (hq : e.underWrappers = primitive q) :
    (e.hidesDefault = false → (primitive q).acceptsDefault v = true) ∧
      (e.hidesDefault = true →
        ∀ w, (withDefault e w).shapeError? = none ↔ Text.isBlank w = false) := by
  obtain ⟨hr, hparts⟩ := shapeError?_eq_none.1 (hp.shapeError?_eq_none ht)
  refine ⟨fun he => hq ▸ acceptsDefault_of_underWrappers hr he, fun he w => ?_⟩
  rw [shapeError?_eq_none, rule_withDefault_iff_of_hidesDefault hr he]
  exact and_iff_left hparts

/-- An integer behind two wrappers, in a list. -/
theorem default_fits_in_list :
    let e := operator .promise (operator .readonly (primitive .int32))
    let t := array true (withDefault e "-42")
    t.shapeError? = none ∧ t.Reaches [.element] (withDefault e "-42") ∧
      e.underWrappers = primitive .int32 ∧ (primitive .int32).acceptsDefault "-42" = true := by
  intro e t
  have ht : t.shapeError? = none := by decide +kernel
  have hp : t.Reaches [.element] (withDefault e "-42") := .cons (.array ..) (.nil _)
  exact ⟨ht, hp, rfl, (default_fits_unless_hidden ht hp rfl).1 rfl⟩

/-- A wrapper parts two defaults of an integer, and the outer one is no integer. -/
theorem default_hidden_by_readonly :
    let e := operator .readonly (withDefault (primitive .int32) "1")
    let t := withDefault e "abc"
    t.shapeError? = none ∧ t.Reaches [] t ∧ e.underWrappers = primitive .int32 ∧
      (primitive .int32).acceptsDefault "abc" = false := by
  intro e t
  exact ⟨by decide +kernel, .nil t, rfl, by decide +kernel⟩

end NativeTypes.Ty

import NativeTypes.Shape

/-! # The local rules

`Ty.Rule` says what the local rule of a type demands, kind by kind. A type breaks its rule in the
sense of `Ty.violation?` exactly where the rule does not hold (`Ty.violation?_eq_none_iff`); for the
two searches for repeated items this says that they find nothing in a list without repetition. -/

namespace NativeTypes

section Search

variable {α : Type} [DecidableEq α]

theorem firstRepeated_eq_none_iff {seen l : List α} :
    firstRepeated seen l = none ↔ l.Nodup ∧ ∀ a ∈ l, a ∉ seen := by
  induction l generalizing seen with
  | nil => simp [firstRepeated]
  | cons a r ih =>
    by_cases h : a ∈ seen
    · simp [firstRepeated, h]
    · rw [firstRepeated, if_neg h, ih, List.nodup_cons, List.forall_mem_cons]
      simp only [List.mem_cons, not_or]
      constructor
      · rintro ⟨hr, hs⟩
        exact ⟨⟨fun ha => (hs a ha).1 rfl, hr⟩, h, fun b hb => (hs b hb).2⟩
      · rintro ⟨⟨ha, hr⟩, -, hs⟩
        exact ⟨hr, fun b hb => ⟨fun hba => ha (hba ▸ hb), hs b hb⟩⟩

theorem firstRecurring_eq_none_iff {i : Nat} {l : List α} :
    firstRecurring i l = none ↔ l.Nodup := by
  induction l generalizing i with
  | nil => simp [firstRecurring]
  | cons a r ih =>
    rw [firstRecurring, List.nodup_cons, ← ih (i := i + 1)]
    cases h : r.findIdx? (· = a) with
    | none =>
      have ha : a ∉ r := fun ha => by simpa using List.findIdx?_eq_none_iff.1 h a ha
      simp [ha]
    | some k =>
      have ha : a ∈ r := by
        obtain ⟨hk, he, -⟩ := List.findIdx?_eq_some_iff_getElem.1 h
        have he : r[k] = a := by simpa using he
        exact he ▸ List.getElem_mem hk
      simp [ha]

end Search

theorem Primitive.backsEnumeration_iff {p : Primitive} :
    p.backsEnumeration = true ↔ p = .string ∨ p = .int32 := by
  cases p <;> decide

theorem Member.allReadonly_iff {α : Type} {members : List (Member α)} :
    Member.allReadonly members = true ↔ ∀ m ∈ members, m.readonly = true := by
  simp [Member.allReadonly]

namespace Ty

/-- **The local rule** of a type, which speaks of the type and its direct parts. -/
def Rule : Ty → Prop
  | operator .optional t => ∀ u, t ≠ operator .optional u
  | withDefault t v =>
    (∀ u, t ≠ operator .optional u) ∧ (∀ u w, t ≠ withDefault u w) ∧ t.acceptsDefault v = true
  | union ts => 2 ≤ ts.length ∧ ts.Nodup
  | objectLiteral _ ms f => (ms.map (·.name)).Nodup ∧ (f = true ↔ ∀ m ∈ ms, m.readonly = true)
  | enumeration p => p = .string ∨ p = .int32
  | _ => True

theorem isOptional_eq_false_iff {t : Ty} :
    t.isOptional = false ↔ ∀ u, t ≠ operator .optional u := by
  cases t with
  | operator o u => cases o <;> simp [isOptional]
  | _ => simp [isOptional]

theorem defaultViolation?_eq_none_iff {t : Ty} {v : String} :
    defaultViolation? t v = none ↔ (withDefault t v).Rule := by
  cases t with
  | operator o u => cases o <;> simp [defaultViolation?, Rule]
  | _ => simp [defaultViolation?, Rule]

theorem unionViolation?_eq_none_iff {ts : List Ty} :
    unionViolation? ts = none ↔ (union ts).Rule := by
  rw [unionViolation?, Rule]
  by_cases h : ts.length < 2
  · simp [h, Nat.not_le_of_lt h]
  · simp [h, firstRecurring_eq_none_iff, Nat.le_of_not_lt h]

theorem objectViolation?_eq_none_iff {ts : List Ty} {ms : List (Member Ty)} {f : Bool} :
    objectViolation? ms f = none ↔ (objectLiteral ts ms f).Rule := by
  rw [objectViolation?, Rule, ← Member.allReadonly_iff]
  cases h : firstRepeated [] (ms.map (·.name)) with
  | some n =>
    have hn : ¬ (ms.map (·.name)).Nodup := fun hn => by
      rw [firstRepeated_eq_none_iff.2 ⟨hn, by simp⟩] at h
      cases h
    simp [hn]
  | none =>
    have hn := (firstRepeated_eq_none_iff.1 h).1
    cases f <;> cases Member.allReadonly ms <;> simp [hn]

/-- **A type has a violation exactly where its rule does not hold.** -/
theorem violation?_eq_none_iff {t : Ty} : t.violation? = none ↔ t.Rule := by
  cases t with
  | primitive | predefined | reference | array | function | event => simp [violation?, Rule]
  | operator o t =>
    cases o with
    | promise | readonly => simp [violation?, Rule]
    | optional => simp [violation?, Rule, ← isOptional_eq_false_iff]
  | withDefault t v => exact defaultViolation?_eq_none_iff
  | objectLiteral ts ms f => exact objectViolation?_eq_none_iff
  | union ts => exact unionViolation?_eq_none_iff
  | enumeration p =>
    rw [violation?, Rule, ← Primitive.backsEnumeration_iff]
    cases p.backsEnumeration <;> simp

end Ty

end NativeTypes

import NativeTypes.Proofs.FirstViolation

/-! # What an error says

An error of shape carries more than its place: positions, names, counts and flags. `Ty.Describes`
says for each kind of violation what they are of the type that commits it. The two searches for
repeated items report the first one that they can:

* `firstRecurring_spec`: the first item that comes again, and its next occurrence;
* `firstRepeated_spec`: the first item that came before.

`Ty.exists_describes`: **what an error says is true of the sub-tree at its path.** -/

namespace NativeTypes

/-! ### Repeated items -/

/-- The item at `i` is the first of a list that comes again, and it comes again at `j` first. -/
structure FirstRecurrence {α : Type} (l : List α) (i j : Nat) : Prop where
  lt : i < j
  lt_length : j < l.length
  eq : l[i]? = l[j]?
  /-- No item before comes again. -/
  first : ∀ k m, k < i → k < m → m < l.length → l[k]? ≠ l[m]?
  /-- The item does not come again in between. -/
  next : ∀ m, i < m → m < j → l[i]? ≠ l[m]?

section Search

variable {α : Type}

/-- The first item comes again. -/
theorem FirstRecurrence.head {a : α} {r : List α} {k : Nat} (h : r[k]? = some a)
    (hk : ∀ m < k, r[m]? ≠ some a) : FirstRecurrence (a :: r) 0 (k + 1) where
  lt := Nat.succ_pos k
  lt_length := Nat.succ_lt_succ (List.getElem?_eq_some_iff.1 h).1
  eq := h.symm
  first := by
    rintro j m ⟨⟩
  next m hm hlt := by
    obtain ⟨n, rfl⟩ := Nat.exists_eq_succ_of_ne_zero (Nat.ne_of_gt hm)
    exact (hk n (Nat.lt_of_succ_lt_succ hlt)).symm

/-- The first item does not come again. -/
theorem FirstRecurrence.cons {a : α} {r : List α} {i j : Nat} (ha : a ∉ r)
    (h : FirstRecurrence r i j) : FirstRecurrence (a :: r) (i + 1) (j + 1) where
  lt := Nat.succ_lt_succ h.lt
  lt_length := Nat.succ_lt_succ h.lt_length
  eq := h.eq
  first := by
    intro k m hk hm hlt
    obtain ⟨n, rfl⟩ := Nat.exists_eq_succ_of_ne_zero (Nat.ne_zero_of_lt hm)
    have hlt : n < r.length := Nat.lt_of_succ_lt_succ hlt
    cases k with
    | zero => exact fun he => ha (List.mem_of_getElem? he.symm)
    | succ k => exact h.first k n (by omega) (by omega) hlt
  next := by
    intro m hm hlt
    obtain ⟨n, rfl⟩ := Nat.exists_eq_succ_of_ne_zero (Nat.ne_zero_of_lt hm)
    exact h.next n (by omega) (by omega)

variable [DecidableEq α]

/-- **The search for an item that comes again** finds the first one and its next occurrence. -/
theorem firstRecurring_spec {n : Nat} {l : List α} {p : Nat × Nat}
    (h : firstRecurring n l = some p) : ∃ i j, p = (n + i, n + j) ∧ FirstRecurrence l i j := by
  induction l generalizing n with
  | nil => cases h
  | cons a r ih =>
    rw [firstRecurring] at h
    split at h
    · rename_i k hk
      cases h
      obtain ⟨hlt, he, hm⟩ := List.findIdx?_eq_some_iff_getElem.1 hk
      refine ⟨0, k + 1, by simp only [Prod.mk.injEq]; omega, .head ?_ fun m hmk => ?_⟩
      · rw [List.getElem?_eq_getElem hlt, of_decide_eq_true he]
      · rw [List.getElem?_eq_getElem (Nat.lt_trans hmk hlt)]
        simpa using hm m hmk
    · rename_i hk
      have ha : a ∉ r := fun ha => by simpa using List.findIdx?_eq_none_iff.1 hk a ha
      obtain ⟨i, j, rfl, hr⟩ := ih h
      exact ⟨i + 1, j + 1, by simp only [Prod.mk.injEq]; omega, .cons ha hr⟩

/-- **The search for an item that came before** finds the first one: it is among the items before it
or those seen already, and none of these repeats another. -/
theorem firstRepeated_spec {seen l : List α} {a : α} (h : firstRepeated seen l = some a) :
    ∃ before after, l = before ++ a :: after ∧ (a ∈ before ∨ a ∈ seen) ∧ before.Nodup ∧
      ∀ b ∈ before, b ∉ seen := by
  induction l generalizing seen with
  | nil => cases h
  | cons b r ih =>
    rw [firstRepeated] at h
    split at h
    · rename_i hb
      cases h
      exact ⟨[], r, rfl, .inr hb, List.nodup_nil, by simp⟩
    · rename_i hb
      obtain ⟨before, after, rfl, ha, hn, hs⟩ := ih h
      refine ⟨b :: before, after, rfl, ?_, List.nodup_cons.2 ⟨fun hm => ?_, hn⟩, ?_⟩
      · rcases ha with ha | ha
        · exact .inl (List.mem_cons_of_mem _ ha)
        · rcases List.mem_cons.1 ha with rfl | ha
          · exact .inl List.mem_cons_self
          · exact .inr ha
      · exact hs b hm List.mem_cons_self
      · refine List.forall_mem_cons.2 ⟨hb, fun c hc hcs => ?_⟩
        exact hs c hc (List.mem_cons_of_mem _ hcs)

end Search

namespace Ty

/-! ### Violations -/

/-- **What a violation says of the type that commits it.** -/
inductive Describes : Ty → Violation → Prop
  | doubleOptional (t : Ty) :
      Describes (operator .optional (operator .optional t)) .doubleOptional
  /-- A default of an optional type, or of one with a default, names the kind of that type. -/
  | nestedDefault {e : Ty} (v : String)
      (he : (∃ u, e = operator .optional u) ∨ ∃ u w, e = withDefault u w) :
      Describes (withDefault e v) (.nestedDefault e.kind)
  /-- A text that is no default of any other type is the text of the default. -/
  | invalidDefault {e : Ty} {v : String} (ho : ∀ u, e ≠ operator .optional u)
      (hd : ∀ u w, e ≠ withDefault u w) (h : e.acceptsDefault v = false) :
      Describes (withDefault e v) (.invalidDefault v e.expectedDefault)
  /-- The count is the number of alternatives. -/
  | tooFewAlternatives {ts : List Ty} (h : ts.length < 2) :
      Describes (union ts) (.tooFewAlternatives ts.length)
  /-- The positions are those of the first alternative that comes again and of its next
  occurrence. -/
  | duplicateAlternative {ts : List Ty} {i j : Nat} (h : FirstRecurrence ts i j) :
      Describes (union ts) (.duplicateAlternative i j)
  /-- The name is that of the first member whose name an earlier one has. -/
  | duplicateMember (ts : List Ty) {before : List (Member Ty)} {m : Member Ty}
      (after : List (Member Ty)) (f : Bool) (hm : m.name ∈ before.map (·.name))
      (hn : (before.map (·.name)).Nodup) :
      Describes (objectLiteral ts (before ++ m :: after) f) (.duplicateMember m.name)
  /-- The flags are the declared one and what the members say. -/
  | inconsistentReadonly (ts : List Ty) {ms : List (Member Ty)} {declared actual : Bool}
      (hn : (ms.map (·.name)).Nodup) (ha : actual = true ↔ ∀ m ∈ ms, m.readonly = true)
      (h : declared ≠ actual) :
      Describes (objectLiteral ts ms declared) (.inconsistentReadonly declared actual)
  /-- The name is that of the backing. -/
  | invalidEnumeration {p : Primitive} (hs : p ≠ .string) (hi : p ≠ .int32) :
      Describes (enumeration p) (.invalidEnumeration p.name)

theorem describes_of_defaultViolation? {e : Ty} {v : String} {x : Violation}
    (h : defaultViolation? e v = some x) : (withDefault e v).Describes x := by
  unfold defaultViolation? at h
  split at h
  · rename_i u
    cases h
    exact .nestedDefault v (.inl ⟨u, rfl⟩)
  · rename_i u w
    cases h
    exact .nestedDefault v (.inr ⟨u, w, rfl⟩)
  · rename_i ho hd
    split at h
    · cases h
    · rename_i ha
      cases h
      exact .invalidDefault ho hd (Bool.eq_false_iff.2 ha)

theorem describes_of_unionViolation? {ts : List Ty} {x : Violation}
    (h : unionViolation? ts = some x) : (union ts).Describes x := by
  unfold unionViolation? at h
  split at h
  · rename_i hlt
    cases h
    exact .tooFewAlternatives hlt
  · obtain ⟨p, hp, rfl⟩ := Option.map_eq_some_iff.1 h
    obtain ⟨i, j, rfl, hr⟩ := firstRecurring_spec hp
    simp only [Nat.zero_add]
    exact .duplicateAlternative hr

theorem describes_of_objectViolation? (ts : List Ty) {ms : List (Member Ty)} {f : Bool}
    {x : Violation} (h : objectViolation? ms f = some x) : (objectLiteral ts ms f).Describes x := by
  unfold objectViolation? at h
  split at h
  · rename_i n hn
    cases h
    obtain ⟨before, after, hms, hb, hd, -⟩ := firstRepeated_spec hn
    obtain ⟨bs, cs, rfl, rfl, hcs⟩ := List.map_eq_append_iff.1 hms
    obtain ⟨m, as, rfl, rfl, rfl⟩ := List.map_eq_cons_iff.1 hcs
    exact .duplicateMember ts as f (hb.resolve_right List.not_mem_nil) hd
  · rename_i hn
    split at h
    · cases h
    · rename_i hne
      cases h
      exact .inconsistentReadonly ts (firstRepeated_eq_none_iff.1 hn).1 Member.allReadonly_iff
        (Ne.symm hne)

/-- **What a violation says is true of the type that commits it.** -/
theorem describes_of_violation? {t : Ty} {x : Violation} (h : t.violation? = some x) :
    t.Describes x := by
  cases t with
  | primitive | predefined | reference | array | function | event => cases h
  | operator o u =>
    rw [violation?] at h
    split at h
    · rename_i ho
      cases h
      obtain ⟨rfl, hu⟩ := ho
      cases u with
      | operator o u =>
        cases o with
        | optional => exact .doubleOptional u
        | promise | readonly => cases hu
      | _ => cases hu
    · cases h
  | withDefault u v => exact describes_of_defaultViolation? h
  | objectLiteral ts ms f => exact describes_of_objectViolation? ts h
  | union ts => exact describes_of_unionViolation? h
  | enumeration p =>
    rw [violation?] at h
    split at h
    · cases h
    · rename_i hp
      cases h
      rw [Primitive.backsEnumeration_iff, not_or] at hp
      exact .invalidEnumeration hp.1 hp.2

/-! ### Errors -/

/-- **What an error says is true of the one sub-tree at its path.** -/
theorem exists_describes {t : Ty} {e : ShapeError} (h : t.shapeError? = some e) :
    ∃ s, t.subtrees e.path = [s] ∧ s.Describes e.violation := by
  obtain ⟨s, hs, hv⟩ := exists_violation_of_shapeError? h
  exact ⟨s, hs.subtrees_eq, describes_of_violation? hv⟩

/-- Two alternatives come again, and a third one comes twice more: the first of them is reported,
with its next occurrence, although the second comes again sooner. -/
theorem exists_describes_overlapping :
    let u := union [primitive .void, array true (primitive .int32), primitive .string,
      primitive .string, array true (primitive .int32), array true (primitive .int32)]
    let t := event .direct (objectOf [reference "Base"] [⟨"a", u, false, true⟩])
    let e : ShapeError := ⟨[.element, .member "a"], .duplicateAlternative 1 4⟩
    t.shapeError? = some e ∧ ∃ s, t.subtrees e.path = [s] ∧ s.Describes e.violation := by
  intro u t e
  have h : t.shapeError? = some e := by decide +kernel
  exact ⟨h, exists_describes h⟩

end Ty

end NativeTypes

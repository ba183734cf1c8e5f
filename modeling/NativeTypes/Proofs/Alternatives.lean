import NativeTypes.Proofs.Defaults
import NativeTypes.Proofs.Frames

/-! # The leaf alternatives of a type

What a type takes as a default is decided at its leaf alternatives, `Ty.leaves`: what is left when
the wrappers of one argument are taken off, and every union that comes to light is replaced by the
leaf alternatives of its elements. The rule goes down one level at a time (`Ty.acceptsDefault_eq`);
the leaf alternatives are all that counts of what it meets on the way.

* `Ty.acceptsDefault_iff_exists_leaf`: a text is taken if it is not blank and one of the leaf
  alternatives takes it.
* `Ty.Around`: the surroundings of a position to which wrappers and unions lead.
* `Ty.Around.acceptsDefault_fill_mono`: more leaf alternatives at such a position take more.
* `Ty.acceptsDefault_leaves`: **only the leaf alternatives count**, and what follows for types that
  are wrapped, regrouped or extended. -/

namespace NativeTypes.Ty

/-! ### Leaf alternatives -/

mutual

/-- **The leaf alternatives of a type.** -/
def leaves : Ty → List Ty
  | operator _ t => leaves t
  | union ts => leavesOfAll ts
  | t => [t]

/-- The leaf alternatives of the elements of a union. -/
def leavesOfAll : List Ty → List Ty
  | [] => []
  | t :: ts => leaves t ++ leavesOfAll ts

end

theorem leavesOfAll_eq_flatMap (ts : List Ty) : leavesOfAll ts = ts.flatMap leaves := by
  induction ts with
  | nil => rfl
  | cons t ts ih => rw [leavesOfAll, ih, List.flatMap_cons]

@[simp]
theorem leaves_operator (o : Operator) (t : Ty) : (operator o t).leaves = t.leaves := by
  rw [leaves]

@[simp]
theorem leaves_union (ts : List Ty) : (union ts).leaves = ts.flatMap leaves := by
  rw [leaves, leavesOfAll_eq_flatMap]

mutual

/-- A leaf alternative has nothing more to take off: it is the only one of its own. -/
theorem leaves_of_mem_leaves {u : Ty} : ∀ t : Ty, u ∈ t.leaves → u.leaves = [u]
  | operator _ t, h => leaves_of_mem_leaves t (by rwa [leaves_operator] at h)
  | union ts, h => leaves_of_mem_leavesOfAll ts (by rwa [leaves] at h)
  | primitive _, h | predefined _, h | reference _, h | array .., h | withDefault .., h
  | function .., h | objectLiteral .., h | enumeration _, h | event .., h => by
    obtain rfl := List.mem_singleton.1 h
    rfl

theorem leaves_of_mem_leavesOfAll {u : Ty} : ∀ ts : List Ty, u ∈ leavesOfAll ts → u.leaves = [u]
  | [], h => absurd h List.not_mem_nil
  | t :: ts, h => (List.mem_append.1 h).elim (leaves_of_mem_leaves t) (leaves_of_mem_leavesOfAll ts)

end

/-- Whether a text spells a value of a leaf alternative: a primitive, and the backing of an
enumeration if it may be one, have spellings of their own. -/
def LeafTakes (l : String) : Ty → Prop
  | primitive p => p.accepts l = true
  | enumeration p => p = .string ∨ p = .int32 → p.accepts l = true
  | _ => True

mutual

theorem accepts_iff_exists_leaf (l : String) : ∀ t : Ty,
    t.accepts l = true ↔ ∃ u ∈ t.leaves, LeafTakes l u
  | operator _ t => by rw [accepts, leaves_operator, accepts_iff_exists_leaf l t]
  | union ts => by
    rw [accepts, acceptsAny_iff_exists_leaf l ts, leaves, leavesOfAll_eq_flatMap]
  | primitive p => by simp [accepts, leaves, LeafTakes]
  | enumeration p => by
    cases p <;> simp [accepts, leaves, LeafTakes, Primitive.backsEnumeration]
  | predefined _ | reference _ | array .. | withDefault .. | function .. | objectLiteral .. |
    event .. => by simp [accepts, leaves, LeafTakes]

theorem acceptsAny_iff_exists_leaf (l : String) : ∀ ts : List Ty,
    acceptsAny l ts = true ↔ ∃ u ∈ ts.flatMap leaves, LeafTakes l u
  | [] => by simp [acceptsAny]
  | t :: ts => by
    rw [acceptsAny, Bool.or_eq_true, accepts_iff_exists_leaf l t, acceptsAny_iff_exists_leaf l ts,
      List.flatMap_cons]
    simp only [List.mem_append, or_and_right, exists_or]

end

/-- **A text is taken if it is not blank and one of the leaf alternatives takes it.** -/
theorem acceptsDefault_iff_exists_leaf (t : Ty) (l : String) :
    t.acceptsDefault l = true ↔ Text.isBlank l = false ∧ ∃ u ∈ t.leaves, LeafTakes l u := by
  rw [acceptsDefault, Bool.and_eq_true, Bool.not_eq_true', accepts_iff_exists_leaf]

/-! ### One level at a time -/

theorem underOperators_ne_operator (o : Operator) (u : Ty) : ∀ t : Ty,
    t.underOperators ≠ operator o u
  | operator _ t => underOperators_ne_operator o u t
  | primitive _ | predefined _ | reference _ | array .. | withDefault .. | function ..
  | objectLiteral .. | union _ | enumeration _ | event .. => nofun

/-- The rule of a default, one level at a time: a text that is blank is taken nowhere, and any other
is asked of what stands under the wrappers, which may be a union of types to ask. -/
theorem acceptsDefault_eq (t : Ty) (l : String) :
    t.acceptsDefault l = if Text.isBlank l then false else
      match t.underOperators with
      | primitive p => p.accepts l
      | enumeration p => if p.backsEnumeration then p.accepts l else true
      | union ts => ts.any fun u => u.acceptsDefault l
      | _ => true := by
  rw [acceptsDefault, ← accepts_underOperators]
  cases hb : Text.isBlank l with
  | true => rfl
  | false =>
    cases hu : t.underOperators with
    | operator o u => exact absurd hu (underOperators_ne_operator o u t)
    | union ts => simp [accepts, acceptsAny_eq_any, acceptsDefault, hb]
    | enumeration p => cases p <;> simp [accepts, Primitive.backsEnumeration]
    | _ => simp [accepts]

/-! ### Positions among the leaf alternatives -/

/-- The surroundings of a position to which wrappers of one argument and unions lead. -/
inductive Around where
  | here
  | operator (o : Operator) (k : Around)
  | alternative (left right : List Ty) (k : Around)

namespace Around

/-- The type with another one at the position. -/
def fill : Around → Ty → Ty
  | here, t => t
  | operator o k, t => (Frame.operator o).fill (k.fill t)
  | alternative left right k, t => (Frame.alternative left right).fill (k.fill t)

variable {t u : Ty}

/-- More leaf alternatives at a position are more of the whole. -/
theorem leaves_fill_subset (h : t.leaves ⊆ u.leaves) (k : Around) :
    (k.fill t).leaves ⊆ (k.fill u).leaves := by
  induction k with
  | here => exact h
  | operator o k ih => simpa only [fill, Frame.fill, leaves_operator] using ih
  | alternative left right k ih =>
    simp only [fill, Frame.fill, leaves_union, List.flatMap_append, List.flatMap_cons]
    intro v hv
    rw [List.mem_append, List.mem_append] at hv ⊢
    exact hv.imp id (Or.imp (fun hv => ih hv) id)

/-- **More leaf alternatives at a position take more.** -/
theorem acceptsDefault_fill_mono (h : t.leaves ⊆ u.leaves) (k : Around) {l : String}
    (hl : (k.fill t).acceptsDefault l = true) : (k.fill u).acceptsDefault l = true := by
  rw [acceptsDefault_iff_exists_leaf] at hl ⊢
  obtain ⟨hb, v, hv, htakes⟩ := hl
  exact ⟨hb, v, leaves_fill_subset h k hv, htakes⟩

/-- The same leaf alternatives at a position take the same. -/
theorem acceptsDefault_fill_congr (h : t.leaves ⊆ u.leaves) (h' : u.leaves ⊆ t.leaves)
    (k : Around) (l : String) : (k.fill t).acceptsDefault l = (k.fill u).acceptsDefault l :=
  Bool.eq_iff_iff.2 ⟨acceptsDefault_fill_mono h k, acceptsDefault_fill_mono h' k⟩

end Around

theorem leaves_union_subset {ts us : List Ty} (h : ts ⊆ us) :
    (union ts).leaves ⊆ (union us).leaves := by
  intro v hv
  rw [leaves_union, List.mem_flatMap] at hv ⊢
  obtain ⟨t, ht, hv⟩ := hv
  exact ⟨t, h ht, hv⟩

/-- **Only the leaf alternatives count.** A text is asked of what stands under the wrappers, one
level after the other, and that comes to this: it is taken if it is not blank and a leaf alternative
takes it. At a position to which wrappers and unions lead it therefore makes no difference whether a
type is wrapped, whether a union stands in a union or its elements do, and in which order and how
often the elements of a union stand there; and one more element refuses nothing. -/
theorem acceptsDefault_leaves (l : String) :
    (∀ t : Ty,
      (t.acceptsDefault l = if Text.isBlank l then false else
        match t.underOperators with
        | primitive p => p.accepts l
        | enumeration p => if p.backsEnumeration then p.accepts l else true
        | union ts => ts.any fun u => u.acceptsDefault l
        | _ => true) ∧
      (∀ u ∈ t.leaves, u.leaves = [u]) ∧
      (t.acceptsDefault l = true ↔ Text.isBlank l = false ∧ ∃ u ∈ t.leaves, LeafTakes l u)) ∧
    ∀ k : Around,
      (∀ (o : Operator) (t : Ty),
        (k.fill (operator o t)).acceptsDefault l = (k.fill t).acceptsDefault l) ∧
      (∀ left ts right : List Ty,
        (k.fill (union (left ++ union ts :: right))).acceptsDefault l =
          (k.fill (union (left ++ ts ++ right))).acceptsDefault l) ∧
      (∀ ts us : List Ty, (∀ t, t ∈ ts ↔ t ∈ us) →
        (k.fill (union ts)).acceptsDefault l = (k.fill (union us)).acceptsDefault l) ∧
      ∀ (left right : List Ty) (t : Ty), (k.fill (union (left ++ right))).acceptsDefault l = true →
        (k.fill (union (left ++ t :: right))).acceptsDefault l = true := by
  refine ⟨fun t => ⟨acceptsDefault_eq t l, fun u => leaves_of_mem_leaves t,
      acceptsDefault_iff_exists_leaf t l⟩,
    fun k => ⟨fun o t => ?_, fun left ts right => ?_, fun ts us h => ?_, fun left right t => ?_⟩⟩
  · exact k.acceptsDefault_fill_congr (by simp) (by simp) l
  · exact k.acceptsDefault_fill_congr (by simp) (by simp) l
  · exact k.acceptsDefault_fill_congr (leaves_union_subset fun t => (h t).1)
      (leaves_union_subset fun t => (h t).2) l
  · refine k.acceptsDefault_fill_mono (leaves_union_subset ?_)
    exact ((List.sublist_cons_self t right).append_left left).subset

/-- An integer among the alternatives of a wrapped union, which stands last in another one. -/
theorem acceptsDefault_leaves_of_integer :
    let k := Around.alternative [enumeration .string] [] (.operator .readonly .here)
    let ts := [primitive .boolean, primitive .int32]
    let us := [primitive .int32, primitive .boolean, primitive .int32]
    let t := k.fill (union ts)
    Text.isBlank "-7" = false ∧ LeafTakes "-7" (primitive .int32) ∧
      t.leaves = [enumeration .string, primitive .boolean, primitive .int32] ∧
      t.acceptsDefault "-7" = true ∧ (∀ t, t ∈ ts ↔ t ∈ us) ∧
      (k.fill (union us)).acceptsDefault "-7" = true ∧
      (k.fill (union (union [] :: us))).acceptsDefault "-7" = true := by
  intro k ts us t
  obtain ⟨leaf, around⟩ := acceptsDefault_leaves "-7"
  obtain ⟨-, -, regroups, widens⟩ := around k
  have hb : Text.isBlank "-7" = false := by decide
  have hl : LeafTakes "-7" (primitive .int32) := by
    rw [LeafTakes]
    decide +kernel
  have ht : t.leaves = [enumeration .string, primitive .boolean, primitive .int32] := by
    decide +kernel
  have htaken : t.acceptsDefault "-7" = true :=
    (leaf t).2.2.2 ⟨hb, primitive .int32, by simp [ht], hl⟩
  have hsame : ∀ t, t ∈ ts ↔ t ∈ us := by
    intro t
    simp only [ts, us, List.mem_cons, List.not_mem_nil, or_false]
    exact ⟨.inr, fun h => h.elim .inr id⟩
  have hus : (k.fill (union us)).acceptsDefault "-7" = true := regroups ts us hsame ▸ htaken
  exact ⟨hb, hl, ht, htaken, hsame, hus, widens [] us (union []) hus⟩

end NativeTypes.Ty

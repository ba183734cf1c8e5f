import NativeTypes.Tree

/-! # Positions in a type

A segment *leads* from a composite to one of its parts (`Ty.Leads`, kind by kind), and a path
*reaches* the sub-tree at the end of its segments (`Ty.Reaches`). `Ty.visits` lists every sub-tree
with its path, in visiting order: a composite before its parts, the result of a function before its
arguments, the mixins of an object literal before its members.

* `Ty.leads_iff_mem_children`, `Ty.visits_eq`: the positions and their order are those of
  `Ty.children`.
* `Ty.mem_visits`: what is visited is what is reached.
* `Ty.mem_subtrees`: `Ty.subtrees` holds what a path reaches.
* `Ty.everywhere_iff`: a property of all sub-trees is one of the type and of its parts. -/

namespace NativeTypes.Ty

/-! ### Segments and paths -/

/-- A segment leads from a composite to one of its parts. -/
inductive Leads : Ty → Segment → Ty → Prop
  | array (r : Bool) (t : Ty) : Leads (array r t) .element t
  | operator (o : Operator) (t : Ty) : Leads (operator o t) .element t
  | withDefault (t : Ty) (v : String) : Leads (withDefault t v) .element t
  | event (e : EventPhase) (t : Ty) : Leads (event e t) .element t
  | result (t : Ty) (ts : List Ty) : Leads (function t ts) .result t
  | argument {t s : Ty} {ts : List Ty} {i : Nat} (h : ts[i]? = some s) :
      Leads (function t ts) (.argument i) s
  | mixin {s : Ty} {ts : List Ty} {ms : List (Member Ty)} {f : Bool} {i : Nat}
      (h : ts[i]? = some s) : Leads (objectLiteral ts ms f) (.mixin i) s
  | member {m : Member Ty} {ts : List Ty} {ms : List (Member Ty)} {f : Bool} (h : m ∈ ms) :
      Leads (objectLiteral ts ms f) (.member m.name) m.type
  | alternative {s : Ty} {ts : List Ty} {i : Nat} (h : ts[i]? = some s) :
      Leads (union ts) (.alternative i) s

/-- A path reaches the sub-tree at the end of its segments. -/
inductive Reaches : Ty → Path → Ty → Prop
  | nil (t : Ty) : Reaches t [] t
  | cons {t u s : Ty} {g : Segment} {p : Path} (h : t.Leads g u) (hp : Reaches u p s) :
      Reaches t (g :: p) s

theorem mem_numbered {segment : Nat → Segment} {ts : List Ty} {g : Segment} {s : Ty} :
    (g, s) ∈ numbered segment ts ↔ ∃ i, ts[i]? = some s ∧ segment i = g := by
  simp only [numbered, List.mem_map, Prod.exists, List.mem_zipIdx_iff_getElem?, Prod.mk.injEq]
  constructor
  · rintro ⟨u, i, hi, hg, rfl⟩
    exact ⟨i, hi, hg⟩
  · rintro ⟨i, hi, hg⟩
    exact ⟨s, i, hi, hg, rfl⟩

/-- A property of all numbered items is one of the items. -/
theorem forall_mem_numbered {segment : Nat → Segment} {ts : List Ty} {P : Ty → Prop} :
    (∀ c ∈ numbered segment ts, P c.2) ↔ ∀ t ∈ ts, P t := by
  constructor
  · intro h t ht
    obtain ⟨i, hi⟩ := List.mem_iff_getElem?.1 ht
    exact h (segment i, t) (mem_numbered.2 ⟨i, hi, rfl⟩)
  · intro h c hc
    exact h c.2 (mem_of_mem_numbered hc)

/-- **Segments lead to the direct parts.** -/
theorem leads_iff_mem_children {t s : Ty} {g : Segment} : t.Leads g s ↔ (g, s) ∈ t.children := by
  constructor
  · intro h
    cases h with
    | array | operator | withDefault | event | result => simp [children]
    | argument h => exact List.mem_cons_of_mem _ (mem_numbered.2 ⟨_, h, rfl⟩)
    | mixin h => exact List.mem_append_left _ (mem_numbered.2 ⟨_, h, rfl⟩)
    | member h => exact List.mem_append_right _ (List.mem_map.2 ⟨_, h, rfl⟩)
    | alternative h => exact mem_numbered.2 ⟨_, h, rfl⟩
  · intro h
    cases t with
    | primitive | predefined | reference | enumeration => simp [children] at h
    | array | operator | withDefault | event =>
      simp only [children, List.mem_singleton, Prod.mk.injEq] at h
      obtain ⟨rfl, rfl⟩ := h
      constructor
    | function t ts =>
      rcases List.mem_cons.1 h with h | h
      · obtain ⟨rfl, rfl⟩ := Prod.mk.injEq .. ▸ h
        exact .result s ts
      · obtain ⟨i, hi, rfl⟩ := mem_numbered.1 h
        exact .argument hi
    | objectLiteral ts ms f =>
      rcases List.mem_append.1 h with h | h
      · obtain ⟨i, hi, rfl⟩ := mem_numbered.1 h
        exact .mixin hi
      · obtain ⟨m, hm, he⟩ := List.mem_map.1 h
        obtain ⟨rfl, rfl⟩ := Prod.mk.injEq .. ▸ he
        exact .member hm
    | union ts =>
      obtain ⟨i, hi, rfl⟩ := mem_numbered.1 h
      exact .alternative hi

theorem reaches_cons {t s : Ty} {g : Segment} {p : Path} :
    t.Reaches (g :: p) s ↔ ∃ u, (g, u) ∈ t.children ∧ u.Reaches p s := by
  constructor
  · rintro (_ | ⟨h, hp⟩)
    exact ⟨_, leads_iff_mem_children.1 h, hp⟩
  · rintro ⟨u, h, hp⟩
    exact .cons (leads_iff_mem_children.2 h) hp

/-- The sub-trees that a path leads to are those that it reaches. -/
theorem mem_subtrees {p : Path} {t s : Ty} : s ∈ t.subtrees p ↔ t.Reaches p s := by
  induction p generalizing t with
  | nil =>
    simp only [subtrees, List.mem_singleton]
    constructor
    · rintro rfl
      exact .nil s
    · rintro ⟨⟩
      rfl
  | cons g p ih =>
    simp only [subtrees, List.mem_flatMap, List.mem_filter, beq_iff_eq, ih, reaches_cons,
      Prod.exists]
    constructor
    · rintro ⟨_, u, ⟨h, rfl⟩, hp⟩
      exact ⟨u, h, hp⟩
    · rintro ⟨u, h, hp⟩
      exact ⟨g, u, ⟨h, rfl⟩, hp⟩

/-! ### Visiting order -/

/-- Visits, seen from one segment further up. -/
def through (g : Segment) (l : List (Path × Ty)) : List (Path × Ty) :=
  l.map fun c => (g :: c.1, c.2)

mutual

/-- **Every sub-tree and its path**, in visiting order. -/
def visits : Ty → List (Path × Ty)
  | primitive p => [([], primitive p)]
  | predefined p => [([], predefined p)]
  | reference n => [([], reference n)]
  | enumeration p => [([], enumeration p)]
  | array r t => ([], array r t) :: through .element (visits t)
  | operator o t => ([], operator o t) :: through .element (visits t)
  | withDefault t v => ([], withDefault t v) :: through .element (visits t)
  | event e t => ([], event e t) :: through .element (visits t)
  | function t ts =>
    ([], function t ts) :: (through .result (visits t) ++ visitsFrom .argument 0 ts)
  | objectLiteral ts ms f =>
    ([], objectLiteral ts ms f) :: (visitsFrom .mixin 0 ts ++ visitsOfMembers ms)
  | union ts => ([], union ts) :: visitsFrom .alternative 0 ts

/-- The visits of the items of a list, numbered on from `i`. -/
def visitsFrom (segment : Nat → Segment) (i : Nat) : List Ty → List (Path × Ty)
  | [] => []
  | t :: ts => through (segment i) (visits t) ++ visitsFrom segment (i + 1) ts

/-- The visits of the types of members. -/
def visitsOfMembers : List (Member Ty) → List (Path × Ty)
  | [] => []
  | ⟨n, t, _, _⟩ :: ms => through (.member n) (visits t) ++ visitsOfMembers ms

end

theorem visitsFrom_eq (segment : Nat → Segment) (i : Nat) (ts : List Ty) :
    visitsFrom segment i ts =
      ((ts.zipIdx i).map fun (t, j) => (segment j, t)).flatMap fun c => through c.1 c.2.visits := by
  induction ts generalizing i with
  | nil => rfl
  | cons t ts ih => simp [visitsFrom, ih]

theorem visitsOfMembers_eq (ms : List (Member Ty)) :
    visitsOfMembers ms =
      (ms.map fun m => (Segment.member m.name, m.type)).flatMap fun c =>
        through c.1 c.2.visits := by
  induction ms with
  | nil => rfl
  | cons m ms ih => simp [visitsOfMembers, ih]

/-- A type is visited before its parts, and these one after the other. -/
theorem visits_eq (t : Ty) :
    t.visits = ([], t) :: t.children.flatMap fun c => through c.1 c.2.visits := by
  cases t with
  | primitive | predefined | reference | enumeration => rfl
  | array | operator | withDefault | event => simp [visits, children]
  | function t ts => simp [visits, children, numbered, visitsFrom_eq]
  | objectLiteral ts ms f => simp [visits, children, numbered, visitsFrom_eq, visitsOfMembers_eq]
  | union ts => simp [visits, children, numbered, visitsFrom_eq]

theorem mem_through {g : Segment} {l : List (Path × Ty)} {p : Path} {s : Ty} :
    (p, s) ∈ through g l ↔ ∃ q, p = g :: q ∧ (q, s) ∈ l := by
  simp only [through, List.mem_map, Prod.exists, Prod.mk.injEq]
  constructor
  · rintro ⟨q, u, h, rfl, rfl⟩
    exact ⟨q, rfl, h⟩
  · rintro ⟨q, rfl, h⟩
    exact ⟨q, s, h, rfl, rfl⟩

/-- **What is visited is what is reached.** -/
theorem mem_visits {t s : Ty} {p : Path} : (p, s) ∈ t.visits ↔ t.Reaches p s := by
  induction t using induction_children generalizing p with
  | step t ih =>
    rw [visits_eq, List.mem_cons, List.mem_flatMap]
    constructor
    · rintro (h | ⟨c, hc, h⟩)
      · obtain ⟨rfl, rfl⟩ := Prod.mk.injEq .. ▸ h
        exact .nil s
      · obtain ⟨q, rfl, hq⟩ := mem_through.1 h
        exact reaches_cons.2 ⟨c.2, hc, (ih c hc).1 hq⟩
    · intro h
      cases p with
      | nil =>
        cases h
        exact .inl rfl
      | cons g p =>
        obtain ⟨u, hu, hp⟩ := reaches_cons.1 h
        exact .inr ⟨(g, u), hu, mem_through.2 ⟨p, rfl, (ih _ hu).2 hp⟩⟩

/-! ### Properties of all sub-trees -/

/-- **All sub-trees of a type**, itself among them, have a property. -/
def Everywhere (P : Ty → Bool) (t : Ty) : Prop :=
  ∀ p s, t.Reaches p s → P s = true

variable {P Q : Ty → Bool} {t : Ty}

/-- A type has a property everywhere if it has it and its parts have it everywhere. -/
theorem everywhere_iff : t.Everywhere P ↔ P t = true ∧ ∀ c ∈ t.children, c.2.Everywhere P := by
  constructor
  · intro h
    exact ⟨h [] t (.nil t), fun c hc p s hp =>
      h (c.1 :: p) s (.cons (leads_iff_mem_children.2 hc) hp)⟩
  · rintro ⟨ht, hc⟩ p s hp
    cases hp with
    | nil => exact ht
    | cons hl hp => exact hc _ (leads_iff_mem_children.1 hl) _ _ hp

theorem Everywhere.mono (h : t.Everywhere P) (hPQ : ∀ s, P s = true → Q s = true) :
    t.Everywhere Q :=
  fun p s hp => hPQ s (h p s hp)

/-- What a path reaches has the property everywhere, too. -/
theorem Reaches.everywhere {s : Ty} {p : Path} (hp : t.Reaches p s) (h : t.Everywhere P) :
    s.Everywhere P := by
  induction hp with
  | nil => exact h
  | cons hl _ ih => exact ih ((everywhere_iff.1 h).2 _ (leads_iff_mem_children.1 hl))

instance : DecidablePred (Everywhere P) := fun t =>
  decidable_of_iff (∀ c ∈ t.visits, P c.2 = true)
    ⟨fun h p s hp => h (p, s) (mem_visits.2 hp), fun h c hc => h c.1 c.2 (mem_visits.1 hc)⟩

end NativeTypes.Ty

import NativeTypes.Shape

/-! # Containers of named types

A container holds the types that one module defines, each under its name, in the order of first
definition. Defining a name again replaces its type and keeps its place, so no name occurs twice.

* `Container.names_insert`: a new name goes to the end, and a known one changes no name.
* `Container.get?_insert`: an insertion is seen at its own name and at no other.
* `Container.getThenInsert?_eq`: what an insertion tells is the type that the name had.
* `ShapeErrors.forName?_eq_lookup`: an error is looked up by name in the list of errors.
* `Container.check_eq`: checking one definition after the other finds all that are ill-shaped. -/

namespace NativeTypes

/-- Gives a name a type: in place where the name is known, at the end where it is new. -/
def defineName (n : String) (t : Ty) : List (String × Ty) → List (String × Ty)
  | [] => [(n, t)]
  | (m, u) :: r => if m = n then (m, t) :: r else (m, u) :: defineName n t r

theorem map_fst_defineName (n : String) (t : Ty) (l : List (String × Ty)) :
    (defineName n t l).map (·.1) =
      if n ∈ l.map (·.1) then l.map (·.1) else l.map (·.1) ++ [n] := by
  induction l with
  | nil => simp [defineName]
  | cons e r ih =>
    by_cases h : e.1 = n
    · simp [defineName, h]
    · have hn : ¬ n = e.1 := fun hn => h hn.symm
      simp only [defineName, h, if_false, List.map_cons, ih, List.mem_cons, hn, false_or]
      split <;> simp

/-- A new name goes to the end. -/
theorem defineName_of_not_mem {n : String} {t : Ty} {l : List (String × Ty)}
    (h : n ∉ l.map (·.1)) : defineName n t l = l ++ [(n, t)] := by
  induction l with
  | nil => rfl
  | cons f l ih =>
    rw [List.map_cons, List.mem_cons, not_or] at h
    rw [defineName, if_neg (Ne.symm h.1), ih h.2]
    rfl

/-- A known name keeps its place. -/
theorem defineName_of_getElem? {n : String} {t : Ty} {l : List (String × Ty)} {i : Nat}
    (hl : (l.map (·.1)).Nodup) (hi : (l.map (·.1))[i]? = some n) :
    defineName n t l = l.set i (n, t) := by
  induction l generalizing i with
  | nil => simp at hi
  | cons e l ih =>
    rw [List.map_cons, List.nodup_cons] at hl
    cases i with
    | zero =>
      obtain rfl : e.1 = n := Option.some.inj hi
      rw [defineName, if_pos rfl, List.set_cons_zero]
    | succ i =>
      have hn : e.1 ≠ n := fun he => hl.1 (he ▸ List.mem_of_getElem? hi)
      rw [defineName, if_neg hn, ih hl.2 hi, List.set_cons_succ]

theorem lookup_cons_eq_ite {α : Type} (m k : String) (u : α) (r : List (String × α)) :
    ((k, u) :: r).lookup m = if m = k then some u else r.lookup m := by
  by_cases h : m = k
  · simp [h]
  · simp [List.lookup_cons, beq_eq_false_iff_ne.2 h, h]

theorem lookup_defineName (n m : String) (t : Ty) (l : List (String × Ty)) :
    (defineName n t l).lookup m = if m = n then some t else l.lookup m := by
  induction l with
  | nil => simp only [defineName, lookup_cons_eq_ite]
  | cons e r ih =>
    obtain ⟨k, u⟩ := e
    by_cases hk : k = n
    · subst hk
      by_cases hm : m = k <;> simp [defineName, lookup_cons_eq_ite, hm]
    · by_cases hm : m = k
      · simp [defineName, hm, hk]
      · simp [defineName, lookup_cons_eq_ite, hm, hk, ih]

/-- Gives a name a type, and tells the type that it had. -/
def replaceName (n : String) (t : Ty) : List (String × Ty) → Option Ty × List (String × Ty)
  | [] => (none, [(n, t)])
  | (m, u) :: r =>
    if m = n then (some u, (m, t) :: r)
    else ((replaceName n t r).1, (m, u) :: (replaceName n t r).2)

theorem replaceName_eq (n : String) (t : Ty) (l : List (String × Ty)) :
    replaceName n t l = (l.lookup n, defineName n t l) := by
  induction l with
  | nil => rfl
  | cons e r ih =>
    obtain ⟨m, u⟩ := e
    by_cases h : m = n
    · simp [replaceName, defineName, h]
    · simp [replaceName, defineName, h, ih, lookup_cons_eq_ite, Ne.symm h]

/-- The names that something becomes of are those whose values it comes from. -/
theorem map_fst_filterMap {α β : Type} (f : α → Option β) (l : List (String × α)) :
    (l.filterMap fun e => (f e.2).map fun x => (e.1, x)).map (·.1) =
      (l.filter fun e => (f e.2).isSome).map (·.1) := by
  induction l with
  | nil => rfl
  | cons e l ih => cases h : f e.2 <;> simp [h, ih]

/-- Named types in the order of first definition. -/
structure Container where
  entries : List (String × Ty)
  nodup : (entries.map (·.1)).Nodup

namespace Container

/-- The container without definitions. -/
def empty : Container :=
  ⟨[], by simp⟩

/-- The names, in order. -/
def names (c : Container) : List String :=
  c.entries.map (·.1)

/-- The number of definitions. -/
def size (c : Container) : Nat :=
  c.entries.length

/-- The type of a name. -/
def get? (c : Container) (n : String) : Option Ty :=
  c.entries.lookup n

/-- Whether a name is defined. -/
def contains (c : Container) (n : String) : Bool :=
  (c.get? n).isSome

/-- **Defines a name**, or redefines it in its place. -/
def insert (c : Container) (n : String) (t : Ty) : Container where
  entries := defineName n t c.entries
  nodup := by
    rw [map_fst_defineName]
    split
    · exact c.nodup
    · rename_i h
      exact List.nodup_append.2 ⟨c.nodup, by simp, by
        simp only [List.mem_singleton, forall_eq]
        exact fun a ha hn => h (hn ▸ ha)⟩

/-- **Defines a name**, and tells the type that it had, if any. -/
def getThenInsert? (c : Container) (n : String) (t : Ty) : Option Ty × Container where
  fst := (replaceName n t c.entries).1
  snd :=
    { entries := (replaceName n t c.entries).2
      nodup := by
        rw [replaceName_eq]
        exact (c.insert n t).nodup }

/-- Makes definitions one after the other, and tells for each the type that its name had. -/
def insertEach (c : Container) : List (String × Ty) → List (Option Ty) × Container
  | [] => ([], c)
  | (n, t) :: r =>
    let (old, d) := c.getThenInsert? n t
    let (olds, e) := d.insertEach r
    (old :: olds, e)

/-- The container of a list of definitions, of which later ones redefine earlier ones. -/
def ofList (l : List (String × Ty)) : Container :=
  l.foldl (fun c e => c.insert e.1 e.2) empty

/-- Whether two containers define the same names with the same types, in whatever order. -/
def sameDefinitions (c d : Container) : Bool :=
  c.size == d.size && c.entries.all fun e => d.get? e.1 == some e.2

theorem getThenInsert?_eq (c : Container) (n : String) (t : Ty) :
    c.getThenInsert? n t = (c.get? n, c.insert n t) := by
  simp only [getThenInsert?, replaceName_eq]
  rfl

theorem insertEach_cons (c : Container) (n : String) (t : Ty) (l : List (String × Ty)) :
    c.insertEach ((n, t) :: l) =
      (c.get? n :: ((c.insert n t).insertEach l).1, ((c.insert n t).insertEach l).2) := by
  rw [insertEach, getThenInsert?_eq]

theorem names_insert (c : Container) (n : String) (t : Ty) :
    (c.insert n t).names = if n ∈ c.names then c.names else c.names ++ [n] :=
  map_fst_defineName n t c.entries

theorem get?_insert (c : Container) (n m : String) (t : Ty) :
    (c.insert n t).get? m = if m = n then some t else c.get? m :=
  lookup_defineName n m t c.entries

/-- The ill-shaped definitions, each with the first error of its type, in order. -/
def shapeErrors (c : Container) : List (String × ShapeError) :=
  c.entries.filterMap fun e => e.2.shapeError?.map fun x => (e.1, x)

end Container

/-- Errors of shape, each with the name of its definition. -/
abbrev ShapeErrors := List (String × ShapeError)

namespace ShapeErrors

/-- Adds the error of a definition. -/
def add (l : ShapeErrors) (n : String) (e : ShapeError) : ShapeErrors :=
  l ++ [(n, e)]

/-- The error of a name, if there is one. -/
def forName? (l : ShapeErrors) (n : String) : Option ShapeError :=
  (l.find? fun e => e.1 == n).map (·.2)

theorem forName?_eq_lookup (l : ShapeErrors) (n : String) : l.forName? n = l.lookup n := by
  induction l with
  | nil => rfl
  | cons e l ih =>
    obtain ⟨m, x⟩ := e
    rw [forName?, List.find?_cons, lookup_cons_eq_ite]
    by_cases h : n = m
    · simp [h]
    · rw [if_neg h, ← ih, forName?, beq_eq_false_iff_ne.2 (Ne.symm h)]

/-- Goes on from a definition, with its error if it is ill-shaped. -/
def next (l : ShapeErrors) (e : String × Ty) : ShapeErrors :=
  match e.2.shapeError? with
  | none => l
  | some x => l.add e.1 x

theorem foldl_next (es : List (String × Ty)) (l : ShapeErrors) :
    es.foldl next l = l ++ es.filterMap fun e => e.2.shapeError?.map fun x => (e.1, x) := by
  induction es generalizing l with
  | nil => simp
  | cons e es ih => cases h : e.2.shapeError? <;> simp [next, add, h, ih]

end ShapeErrors

namespace Container

/-- **Checks one definition after the other**, and stops at none. -/
def check (c : Container) : Except ShapeErrors Unit :=
  let errors := c.entries.foldl ShapeErrors.next []
  if errors.isEmpty then .ok () else .error errors

theorem check_eq (c : Container) :
    c.check = if c.shapeErrors = [] then .ok () else .error c.shapeErrors := by
  simp only [check, ShapeErrors.foldl_next, List.nil_append, List.isEmpty_iff]
  rfl

/-- A container that is being made. -/
structure Builder where
  container : Container := empty

namespace Builder

/-- Adds a definition; what its name had before is forgotten. -/
def add (b : Builder) (n : String) (t : Ty) : Builder where
  container := (b.container.getThenInsert? n t).2

/-- The container of all that was added. -/
def build (b : Builder) : Container :=
  b.container

end Builder

end Container

end NativeTypes

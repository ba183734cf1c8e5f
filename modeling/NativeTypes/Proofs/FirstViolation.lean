import NativeTypes.Proofs.Positions
import NativeTypes.Proofs.Rules

/-! # The first violation

A type has no error of shape exactly where every sub-tree obeys its local rule
(`Ty.shapeError?_eq_none_iff`). Where it has one, the path of the error is exact and the error is
the first in visiting order: this is said by `Ty.FirstViolation`, which passes from a part to the
type (`Ty.FirstViolation.under`) because the segments to the parts of a type that obeys its rule all
differ (`Ty.Rule.nodup_segments`), so that no other part is reached under the same segment. -/

namespace NativeTypes.Ty

/-! ### Types without violations -/

theorem shapeError?_eq_none {t : Ty} :
    t.shapeError? = none ↔ t.Rule ∧ ∀ c ∈ t.children, c.2.shapeError? = none := by
  rw [shapeError?_eq, ← violation?_eq_none_iff]
  cases t.violation? <;> simp [List.findSome?_eq_none_iff]

/-- What a path reaches in a type without error obeys its rule. -/
theorem Reaches.rule {t s : Ty} {p : Path} (hp : t.Reaches p s) (h : t.shapeError? = none) :
    s.Rule := by
  induction hp with
  | nil t => exact (shapeError?_eq_none.1 h).1
  | cons hl _ ih => exact ih ((shapeError?_eq_none.1 h).2 _ (leads_iff_mem_children.1 hl))

/-- What a path reaches in a type without error has none. -/
theorem Reaches.shapeError?_eq_none {t s : Ty} {p : Path} (hp : t.Reaches p s)
    (h : t.shapeError? = none) : s.shapeError? = none := by
  induction hp with
  | nil t => exact h
  | cons hl _ ih => exact ih ((Ty.shapeError?_eq_none.1 h).2 _ (leads_iff_mem_children.1 hl))

/-- **A type has no error of shape exactly where every sub-tree obeys its local rule.** -/
theorem shapeError?_eq_none_iff (t : Ty) :
    t.shapeError? = none ↔ ∀ p s, t.Reaches p s → s.Rule := by
  constructor
  · intro h p s hp
    exact hp.rule h
  · intro h
    induction t using induction_children with
    | step t ih =>
      refine shapeError?_eq_none.2 ⟨h [] t (.nil t), fun c hc => ih c hc fun p s hp => ?_⟩
      exact h (c.1 :: p) s (.cons (leads_iff_mem_children.2 hc) hp)

/-! ### Segments of one type -/

theorem nodup_fst_numbered {segment : Nat → Segment} (h : ∀ i j, segment i = segment j → i = j)
    (ts : List Ty) : ((numbered segment ts).map (·.1)).Nodup := by
  have he : (numbered segment ts).map (·.1) = (ts.zipIdx.map Prod.snd).map segment := by
    simp only [numbered, List.map_map]
    rfl
  rw [he, List.zipIdx_map_snd, List.Nodup, List.pairwise_map]
  exact (List.nodup_range').imp fun hij hs => hij (h _ _ hs)

/-- The segments to the parts of a type that obeys its rule differ. -/
theorem Rule.nodup_segments {t : Ty} (h : t.Rule) : (t.children.map (·.1)).Nodup := by
  cases t with
  | primitive | predefined | reference | enumeration => simp [children]
  | array | operator | withDefault | event => simp [children]
  | function t ts =>
    rw [children, List.map_cons, List.nodup_cons]
    refine ⟨fun hm => ?_, nodup_fst_numbered (fun i j => Segment.argument.inj) ts⟩
    obtain ⟨⟨g, u⟩, hu, he⟩ := List.mem_map.1 hm
    obtain ⟨i, -, hg⟩ := mem_numbered.1 hu
    cases hg.trans he
  | union ts => exact nodup_fst_numbered (fun i j => Segment.alternative.inj) ts
  | objectLiteral ts ms f =>
    rw [children, List.map_append, List.nodup_append]
    refine ⟨nodup_fst_numbered (fun i j => Segment.mixin.inj) ts, ?_, ?_⟩
    · have hn : ((ms.map (·.name)).map Segment.member).Nodup := by
        rw [List.Nodup, List.pairwise_map]
        exact h.1.imp fun hne he => hne (Segment.member.inj he)
      rwa [List.map_map] at hn ⊢
    · intro a ha b hb hab
      obtain ⟨⟨g, u⟩, hu, rfl⟩ := List.mem_map.1 ha
      obtain ⟨i, -, hg⟩ := mem_numbered.1 hu
      obtain ⟨c, hc, rfl⟩ := List.mem_map.1 hb
      obtain ⟨m, -, rfl⟩ := List.mem_map.1 hc
      cases hg.trans hab

theorem filter_fst_eq_singleton {l₁ l₂ : List (Segment × Ty)} {c : Segment × Ty}
    (h : ((l₁ ++ c :: l₂).map (·.1)).Nodup) : (l₁ ++ c :: l₂).filter (·.1 == c.1) = [c] := by
  rw [List.map_append, List.map_cons, List.nodup_append, List.nodup_cons] at h
  obtain ⟨-, ⟨h₂, -⟩, h₁⟩ := h
  have e₁ : l₁.filter (·.1 == c.1) = [] := List.filter_eq_nil_iff.2 fun d hd => by
    simpa using h₁ d.1 (List.mem_map_of_mem hd) c.1 (by simp)
  have e₂ : l₂.filter (·.1 == c.1) = [] := List.filter_eq_nil_iff.2 fun d hd he =>
    h₂ (List.mem_map.2 ⟨d, hd, eq_of_beq he⟩)
  simp [e₁, e₂]

/-! ### The place of an error -/

/-- `s` is where `t` first breaks a rule, and `e` says so. -/
structure FirstViolation (t : Ty) (e : ShapeError) (s : Ty) : Prop where
  /-- The path leads to `s` and to nothing else. -/
  subtrees_eq : t.subtrees e.path = [s]
  /-- On the way there is no other sub-tree under the same segments. -/
  prefixes : ∀ p, p <+: e.path → ∃ u, t.subtrees p = [u]
  /-- On its own, `s` has the same error, at its root. -/
  own : s.shapeError? = some ⟨[], e.violation⟩
  broken : ¬ s.Rule
  /-- What is visited before `s` obeys its rule. -/
  first : ∃ before after, t.visits = before ++ (e.path, s) :: after ∧ ∀ c ∈ before, c.2.Rule

/-- A type that breaks its own rule is where it first breaks one. -/
theorem FirstViolation.root {t : Ty} {v : Violation} (h : t.violation? = some v) :
    FirstViolation t ⟨[], v⟩ t where
  subtrees_eq := rfl
  prefixes p hp := by
    rw [List.prefix_nil.1 hp]
    exact ⟨t, rfl⟩
  own := by rw [shapeError?_eq, h]
  broken hr := by
    rw [violation?_eq_none_iff.2 hr] at h
    cases h
  first := ⟨[], _, visits_eq t, by simp⟩

/-- From a part, before which all parts are well-shaped, to the type. -/
theorem FirstViolation.under {t s : Ty} {e : ShapeError} {c : Segment × Ty}
    {l₁ l₂ : List (Segment × Ty)} (ht : t.Rule) (hc : t.children = l₁ ++ c :: l₂)
    (hl : ∀ d ∈ l₁, d.2.shapeError? = none) (h : FirstViolation c.2 e s) :
    FirstViolation t (e.under c.1) s := by
  have hs : ∀ p, t.subtrees (c.1 :: p) = c.2.subtrees p := fun p => by
    have := ht.nodup_segments
    rw [subtrees, hc, filter_fst_eq_singleton (hc ▸ this)]
    simp
  refine ⟨(hs e.path).trans h.subtrees_eq, fun p hp => ?_, h.own, h.broken, ?_⟩
  · cases p with
    | nil => exact ⟨t, rfl⟩
    | cons g p =>
      obtain ⟨hg, hp⟩ := List.cons_prefix_cons.1 hp
      rw [hg, hs]
      exact h.prefixes p hp
  · obtain ⟨before, after, hv, hb⟩ := h.first
    refine ⟨([], t) :: (l₁.flatMap fun d => through d.1 d.2.visits) ++ through c.1 before,
      through c.1 after ++ l₂.flatMap fun d => through d.1 d.2.visits, ?_, ?_⟩
    · rw [visits_eq, hc]
      simp [hv, through, ShapeError.under]
    · intro d hd
      simp only [List.cons_append, List.mem_cons, List.mem_append, List.mem_flatMap] at hd
      rcases hd with rfl | ⟨a, ha, hd⟩ | hd
      · exact ht
      · obtain ⟨q, -, hq⟩ := mem_through.1 hd
        exact (mem_visits.1 hq).rule (hl a ha)
      · obtain ⟨q, -, hq⟩ := mem_through.1 hd
        exact hb (q, d.2) hq

/-- An error is at the first violation, and it is this violation. -/
theorem exists_violation_of_shapeError? {t : Ty} {e : ShapeError} (h : t.shapeError? = some e) :
    ∃ s, FirstViolation t e s ∧ s.violation? = some e.violation := by
  induction t using induction_children generalizing e with
  | step t ih =>
    rw [shapeError?_eq] at h
    cases hv : t.violation? with
    | some v =>
      rw [hv] at h
      cases h
      exact ⟨t, .root hv, hv⟩
    | none =>
      rw [hv] at h
      obtain ⟨l₁, c, l₂, hc, he, hl⟩ := List.findSome?_eq_some_iff.1 h
      obtain ⟨e', he', rfl⟩ := Option.map_eq_some_iff.1 he
      obtain ⟨s, hs, hsv⟩ := ih c (by simp [hc]) he'
      have hbefore : ∀ d ∈ l₁, d.2.shapeError? = none := fun d hd => by simpa using hl d hd
      exact ⟨s, hs.under (violation?_eq_none_iff.1 hv) hc hbefore, hsv⟩

/-- **The error of a type is at the first violation in visiting order, and its path is exact.** -/
theorem exists_firstViolation {t : Ty} {e : ShapeError} (h : t.shapeError? = some e) :
    ∃ s, FirstViolation t e s := by
  obtain ⟨s, hs, -⟩ := exists_violation_of_shapeError? h
  exact ⟨s, hs⟩

/-- Two arguments of a function are ill-shaped, the first of them inside a member. -/
theorem exists_firstViolation_in_member :
    let a := array false (union [primitive .string])
    let t := function (primitive .void)
      [objectLiteral [reference "Base"] [⟨"a", a, false, true⟩] true, union []]
    let e : ShapeError := ⟨[.argument 0, .member "a", .element], .tooFewAlternatives 1⟩
    t.shapeError? = some e ∧ ∃ s, FirstViolation t e s := by
  intro a t e
  have h : t.shapeError? = some e := by decide +kernel
  exact ⟨h, exists_firstViolation h⟩

end NativeTypes.Ty

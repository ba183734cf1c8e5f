import Mathlib.Data.Finset.Card
import NativeTypes.Container

/-! # Containers record histories

The definitions that are made one after the other are a *history*. A container records a history
(`Container.Records`) if its names are those of the history, in the order of first definition, and
each name has the type of its last definition.

* `Container.Records.insert`: one more definition is recorded.
* `Container.Records.insertEach`: so is every further history, and each definition is told the type
  that was last given to its name.
* `Container.insertEach_records`: this is so from the start, whichever way the container is made. -/

namespace NativeTypes

/-- The type of the last definition of a name. -/
def lastType? (h : List (String × Ty)) (n : String) : Option Ty :=
  h.reverse.lookup n

theorem lastType?_concat (h : List (String × Ty)) (m n : String) (t : Ty) :
    lastType? (h ++ [(m, t)]) n = if n = m then some t else lastType? h n := by
  rw [lastType?, List.reverse_concat, lookup_cons_eq_ite, lastType?]

namespace Container

/-- **A container records a history.** -/
structure Records (c : Container) (h : List (String × Ty)) : Prop where
  mem_names_iff : ∀ n, n ∈ c.names ↔ n ∈ h.map (·.1)
  /-- Names are in the order of first definition. -/
  pairwise_names :
    c.names.Pairwise fun m n => (h.map (·.1)).idxOf m < (h.map (·.1)).idxOf n
  get?_eq : ∀ n, c.get? n = lastType? h n

theorem records_empty : empty.Records [] where
  mem_names_iff _ := Iff.rfl
  pairwise_names := .nil
  get?_eq _ := rfl

namespace Records

variable {c : Container} {h : List (String × Ty)}

/-- **One more definition is recorded.** -/
theorem insert (hc : c.Records h) (n : String) (t : Ty) :
    (c.insert n t).Records (h ++ [(n, t)]) where
  mem_names_iff m := by
    rw [names_insert, List.map_append, List.mem_append, ← hc.mem_names_iff]
    split
    · rename_i hn
      exact ⟨.inl, fun hm => hm.elim id fun hm => List.mem_singleton.1 hm ▸ hn⟩
    · exact List.mem_append
  pairwise_names := by
    -- a known name keeps its first definition
    have hidx : ∀ m ∈ c.names, ((h ++ [(n, t)]).map (·.1)).idxOf m = (h.map (·.1)).idxOf m := by
      intro m hm
      rw [List.map_append, List.idxOf_append_of_mem ((hc.mem_names_iff m).1 hm)]
    have hpairwise : c.names.Pairwise fun k m =>
        ((h ++ [(n, t)]).map (·.1)).idxOf k < ((h ++ [(n, t)]).map (·.1)).idxOf m :=
      hc.pairwise_names.imp_of_mem fun hk hm hlt => by rwa [hidx _ hk, hidx _ hm]
    rw [names_insert]
    split
    · exact hpairwise
    · rename_i hn
      refine List.pairwise_append.2 ⟨hpairwise, List.pairwise_singleton _ _, fun m hm k hk => ?_⟩
      obtain rfl := List.mem_singleton.1 hk
      rw [hidx m hm, List.map_append,
        List.idxOf_append_of_notMem fun hk => hn ((hc.mem_names_iff k).2 hk)]
      exact Nat.lt_of_lt_of_le (List.idxOf_lt_length_of_mem ((hc.mem_names_iff m).1 hm))
        (Nat.le_add_right _ _)
  get?_eq m := by rw [get?_insert, lastType?_concat, hc.get?_eq]

/-- **A further history is recorded**, and each of its definitions is told the type that was last
given to its name. -/
theorem insertEach (hc : c.Records h) (l : List (String × Ty)) :
    (c.insertEach l).2.Records (h ++ l) ∧
      (c.insertEach l).1 = l.mapIdx fun i e => lastType? (h ++ l.take i) e.1 := by
  induction l generalizing c h with
  | nil =>
    rw [List.append_nil]
    exact ⟨hc, rfl⟩
  | cons e l ih =>
    obtain ⟨n, t⟩ := e
    obtain ⟨hl, hreplies⟩ := ih (hc.insert n t)
    rw [insertEach_cons, List.mapIdx_cons, List.append_cons]
    refine ⟨hl, congrArg₂ List.cons ?_ ?_⟩
    · rw [hc.get?_eq, List.take_zero, List.append_nil]
    · simp only [hreplies, List.take_succ_cons, List.append_assoc, List.singleton_append]

/-- There are as many definitions as distinct names. -/
theorem size_eq (hc : c.Records h) : c.size = (h.map (·.1)).toFinset.card := by
  have hnames : (h.map (·.1)).toFinset = c.names.toFinset := by
    ext n
    rw [List.mem_toFinset, List.mem_toFinset, hc.mem_names_iff]
  have hcard : c.names.toFinset.card = c.names.length := List.toFinset_card_of_nodup c.nodup
  rw [hnames, hcard, names, List.length_map, size]

end Records

/-! ### Ways of making a container -/

theorem insertEach_snd (c : Container) (l : List (String × Ty)) :
    (c.insertEach l).2 = l.foldl (fun c e => c.insert e.1 e.2) c := by
  induction l generalizing c with
  | nil => rfl
  | cons e l ih =>
    obtain ⟨n, t⟩ := e
    rw [insertEach_cons, List.foldl_cons, ← ih]

theorem Builder.build_add (b : Builder) (n : String) (t : Ty) :
    (b.add n t).build = b.build.insert n t :=
  congrArg Prod.snd (getThenInsert?_eq b.container n t)

theorem Builder.build_foldl (b : Builder) (l : List (String × Ty)) :
    (l.foldl (fun b e => b.add e.1 e.2) b).build =
      l.foldl (fun c e => c.insert e.1 e.2) b.build := by
  induction l generalizing b with
  | nil => rfl
  | cons e l ih => rw [List.foldl_cons, ih, build_add, List.foldl_cons]

/-- **A container records all that was defined**: each name once and in the order of first
definition, and with the type of its last definition; each definition was told the type that its
name had; and the three ways of making a container of a list have the same entries. -/
theorem insertEach_records (l : List (String × Ty)) :
    let c := (empty.insertEach l).2
    c.names.Nodup ∧ c.Records l ∧
      (∀ n, c.contains n = (lastType? l n).isSome) ∧
      c.size = (l.map (·.1)).toFinset.card ∧
      (empty.insertEach l).1 = l.mapIdx (fun i e => lastType? (l.take i) e.1) ∧
      (ofList l).entries = c.entries ∧
      (l.foldl (fun b e => b.add e.1 e.2) ({} : Builder)).build.entries = c.entries := by
  intro c
  obtain ⟨hc, hreplies⟩ := records_empty.insertEach l
  rw [List.nil_append] at hc
  have hfold : c = ofList l := insertEach_snd empty l
  refine ⟨c.nodup, hc, fun n => ?_, hc.size_eq, hreplies, congrArg entries hfold.symm, ?_⟩
  · rw [← hc.get?_eq, contains]
  · exact congrArg entries ((Builder.build_foldl {} l).trans hfold.symm)

/-- A name that is defined again keeps its place. -/
example :
    let r := empty.insertEach
      [("b", .primitive .void), ("a", .primitive .null), ("b", .primitive .string)]
    r.2.entries = [("b", .primitive .string), ("a", .primitive .null)] ∧
      r.1 = [none, none, some (.primitive .void)] := by
  decide

end Container

end NativeTypes

import NativeTypes.Listing

/-! # Definitions are independent

A container is printed and checked one definition at a time. One more definition, or another one in
the place of a known name, is therefore seen at its own name and nowhere else, whatever fails beside
it and whatever refers to it.

* `Container.print_insert_of_not_mem`, `Container.print_insert_of_getElem?`: what is printed after
  one more definition.
* `Container.verdict?_eq`: what is found at fault with a name depends on the type of that name
  alone.
* `Container.insert_independent`: the definitions of other names are printed and checked as
  before. -/

namespace NativeTypes

/-- Where no key comes twice, what becomes of a key depends on the value of that key. -/
theorem lookup_filterMap {α β : Type} (f : α → Option β) {l : List (String × α)}
    (h : (l.map (·.1)).Nodup) (n : String) :
    (l.filterMap fun e => (f e.2).map fun x => (e.1, x)).lookup n = (l.lookup n).bind f := by
  induction l with
  | nil => rfl
  | cons e l ih =>
    obtain ⟨k, a⟩ := e
    rw [List.map_cons, List.nodup_cons] at h
    by_cases hn : n = k
    · subst hn
      cases ha : f a with
      | some x => simp [ha]
      | none =>
        -- the other keys differ from this one, so that nothing else is found
        have hl : l.lookup n = none :=
          List.lookup_eq_none_iff.2 fun p hp => bne_iff_ne.2 fun he =>
            h.1 (List.mem_map.2 ⟨p, hp, he.symm⟩)
        rw [List.filterMap_cons_none (by simp [ha]), ih h.2, hl]
        simp [ha]
    · have hb : (n == k) = false := beq_eq_false_iff_ne.2 hn
      cases ha : f a with
      | some x => simp [ha, List.lookup_cons, hb, ih h.2]
      | none => simp [ha, List.lookup_cons, hb, ih h.2]

namespace Container

variable (c : Container) (n : String) (t : Ty)

/-! ### Definitions after one more -/

theorem entries_insert_of_not_mem (h : n ∉ c.names) :
    (c.insert n t).entries = c.entries ++ [(n, t)] :=
  defineName_of_not_mem h

theorem entries_insert_of_getElem? {i : Nat} (h : c.names[i]? = some n) :
    (c.insert n t).entries = c.entries.set i (n, t) :=
  defineName_of_getElem? c.nodup h

/-- **A new definition is printed after the others.** -/
theorem print_insert_of_not_mem (h : n ∉ c.names) (p : Printer) :
    (c.insert n t).print p = c.print p ++ [⟨n, p.print t⟩] := by
  rw [print, entries_insert_of_not_mem c n t h, List.map_append]
  rfl

/-- **A new definition of a known name is printed in its place.** -/
theorem print_insert_of_getElem? {i : Nat} (h : c.names[i]? = some n) (p : Printer) :
    (c.insert n t).print p = (c.print p).set i ⟨n, p.print t⟩ := by
  rw [print, entries_insert_of_getElem? c n t h, List.map_set]
  rfl

theorem map_name_print (p : Printer) : (c.print p).map Printed.name = c.names := by
  rw [print, List.map_map]
  rfl

/-- The listing ends with the declaration of a new name. -/
theorem declarations_insert_of_not_mem (h : n ∉ c.names) :
    (c.insert n t).declarations =
      c.declarations ++ (⟨n, ({} : Printer).print t⟩ : Printed).declaration := by
  rw [declarations, print_insert_of_not_mem c n t h, List.map_append, String.join_append]
  simp [declarations]

/-! ### Verdicts -/

/-- What is found at fault with a name when the container is checked. -/
def verdict? : Option ShapeError :=
  match c.check with
  | .ok () => none
  | .error l => l.forName? n

/-- The error of a name in the list of errors is the error of its type. -/
theorem forName?_shapeErrors :
    ShapeErrors.forName? c.shapeErrors n = (c.get? n).bind Ty.shapeError? := by
  rw [ShapeErrors.forName?_eq_lookup]
  exact lookup_filterMap Ty.shapeError? c.nodup n

/-- **The verdict on a name depends on its type alone.** -/
theorem verdict?_eq : c.verdict? n = (c.get? n).bind Ty.shapeError? := by
  rw [← forName?_shapeErrors, verdict?, check_eq]
  by_cases h : c.shapeErrors = []
  · rw [if_pos h, h]
    rfl
  · rw [if_neg h]

theorem get?_of_mem {e : String × Ty} (h : e ∈ c.entries) : c.get? e.1 = some e.2 := by
  obtain ⟨l₁, l₂, he⟩ := List.append_of_mem h
  have hn := c.nodup
  rw [he, List.map_append, List.map_cons, List.nodup_append] at hn
  refine List.lookup_eq_some_iff.2 ⟨l₁, l₂, he, fun p hp => bne_iff_ne.2 fun hpe => ?_⟩
  exact hn.2.2 p.1 (List.mem_map_of_mem hp) e.1 List.mem_cons_self hpe.symm

/-- **Faults are reported in the order of the definitions.** -/
theorem map_fst_shapeErrors_eq_filter :
    c.shapeErrors.map (·.1) =
      c.names.filter fun n => (ShapeErrors.forName? c.shapeErrors n).isSome := by
  have hv : ∀ e ∈ c.entries,
      (ShapeErrors.forName? c.shapeErrors e.1).isSome = e.2.shapeError?.isSome := fun e he => by
    rw [forName?_shapeErrors, get?_of_mem c he, Option.bind_some]
  rw [names, List.filter_map]
  exact (map_fst_filterMap Ty.shapeError? c.entries).trans
    (congrArg _ (List.filter_congr hv).symm)

/-- A new definition changes the verdict on its own name only. -/
theorem verdict?_insert (m : String) :
    (c.insert n t).verdict? m = if m = n then t.shapeError? else c.verdict? m := by
  rw [verdict?_eq, verdict?_eq, get?_insert]
  split
  · rw [Option.bind_some]
  · rfl

/-! ### Independence -/

/-- **Definitions are independent**: a new name is printed and listed after all others, a new
definition of a known name changes what is printed in its place only, the verdict on the name is
that on its type and no other verdict changes, and faults are reported in the order of the
definitions. -/
theorem insert_independent (c : Container) (n : String) (t : Ty) :
    (n ∉ c.names →
      (∀ p : Printer, (c.insert n t).print p = c.print p ++ [(⟨n, p.print t⟩ : Printed)]) ∧
      (c.insert n t).declarations =
        c.declarations ++ (⟨n, ({} : Printer).print t⟩ : Printed).declaration) ∧
    (∀ i : Nat, c.names[i]? = some n → ∀ p : Printer,
      ((c.insert n t).print p).length = (c.print p).length ∧
      ((c.insert n t).print p).map Printed.name = (c.print p).map Printed.name ∧
      ((c.insert n t).print p)[i]? = some ⟨n, p.print t⟩ ∧
      ∀ j : Nat, j ≠ i → ((c.insert n t).print p)[j]? = (c.print p)[j]?) ∧
    ((c.insert n t).verdict? n = t.shapeError? ∧
      ∀ m, m ≠ n → (c.insert n t).verdict? m = c.verdict? m) ∧
    ∀ d ∈ [c, c.insert n t], d.check = .ok () ∨ ∃ l : ShapeErrors, d.check = .error l ∧
      l.map (·.1) = d.names.filter fun m => (l.forName? m).isSome := by
  refine ⟨fun h => ?_, fun i hi p => ?_, ⟨?_, fun m hm => ?_⟩, fun d _ => ?_⟩
  · exact ⟨print_insert_of_not_mem c n t h, declarations_insert_of_not_mem c n t h⟩
  · have hlt : i < (c.print p).length := by
      have hlt := (List.getElem?_eq_some_iff.1 hi).1
      rwa [← map_name_print c p, List.length_map] at hlt
    have hnames : ((c.insert n t).print p).map Printed.name = (c.print p).map Printed.name := by
      rw [map_name_print, map_name_print, names_insert, if_pos (List.mem_of_getElem? hi)]
    refine ⟨by simpa using congrArg List.length hnames, hnames, ?_⟩
    rw [print_insert_of_getElem? c n t hi p]
    exact ⟨List.getElem?_set_self hlt, fun j hj => List.getElem?_set_ne hj.symm⟩
  · rw [verdict?_insert, if_pos rfl]
  · rw [verdict?_insert, if_neg hm]
  · rw [check_eq]
    by_cases h : d.shapeErrors = []
    · exact .inl (if_pos h)
    · exact .inr ⟨d.shapeErrors, if_neg h, map_fst_shapeErrors_eq_filter d⟩

/-- A known name and a new one, among definitions that fail and that refer to them. -/
theorem insert_independent_between :
    let c := ofList
      [("a", .reference "b"), ("b", .union []), ("c", .operator .promise (.reference "b"))]
    let known := c.insert "b" (.enumeration .boolean)
    let new := c.insert "d" (.array false (.reference "b"))
    c.names[1]? = some "b" ∧ (known.print {})[2]? = (c.print {})[2]? ∧
      known.verdict? "b" = (Ty.enumeration .boolean).shapeError? ∧
      ("a" : String) ≠ "b" ∧ known.verdict? "a" = c.verdict? "a" ∧
      "d" ∉ c.names ∧ new.declarations = c.declarations ++ "type d = b[];\n" := by
  intro c known new
  have hb : c.names[1]? = some "b" := by decide
  have hd : "d" ∉ c.names := by decide
  obtain ⟨-, hknown, hverdict, -⟩ := insert_independent c "b" (.enumeration .boolean)
  obtain ⟨hnew, -⟩ := insert_independent c "d" (.array false (.reference "b"))
  have htext : (⟨"d", ({} : Printer).print (.array false (.reference "b"))⟩ : Printed).declaration =
      "type d = b[];\n" := by
    decide +kernel
  refine ⟨hb, (hknown 1 hb {}).2.2.2 2 (by decide), hverdict.1, by decide,
    hverdict.2 "a" (by decide), hd, ?_⟩
  rw [← htext]
  exact (hnew hd).2

end Container

end NativeTypes

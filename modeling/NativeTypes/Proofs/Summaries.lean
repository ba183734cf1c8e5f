import Mathlib.Algebra.GroupWithZero.Nat
import Mathlib.Data.List.Induction
import NativeTypes.Proofs.Joined
import NativeTypes.Report

/-! # Summaries account for every entry

The groups of a report are made entry by entry. Whatever the order in which the entries come, there
is in the end one group for each category that has entries, in the order of the categories, and it
holds the entries of its category as they came. A summary writes one section for each group. What a
section says is put down in `Report.Section`: what it counts, what it lists and what it leaves out.

* `Report.Groups.add_along`: what one more entry does to the groups.
* `Report.groups_eq`: the groups of a report.
* `Report.Section.tells_ofGroup`: a section accounts for the entries of its group.
* `Report.summary_accounts`: **a summary accounts for every entry that was added.** -/

namespace NativeTypes

namespace Category

theorem mem_all (c : Category) : c ∈ all := by
  cases c <;> decide

theorem pairwise_rank_all : all.Pairwise (·.rank < ·.rank) := by
  decide

end Category

namespace Report

theorem foldl_add (es r : Report) : es.foldl add r = r ++ es := by
  induction es generalizing r with
  | nil => rw [List.foldl_nil, List.append_nil]
  | cons e es ih => rw [List.foldl_cons, ih, add, List.append_assoc, List.singleton_append]

/-! ### Groups -/

namespace Groups

/-- The groups of some categories, those without entries left out. -/
def along (cs : List Category) (f : Category → Report) : Groups :=
  (cs.filter fun c => f c ≠ []).map fun c => (c, f c)

theorem along_cons (c : Category) (cs : List Category) (f : Category → Report) :
    along (c :: cs) f = if f c = [] then along cs f else (c, f c) :: along cs f := by
  by_cases h : f c = [] <;> simp [along, h]

theorem along_congr {cs : List Category} {f g : Category → Report} (h : ∀ c ∈ cs, f c = g c) :
    along cs f = along cs g := by
  induction cs with
  | nil => rfl
  | cons c cs ih =>
    obtain ⟨hc, hcs⟩ := List.forall_mem_cons.1 h
    rw [along_cons, along_cons, hc, ih hcs]

/-- An entry of an earlier category makes a group before all others. -/
theorem add_of_lt {e : Entry} {gs : Groups} (h : ∀ g ∈ gs, e.category.rank < g.1.rank) :
    add e gs = (e.category, [e]) :: gs := by
  cases gs with
  | nil => rfl
  | cons g gs =>
    obtain ⟨c, es⟩ := g
    have hlt := h (c, es) List.mem_cons_self
    have hne : c ≠ e.category := by
      rintro rfl
      exact Nat.lt_irrefl _ hlt
    rw [add, if_neg hne, if_pos hlt]

/-- **One more entry** goes to the end of the group of its category, and changes no other group. -/
theorem add_along {cs : List Category} (hcs : cs.Pairwise (·.rank < ·.rank)) {e : Entry}
    (he : e.category ∈ cs) (f : Category → Report) :
    add e (along cs f) = along cs fun c => if c = e.category then f c ++ [e] else f c := by
  induction cs with
  | nil => cases he
  | cons c cs ih =>
    obtain ⟨hlt, hcs⟩ := List.pairwise_cons.1 hcs
    rw [along_cons, along_cons]
    by_cases hc : c = e.category
    · subst hc
      -- the other groups stay, since their categories come later
      have hrest : (along cs fun c => if c = e.category then f c ++ [e] else f c) = along cs f := by
        refine along_congr fun c hc => if_neg ?_
        rintro rfl
        exact Nat.lt_irrefl _ (hlt _ hc)
      have hlater : ∀ g ∈ along cs f, e.category.rank < g.1.rank := by
        intro g hg
        obtain ⟨c, hc, rfl⟩ := List.mem_map.1 hg
        exact hlt c (List.mem_filter.1 hc).1
      rw [hrest, if_pos rfl, if_neg (List.append_ne_nil_of_right_ne_nil _ (List.cons_ne_nil e []))]
      split
      · rename_i hf
        rw [add_of_lt hlater, hf, List.nil_append]
      · rw [add, if_pos rfl, Report.add]
    · have hmem : e.category ∈ cs := (List.mem_cons.1 he).resolve_left (Ne.symm hc)
      rw [if_neg hc]
      split
      · exact ih hcs hmem
      · rw [add, if_neg hc, if_neg (Nat.lt_asymm (hlt _ hmem)), ih hcs hmem]

/-- One more entry is in one more place. -/
theorem sum_length_add (e : Entry) (gs : Groups) :
    ((add e gs).map fun g => g.2.length).sum = (gs.map fun g => g.2.length).sum + 1 := by
  fun_induction add e gs with
  | case1 => rfl
  | case2 es gs => simp [Report.add]; omega
  | case3 c es gs => simp; omega
  | case4 c es gs h₁ h₂ ih => simp only [List.map_cons, List.sum_cons, ih]; omega

end Groups

theorem groups_concat (r : Report) (e : Entry) : (r ++ [e]).groups = Groups.add e r.groups := by
  rw [groups, List.foldl_append]
  rfl

/-- **The groups of a report**: its entries of each category that has any, in the order of the
categories. -/
theorem groups_eq (r : Report) : r.groups = Groups.along Category.all r.ofCategory := by
  induction r using List.reverseRecOn with
  | nil => rfl
  | append_singleton r e ih =>
    rw [groups_concat, ih, Groups.add_along Category.pairwise_rank_all (Category.mem_all _)]
    refine Groups.along_congr fun c _ => ?_
    by_cases h : c = e.category
    · simp [ofCategory, h]
    · simp [ofCategory, h, Ne.symm h]

theorem sum_length_groups (r : Report) : (r.groups.map fun g => g.2.length).sum = r.length := by
  induction r using List.reverseRecOn with
  | nil => rfl
  | append_singleton r e ih =>
    rw [groups_concat, Groups.sum_length_add, ih, List.length_append, List.length_singleton]

/-! ### Sections -/

/-- The line on entries that are left out. -/
def omissionLine (k : Nat) : String :=
  "  ... and " ++ k.repr ++ " more"

theorem omissionLine_injective {k k' : Nat} (h : omissionLine k = omissionLine k') : k = k' := by
  rw [omissionLine, omissionLine, String.append_left_inj, String.append_right_inj] at h
  have hk : k.repr.toList ++ [] = k'.repr.toList ++ [] := by rw [h]
  exact (Text.repr_append_inj (by simp) (by simp) hk).1

theorem toList_omissionLine (k : Nat) : ∃ r, (omissionLine k).toList = ' ' :: ' ' :: '.' :: r := by
  rw [omissionLine, String.append_assoc, String.toList_append]
  exact ⟨_, rfl⟩

/-- What a summary says about one category: how many entries there are, which of them it lists, and
how many it leaves out. -/
structure Section where
  category : Category
  total : Nat
  listed : List Entry
  omitted : Nat

namespace Section

/-- The lines of a section. -/
def lines (s : Section) : List String :=
  ("## " ++ s.category.label ++ " (" ++ s.total.repr ++ " errors):") ::
    (s.listed.map (fun e => "  - " ++ e.text) ++
      ((if 0 < s.omitted then [omissionLine s.omitted] else []) ++ [""]))

/-- **A section accounts for entries**: it counts them, lists the first ten in order, and says how
many more there are, if there are more. -/
structure Tells (s : Section) (es : Report) : Prop where
  total_eq : s.total = es.length
  listed_eq : s.listed = es.take 10
  listed_add_omitted : s.listed.length + s.omitted = s.total
  omissionLine_mem_iff : ∀ k, omissionLine k ∈ s.lines ↔ 10 < s.total ∧ k = s.total - 10

/-- The section of a group. -/
def ofGroup (g : Category × Report) : Section where
  category := g.1
  total := g.2.length
  listed := g.2.take shown
  omitted := g.2.length - shown

theorem sectionLines_eq (g : Category × Report) : sectionLines g.1 g.2 = (ofGroup g).lines := by
  have homitted : 0 < (ofGroup g).omitted ↔ g.2.length > shown := Nat.sub_pos_iff_lt
  rw [sectionLines, lines]
  by_cases h : g.2.length > shown
  · rw [if_pos h, if_pos (homitted.2 h)]
    simp [ofGroup, omissionLine]
  · rw [if_neg h, if_neg (mt homitted.1 h)]
    simp [ofGroup]

/-- A line on what is left out is not taken for a heading, an entry or a blank line. -/
theorem omissionLine_mem_lines_iff (s : Section) (k : Nat) :
    omissionLine k ∈ s.lines ↔ 0 < s.omitted ∧ k = s.omitted := by
  obtain ⟨r, hr⟩ := toList_omissionLine k
  have hheading : ∀ t : String, omissionLine k ≠ "## " ++ t := by
    intro t ht
    rw [ht, String.toList_append] at hr
    cases hr
  have hitem : ∀ t : String, "  - " ++ t ≠ omissionLine k := by
    intro t ht
    rw [← ht, String.toList_append] at hr
    cases hr
  have hblank : omissionLine k ≠ "" := by
    intro h
    rw [h] at hr
    cases hr
  simp only [lines, List.mem_cons, List.mem_append, List.mem_map, String.append_assoc, hheading,
    hitem, hblank, and_false, exists_false, List.not_mem_nil, or_false, false_or]
  split
  · rename_i h
    rw [List.mem_singleton]
    exact ⟨fun hk => ⟨h, omissionLine_injective hk⟩, fun hk => congrArg omissionLine hk.2⟩
  · rename_i h
    exact ⟨fun hk => absurd hk List.not_mem_nil, fun hk => absurd hk.1 h⟩

theorem tells_ofGroup (g : Category × Report) : (ofGroup g).Tells g.2 where
  total_eq := rfl
  listed_eq := rfl
  listed_add_omitted := by
    simp only [ofGroup, List.length_take]
    omega
  omissionLine_mem_iff k := by
    rw [omissionLine_mem_lines_iff]
    simp only [ofGroup, shown]
    omega

end Section

/-! ### Summaries -/

theorem mem_groups_iff {r : Report} {g : Category × Report} :
    g ∈ r.groups ↔ r.ofCategory g.1 ≠ [] ∧ g.2 = r.ofCategory g.1 := by
  rw [groups_eq, Groups.along, List.mem_map]
  constructor
  · rintro ⟨c, hc, rfl⟩
    exact ⟨by simpa using (List.mem_filter.1 hc).2, rfl⟩
  · rintro ⟨hne, hg⟩
    exact ⟨g.1, List.mem_filter.2 ⟨g.1.mem_all, decide_eq_true hne⟩, Prod.ext rfl hg.symm⟩

/-- The sections of the summary of a report. -/
def sections (r : Report) : List Section :=
  r.groups.map Section.ofGroup

theorem map_category_sections (r : Report) :
    r.sections.map (·.category) = Category.all.filter fun c => 0 < r.countP (·.category = c) := by
  rw [sections, groups_eq, Groups.along, List.map_map, List.map_map]
  refine (List.map_id'' (fun _ => rfl) _).trans (List.filter_congr fun c _ => ?_)
  rw [ofCategory, List.countP_eq_length_filter, decide_eq_decide, List.length_pos_iff]

theorem tells_of_mem_sections {r : Report} {s : Section} (h : s ∈ r.sections) :
    s.Tells (r.ofCategory s.category) := by
  obtain ⟨g, hg, rfl⟩ := List.mem_map.1 h
  rw [Section.ofGroup, ← (mem_groups_iff.1 hg).2]
  exact Section.tells_ofGroup g

/-- What the sections list and what they leave out is all that there is. -/
theorem sum_sections (r : Report) :
    (r.sections.map fun s => s.listed.length + s.omitted).sum = r.length := by
  rw [sections, List.map_map, ← sum_length_groups]
  refine congrArg List.sum (List.map_congr_left fun g _ => ?_)
  exact (Section.tells_ofGroup g).listed_add_omitted

theorem summary_of_ne_nil {r : Report} (h : r ≠ []) :
    r.summary = "\n".intercalate (("Found " ++ r.length.repr ++ " error(s):") :: "" ::
      r.sections.flatMap Section.lines) := by
  have hlines : r.groups.flatMap (fun g => sectionLines g.1 g.2) =
      r.sections.flatMap Section.lines := by
    rw [sections, List.flatMap_map]
    exact congrArg (List.flatMap · r.groups) (funext Section.sectionLines_eq)
  rw [summary, if_neg (by simpa using h), hlines]
  rfl

theorem summary_eq_noErrors_iff {r : Report} : r.summary = "No errors" ↔ r = [] := by
  constructor
  · intro h
    by_contra hne
    rw [summary_of_ne_nil hne, String.intercalate_cons_cons] at h
    have hl := congrArg String.toList h
    simp only [String.toList_append, List.append_assoc] at hl
    cases hl
  · rintro rfl
    rfl

/-- Every entry is of one of the categories. -/
theorem length_eq_sum_countP (r : Report) :
    r.length = r.countP (·.category = .shape) + r.countP (·.category = .unwritable) := by
  induction r with
  | nil => rfl
  | cons e r ih => cases h : e.category <;> simp [h] at ih ⊢ <;> omega

/-- **A summary accounts for every entry that was added.** -/
theorem summary_accounts (es : List Entry) :
    let r : Report := es.foldl add []
    let n : Category → Nat := fun c => es.countP (·.category = c)
    r.length = n .shape + n .unwritable ∧
    (r.summary = "No errors" ↔ n .shape = 0 ∧ n .unwritable = 0) ∧
    (n .shape + n .unwritable = 0 ∨ ∃ ss : List Section,
      r.summary = "\n".intercalate
        (("Found " ++ (n .shape + n .unwritable).repr ++ " error(s):") :: "" ::
          ss.flatMap Section.lines) ∧
      ss.map (·.category) = [Category.shape, .unwritable].filter (fun c => 0 < n c) ∧
      (∀ s ∈ ss, s.Tells (r.ofCategory s.category)) ∧
      (ss.map fun s => s.listed.length + s.omitted).sum = r.length) ∧
    (BatchError.ofReport r).count = r.length ∧ (BatchError.ofReport r).summary = r.summary := by
  intro r n
  have hr : r = es := foldl_add es []
  clear_value r
  subst hr
  have hlength : r.length = n .shape + n .unwritable := length_eq_sum_countP r
  refine ⟨hlength, ?_, ?_, rfl, rfl⟩
  · rw [summary_eq_noErrors_iff, ← List.length_eq_zero_iff, hlength, Nat.add_eq_zero_iff]
  · rw [← hlength, List.length_eq_zero_iff, or_iff_not_imp_left]
    intro hne
    exact ⟨r.sections, summary_of_ne_nil hne, map_category_sections r,
      fun s => tells_of_mem_sections, sum_sections r⟩

/-- Eleven ill-shaped types after one that cannot be written. -/
example :
    let r := (List.replicate 11 ⟨.shape, {}, "a"⟩).foldl add [⟨.unwritable, {}, "b"⟩]
    r.sections.map (fun s => (s.category, s.total, s.omitted)) =
      [(.shape, 11, 1), (.unwritable, 1, 0)] := by
  decide

end Report

end NativeTypes

import NativeTypes.Proofs.Json.Steps

/-! # Objects whose fields are gathered while they are read

`ReadsFields` are the fields of an object as they stand in a text. A reader of fields that keeps a
state *follows* a step if it reads a field exactly where a value can be read there and the step is
defined on it (`Follows`). Such a reader goes over an object exactly where the steps, taken in the
order of its fields, are all defined (`Follows.fields_eq_ok_iff`). -/

namespace NativeTypes.Json

/-- **The fields of an object**, at least one, up to its closing brace. The text starts after the
quote that opens the first name. -/
inductive ReadsFields (item : Reader Json) :
    List (String × Json) → List Char → List Char → Prop
  | last {k s t u v r : List Char} {j : Json} (hk : stringRest s = .ok (k, t))
      (hc : colon t = .ok u) (hv : item.run u = .ok (j, v))
      (hn : afterField v = .ok (.close r)) : ReadsFields item [(String.ofList k, j)] s r
  | more {k s t u v w r : List Char} {j : Json} {fs : List (String × Json)}
      (hk : stringRest s = .ok (k, t)) (hc : colon t = .ok u) (hv : item.run u = .ok (j, v))
      (hn : afterField v = .ok (.more w)) (hr : ReadsFields item fs w r) :
      ReadsFields item ((String.ofList k, j) :: fs) s r

/-- The fields of an object after its opening brace. -/
def ReadsObject (item : Reader Json) (fs : List (String × Json)) (s r : List Char) : Prop :=
  firstField s = .ok (.close r) ∧ fs = [] ∨
    ∃ t, firstField s = .ok (.more t) ∧ ReadsFields item fs t r

theorem ReadsFields.head {item : Reader Json} {n : String} {j : Json} {fs : List (String × Json)}
    {s r : List Char} (h : ReadsFields item ((n, j) :: fs) s r) :
    ∃ k t u v, stringRest s = .ok (k, t) ∧ String.ofList k = n ∧ colon t = .ok u ∧
      item.run u = .ok (j, v) := by
  generalize hl : (n, j) :: fs = l at h
  cases h with
  | last hk hc hv | more hk hc hv =>
    obtain ⟨hn, rfl⟩ := Prod.mk.inj (List.cons.inj hl).1
    exact ⟨_, _, _, _, hk, hn.symm, hc, hv⟩

section Follow

variable {σ : Type} {item : Reader Json} {field : σ → String → Except Mismatch (Reader σ)}
  {step : σ → String × Json → Option σ} {st st' : σ} {s r : List Char}

/-- Each field is read as a value, with which the step goes on. -/
structure Follows (item : Reader Json) (field : σ → String → Except Mismatch (Reader σ))
    (step : σ → String × Json → Option σ) : Prop where
  run_iff : ∀ {st st' : σ} {k : String} {s r : List Char},
    (∃ reader, field st k = .ok reader ∧ reader.run s = .ok (st', r)) ↔
      ∃ j, item.run s = .ok (j, r) ∧ step st (k, j) = some st'

theorem Follows.fieldsFrom_eq_ok_iff (hf : Follows item field step) :
    fieldsFrom field st s = .ok (st', r) ↔
      ∃ fs, ReadsFields item fs s r ∧ fs.foldlM step st = some st' := by
  constructor
  · intro h
    fun_induction fieldsFrom field st s with
    | case1 | case2 | case3 | case4 | case5 => cases h
    | case6 st s k t hk reader hr u hc mid v hv w hn =>
      cases h
      obtain ⟨j, hj, hs⟩ := hf.run_iff.1 ⟨reader, hr, hv⟩
      exact ⟨[(String.ofList k, j)], .last hk hc hj hn, by simp [hs]⟩
    | case7 st s k t hk reader hr u hc mid v hv w hn ih =>
      obtain ⟨j, hj, hs⟩ := hf.run_iff.1 ⟨reader, hr, hv⟩
      obtain ⟨fs, hfs, hst⟩ := ih h
      exact ⟨(String.ofList k, j) :: fs, .more hk hc hj hn hfs, by simp [hs, hst]⟩
  · rintro ⟨fs, h, hst⟩
    induction h generalizing st with
    | last hk hc hv hn =>
      obtain ⟨reader, hr, hu⟩ := hf.run_iff.2 ⟨_, hv, by simpa using hst⟩
      exact Json.fieldsFrom_eq_ok_iff.2 ⟨_, _, reader, _, _, _, hk, hr, hc, hu, .inl ⟨hn, rfl⟩⟩
    | more hk hc hv hn _ ih =>
      rw [List.foldlM_cons] at hst
      obtain ⟨mid, hs, hst⟩ := Option.bind_eq_some_iff.1 hst
      obtain ⟨reader, hr, hu⟩ := hf.run_iff.2 ⟨_, hv, hs⟩
      exact Json.fieldsFrom_eq_ok_iff.2
        ⟨_, _, reader, _, mid, _, hk, hr, hc, hu, .inr ⟨_, hn, ih hst⟩⟩

/-- **A state is gathered from an object exactly where the steps over its fields lead to it.** -/
theorem Follows.fields_eq_ok_iff (hf : Follows item field step) :
    fields field st s = .ok (st', r) ↔
      ∃ fs, ReadsObject item fs s r ∧ fs.foldlM step st = some st' := by
  rw [Json.fields_eq_ok_iff]
  constructor
  · rintro (⟨h, rfl⟩ | ⟨t, ht, h⟩)
    · exact ⟨[], .inl ⟨h, rfl⟩, rfl⟩
    · obtain ⟨fs, hfs, hst⟩ := hf.fieldsFrom_eq_ok_iff.1 h
      exact ⟨fs, .inr ⟨t, ht, hfs⟩, hst⟩
  · rintro ⟨fs, ⟨h, rfl⟩ | ⟨t, ht, hfs⟩, hst⟩
    · cases hst
      exact .inl ⟨h, rfl⟩
    · exact .inr ⟨t, ht, hf.fieldsFrom_eq_ok_iff.2 ⟨fs, hfs, hst⟩⟩

end Follow

/-! ### Fields as they are -/

/-- How the fields of a value are read: as they are, with the last one first. -/
def rawField (item : Reader Json) (fs : List (String × Json)) (k : String) :
    Except Mismatch (Reader (List (String × Json))) :=
  .ok (item.map fun j => (k, j) :: fs)

theorem follows_rawField (item : Reader Json) :
    Follows item (rawField item) fun fs f => some (f :: fs) where
  run_iff {st st' k s r} := by
    constructor
    · rintro ⟨reader, hr, hs⟩
      cases hr
      obtain ⟨j, hj, rfl⟩ := map_run_eq_ok_iff.1 hs
      exact ⟨j, hj, rfl⟩
    · rintro ⟨j, hj, hst⟩
      cases hst
      exact ⟨_, rfl, map_run_eq_ok_iff.2 ⟨j, hj, rfl⟩⟩

theorem foldlM_raw (fs read : List (String × Json)) :
    fs.foldlM (fun fs f => some (f :: fs)) read = some (fs.reverse ++ read) := by
  induction fs generalizing read with
  | nil => rfl
  | cons f fs ih => simp [List.foldlM_cons, ih]

theorem fields_rawField_eq_ok_iff {item : Reader Json} {fs : List (String × Json)}
    {s r : List Char} :
    fields (rawField item) [] s = .ok (fs, r) ↔ ReadsObject item fs.reverse s r := by
  rw [(follows_rawField item).fields_eq_ok_iff]
  constructor
  · rintro ⟨gs, h, he⟩
    rw [foldlM_raw] at he
    cases he
    simpa using h
  · intro h
    exact ⟨fs.reverse, h, (foldlM_raw _ _).trans (by simp)⟩

end NativeTypes.Json

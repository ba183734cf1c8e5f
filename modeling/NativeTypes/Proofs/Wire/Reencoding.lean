import NativeTypes.Proofs.Json.Raw.Spellings
import NativeTypes.Proofs.Wire.Containers
import NativeTypes.Proofs.Wire.RoundTrip

/-! # Writing again what was decoded

What is written of a type nests no deeper than any value that is decoded to the type
(`depth_toJson_le`). So a container that was decoded can be written and decoded again,
whatever its text looked like, and is the same container then
(`Container.decode_wireText_of_decode`). -/

namespace NativeTypes

namespace Wire

open Json (depthOfItems depthOfFields)

/-! ### Depth -/

theorem HasField.depth_le {fs : List (String × Json)} {k : String} {v : Json}
    (h : HasField fs k v) : v.depth ≤ depthOfFields fs :=
  Json.depthOfFields_le_iff.1 (Nat.le_refl _) _ h.mem

/-- The type of a member nests less deep than the member. -/
theorem IsLooseMember.depth_lt {n : String} {e i : Json} {o r : Bool}
    (h : IsLooseMember n e o r i) : e.depth < i.depth := by
  rcases h with ⟨fs, rfl, -, he, -⟩ | ⟨flags, rfl, -⟩
  · rw [Json.depth, Nat.lt_succ_iff]
    exact he.depth_le
  · rw [Json.depth, depthOfItems, depthOfItems]
    omega

/-- A node nests no deeper than an object if each of its values nests no deeper than the value of
some field of the object. -/
theorem depth_node_le {tag : Tag} {vs : List Json} {fs : List (String × Json)}
    (h : ∀ v ∈ vs, ∃ k w, HasField fs k w ∧ v.depth ≤ w.depth) :
    (tag.node vs).depth ≤ (Json.object fs).depth := by
  rw [Tag.node, Json.depth, Json.depth, Nat.add_le_add_iff_right, Json.depthOfFields_le_iff,
    List.forall_mem_cons]
  refine ⟨by simp [Json.depth], fun f hf => ?_⟩
  obtain ⟨k, w, hw, hle⟩ := h f.2 (List.of_mem_zip hf).2
  exact Nat.le_trans hle hw.depth_le

theorem depth_array_le {js is : List Json} (h : depthOfItems js ≤ depthOfItems is) :
    (Json.array js).depth ≤ (Json.array is).depth := by
  rw [Json.depth, Json.depth]
  exact Nat.succ_le_succ h

mutual

/-- **What is written of a type nests no deeper than any of its loose forms.** -/
theorem depth_toJson_le : ∀ (t : Ty) {j : Json}, LooseForm t j → t.toJson.depth ≤ j.depth
  | .primitive p, j, h => Nat.le_of_eq (congrArg Json.depth h.symm)
  | .predefined p, j, h => Nat.le_of_eq (congrArg Json.depth h.symm)
  | .reference n, j, h => by
    obtain ⟨fs, ⟨rfl, -⟩, hn⟩ := h
    exact depth_node_le (List.forall_mem_singleton.2 ⟨_, _, hn, Nat.le_refl _⟩)
  | .array r t, j, h => by
    obtain ⟨fs, e, ⟨rfl, -⟩, hr, he, h⟩ := h
    refine depth_node_le (List.forall_mem_cons.2 ⟨⟨_, _, hr, Nat.le_refl _⟩, ?_⟩)
    exact List.forall_mem_singleton.2 ⟨_, _, he, depth_toJson_le t h⟩
  | .operator .promise t, j, h | .operator .readonly t, j, h | .operator .optional t, j, h
  | .event .bubbling t, j, h | .event .direct t, j, h => by
    obtain ⟨fs, e, ⟨rfl, -⟩, he, h⟩ := h
    exact depth_node_le (List.forall_mem_singleton.2 ⟨_, _, he, depth_toJson_le t h⟩)
  | .withDefault t v, j, h => by
    obtain ⟨fs, e, ⟨rfl, -⟩, he, hv, h⟩ := h
    refine depth_node_le (List.forall_mem_cons.2 ⟨⟨_, _, he, depth_toJson_le t h⟩, ?_⟩)
    exact List.forall_mem_singleton.2 ⟨_, _, hv, Nat.le_refl _⟩
  | .function t ts, j, h => by
    obtain ⟨fs, e, es, ⟨rfl, -⟩, he, hes, h, hl⟩ := h
    refine depth_node_le (List.forall_mem_cons.2 ⟨⟨_, _, he, depth_toJson_le t h⟩, ?_⟩)
    exact List.forall_mem_singleton.2 ⟨_, _, hes, depth_array_le (depth_listToJson_le ts hl)⟩
  | .objectLiteral ts ms f, j, h => by
    obtain ⟨fs, es, os, ⟨rfl, -⟩, hes, hos, hf, hl, hm⟩ := h
    refine depth_node_le (List.forall_mem_cons.2 ⟨⟨_, _, hes, ?_⟩, List.forall_mem_cons.2
      ⟨⟨_, _, hos, ?_⟩, List.forall_mem_singleton.2 ⟨_, _, hf, Nat.le_refl _⟩⟩⟩)
    · exact depth_array_le (depth_listToJson_le ts hl)
    · exact depth_array_le (depth_membersToJson_le ms hm)
  | .union ts, j, h => by
    obtain ⟨fs, es, ⟨rfl, -⟩, hes, hl⟩ := h
    refine depth_node_le (List.forall_mem_singleton.2 ⟨_, _, hes, ?_⟩)
    exact depth_array_le (depth_listToJson_le ts hl)
  | .enumeration p, j, h => by
    obtain ⟨fs, ⟨rfl, -⟩, hp⟩ := h
    exact depth_node_le (List.forall_mem_singleton.2 ⟨_, _, hp, Nat.le_refl _⟩)

/-- The items of a list. -/
theorem depth_listToJson_le : ∀ (ts : List Ty) {js : List Json}, LooseListForm ts js →
    depthOfItems (Ty.listToJson ts) ≤ depthOfItems js
  | [], js, h => by simp [Ty.listToJson, depthOfItems]
  | t :: ts, js, h => by
    obtain ⟨e, es, rfl, he, hes⟩ := h
    have h1 := depth_toJson_le t he
    have h2 := depth_listToJson_le ts hes
    simp only [Ty.listToJson, depthOfItems]
    omega

/-- The members of a list. -/
theorem depth_membersToJson_le : ∀ (ms : List (Member Ty)) {js : List Json},
    LooseMembersForm ms js → depthOfItems (Ty.membersToJson ms) ≤ depthOfItems js
  | [], js, h => by simp [Ty.membersToJson, depthOfItems]
  | ⟨n, t, o, r⟩ :: ms, js, h => by
    obtain ⟨e, i, is, rfl, hi, he, his⟩ := h
    have h1 := depth_toJson_le t he
    have h2 := depth_membersToJson_le ms his
    have h3 := hi.depth_lt
    simp [Ty.membersToJson, depthOfItems, Json.depth, depthOfFields]
    omega

end

end Wire

namespace Container

theorem mem_defineName {n : String} {t : Ty} {l : List (String × Ty)} {e : String × Ty}
    (h : e ∈ defineName n t l) : e = (n, t) ∨ e ∈ l := by
  induction l with
  | nil => simpa [defineName] using h
  | cons f l ih =>
    rw [defineName] at h
    split at h
    · rename_i hf
      rcases List.mem_cons.1 h with rfl | h
      · exact .inl (by rw [hf])
      · exact .inr (List.mem_cons_of_mem _ h)
    · rcases List.mem_cons.1 h with rfl | h
      · exact .inr List.mem_cons_self
      · exact (ih h).imp_right (List.mem_cons_of_mem _)

theorem mem_of_mem_foldl {es : List (String × Ty)} {c : Container} {e : String × Ty}
    (h : e ∈ (es.foldl (fun c e => c.insert e.1 e.2) c).entries) : e ∈ c.entries ∨ e ∈ es := by
  induction es generalizing c with
  | nil => exact .inl h
  | cons f es ih =>
    rcases ih h with h | h
    · rcases mem_defineName h with rfl | h
      · exact .inr List.mem_cons_self
      · exact .inl h
    · exact .inr (List.mem_cons_of_mem _ h)

/-- Every definition of a container is one of those it was made of. -/
theorem mem_of_mem_ofList {es : List (String × Ty)} {e : String × Ty}
    (h : e ∈ (ofList es).entries) : e ∈ es :=
  (mem_of_mem_foldl h).resolve_left List.not_mem_nil

theorem entries_foldl {es : List (String × Ty)} {c : Container}
    (h : ((c.entries ++ es).map (·.1)).Nodup) :
    (es.foldl (fun c e => c.insert e.1 e.2) c).entries = c.entries ++ es := by
  induction es generalizing c with
  | nil => rw [List.foldl_nil, List.append_nil]
  | cons f es ih =>
    have hc : (c.insert f.1 f.2).entries = c.entries ++ [f] := by
      refine defineName_of_not_mem fun hf => ?_
      rw [List.map_append, List.map_cons] at h
      exact (List.nodup_append.1 h).2.2 _ hf _ List.mem_cons_self rfl
    have hs : c.entries ++ f :: es = (c.insert f.1 f.2).entries ++ es := by
      rw [hc, List.append_assoc, List.singleton_append]
    rw [hs] at h ⊢
    exact ih h

/-- A container is made of its definitions. -/
theorem ofList_entries (c : Container) : ofList c.entries = c := by
  have h : (ofList c.entries).entries = c.entries := entries_foldl (c := empty) c.nodup
  obtain ⟨es, hes⟩ := c
  generalize ofList es = b at h
  cases b
  cases h
  rfl

/-- What is written of a container holds no number. -/
theorem noNumber_toJson (c : Container) : c.toJson.NoNumber := by
  have fields : ∀ es : List (String × Ty),
      Json.NoNumberFields (es.map fun e => (e.1, e.2.toJson)) := by
    intro es
    induction es with
    | nil => trivial
    | cons e es ih => exact ⟨Wire.noNumber_toJson e.2, ih⟩
  exact ⟨fields c.entries, trivial⟩

/-- What is written of a container is a text of it, if it nests no deeper than the limit. -/
theorem decode_wireText_of_depth_le {c : Container}
    (h : ∀ e ∈ c.entries, e.2.toJson.depth ≤ 125) : Container.decode c.wireText = .ok c := by
  obtain ⟨x, hx, hv⟩ := (Json.isText_text .pretty c.noNumber_toJson).exists_raw
  refine (decode_eq_ok_iff hx).2 ?_
  rw [← c.ofList_entries]
  refine Wire.spellsContainer_of_value? hv rfl ?_
  rw [List.forall₂_map_left_iff, List.forall₂_same]
  intro e he
  exact ⟨rfl, h e he, Wire.tagIsText_of_form (Wire.form_toJson e.2),
    ((Wire.form_iff e.2).1 (Wire.form_toJson e.2)).1⟩

/-- What is written of the types of a container that was decoded nests no deeper than the limit. -/
theorem depth_le_of_decode {s : String} {c : Container} (h : Container.decode s = .ok c) :
    ∀ e ∈ c.entries, e.2.toJson.depth ≤ 125 := by
  obtain ⟨x, -, y, es, ⟨fs, rfl, hes⟩, rfl, -⟩ := (decode_eq_ok_iff_spells.2 s c).1 h
  intro e he
  obtain ⟨f, -, -, j, -, hd, -, hj⟩ := Wire.exists_of_mem_left hes.flip (mem_of_mem_ofList he)
  exact Nat.le_trans (Wire.depth_toJson_le e.2 hj) hd

/-- **A container that was decoded can be written and decoded again**, and it is the same then. -/
theorem decode_wireText_of_decode {s : String} {c : Container} (h : Container.decode s = .ok c) :
    Container.decode c.wireText = .ok c :=
  decode_wireText_of_depth_le (depth_le_of_decode h)

/-- A name with an escape is defined twice, a tag comes last, a member is a list, and there are
fields of other names. -/
theorem decode_wireText_of_decode_redefined :
    let member : Json := .array [.string "x", .string "RootTag"]
    let first : Json := .object [("element", .string "int32"), ("note", .null),
      ("readonly", .boolean true), ("type", .string "array")]
    let last : Json := .object [("type", .string "object_literal"), ("mixins", .array []),
      ("members", .array [member]), ("allMembersReadonly", .boolean false)]
    let j : Json := .object [("note", .array [.object []]),
      ("types", .object [("a \"b\"", first), ("c", .string "string"), ("a \"b\"", last)])]
    let t : Ty := .objectLiteral [] [⟨"x", .predefined .rootTag, false, false⟩] false
    let c := ofList [("a \"b\"", .array true (.primitive .int32)), ("c", .primitive .string),
      ("a \"b\"", t)]
    c.entries = [("a \"b\"", t), ("c", .primitive .string)] ∧
      Container.decode (j.text .pretty) = .ok c ∧ Container.decode c.wireText = .ok c := by
  intro member first last j t c
  have hj : j.NoNumber := by
    simp [j, first, last, member, Json.NoNumber, Json.NoNumberItems, Json.NoNumberFields]
  obtain ⟨x, hx, hv⟩ := (Json.isText_text .pretty hj).exists_raw
  have h : Container.decode (j.text .pretty) = .ok c := by
    refine (decode_eq_ok_iff hx).2 ?_
    refine Wire.spellsContainer_of_value? hv rfl (.cons ?_ (.cons ?_ (.cons ?_ .nil)))
    · exact ⟨rfl, by decide, by decide, _, _, ⟨rfl, _, rfl, .inl rfl⟩, rfl, rfl, rfl⟩
    · exact ⟨rfl, by decide, by decide, rfl⟩
    · have hm : Wire.LooseMembersForm [⟨"x", .predefined .rootTag, false, false⟩] [member] :=
        ⟨.string "RootTag", _, [], rfl, .inr ⟨[], rfl, .inl ⟨rfl, rfl, rfl⟩⟩, rfl, rfl⟩
      exact ⟨rfl, by decide, by decide, _, [], [member], ⟨rfl, _, rfl, .inl rfl⟩, rfl, rfl, rfl,
        rfl, hm⟩
  exact ⟨rfl, h, decode_wireText_of_decode h⟩

end Container

end NativeTypes

import NativeTypes.Proofs.Json.Messages
import NativeTypes.Proofs.Wire.Documents
import NativeTypes.Proofs.Wire.Renamed

/-! # Names that are not known

A text that is a bare name or an object with its tag first is read as the value is decoded, also
where that fails: the outermost node is read to its end before its fields are decoded, and only a
tag that is not known stops the reader at once (`Wire.tyReader_run_eq_error`). So a text of a type
in which one name is replaced by an unknown one is not decoded, whatever the depth of the name, and
the mismatch is that of the name.

`Ty.decode_of_renamed`: **the message starts with the name**, verbatim, unless the name is a
misspelled place and comes last in the description of the mismatch. -/

namespace NativeTypes

open Json (Mismatch Reader Fault DecodeError)

/-- A fault is a mismatch, at some place or at none. -/
def Json.Fault.Says (f : Fault) (m : Mismatch) : Prop :=
  (∃ left, f = .settled m left) ∨ ∃ rest, f = .floating m rest

theorem Json.Fault.Says.exists_report {f : Fault} {m : Mismatch} (h : f.Says m) (s : List Char) :
    ∃ place, f.report s = .mismatch m place ∧ ∀ p ∈ place, p.line ≠ 0 := by
  rcases h with ⟨left, rfl⟩ | ⟨rest, rfl⟩
  · refine ⟨some (.before s left), rfl, ?_⟩
    rintro p ⟨⟩
    exact Place.line_before_ne_zero s left
  · refine ⟨none, rfl, ?_⟩
    rintro p ⟨⟩

namespace Wire

/-! ### Reading what is not decoded -/

/-- A text of a value is read as the value. -/
theorem exists_value_run {j : Json} {s : String} {d : Nat} (hs : Json.IsText j s)
    (hd : j.depth ≤ d) : ∃ b, (Reader.value d).run s.toList = .ok (j, b) := by
  obtain ⟨x, ⟨a, b, ha, hx, hb⟩, hv⟩ := hs.exists_raw
  have hj : x.valueWithin? d = some j :=
    Json.Raw.valueWithin?_eq_some_iff.2 ⟨Json.Raw.depth_of_value? hv ▸ hd, hv⟩
  exact ⟨b, (Json.takes_value x d ha hx (hb.endsValue Json.endsValue_nil)).2 ⟨hj, rfl⟩⟩

/-- **A node with a known tag is read to its end**, and its fields are decoded then. -/
theorem draft_of_tag {d : Nat} {s b : List Char} {fs : List (String × Json)} {x : String}
    {tag : Tag} (h : (Reader.value d).run s = .ok (.object fs, b))
    (hx : HasField fs tagKey (.string x)) (ho : Tag.ofName x = .ok tag) :
    draft d s = match draftOf tag fs with
      | .ok dr => .ok (dr, b)
      | .error m => .error (.settled m (Json.byteLength b)) := by
  obtain ⟨t, e, ht, rfl, hfs⟩ := Json.value_run_eq_object_iff.1 h
  have hg : Json.fields (nodeField e) {} t = .ok (⟨some tag, (withoutTag fs).reverse⟩, b) :=
    (follows_nodeField e).fields_eq_ok_iff.2
      ⟨fs, hfs, ((foldlM_nodeStep rfl).2 ⟨⟨x, hx, ho⟩, by simp⟩).1⟩
  have hfin : Gathered.finish ⟨some tag, (withoutTag fs).reverse⟩ = draftOf tag fs := by
    simp [Gathered.finish, draftOf, decodeFields_withoutTag]
  simp only [draft, ht, Json.objectRest, hg, hfin]
  cases draftOf tag fs <;> rfl

theorem tagReader_run_eq_error {d : Nat} {s b : List Char} {x : String} {m : Mismatch}
    (h : (Reader.value d).run s = .ok (.string x, b)) (hx : Tag.ofName x = .error m) :
    tagReader.run s = .error (.settled m (Json.byteLength b)) := by
  simp only [tagReader, Json.string_run_eq_ok_iff.2 h, hx]

/-- **A tag that is not known stops the reader**, where it comes first. -/
theorem draft_of_unknown_tag {d : Nat} {s b : List Char} {fs : List (String × Json)} {x : String}
    {m : Mismatch} (h : (Reader.value d).run s = .ok (.object ((tagKey, .string x) :: fs), b))
    (hx : Tag.ofName x = .error m) : ∃ left, draft d s = .error (.settled m left) := by
  obtain ⟨t, e, ht, rfl, hfs⟩ := Json.value_run_eq_object_iff.1 h
  rcases hfs with ⟨-, hfs⟩ | ⟨t', ht', hfs⟩
  · cases hfs
  obtain ⟨k, a, u, v, hk, hkey, hc, hv⟩ := hfs.head
  refine ⟨Json.byteLength v, ?_⟩
  have hfields : Json.fields (nodeField e) {} t = .error (.settled m (Json.byteLength v)) := by
    have hf : nodeField e {} (String.ofList k) =
        .ok (tagReader.map fun t => { tag := some t, fields := [] }) := by
      simp [nodeField, hkey]
    rw [Json.fields, ht']
    exact Json.fieldsFrom_eq_error hk hf hc <| by
      simp only [Reader.map, tagReader_run_eq_error hv hx]
  simp only [draft, ht, Json.objectRest, hfields]
  rfl

/-- **What is not decoded is not read**, for the same reason. -/
theorem tyReader_run_eq_error {d : Nat} {s b : List Char} {j : Json} {m : Mismatch}
    (h : (Reader.value d).run s = .ok (j, b)) (hj : TagIsFirst j) (hm : decodeTy j = .error m) :
    ∃ f, (tyReader d).run s = .error f ∧ f.Says m := by
  have floats : ∀ {dr : Draft}, draft d s = .ok (dr, b) → dr.resolve = .error m →
      ∃ f, (tyReader d).run s = .error f ∧ f.Says m := by
    intro dr hd hr
    exact ⟨.floating m b, by simp only [tyReader, Reader.resolve, hd, hr], .inr ⟨b, rfl⟩⟩
  have settles : ∀ {left : Nat}, draft d s = .error (.settled m left) →
      ∃ f, (tyReader d).run s = .error f ∧ f.Says m := by
    intro left hd
    exact ⟨.settled m left, by simp only [tyReader, Reader.resolve, hd], .inl ⟨left, rfl⟩⟩
  rcases hj with ⟨x, rfl⟩ | ⟨x, fs, rfl, hfs⟩
  · rw [decodeTy] at hm
    exact floats (draft_eq_ok_iff.2 (.inl ⟨x, h, rfl⟩)) hm
  · have hx : HasField ((tagKey, .string x) :: fs) tagKey (.string x) :=
      hasField_cons_self.2 ⟨rfl, hfs⟩
    rw [decodeTy_object, tagOf_of_text hx] at hm
    cases ho : Tag.ofName x with
    | error n =>
      rw [ho] at hm
      cases hm
      obtain ⟨left, hd⟩ := draft_of_unknown_tag h ho
      exact settles hd
    | ok tag =>
      rw [ho] at hm
      have hd := draft_of_tag h hx ho
      replace hm : draftOf tag ((tagKey, .string x) :: fs) >>= Draft.resolve = .error m := hm
      cases hdr : draftOf tag ((tagKey, .string x) :: fs) with
      | error n =>
        rw [hdr] at hd hm
        cases hm
        exact settles hd
      | ok dr =>
        rw [hdr] at hd hm
        exact floats hd hm

/-! ### Messages -/

/-- How the message of a name that is not known starts. -/
def NameRole.notice : NameRole → String → String
  | type, u => "Unknown type name: " ++ u
  | backing, u => "Unknown enum element: " ++ u
  | tag, u => "unknown variant `" ++ u ++ "`"

/-- **The message of an unknown name starts with the name**, unless that is a misspelled place which
comes last in the description of the mismatch. -/
theorem NameRole.prefix_message_iff {k : NameRole} {u : String} {place : Option Json.Place}
    (hu : ¬ " at line ".toList <:+: u.toList) (hp : ∀ p ∈ place, p.line ≠ 0) :
    (k.notice u).toList <+: (DecodeError.mismatch (k.unknown u) place).message.toList ↔
      k = .tag ∨ ¬ Json.Place.Misspelled u := by
  cases k with
  | type =>
    have hs : "Unknown type name: " ++ u = "Unknown type name" ++ ": " ++ u := by simp
    show ("Unknown type name: " ++ u).toList <+:
      (Json.placedMessage ("Unknown type name: " ++ u) place).toList ↔ _
    rw [hs, Json.prefix_placedMessage_iff (by decide +kernel) hu hp]
    simp
  | backing =>
    have hs : "Unknown enum element: " ++ u = "Unknown enum element" ++ ": " ++ u := by simp
    show ("Unknown enum element: " ++ u).toList <+:
      (Json.placedMessage ("Unknown enum element: " ++ u) place).toList ↔ _
    rw [hs, Json.prefix_placedMessage_iff (by decide +kernel) hu hp]
    simp
  | tag =>
    refine iff_of_true ?_ (.inl rfl)
    have hn : notice .tag u = "unknown variant " ++ Json.ticked u := by
      show "unknown variant `" ++ u ++ "`" = "unknown variant " ++ ("`" ++ u ++ "`")
      simp [← String.append_assoc]
    have ht : (unknown .tag u).text = "unknown variant " ++ Json.ticked u ++
        (", expected one of " ++
          String.intercalate ", " ((Tag.all.map Tag.name).map Json.ticked)) :=
      String.append_assoc
    show _ <+: (Json.placedMessage (unknown .tag u).text place).toList
    rw [hn, ht, Json.placedMessage_of_ticked (by decide +kernel) hu (by decide +kernel),
      String.append_assoc]
    exact ⟨_, String.toList_append.symm⟩

/-! ### Decoding -/

/-- **A text of a renamed document is not decoded**, and the mismatch is that of the name. -/
theorem Renamed.decode_eq_mismatch {u : String} {k : NameRole} {t : Ty} {j : Json}
    (h : Renamed u k t j) (hd : t.toJson.depth ≤ 127) (hu : ¬ k.IsKnown u) {s : String}
    (hs : Json.IsText j s) : ∃ place, Ty.decode s = .error (.mismatch (k.unknown u) place) ∧
      ∀ p ∈ place, p.line ≠ 0 := by
  obtain ⟨b, hb⟩ := exists_value_run hs (h.depth_eq ▸ hd)
  obtain ⟨f, hf, hm⟩ := tyReader_run_eq_error hb h.tagIsFirst (h.decodeTy_eq_error hu)
  obtain ⟨place, hp, hline⟩ := hm.exists_report s.toList
  exact ⟨place, (Json.decode_eq_error hf).trans (congrArg _ hp), hline⟩

end Wire

/-- **An unknown name is reported from any depth.** Where one name in a document is replaced by a
text that is not a name in its place, and that has no ` at line ` inside, the document is not
decoded. The fault is the mismatch of that name, and its message starts with the name, verbatim:
always where the name is a tag, and for other names unless the text is a misspelled place. The name
may be replaced in the same way wherever the type stands in another one. -/
theorem Ty.decode_of_renamed {u : String} {k : Wire.NameRole} {t : Ty} {j : Json}
    (h : Wire.Renamed u k t j) (hd : t.toJson.depth ≤ 127) (hk : ¬ k.IsKnown u)
    (hu : ¬ " at line ".toList <:+: u.toList) :
    Json.IsText j (j.text .compact) ∧
    (∀ s, Json.IsText j s → ∃ place, Ty.decode s = .error (.mismatch (k.unknown u) place) ∧
      ((k.notice u).toList <+: (DecodeError.mismatch (k.unknown u) place).message.toList ↔
        k = .tag ∨ ¬ Json.Place.Misspelled u)) ∧
    ∀ (v : Ty) (p : Path), v.Reaches p t → ∃ Fs : List Frame,
      v.toJson = Fs.foldr Frame.toJson t.toJson ∧
        Wire.Renamed u k v (Fs.foldr Frame.toJson j) := by
  refine ⟨Json.isText_text .compact h.noNumber, fun s hs => ?_, fun _ _ hp => h.of_reaches hp⟩
  obtain ⟨place, hp, hline⟩ := h.decode_eq_mismatch hd hk hs
  exact ⟨place, hp, Wire.NameRole.prefix_message_iff hu hline⟩

/-- A backing that is not known, in the argument of a function inside a union. -/
theorem Ty.decode_of_renamed_nested :
    let F : Frame := .alternative [.primitive .string] []
    let G : Frame := .argument (.primitive .void) [.reference "T"] []
    let j := F.toJson (G.toJson (Wire.Tag.enumeration.node [.string "String"]))
    let t := F.fill (G.fill (.enumeration .string))
    (Wire.Renamed "String" .backing t j ∧ t.toJson.depth ≤ 127 ∧
      ¬ Wire.NameRole.backing.IsKnown "String" ∧ ¬ " at line ".toList <:+: "String".toList ∧
      ¬ Json.Place.Misspelled "String") ∧
      ∃ place, Ty.decode (j.text .compact) = .error (.mismatch (.unknownBacking "String") place) ∧
        (Wire.NameRole.backing.notice "String").toList <+:
          (DecodeError.mismatch (.unknownBacking "String") place).message.toList ∧
      ∃ Fs : List Frame, (array true t).toJson = Fs.foldr Frame.toJson t.toJson ∧
        Wire.Renamed "String" .backing (array true t) (Fs.foldr Frame.toJson j) := by
  intro F G j t
  have h : Wire.Renamed "String" .backing t j := .inside F (.inside G (.backing .string))
  have hd : t.toJson.depth ≤ 127 := by decide
  have hk : ¬ Wire.NameRole.backing.IsKnown "String" := by
    rintro ⟨p, hp⟩
    cases p <;> revert hp <;> decide
  have hu : ¬ " at line ".toList <:+: "String".toList := by decide
  have hm : ¬ Json.Place.Misspelled "String" := by
    rintro ⟨line, column, he, -⟩
    have hc : some 'S' = some 'a' := congrArg (fun s => s[1]?) he
    exact absurd hc (by decide)
  obtain ⟨hs, hj, hinside⟩ := decode_of_renamed h hd hk hu
  obtain ⟨place, hp, hn⟩ := hj _ hs
  exact ⟨⟨h, hd, hk, hu, hm⟩, place, hp, hn.2 (.inr hm),
    hinside _ [.element] (.cons (.array true t) (.nil t))⟩

/-- A text that has no ` at line ` inside, but is a misspelled place: with the blank before it, the
description ends like a place on line zero, and that is left out. -/
theorem Ty.decode_of_misspelled_place :
    let u := "at line 0 column 0"
    let s := "\"at line 0 column 0\""
    (Wire.Renamed u .type (.primitive .void) (.string u) ∧
      (Ty.primitive .void).toJson.depth ≤ 127 ∧ ¬ Wire.NameRole.type.IsKnown u ∧
      ¬ " at line ".toList <:+: u.toList ∧ (Json.string u).text .compact = s) ∧
      ∃ e, Ty.decode s = .error e ∧ e.message = "Unknown type name:" ∧
        ¬ (Wire.NameRole.type.notice u).toList <+: e.message.toList := by
  intro u s
  have hk : ¬ Wire.NameRole.type.IsKnown u := by
    rintro (⟨p, hp⟩ | ⟨p, hp⟩) <;> cases p <;> revert hp <;> decide
  have hu : ¬ " at line ".toList <:+: u.toList := by decide +kernel
  have hs : (Json.string u).text .compact = s := by decide +kernel
  have hf : (match Ty.decode s with
      | .ok _ => none
      | .error e => some e.message) = some "Unknown type name:" := by decide +kernel
  refine ⟨⟨.primitive .void, by decide, hk, hu, hs⟩, ?_⟩
  cases hd : Ty.decode s with
  | ok t =>
    rw [hd] at hf
    cases hf
  | error e =>
    rw [hd] at hf
    have hm : e.message = "Unknown type name:" := Option.some.inj hf
    refine ⟨e, rfl, hm, ?_⟩
    rw [hm]
    decide +kernel

end NativeTypes

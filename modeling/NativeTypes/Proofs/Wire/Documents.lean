import NativeTypes.Proofs.Json.Raw.Spellings
import NativeTypes.Proofs.Json.Writing
import NativeTypes.Proofs.Wire.Laxity

/-! # Documents of a type

A document of a type is a text of one of its forms. Every document that nests no deeper than the
limit is decoded to its type (`Ty.decode_of_isText`). Which type that is does not depend on how the
document is spelled: neither on the blanks and escapes of the text (`Json.IsText`) nor on the order
of fields and on what stands in fields that a node or a member does not have (`Wire.Form`).
Conversely, no text that nests deeper is decoded (`Json.IsText.depth_le`). -/

namespace NativeTypes

namespace Wire

/-- **A document of a type is read as the type**, if it nests no deeper than the reader was
told. -/
theorem tyReader_run_of_isText {t : Ty} {j : Json} {s : String} {d : Nat} (h : Form t j)
    (hs : Json.IsText j s) (hd : j.depth ≤ d) :
    ∃ b, (tyReader d).run s.toList = .ok (t, b) ∧ Json.blank b = [] := by
  obtain ⟨x, ⟨a, b, ha, hx, hb⟩, hv⟩ := hs.exists_raw
  have ht : typeOf? d x = some t :=
    typeOf?_eq_some_iff.2 ⟨j, hv, hd, tagIsText_of_form h, ((form_iff t).1 h).1⟩
  exact ⟨b, (takes_tyReader d x ha hx (hb.endsValue Json.endsValue_nil)).2 ⟨ht, rfl⟩,
    hb.blank_eq_nil⟩

end Wire

/-- **A document of a type is decoded to the type**, if it nests no deeper than the limit. -/
theorem Ty.decode_of_isText {t : Ty} {j : Json} {s : String} (h : Wire.Form t j)
    (hs : Json.IsText j s) (hd : j.depth ≤ 127) : Ty.decode s = .ok t :=
  Json.decode_eq_ok_iff.2 (Wire.tyReader_run_of_isText h hs hd)

/-- The tag comes last, the member lacks a flag and has a field of another name, and the text is
spread over lines. -/
theorem Ty.decode_of_isText_pretty :
    let t := objectLiteral [] [⟨"a \"b\"", primitive .int32, false, true⟩] true
    let member : Json := .object [("type", .string "int32"), ("readonly", .boolean true),
      ("note", .array [.null, .object []]), ("name", .string "a \"b\"")]
    let j : Json := .object [("members", .array [member]), ("allMembersReadonly", .boolean true),
      ("mixins", .array []), ("elements", .null), ("type", .string "object_literal")]
    Wire.Form t j ∧ Json.IsText j (j.text .pretty) ∧ j.depth ≤ 127 ∧
      Ty.decode (j.text .pretty) = .ok t := by
  intro t member j
  have hm : Wire.MembersForm [⟨"a \"b\"", primitive .int32, false, true⟩] [member] :=
    ⟨_, .string "int32", [], rfl, rfl, rfl, .inr ⟨rfl, rfl⟩, .inl rfl, rfl, rfl⟩
  have h : Wire.Form t j := ⟨_, [], [member], ⟨rfl, rfl⟩, rfl, rfl, rfl, rfl, hm⟩
  have hs : Json.IsText j (j.text .pretty) := Json.isText_text .pretty <| by
    simp [j, member, Json.NoNumber, Json.NoNumberItems, Json.NoNumberFields]
  have hd : j.depth ≤ 127 := by decide
  exact ⟨h, hs, hd, decode_of_isText h hs hd⟩

/-- **A text that is decoded nests no deeper than the limit.** -/
theorem Json.IsText.depth_le {j : Json} {s : String} {t : Ty} (hs : IsText j s)
    (h : Ty.decode s = .ok t) : j.depth ≤ 127 := by
  obtain ⟨x, hx, hv⟩ := hs.exists_raw
  obtain ⟨i, hi, hd, -, -⟩ := (Ty.decode_eq_ok_iff hx).1 h
  cases hv.symm.trans hi
  exact hd

end NativeTypes

import NativeTypes.Container
import NativeTypes.Json.Skip
import NativeTypes.Wire.Decode

/-! # Reading a document

Reads types, members and containers from the text of a document. Only the outermost node of a type
is read from the text itself: its tag is decoded as soon as it is met, and the values of its other
fields are read as they are and decoded afterwards, so that malformed text anywhere in the node
comes before a mismatch in one of its fields.

A bare name, and the name of the backing of an enumeration, are looked up when the type has been
read. A mismatch there settles in what is around the type, or not at all. -/

namespace NativeTypes

open Json (Reader Mismatch Fault blank stringRest byteLength closeList failAhead wrongKindAt
  objectRest listRest)

namespace Wire

/-- Reads a tag. -/
def tagReader : Reader Tag where
  run s :=
    match (Reader.string expectedTag).run s with
    | .error f => .error f
    | .ok (n, r) =>
      match Tag.ofName n with
      | .ok t => .ok (t, r)
      | .error m => .error (.settled m (byteLength r))
  shrinks h := by
    split at h
    · simp at h
    · rename_i hr
      have := (Reader.string expectedTag).shrinks hr
      split at h <;> simp_all

/-- What was read of a node: its tag, and its other fields with the last one first. -/
structure Gathered where
  tag : Option Tag := none
  fields : List (String × Json) := []

/-- How the fields of a node are read. -/
def nodeField (depth : Nat) (g : Gathered) (key : String) :
    Except Mismatch (Reader Gathered) :=
  if key = tagKey then
    if g.tag.isSome then .error (.duplicateField tagKey)
    else .ok (tagReader.map fun t => { g with tag := some t })
  else .ok ((Reader.value depth).map fun j => { g with fields := (key, j) :: g.fields })

/-- The draft of what was read of a node. -/
def Gathered.finish (g : Gathered) : Except Mismatch Draft :=
  match g.tag with
  | none => .error (.missingField tagKey)
  | some t => draftOf t g.fields.reverse

/-- Reads a draft: a bare name, or a node in which lists and objects nest at most `depth` deep, the
node included. -/
def draft (depth : Nat) (s : List Char) : Except Fault (Draft × List Char) :=
  match blank s with
  | '"' :: r =>
    match stringRest r with
    | .error f => .error f
    | .ok (cs, t) => .ok (.named (String.ofList cs), t)
  | '{' :: r =>
    match depth with
    | 0 => failAhead .tooDeep ('{' :: r)
    | d + 1 => objectRest (nodeField d) {} Gathered.finish r
  | '[' :: r =>
    match depth with
    | 0 => failAhead .tooDeep ('[' :: r)
    | _ + 1 => .error (.settled (.wrongKind .sequence expectedType) (byteLength (closeList r)))
  | r => .error (wrongKindAt expectedType r)

theorem draft_lt {depth : Nat} {s r : List Char} {d : Draft} (h : draft depth s = .ok (d, r)) :
    r.length < s.length := by
  have hb := Json.blank_le s
  unfold draft at h
  split at h
  · rename_i hs
    simp only [hs, List.length_cons] at hb
    split at h
    · simp at h
    · rename_i hr
      have := Json.stringRest_lt hr
      simp only [Except.ok.injEq, Prod.mk.injEq] at h
      obtain ⟨_, rfl⟩ := h
      omega
  · rename_i hs
    simp only [hs, List.length_cons] at hb
    split at h
    · simp [failAhead] at h
    · have := Json.objectRest_lt h
      omega
  · split at h
    · simp [failAhead] at h
    · simp at h
  · simp at h

/-- **Reads a type** in which lists and objects nest at most `depth` deep. -/
def tyReader (depth : Nat) : Reader Ty :=
  Reader.resolve Draft.resolve ⟨draft depth, draft_lt⟩

/-- Reads an object or a list of fixed positions. -/
def structReader {σ α : Type} (expected : String)
    (field : σ → String → Except Mismatch (Reader σ)) (positions : List (σ → Reader σ)) (init : σ)
    (ofFields ofPositions : σ → Except Mismatch α) : Reader α where
  run s :=
    match blank s with
    | '{' :: r => objectRest field init ofFields r
    | '[' :: r => listRest positions init ofPositions r
    | r => .error (wrongKindAt expected r)
  shrinks {s a r} h := by
    have hb := Json.blank_le s
    split at h
    · rename_i hs
      simp only [hs, List.length_cons] at hb
      have := Json.objectRest_lt h
      omega
    · rename_i hs
      simp only [hs, List.length_cons] at hb
      have := Json.listRest_lt h
      omega
    · simp at h

/-! ### Members -/

/-- Reads the value of a field of a member. -/
def memberFieldReader (depth : Nat) (s : MemberSlots) : MemberField → Reader MemberSlots
  | .name => (Reader.string expectedText).map fun x => { s with name := some x }
  | .type => (tyReader depth).map fun x => { s with type := some x }
  | .optional => Reader.boolean.map fun x => { s with optional := some x }
  | .readonly => Reader.boolean.map fun x => { s with readonly := some x }

/-- How the fields of a member are read. -/
def memberField (depth : Nat) (s : MemberSlots) (key : String) :
    Except Mismatch (Reader MemberSlots) :=
  match MemberField.ofKey? key with
  | none => .ok (Reader.skip.map fun _ => s)
  | some f =>
    if s.has f then .error (.duplicateField key) else .ok (memberFieldReader depth s f)

/-- Reads a member; `depth` is for what is inside it. -/
def memberReader (depth : Nat) : Reader (Member Ty) :=
  structReader expectedMember (memberField depth)
    (MemberField.all.map fun f s => memberFieldReader depth s f) {}
    (MemberSlots.build MemberField.missing) (MemberSlots.build MemberField.cutOff)

/-! ### Containers -/

/-- Reads the definitions of a container. -/
def definitionsReader (depth : Nat) : Reader Container where
  run s :=
    match blank s with
    | '{' :: r =>
      objectRest (fun (c : Container) n => .ok ((tyReader depth).map fun t => c.insert n t))
        .empty .ok r
    | r => .error (wrongKindAt expectedDefinitions r)
  shrinks {s a r} h := by
    have hb := Json.blank_le s
    split at h
    · rename_i hs
      simp only [hs, List.length_cons] at hb
      have := Json.objectRest_lt h
      omega
    · simp at h

/-- The field of a container. -/
def definitionsKey : String := "types"

/-- How the fields of a container are read. -/
def containerField (depth : Nat) (c : Option Container) (key : String) :
    Except Mismatch (Reader (Option Container)) :=
  if key = definitionsKey then
    if c.isSome then .error (.duplicateField definitionsKey)
    else .ok ((definitionsReader depth).map some)
  else .ok (Reader.skip.map fun _ => c)

/-- What was read of a container. -/
def finishContainer (missing : Mismatch) : Option Container → Except Mismatch Container
  | some c => .ok c
  | none => .error missing

/-- Reads a container; `depth` is for the types in it. -/
def containerReader (depth : Nat) : Reader Container :=
  structReader expectedContainer (containerField depth)
    [fun _ => (definitionsReader depth).map some] none
    (finishContainer (.missingField definitionsKey))
    (finishContainer (.wrongLength 0 "struct File with 1 element"))

end Wire

/-- **The type of a document.** -/
def Ty.decode (text : String) : Except Json.DecodeError Ty :=
  (Wire.tyReader Json.maxDepth).decode text

/-- The member of a document. -/
def Member.decode (text : String) : Except Json.DecodeError (Member Ty) :=
  (Wire.memberReader (Json.maxDepth - 1)).decode text

/-- **The container of a document.** -/
def Container.decode (text : String) : Except Json.DecodeError Container :=
  (Wire.containerReader (Json.maxDepth - 2)).decode text

/-- The message of a container that was not read. -/
def Json.DecodeError.containerMessage (e : Json.DecodeError) : String :=
  "Invalid container JSON: " ++ e.message

end NativeTypes

import NativeTypes.Json.Token

/-! # Reading a text

A `Reader` takes a value off the front of a text, and it takes at least one character: that is what
lets lists and objects be read one item after the other. `Reader.value` reads any JSON value that
nests no deeper than it is told.

A reader that expects something definite fails with a floating mismatch where it finds something
else. Inside a list or an object such a mismatch settles after the closing bracket, if that comes
next (`closeList`, `closeObject`). -/

namespace NativeTypes.Json

/-- Reads values off the front of texts; what is left is shorter. -/
structure Reader (α : Type) where
  run : List Char → Except Fault (α × List Char)
  shrinks : ∀ {s a r}, run s = .ok (a, r) → r.length < s.length

namespace Reader

/-- Applies a function to what is read. -/
def map {α β : Type} (f : α → β) (x : Reader α) : Reader β where
  run s :=
    match x.run s with
    | .ok (a, r) => .ok (f a, r)
    | .error e => .error e
  shrinks {s b r} h := by
    split at h
    · rename_i a r' hr
      have := x.shrinks hr
      simp_all
    · simp at h

/-- Goes on with what is read; a mismatch floats. -/
def resolve {α β : Type} (f : α → Except Mismatch β) (x : Reader α) : Reader β where
  run s :=
    match x.run s with
    | .ok (a, r) =>
      match f a with
      | .ok b => .ok (b, r)
      | .error m => .error (.floating m r)
    | .error e => .error e
  shrinks {s b r} h := by
    split at h
    · rename_i a r' hr
      have := x.shrinks hr
      split at h <;> simp_all
    · simp at h

end Reader

/-! ### Punctuation -/

/-- What follows a value inside brackets: another item, or their end. -/
inductive Next where
  | more (rest : List Char)
  | close (rest : List Char)

/-- What is left of the text. -/
def Next.rest : Next → List Char
  | more r => r
  | close r => r

/-- What follows the opening bracket of a list; an item is left with its blanks removed. -/
def firstItem (s : List Char) : Except Fault Next :=
  match blank s with
  | [] => failAhead .listEnds []
  | ']' :: r => .ok (.close r)
  | r => .ok (.more r)

/-- What follows an item of a list. -/
def afterItem (s : List Char) : Except Fault Next :=
  match blank s with
  | [] => failAhead .listEnds []
  | ']' :: r => .ok (.close r)
  | ',' :: r =>
    match blank r with
    | [] => failAhead .valueEnds []
    | ']' :: t => failAhead .trailingComma (']' :: t)
    | t => .ok (.more t)
  | r => failAhead .listGoesOn r

/-- What follows the opening brace of an object: a field is left without the quote that opens its
name. -/
def firstField (s : List Char) : Except Fault Next :=
  match blank s with
  | [] => failAhead .objectEnds []
  | '}' :: r => .ok (.close r)
  | '"' :: r => .ok (.more r)
  | r => failAhead .keyExpected r

/-- What follows a field of an object. -/
def afterField (s : List Char) : Except Fault Next :=
  match blank s with
  | [] => failAhead .objectEnds []
  | '}' :: r => .ok (.close r)
  | ',' :: r =>
    match blank r with
    | [] => failAhead .valueEnds []
    | '"' :: t => .ok (.more t)
    | '}' :: t => failAhead .trailingComma ('}' :: t)
    | t => failAhead .keyExpected t
  | r => failAhead .objectGoesOn r

/-- What follows the colon between a name and a value. -/
def colon (s : List Char) : Except Fault (List Char) :=
  match blank s with
  | [] => failAhead .objectEnds []
  | ':' :: r => .ok r
  | r => failAhead .colonExpected r

/-- Moves on to the end of an object, if that comes next. -/
def closeObject (s : List Char) : List Char :=
  match blank s with
  | '}' :: r => r
  | r => r

/-- Moves on to the end of a list, or to its next item, if either comes next. -/
def closeList (s : List Char) : List Char :=
  match blank s with
  | ']' :: r => r
  | ',' :: r => blank r
  | r => r

theorem firstItem_le {s : List Char} {n : Next} (h : firstItem s = .ok n) :
    n.rest.length ≤ s.length := by
  have hb := blank_le s
  unfold firstItem at h
  split at h
  · simp [failAhead] at h
  · rename_i hs
    simp only [Except.ok.injEq] at h
    subst h
    simp only [hs, List.length_cons] at hb
    simp only [Next.rest]; omega
  · simp only [Except.ok.injEq] at h
    subst h
    exact hb

theorem afterItem_lt {s : List Char} {n : Next} (h : afterItem s = .ok n) :
    n.rest.length < s.length := by
  have hb := blank_le s
  unfold afterItem at h
  split at h
  · simp [failAhead] at h
  · rename_i hs
    simp only [Except.ok.injEq] at h
    subst h
    simp only [hs, List.length_cons] at hb
    simp only [Next.rest]; omega
  · rename_i r hs
    have hr := blank_le r
    simp only [hs, List.length_cons] at hb
    split at h
    · simp [failAhead] at h
    · simp [failAhead] at h
    · simp only [Except.ok.injEq] at h
      subst h
      simp only [Next.rest]; omega
  · simp [failAhead] at h

theorem firstField_lt {s : List Char} {n : Next} (h : firstField s = .ok n) :
    n.rest.length < s.length := by
  have hb := blank_le s
  unfold firstField at h
  split at h
  · simp [failAhead] at h
  iterate 2
    · rename_i hs
      simp only [Except.ok.injEq] at h
      subst h
      simp only [hs, List.length_cons] at hb
      simp only [Next.rest]; omega
  · simp [failAhead] at h

theorem afterField_lt {s : List Char} {n : Next} (h : afterField s = .ok n) :
    n.rest.length < s.length := by
  have hb := blank_le s
  unfold afterField at h
  split at h
  · simp [failAhead] at h
  · rename_i hs
    simp only [Except.ok.injEq] at h
    subst h
    simp only [hs, List.length_cons] at hb
    simp only [Next.rest]; omega
  · rename_i r hs
    have hr := blank_le r
    simp only [hs, List.length_cons] at hb
    split at h
    · simp [failAhead] at h
    · rename_i ht
      simp only [Except.ok.injEq] at h
      subst h
      simp only [ht, List.length_cons] at hr
      simp only [Next.rest]; omega
    · simp [failAhead] at h
    · simp [failAhead] at h
  · simp [failAhead] at h

theorem colon_lt {s r : List Char} (h : colon s = .ok r) : r.length < s.length := by
  have hb := blank_le s
  unfold colon at h
  split at h
  · simp [failAhead] at h
  · rename_i hs
    simp only [Except.ok.injEq] at h
    subst h
    simp only [hs, List.length_cons] at hb
    omega
  · simp [failAhead] at h

/-! ### Lists and objects -/

/-- Reads the items of a list, at least one, and the bracket that closes it. -/
def itemsFrom {α : Type} (item : Reader α) (s : List Char) : Except Fault (List α × List Char) :=
  match _h : item.run s with
  | .error f => .error f
  | .ok (a, r) =>
    match _hn : afterItem r with
    | .error f => .error f
    | .ok (.close t) => .ok ([a], t)
    | .ok (.more t) =>
      match itemsFrom item t with
      | .error f => .error f
      | .ok (as, u) => .ok (a :: as, u)
termination_by s.length
decreasing_by
  have := item.shrinks _h
  have := afterItem_lt _hn
  simp only [Next.rest] at this
  omega

/-- Reads a list after its opening bracket. -/
def items {α : Type} (item : Reader α) (s : List Char) : Except Fault (List α × List Char) :=
  match firstItem s with
  | .error f => .error f
  | .ok (.close r) => .ok ([], r)
  | .ok (.more r) => itemsFrom item r

/-- Reads the fields of an object, at least one, and the brace that closes it. The text starts after
the quote that opens the first name. Each name, together with what was read before, decides how its
value is read. -/
def fieldsFrom {σ : Type} (field : σ → String → Except Mismatch (Reader σ)) (state : σ)
    (s : List Char) : Except Fault (σ × List Char) :=
  match _hk : stringRest s with
  | .error f => .error f
  | .ok (k, r) =>
    match field state (String.ofList k) with
    | .error m => .error (.floating m r)
    | .ok reader =>
      match _hc : colon r with
      | .error f => .error f
      | .ok t =>
        match _hv : reader.run t with
        | .error f => .error f
        | .ok (next, u) =>
          match _hn : afterField u with
          | .error f => .error f
          | .ok (.close v) => .ok (next, v)
          | .ok (.more v) => fieldsFrom field next v
termination_by s.length
decreasing_by
  have := stringRest_lt _hk
  have := colon_lt _hc
  have := reader.shrinks _hv
  have := afterField_lt _hn
  simp only [Next.rest] at this
  omega

/-- Reads the fields of an object after its opening brace. -/
def fields {σ : Type} (field : σ → String → Except Mismatch (Reader σ)) (state : σ)
    (s : List Char) : Except Fault (σ × List Char) :=
  match firstField s with
  | .error f => .error f
  | .ok (.close r) => .ok (state, r)
  | .ok (.more r) => fieldsFrom field state r

theorem itemsFrom_lt {α : Type} {item : Reader α} {s r : List Char} {as : List α}
    (h : itemsFrom item s = .ok (as, r)) : r.length < s.length := by
  fun_induction itemsFrom item s generalizing as r with
  | case1 => simp at h
  | case2 => simp at h
  | case3 s a t hi u hn =>
    have h1 := item.shrinks hi
    have h2 := afterItem_lt hn
    simp only [Except.ok.injEq, Prod.mk.injEq] at h
    simp only [Next.rest] at h2
    obtain ⟨_, rfl⟩ := h
    omega
  | case4 => simp at h
  | case5 s a t hi u hn as' v hr ih =>
    have h1 := item.shrinks hi
    have h2 := afterItem_lt hn
    have h3 := ih hr
    simp only [Except.ok.injEq, Prod.mk.injEq] at h
    simp only [Next.rest] at h2
    obtain ⟨_, rfl⟩ := h
    omega

theorem items_le {α : Type} {item : Reader α} {s r : List Char} {as : List α}
    (h : items item s = .ok (as, r)) : r.length ≤ s.length := by
  unfold items at h
  split at h
  · simp at h
  · rename_i hn
    have := firstItem_le hn
    simp_all [Next.rest]
  · rename_i hn
    have h1 := firstItem_le hn
    have h2 := itemsFrom_lt h
    simp only [Next.rest] at h1
    omega

theorem fieldsFrom_lt {σ : Type} {field : σ → String → Except Mismatch (Reader σ)}
    {state next : σ} {s r : List Char} (h : fieldsFrom field state s = .ok (next, r)) :
    r.length < s.length := by
  fun_induction fieldsFrom field state s generalizing next r with
  | case1 | case2 | case3 | case4 | case5 => simp at h
  | case6 state s k t hk reader _ u hc next' v hv w hn =>
    have h1 := stringRest_lt hk
    have h2 := colon_lt hc
    have h3 := reader.shrinks hv
    have h4 := afterField_lt hn
    simp only [Except.ok.injEq, Prod.mk.injEq] at h
    simp only [Next.rest] at h4
    obtain ⟨_, rfl⟩ := h
    omega
  | case7 state s k t hk reader _ u hc next' v hv w hn ih =>
    have h1 := stringRest_lt hk
    have h2 := colon_lt hc
    have h3 := reader.shrinks hv
    have h4 := afterField_lt hn
    have h5 := ih h
    simp only [Next.rest] at h4
    omega

theorem fields_lt {σ : Type} {field : σ → String → Except Mismatch (Reader σ)}
    {state next : σ} {s r : List Char} (h : fields field state s = .ok (next, r)) :
    r.length < s.length := by
  unfold fields at h
  split at h
  · simp at h
  · rename_i hn
    have := firstField_lt hn
    simp_all [Next.rest]
  · rename_i hn
    have h1 := firstField_lt hn
    have h2 := fieldsFrom_lt h
    simp only [Next.rest] at h1
    omega

/-! ### Values -/

/-- Reads a value that holds no others, unless the text starts with something else. -/
def scalar? : List Char → Option (Except Fault (Json × List Char))
  | 'n' :: r => some ((word ['u', 'l', 'l'] r).map fun t => (null, t))
  | 't' :: r => some ((word ['r', 'u', 'e'] r).map fun t => (boolean true, t))
  | 'f' :: r => some ((word ['a', 'l', 's', 'e'] r).map fun t => (boolean false, t))
  | '"' :: r => some ((stringRest r).map fun x => (string (String.ofList x.1), x.2))
  | c :: r =>
    if c = '-' ∨ c.isDigit then some ((readNumber (c :: r)).map fun x => (number x.1, x.2))
    else none
  | [] => none

/-- Fails where no value starts. -/
def noValue {α : Type} (s : List Char) : Except Fault α :=
  failAhead (if s.isEmpty then .valueEnds else .valueExpected) s

/-- Reads a value; `nested` reads the values inside it, unless that would be too deep. -/
def valueWith (nested : Option (Reader Json)) (s : List Char) : Except Fault (Json × List Char) :=
  match blank s with
  | '[' :: r =>
    match nested with
    | none => failAhead .tooDeep ('[' :: r)
    | some item => (items item r).map fun x => (array x.1, x.2)
  | '{' :: r =>
    match nested with
    | none => failAhead .tooDeep ('{' :: r)
    | some item =>
      (fields (fun fs k => .ok (item.map fun v => (k, v) :: fs)) [] r).map fun x =>
        (object x.1.reverse, x.2)
  | r => (scalar? r).getD (noValue r)

theorem map_eq_ok {ε α β : Type} {x : Except ε α} {f : α → β} {b : β}
    (h : x.map f = .ok b) : ∃ a, x = .ok a ∧ f a = b := by
  cases x with
  | error e => simp [Except.map] at h
  | ok a => exact ⟨a, rfl, by simpa [Except.map] using h⟩

theorem scalar?_lt {s r : List Char} {j : Json} (h : scalar? s = some (.ok (j, r))) :
    r.length < s.length := by
  unfold scalar? at h
  split at h
  iterate 3
    · simp only [Option.some.injEq] at h
      obtain ⟨t, ht, he⟩ := map_eq_ok h
      have := word_le ht
      simp only [Prod.mk.injEq] at he
      obtain ⟨_, rfl⟩ := he
      simp; omega
  · simp only [Option.some.injEq] at h
    obtain ⟨x, hx, he⟩ := map_eq_ok h
    have := stringRest_lt hx
    simp only [Prod.mk.injEq] at he
    obtain ⟨_, rfl⟩ := he
    simp; omega
  · split at h
    · simp only [Option.some.injEq] at h
      obtain ⟨x, hx, he⟩ := map_eq_ok h
      have := readNumber_lt hx
      simp only [Prod.mk.injEq] at he
      obtain ⟨_, rfl⟩ := he
      exact this
    · simp at h
  · simp at h

theorem valueWith_lt {nested : Option (Reader Json)} {s r : List Char} {j : Json}
    (h : valueWith nested s = .ok (j, r)) : r.length < s.length := by
  have hb := blank_le s
  unfold valueWith at h
  split at h
  · rename_i hs
    simp only [hs, List.length_cons] at hb
    split at h
    · simp [failAhead] at h
    · obtain ⟨x, hx, he⟩ := map_eq_ok h
      have := items_le hx
      simp only [Prod.mk.injEq] at he
      obtain ⟨_, rfl⟩ := he
      omega
  · rename_i hs
    simp only [hs, List.length_cons] at hb
    split at h
    · simp [failAhead] at h
    · obtain ⟨x, hx, he⟩ := map_eq_ok h
      have := fields_lt hx
      simp only [Prod.mk.injEq] at he
      obtain ⟨_, rfl⟩ := he
      omega
  · cases hx : scalar? (blank s) with
    | none => simp [hx, noValue, failAhead] at h
    | some x =>
      rw [hx, Option.getD_some] at h
      subst h
      have := scalar?_lt hx
      omega

/-- **Reads a value** in which lists and objects nest at most `depth` deep. -/
def Reader.value : Nat → Reader Json
  | 0 => ⟨valueWith none, valueWith_lt⟩
  | depth + 1 => ⟨valueWith (some (value depth)), valueWith_lt⟩

/-! ### Expected values -/

/-- The fault of a text whose next value is not of the expected kind. A bracket is left where it
is. -/
def wrongKindAt (expected : String) (s : List Char) : Fault :=
  match s with
  | '[' :: r => .settled (.wrongKind .sequence expected) (byteLength ('[' :: r))
  | '{' :: r => .settled (.wrongKind .map expected) (byteLength ('{' :: r))
  | r =>
    match (scalar? r).getD (noValue r) with
    | .ok (j, t) => .settled (.wrongKind j.found expected) (byteLength t)
    | .error f => f

/-- Reads a string. -/
def Reader.string (expected : String) : Reader String where
  run s :=
    match blank s with
    | '"' :: r => (stringRest r).map fun x => (String.ofList x.1, x.2)
    | r => .error (wrongKindAt expected r)
  shrinks {s a r} h := by
    have hb := blank_le s
    split at h
    · rename_i hs
      obtain ⟨x, hx, he⟩ := map_eq_ok h
      have := stringRest_lt hx
      simp only [hs, List.length_cons] at hb
      simp only [Prod.mk.injEq] at he
      obtain ⟨_, rfl⟩ := he
      omega
    · simp at h

/-- Reads a truth value. -/
def Reader.boolean : Reader Bool where
  run s :=
    match scalar? (blank s) with
    | some (.ok (.boolean b, r)) => .ok (b, r)
    | _ => .error (wrongKindAt "a boolean" (blank s))
  shrinks {s a r} h := by
    have hb := blank_le s
    split at h
    · rename_i hs
      have := scalar?_lt hs
      simp only [Except.ok.injEq, Prod.mk.injEq] at h
      obtain ⟨_, rfl⟩ := h
      omega
    · simp at h

/-- Reads an object after its opening brace, and finishes what was gathered from its fields. -/
def objectRest {σ α : Type} (field : σ → String → Except Mismatch (Reader σ)) (init : σ)
    (finish : σ → Except Mismatch α) (s : List Char) : Except Fault (α × List Char) :=
  match fields field init s with
  | .error f => .error (f.settle closeObject)
  | .ok (state, r) =>
    match finish state with
    | .ok a => .ok (a, r)
    | .error m => .error (.settled m (byteLength r))

/-- The end of a list of which no more items are expected. -/
def endList (s : List Char) : Except Fault (List Char) :=
  match blank s with
  | [] => failAhead .listEnds []
  | ']' :: r => .ok r
  | ',' :: r =>
    match blank r with
    | ']' :: t => failAhead .trailingComma (']' :: t)
    | t => failAhead .trailingText t
  | r => failAhead .trailingText r

/-- Reads items of a list, each with a reader of its own, until there are no more of either. The
text is left before the closing bracket. -/
def positional {σ : Type} (next : List Char → Except Fault Next) (state : σ) (s : List Char) :
    List (σ → Reader σ) → Except Fault (σ × List Char)
  | [] => .ok (state, s)
  | x :: xs =>
    match next s with
    | .error f => .error f
    | .ok (.close _) => .ok (state, s)
    | .ok (.more r) =>
      match (x state).run r with
      | .error f => .error f
      | .ok (state, t) => positional afterItem state t xs

/-- Reads a list of fixed positions after its opening bracket, and finishes what was gathered. -/
def listRest {σ α : Type} (positions : List (σ → Reader σ)) (init : σ)
    (finish : σ → Except Mismatch α) (s : List Char) : Except Fault (α × List Char) :=
  match positional firstItem init s positions with
  | .error f => .error (f.settle closeList)
  | .ok (state, r) =>
    match finish state with
    | .ok a => (endList r).map fun t => (a, t)
    | .error m => .error (.settled m (byteLength (closeList r)))

theorem objectRest_lt {σ α : Type} {field : σ → String → Except Mismatch (Reader σ)} {init : σ}
    {finish : σ → Except Mismatch α} {s r : List Char} {a : α}
    (h : objectRest field init finish s = .ok (a, r)) : r.length < s.length := by
  unfold objectRest at h
  split at h
  · simp at h
  · rename_i hf
    have := fields_lt hf
    split at h <;> simp_all

theorem endList_lt {s r : List Char} (h : endList s = .ok r) : r.length < s.length := by
  have hb := blank_le s
  unfold endList at h
  split at h
  · simp [failAhead] at h
  · rename_i hs
    simp only [hs, List.length_cons] at hb
    simp only [Except.ok.injEq] at h
    subst h
    omega
  · split at h <;> simp [failAhead] at h
  · simp [failAhead] at h

theorem positional_le {σ : Type} {next : List Char → Except Fault Next} {state state' : σ}
    {s r : List Char} {xs : List (σ → Reader σ)}
    (hn : ∀ {s n}, next s = .ok n → n.rest.length ≤ s.length)
    (h : positional next state s xs = .ok (state', r)) : r.length ≤ s.length := by
  induction xs generalizing next state s with
  | nil => simp_all [positional]
  | cons x xs ih =>
    simp only [positional] at h
    split at h
    · simp at h
    · simp_all
    · rename_i hm
      have h1 := hn hm
      split at h
      · simp at h
      · rename_i hr
        have h2 := (x state).shrinks hr
        have h3 := ih (fun h => Nat.le_of_lt (afterItem_lt h)) h
        simp only [Next.rest] at h1
        omega

theorem listRest_lt {σ α : Type} {positions : List (σ → Reader σ)} {init : σ}
    {finish : σ → Except Mismatch α} {s r : List Char} {a : α}
    (h : listRest positions init finish s = .ok (a, r)) : r.length < s.length := by
  unfold listRest at h
  split at h
  · simp at h
  · rename_i hp
    have h1 := positional_le firstItem_le hp
    split at h
    · obtain ⟨t, ht, he⟩ := map_eq_ok h
      have h2 := endList_lt ht
      simp only [Prod.mk.injEq] at he
      obtain ⟨_, rfl⟩ := he
      omega
    · simp at h

/-! ### Whole texts -/

/-- The greatest depth to which lists and objects of a text may nest. -/
def maxDepth : Nat := 127

/-- **Reads a whole text**, which holds one value and blanks. -/
def Reader.decode {α : Type} (x : Reader α) (text : String) : Except DecodeError α :=
  let s := text.toList
  match x.run s with
  | .error f => .error (f.report s)
  | .ok (a, r) =>
    match blank r with
    | [] => .ok a
    | t => .error (Fault.report s (.malformed .trailingText (byteLength t - 1)))

end NativeTypes.Json

import NativeTypes.Json.Reader

/-! # Skipping a value

A value that nobody asks for is checked for syntax alone: it may nest to any depth, its numbers may
be of any size, and the escapes in its strings need not make characters. The brackets that are open
are kept in a list, innermost first. -/

namespace NativeTypes.Json

/-- What is left after the letter and the digits of an escape. -/
def skipEscape : List Char → Except Fault (List Char)
  | [] => failHere .stringEnds []
  | 'u' :: r => (hexUnit r).map (·.2)
  | c :: r =>
    if c ∈ ['"', '\\', '/', 'b', 'f', 'n', 'r', 't'] then .ok r
    else failAhead .invalidEscape (c :: r)

theorem skipEscape_lt {s r : List Char} (h : skipEscape s = .ok r) : r.length < s.length := by
  unfold skipEscape at h
  split at h
  · simp [failHere] at h
  · obtain ⟨x, hx, rfl⟩ := map_eq_ok h
    have := hexUnit_lt hx
    simp; omega
  · split at h
    · simp_all
    · simp [failAhead] at h

/-- What is left of a text after the rest of a string. -/
def skipString : List Char → Except Fault (List Char)
  | [] => failHere .stringEnds []
  | '"' :: r => .ok r
  | '\\' :: s =>
    match _h : skipEscape s with
    | .error f => .error f
    | .ok r => skipString r
  | c :: s => if c < ' ' then failHere .controlCharacter (c :: s) else skipString s
termination_by s => s.length
decreasing_by
  · have := skipEscape_lt _h; simp; omega
  · simp

theorem skipString_lt {s r : List Char} (h : skipString s = .ok r) : r.length < s.length := by
  fun_induction skipString s generalizing r with
  | case1 => simp [failHere] at h
  | case2 => simp_all
  | case3 => simp at h
  | case4 s t he ih =>
    have := ih h
    have := skipEscape_lt he
    simp; omega
  | case5 => simp [failHere] at h
  | case6 c s _ _ _ ih =>
    have := ih h
    simp; omega

/-- What is left after one or more digits. -/
def skipDigits (s : List Char) : Except Fault (List Char) :=
  if startsWithDigit s then .ok (digits s) else failAhead .invalidNumber s

/-- What is left after an optional exponent. -/
def skipExponent : List Char → Except Fault (List Char)
  | 'e' :: r => skipDigits (exponentSign r).2
  | 'E' :: r => skipDigits (exponentSign r).2
  | r => .ok r

/-- What is left after an optional fraction and an optional exponent. -/
def skipFraction : List Char → Except Fault (List Char)
  | '.' :: r =>
    match skipDigits r with
    | .error f => .error f
    | .ok t => skipExponent t
  | r => skipExponent r

/-- What is left after a number without its minus sign. -/
def skipUnsigned : List Char → Except Fault (List Char)
  | '0' :: r => if startsWithDigit r then failAhead .invalidNumber r else skipFraction r
  | s =>
    match skipDigits s with
    | .error f => .error f
    | .ok t => skipFraction t

theorem skipDigits_lt {s r : List Char} (h : skipDigits s = .ok r) : r.length < s.length := by
  unfold skipDigits at h
  split at h
  · rename_i hd
    simp only [Except.ok.injEq] at h
    subst h
    cases s with
    | nil => simp [startsWithDigit] at hd
    | cons c t =>
      have hc : c.isDigit = true := hd
      have := digits_le t
      simp only [digits, List.dropWhile_cons, hc, if_true] at this ⊢
      simp; omega
  · simp [failAhead] at h

theorem skipExponent_le {s r : List Char} (h : skipExponent s = .ok r) : r.length ≤ s.length := by
  unfold skipExponent at h
  split at h
  iterate 2
    · rename_i t
      have h1 := skipDigits_lt h
      have h2 := exponentSign_le t
      simp; omega
  · simp_all

theorem skipFraction_le {s r : List Char} (h : skipFraction s = .ok r) : r.length ≤ s.length := by
  unfold skipFraction at h
  split at h
  · split at h
    · simp at h
    · rename_i ht
      have h1 := skipDigits_lt ht
      have h2 := skipExponent_le h
      simp; omega
  · exact skipExponent_le h

theorem skipUnsigned_lt {s r : List Char} (h : skipUnsigned s = .ok r) : r.length < s.length := by
  unfold skipUnsigned at h
  split at h
  · split at h
    · simp [failAhead] at h
    · have := skipFraction_le h
      simp; omega
  · split at h
    · simp at h
    · rename_i ht
      have h1 := skipDigits_lt ht
      have h2 := skipFraction_le h
      omega

/-- What is left after a value that holds no others. -/
def skipScalar : List Char → Except Fault (List Char)
  | 'n' :: r => word ['u', 'l', 'l'] r
  | 't' :: r => word ['r', 'u', 'e'] r
  | 'f' :: r => word ['a', 'l', 's', 'e'] r
  | '"' :: r => skipString r
  | '-' :: r => skipUnsigned r
  | s => if startsWithDigit s then skipUnsigned s else noValue s

theorem skipScalar_lt {s r : List Char} (h : skipScalar s = .ok r) : r.length < s.length := by
  unfold skipScalar at h
  split at h
  iterate 3
    · have := word_le h
      simp; omega
  · have := skipString_lt h
    simp; omega
  · have := skipUnsigned_lt h
    simp; omega
  · split at h
    · exact skipUnsigned_lt h
    · simp [noValue, failAhead] at h

/-- An open bracket. -/
inductive Bracket where
  | list
  | object

/-- What is to come next: a value, the name of a field, or what follows a value. -/
inductive Awaited where
  | value
  | name
  | comma

/-- Where a skip stands: what is to come next, the open brackets, and what is left of the text. -/
structure Skip where
  awaited : Awaited
  opened : List Bracket
  rest : List Char

namespace Skip

/-- One step over a bracket, a value, a name or a comma. -/
def step (k : Skip) : Except Fault Skip :=
  match k.awaited with
  | .value =>
    match blank k.rest with
    | '[' :: r =>
      match blank r with
      | [] => failAhead .listEnds []
      | ']' :: t => .ok ⟨.comma, k.opened, t⟩
      | t => .ok ⟨.value, .list :: k.opened, t⟩
    | '{' :: r =>
      match blank r with
      | [] => failAhead .objectEnds []
      | '}' :: t => .ok ⟨.comma, k.opened, t⟩
      | t => .ok ⟨.name, .object :: k.opened, t⟩
    | r => (skipScalar r).map fun t => ⟨.comma, k.opened, t⟩
  | .name =>
    match blank k.rest with
    | [] => failAhead .objectEnds []
    | '"' :: r => ((skipString r).bind colon).map fun t => ⟨.value, k.opened, t⟩
    | r => failAhead .keyExpected r
  | .comma =>
    match k.opened with
    | [] => .ok k
    | .list :: opened =>
      match blank k.rest with
      | [] => failAhead .listEnds []
      | ',' :: r => .ok ⟨.value, .list :: opened, r⟩
      | ']' :: r => .ok ⟨.comma, opened, r⟩
      | r => failAhead .listGoesOn r
    | .object :: opened =>
      match blank k.rest with
      | [] => failAhead .objectEnds []
      | ',' :: r => .ok ⟨.name, .object :: opened, r⟩
      | '}' :: r => .ok ⟨.comma, opened, r⟩
      | r => failAhead .objectGoesOn r

/-- Whether a value has been skipped. -/
def isDone : Skip → Bool
  | ⟨.comma, [], _⟩ => true
  | _ => false

theorem ok_lt {α : Type} {x y : α} {f : α → List Char} {n : Nat} (h : (f x).length < n)
    (he : (Except.ok x : Except Fault α) = .ok y) : (f y).length < n := by
  simp only [Except.ok.injEq] at he
  exact he ▸ h

theorem step_lt {k l : Skip} (hk : k.isDone = false) (h : k.step = .ok l) :
    l.rest.length < k.rest.length := by
  have hb := blank_le k.rest
  unfold step at h
  split at h
  · split at h
    iterate 2
      · rename_i r hs
        have hr := blank_le r
        simp only [hs, List.length_cons] at hb
        split at h
        · simp [failAhead] at h
        · rename_i ht
          simp only [ht, List.length_cons] at hr
          exact ok_lt (f := rest) (by simp only; omega) h
        · exact ok_lt (f := rest) (by simp only; omega) h
    · obtain ⟨t, ht, rfl⟩ := map_eq_ok h
      have := skipScalar_lt ht
      simp only; omega
  · split at h
    · simp [failAhead] at h
    · rename_i r hs
      simp only [hs, List.length_cons] at hb
      obtain ⟨t, ht, rfl⟩ := map_eq_ok h
      cases hq : skipString r with
      | error f => simp [hq, Except.bind] at ht
      | ok u =>
        rw [hq] at ht
        have h1 := skipString_lt hq
        have h2 := colon_lt ht
        simp only; omega
    · simp [failAhead] at h
  · rename_i ha
    split at h
    · rename_i ho
      obtain ⟨_, _, _⟩ := k
      simp only at ha ho
      subst ha ho
      simp [isDone] at hk
    iterate 2
      · split at h
        · simp [failAhead] at h
        iterate 2
          · rename_i hs
            simp only [hs, List.length_cons] at hb
            exact ok_lt (f := rest) (by simp only; omega) h
        · simp [failAhead] at h

/-- What is left of a text after the value that is being skipped. -/
def run (k : Skip) : Except Fault (List Char) :=
  if _hk : k.isDone then .ok k.rest
  else
    match _h : k.step with
    | .error f => .error f
    | .ok l => run l
termination_by k.rest.length
decreasing_by exact step_lt (by simpa using _hk) _h

theorem run_le {k : Skip} {r : List Char} (h : k.run = .ok r) : r.length ≤ k.rest.length := by
  fun_induction run k with
  | case1 k hk => simp_all
  | case2 => simp at h
  | case3 k hk l hl ih =>
    have := step_lt (by simpa using hk) hl
    have := ih h
    omega

theorem run_lt {k : Skip} {r : List Char} (hk : k.isDone = false) (h : k.run = .ok r) :
    r.length < k.rest.length := by
  rw [run, dif_neg (by simp [hk])] at h
  split at h
  · simp at h
  · rename_i l hl
    have := step_lt hk hl
    have := run_le h
    omega

end Skip

/-- **Skips a value.** -/
def Reader.skip : Reader Unit where
  run s := (Skip.run ⟨.value, [], s⟩).map fun r => ((), r)
  shrinks h := by
    obtain ⟨t, ht, he⟩ := map_eq_ok h
    have := Skip.run_lt rfl ht
    simp only [Prod.mk.injEq] at he
    obtain ⟨_, rfl⟩ := he
    exact this

end NativeTypes.Json

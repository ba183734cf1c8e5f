import NativeTypes.Json.Fault

/-! # Tokens

The parts of a JSON text that hold no other values: blanks, the three words, numbers and strings.
Each function takes its part off the front of a text and gives what is left; `blank_le`, `word_le`,
`readNumber_lt` and `stringRest_lt` say that what is left is no longer, or shorter, than the
text. -/

namespace NativeTypes.Json

/-- The text is malformed where it stands. -/
def failHere {α : Type} (m : Malformed) (s : List Char) : Except Fault α :=
  .error (.malformed m (byteLength s))

/-- The text is malformed at its first byte, which counts as read. -/
def failAhead {α : Type} (m : Malformed) (s : List Char) : Except Fault α :=
  .error (.malformed m (byteLength s - 1))

/-! ### Blanks and words -/

/-- The four blank characters. -/
def isBlank (c : Char) : Bool :=
  c == ' ' || c == '\n' || c == '\r' || c == '\t'

/-- What is left after leading blanks. -/
def blank (s : List Char) : List Char :=
  s.dropWhile isBlank

theorem blank_le (s : List Char) : (blank s).length ≤ s.length :=
  (List.dropWhile_sublist _).length_le

/-- What is left after the characters of `w`. -/
def word : List Char → List Char → Except Fault (List Char)
  | [], s => .ok s
  | _ :: _, [] => failHere .valueEnds []
  | c :: w, d :: s => if c = d then word w s else failAhead .wordExpected (d :: s)

theorem word_le {w s r : List Char} (h : word w s = .ok r) : r.length ≤ s.length := by
  induction w generalizing s with
  | nil => simp_all [word]
  | cons c w ih =>
    cases s with
    | nil => simp [word, failHere] at h
    | cons d s =>
      simp only [word] at h
      split at h
      · have := ih h; simp; omega
      · simp [failAhead] at h

/-! ### Numbers -/

/-- The value of a digit. -/
def digitValue (c : Char) : Nat :=
  c.toNat - '0'.toNat

theorem digitValue_lt {c : Char} (h : c.isDigit = true) : digitValue c < UInt64.size := by
  simp only [Char.isDigit, Bool.and_eq_true, decide_eq_true_eq] at h
  have h9 : c.val.toNat ≤ 57 := UInt32.le_iff_toNat_le.1 h.2
  simp only [digitValue, Char.toNat, UInt64.size]
  omega

/-- Whether a text starts with a digit. -/
def startsWithDigit : List Char → Bool
  | c :: _ => c.isDigit
  | [] => false

/-- Digits that were read: their value, their number, and what is left after them. -/
structure Absorbed where
  value : Nat
  count : Nat
  rest : List Char

/-- Reads digits into `m` as long as it stays below `bound`; `k` counts them. -/
def absorb (bound m k : Nat) : List Char → Absorbed
  | c :: r =>
    if c.isDigit ∧ m * 10 + digitValue c < bound then
      absorb bound (m * 10 + digitValue c) (k + 1) r
    else ⟨m, k, c :: r⟩
  | [] => ⟨m, k, []⟩

theorem absorb_le (bound m k : Nat) (s : List Char) :
    (absorb bound m k s).rest.length ≤ s.length := by
  induction s generalizing m k with
  | nil => simp [absorb]
  | cons c r ih =>
    simp only [absorb]
    split
    · have := ih (m * 10 + digitValue c) (k + 1); simp; omega
    · simp

/-- What is left after digits. -/
def digits (s : List Char) : List Char :=
  s.dropWhile Char.isDigit

theorem digits_le (s : List Char) : (digits s).length ≤ s.length :=
  (List.dropWhile_sublist _).length_le

/-- The significand of a number: its leading digits, as many as fit into 64 bits. -/
structure Significand where
  negative : Bool
  m : Nat

/-- `x · 10 ^ e`, rounded at every step: a power of ten beyond `10 ^ 308` is taken in parts. -/
def scale (x : Decimal.Binary64) (e : Int) : Option Decimal.Binary64 :=
  if e.natAbs ≤ 308 then do
    let p ← Decimal.Binary64.ofNat? (Decimal.pow10 e.natAbs)
    if 0 ≤ e then x.mul? p else x.div? p
  else if x.isZero then some x
  else if 0 ≤ e then none
  else do
    let p ← Decimal.Binary64.ofNat? (Decimal.pow10 308)
    scale (← x.div? p) (e + 308)
termination_by e.natAbs

/-- The floating-point number of a significand and a decimal exponent. -/
def Significand.real (g : Significand) (e : Int) (r : List Char) :
    Except Fault (Number × List Char) :=
  match (Decimal.Binary64.ofNat? g.m).bind (scale · e) with
  | some x => .ok (.real g.negative x, r)
  | none => failHere .numberTooGreat r

/-- The sign of an exponent, and what is left after it. -/
def exponentSign : List Char → Bool × List Char
  | '+' :: r => (false, r)
  | '-' :: r => (true, r)
  | s => (false, s)

/-- An exponent has to stay below this bound, `2 ^ 31`. -/
def exponentBound : Nat := 2147483648

/-- The number after the letter of its exponent; `e` is the exponent so far. An exponent beyond 31
bits makes a number zero or too great. -/
def Significand.exponent (g : Significand) (e : Int) (s : List Char) :
    Except Fault (Number × List Char) :=
  let (down, s) := exponentSign s
  if startsWithDigit s then
    let x := absorb exponentBound 0 0 s
    if startsWithDigit x.rest then
      if g.m ≠ 0 ∧ ¬down then failAhead .numberTooGreat x.rest
      else .ok (.real g.negative .zero, digits x.rest)
    else g.real (if down then e - x.value else e + x.value) x.rest
  else failAhead (if s.isEmpty then .valueEnds else .invalidNumber) s

/-- The number after an optional fraction, with its exponent, if there is one. -/
def Significand.scaled (g : Significand) (e : Int) :
    List Char → Except Fault (Number × List Char)
  | 'e' :: r => g.exponent e r
  | 'E' :: r => g.exponent e r
  | s => g.real e s

/-- The number after the point of its fraction. -/
def Significand.fraction (g : Significand) (e : Int) (s : List Char) :
    Except Fault (Number × List Char) :=
  if startsWithDigit s then
    let x := absorb UInt64.size g.m 0 s
    { g with m := x.value }.scaled (e - x.count) (digits x.rest)
  else failAhead (if s.isEmpty then .valueEnds else .invalidNumber) s

/-- The number of a significand without fraction and exponent: an integer, or a floating-point
number where it is negative and zero or does not fit into 64 bits. -/
def Significand.whole (g : Significand) (r : List Char) : Number × List Char :=
  if g.negative then
    if g.m = 0 ∨ 9223372036854775808 < g.m then
      (.real true ((Decimal.Binary64.ofNat? g.m).getD .zero), r)
    else (.integer (-(g.m : Int)), r)
  else (.integer g.m, r)

/-- The number after the digits before its point. `e` is the number of digits that the significand
left out. -/
def Significand.finish (g : Significand) (e : Nat) : List Char → Except Fault (Number × List Char)
  | '.' :: r => g.fraction e r
  | 'e' :: r => g.exponent e r
  | 'E' :: r => g.exponent e r
  | r => if e = 0 then .ok (g.whole r) else g.real e r

/-- The number after an optional minus sign. -/
def unsignedNumber (negative : Bool) (s : List Char) : Except Fault (Number × List Char) :=
  match s with
  | '0' :: r =>
    if startsWithDigit r then failAhead .invalidNumber r else Significand.finish ⟨negative, 0⟩ 0 r
  | _ =>
    if startsWithDigit s then
      let x := absorb UInt64.size 0 0 s
      Significand.finish ⟨negative, x.value⟩ (x.rest.takeWhile Char.isDigit).length
        (digits x.rest)
    else failAhead (if s.isEmpty then .valueEnds else .invalidNumber) s

/-- **Reads a number**, which starts with a minus sign or a digit. -/
def readNumber : List Char → Except Fault (Number × List Char)
  | '-' :: r => unsignedNumber true r
  | s => unsignedNumber false s

theorem Significand.real_le {g : Significand} {e : Int} {s r : List Char} {n : Number}
    (h : g.real e s = .ok (n, r)) : r.length ≤ s.length := by
  simp only [Significand.real] at h
  split at h
  · simp_all
  · simp [failHere] at h

theorem exponentSign_le (s : List Char) : (exponentSign s).2.length ≤ s.length := by
  unfold exponentSign
  split <;> simp

theorem Significand.exponent_le {g : Significand} {e : Int} {s r : List Char} {n : Number}
    (h : g.exponent e s = .ok (n, r)) : r.length ≤ s.length := by
  have hs := exponentSign_le s
  simp only [Significand.exponent] at h
  split at h
  · have ha := absorb_le exponentBound 0 0 (exponentSign s).2
    split at h
    · split at h
      · simp [failAhead] at h
      · have := digits_le (absorb exponentBound 0 0 (exponentSign s).2).rest
        simp only [Except.ok.injEq, Prod.mk.injEq] at h
        obtain ⟨_, rfl⟩ := h
        omega
    · have := Significand.real_le h
      omega
  · simp [failAhead] at h

theorem Significand.scaled_le {g : Significand} {e : Int} {s r : List Char} {n : Number}
    (h : g.scaled e s = .ok (n, r)) : r.length ≤ s.length := by
  unfold Significand.scaled at h
  split at h
  · have := exponent_le h; simp; omega
  · have := exponent_le h; simp; omega
  · exact real_le h

theorem Significand.fraction_le {g : Significand} {e : Int} {s r : List Char} {n : Number}
    (h : g.fraction e s = .ok (n, r)) : r.length ≤ s.length := by
  simp only [Significand.fraction] at h
  split at h
  · have h1 := scaled_le h
    have h2 := digits_le (absorb UInt64.size g.m 0 s).rest
    have h3 := absorb_le UInt64.size g.m 0 s
    omega
  · simp [failAhead] at h

theorem Significand.finish_le {g : Significand} {e : Nat} {s r : List Char} {n : Number}
    (h : g.finish e s = .ok (n, r)) : r.length ≤ s.length := by
  unfold Significand.finish at h
  split at h
  · have := fraction_le h; simp; omega
  · have := exponent_le h; simp; omega
  · have := exponent_le h; simp; omega
  · split at h
    · simp only [Significand.whole] at h
      split at h <;> (try split at h) <;> simp_all
    · exact real_le h

theorem absorb_lt {s : List Char} (h : startsWithDigit s = true) :
    (absorb UInt64.size 0 0 s).rest.length < s.length := by
  cases s with
  | nil => simp [startsWithDigit] at h
  | cons c r =>
    have hc : c.isDigit = true := h
    have := absorb_le UInt64.size (0 * 10 + digitValue c) (0 + 1) r
    have hv : 0 * 10 + digitValue c < UInt64.size := by
      have := digitValue_lt hc
      omega
    simp only [absorb, hc, hv, and_self, if_true, List.length_cons]
    omega

theorem unsignedNumber_lt {negative : Bool} {s r : List Char} {n : Number}
    (h : unsignedNumber negative s = .ok (n, r)) : r.length < s.length := by
  simp only [unsignedNumber] at h
  split at h
  · split at h
    · simp [failAhead] at h
    · have := Significand.finish_le h; simp; omega
  · split at h
    · have h1 := Significand.finish_le h
      have h2 := digits_le (absorb UInt64.size 0 0 s).rest
      have h3 := absorb_lt ‹_›
      omega
    · simp [failAhead] at h

theorem readNumber_lt {s r : List Char} {n : Number} (h : readNumber s = .ok (n, r)) :
    r.length < s.length := by
  unfold readNumber at h
  split at h
  · have := unsignedNumber_lt h; simp; omega
  · exact unsignedNumber_lt h

/-! ### Strings -/

/-- The value of a hexadecimal digit. -/
def hexValue? (c : Char) : Option Nat :=
  if '0' ≤ c ∧ c ≤ '9' then some (c.toNat - '0'.toNat)
  else if 'a' ≤ c ∧ c ≤ 'f' then some (c.toNat - 'a'.toNat + 10)
  else if 'A' ≤ c ∧ c ≤ 'F' then some (c.toNat - 'A'.toNat + 10)
  else none

/-- The value of four hexadecimal digits, and what is left after them. -/
def hexUnit? : List Char → Option (Nat × List Char)
  | a :: b :: c :: d :: r => do
    let a ← hexValue? a
    let b ← hexValue? b
    let c ← hexValue? c
    let d ← hexValue? d
    return (((a * 16 + b) * 16 + c) * 16 + d, r)
  | _ => none

/-- A unit of text in four hexadecimal digits. Four bytes are read even where they are no digits. -/
def hexUnit (s : List Char) : Except Fault (Nat × List Char) :=
  match hexUnit? s with
  | some x => .ok x
  | none =>
    if byteLength s < 4 then failHere .stringEnds []
    else .error (.malformed .invalidEscape (byteLength s - 4))

/-- The character of a pair of surrogates. -/
def pairedSurrogates (high low : Nat) : Char :=
  Char.ofNat ((high - 0xD800) * 0x400 + (low - 0xDC00) + 0x10000)

/-- The character after the first of two surrogates. -/
def secondSurrogate (high : Nat) : List Char → Except Fault (Char × List Char)
  | [] => failHere .stringEnds []
  | '\\' :: [] => failHere .stringEnds []
  | '\\' :: 'u' :: s =>
    match hexUnit s with
    | .error f => .error f
    | .ok (low, r) =>
      if 0xDC00 ≤ low ∧ low ≤ 0xDFFF then .ok (pairedSurrogates high low, r)
      else failHere .loneSurrogate r
  | '\\' :: s => failAhead .surrogateEnds s
  | s => failAhead .surrogateEnds s

/-- The character of an escape in hexadecimal digits, which follow. -/
def hexEscape (s : List Char) : Except Fault (Char × List Char) :=
  match hexUnit s with
  | .error f => .error f
  | .ok (n, r) =>
    if 0xDC00 ≤ n ∧ n ≤ 0xDFFF then failHere .loneSurrogate r
    else if 0xD800 ≤ n ∧ n ≤ 0xDBFF then secondSurrogate n r
    else .ok (Char.ofNat n, r)

/-- The character of an escape, after its backslash. -/
def escape : List Char → Except Fault (Char × List Char)
  | [] => failHere .stringEnds []
  | '"' :: r => .ok ('"', r)
  | '\\' :: r => .ok ('\\', r)
  | '/' :: r => .ok ('/', r)
  | 'b' :: r => .ok ('\x08', r)
  | 'f' :: r => .ok ('\x0c', r)
  | 'n' :: r => .ok ('\n', r)
  | 'r' :: r => .ok ('\r', r)
  | 't' :: r => .ok ('\t', r)
  | 'u' :: r => hexEscape r
  | s => failAhead .invalidEscape s

theorem hexUnit_lt {s r : List Char} {n : Nat} (h : hexUnit s = .ok (n, r)) :
    r.length < s.length := by
  unfold hexUnit at h
  split at h
  · rename_i x hx
    unfold hexUnit? at hx
    split at hx
    · simp only [Option.bind_eq_bind, Option.bind_eq_some_iff, Option.pure_def,
        Option.some.injEq] at hx
      obtain ⟨_, _, _, _, _, _, _, _, rfl⟩ := hx
      simp only [Except.ok.injEq, Prod.mk.injEq] at h
      obtain ⟨_, rfl⟩ := h
      simp; omega
    · simp at hx
  · split at h <;> simp [failHere] at h

theorem secondSurrogate_lt {high : Nat} {s r : List Char} {c : Char}
    (h : secondSurrogate high s = .ok (c, r)) : r.length < s.length := by
  unfold secondSurrogate at h
  split at h
  · simp [failHere] at h
  · simp [failHere] at h
  · split at h
    · simp at h
    · rename_i hu
      have := hexUnit_lt hu
      split at h
      · simp_all; omega
      · simp [failHere] at h
  · simp [failAhead] at h
  · simp [failAhead] at h

theorem hexEscape_lt {s r : List Char} {c : Char} (h : hexEscape s = .ok (c, r)) :
    r.length < s.length := by
  unfold hexEscape at h
  split at h
  · simp at h
  · rename_i hu
    have := hexUnit_lt hu
    split at h
    · simp [failHere] at h
    · split at h
      · have := secondSurrogate_lt h; omega
      · simp_all

theorem escape_lt {s r : List Char} {c : Char} (h : escape s = .ok (c, r)) :
    r.length < s.length := by
  unfold escape at h
  split at h
  · simp [failHere] at h
  all_goals first
    | (simp only [Except.ok.injEq, Prod.mk.injEq] at h; obtain ⟨_, rfl⟩ := h; simp)
    | exact Nat.lt_trans (hexEscape_lt h) (by simp)
    | simp [failAhead] at h

/-- **Reads the characters of a string**, after its opening quote and with its closing one. -/
def stringRest : List Char → Except Fault (List Char × List Char)
  | [] => failHere .stringEnds []
  | '"' :: r => .ok ([], r)
  | '\\' :: s =>
    match _h : escape s with
    | .error f => .error f
    | .ok (c, t) =>
      match stringRest t with
      | .error f => .error f
      | .ok (cs, r) => .ok (c :: cs, r)
  | c :: s =>
    if c < ' ' then failHere .controlCharacter s
    else
      match stringRest s with
      | .error f => .error f
      | .ok (cs, r) => .ok (c :: cs, r)
termination_by s => s.length
decreasing_by
  · have := escape_lt _h; simp; omega
  · simp

theorem stringRest_lt {s r cs : List Char} (h : stringRest s = .ok (cs, r)) :
    r.length < s.length := by
  fun_induction stringRest s generalizing cs r with
  | case1 => simp [failHere] at h
  | case2 => simp_all
  | case3 => simp at h
  | case4 => simp at h
  | case5 s c t he cs' r' hr ih =>
    have := ih hr
    have := escape_lt he
    simp_all; omega
  | case6 => simp [failHere] at h
  | case7 => simp at h
  | case8 c s _ _ _ cs' r' hr ih =>
    have := ih hr
    simp_all; omega

end NativeTypes.Json

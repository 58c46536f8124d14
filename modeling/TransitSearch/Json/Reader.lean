/-
  TransitSearch.Json.Reader — JSON values from text.

  The text is cut into tokens (`lex`), which a machine then reads one at a time (`step`).
  The machine knows what it wants next and keeps the open arrays and objects in a list, so
  nesting takes no depth of its own. White space is the space, tab, line feed and carriage
  return. A string holds no control characters, and its escapes must be well formed, but
  what they mean is left to who uses it. Numbers may be of any size.
-/

import TransitSearch.Json.Value

namespace TransitSearch.Json

/-! ## Tokens -/

def isBlank (c : Char) : Bool := c = ' ' || c = '\t' || c = '\n' || c = '\r'

def hexValue? (c : Char) : Option Nat :=
  if '0' ≤ c ∧ c ≤ '9' then some (c.toNat - '0'.toNat)
  else if 'a' ≤ c ∧ c ≤ 'f' then some (c.toNat - 'a'.toNat + 10)
  else if 'A' ≤ c ∧ c ≤ 'F' then some (c.toNat - 'A'.toNat + 10)
  else none

def code? (a b c d : Char) : Option Nat := do
  pure ((((← hexValue? a) * 16 + (← hexValue? b)) * 16 + (← hexValue? c)) * 16 + (← hexValue? d))

def escaped? : Char → Option Char
  | '"' => some '"'
  | '\\' => some '\\'
  | '/' => some '/'
  | 'b' => some '\x08'
  | 'f' => some '\x0c'
  | 'n' => some '\n'
  | 'r' => some '\r'
  | 't' => some '\t'
  | _ => none

/-- A string after its opening quote, and what follows it. `done` is read so far, last first. -/
def lexString (done : List Unit16) : List Char → Option (List Unit16 × List Char)
  | [] => none
  | '"' :: rest => some (done.reverse, rest)
  | '\\' :: 'u' :: a :: b :: c :: d :: rest =>
    match code? a b c d with
    | none => none
    | some n => lexString (.code n :: done) rest
  | '\\' :: c :: rest =>
    match escaped? c with
    | none => none
    | some c => lexString (.char c :: done) rest
  | c :: rest => if c.toNat < 32 then none else lexString (.char c :: done) rest

def lexDigits (s : List Char) : Option (List Char × List Char) :=
  if (s.takeWhile Char.isDigit).isEmpty then none else some (s.takeWhile Char.isDigit, s.dropWhile Char.isDigit)

/-- The digits before the point: zero, or a run that does not start with it. -/
def lexWhole : List Char → Option (List Char × List Char)
  | '0' :: rest => some (['0'], rest)
  | s => lexDigits s

def lexFraction : List Char → Option (Option (List Char) × List Char)
  | '.' :: rest => (fun (digits, rest) => (some digits, rest)) <$> lexDigits rest
  | s => some (none, s)

def lexSigned : List Char → Option ((Bool × List Char) × List Char)
  | '-' :: rest => (fun (digits, rest) => ((true, digits), rest)) <$> lexDigits rest
  | '+' :: rest => (fun (digits, rest) => ((false, digits), rest)) <$> lexDigits rest
  | s => (fun (digits, rest) => ((false, digits), rest)) <$> lexDigits s

def lexExponent : List Char → Option (Option (Bool × List Char) × List Char)
  | 'e' :: rest | 'E' :: rest => (fun (exponent, rest) => (some exponent, rest)) <$> lexSigned rest
  | s => some (none, s)

def lexUnsigned (negative : Bool) (s : List Char) : Option (Number × List Char) :=
  match lexWhole s with
  | none => none
  | some (whole, s) =>
    match lexFraction s with
    | none => none
    | some (fraction, s) =>
      match lexExponent s with
      | none => none
      | some (exponent, s) => some (⟨negative, whole, fraction, exponent⟩, s)

def lexNumber : List Char → Option (Number × List Char)
  | '-' :: rest => lexUnsigned true rest
  | s => lexUnsigned false s

/-- The first token of a text that does not start with white space, and what follows it. -/
def lexToken : List Char → Option (Token × List Char)
  | '[' :: rest => some (.beginArray, rest)
  | ']' :: rest => some (.endArray, rest)
  | '\x7b' :: rest => some (.beginObject, rest)
  | '\x7d' :: rest => some (.endObject, rest)
  | ',' :: rest => some (.comma, rest)
  | ':' :: rest => some (.colon, rest)
  | 'n' :: 'u' :: 'l' :: 'l' :: rest => some (.null, rest)
  | 't' :: 'r' :: 'u' :: 'e' :: rest => some (.bool true, rest)
  | 'f' :: 'a' :: 'l' :: 's' :: 'e' :: rest => some (.bool false, rest)
  | '"' :: rest => (fun (s, rest) => (.string s, rest)) <$> lexString [] rest
  | s => (fun (n, rest) => (.number n, rest)) <$> lexNumber s

/-! ## A token is never empty -/

theorem lexString_length {done u : List Unit16} {s r : List Char} (h : lexString done s = some (u, r)) :
    r.length < s.length := by
  fun_induction lexString done s <;> simp_all <;> omega

theorem lexDigits_length {s u r : List Char} (h : lexDigits s = some (u, r)) : r.length < s.length := by
  unfold lexDigits at h
  split at h
  · cases h
  · rename_i hne
    cases h
    have split := congrArg List.length (List.takeWhile_append_dropWhile (p := Char.isDigit) (l := s))
    have some_digit : 0 < (s.takeWhile Char.isDigit).length := List.length_pos_iff.2 (by simpa using hne)
    simp only [List.length_append] at split
    omega

theorem lexWhole_length {s u r : List Char} (h : lexWhole s = some (u, r)) : r.length < s.length := by
  unfold lexWhole at h
  split at h
  · cases h; simp
  · exact lexDigits_length h

theorem lexFraction_length {s r : List Char} {u : Option (List Char)} (h : lexFraction s = some (u, r)) :
    r.length ≤ s.length := by
  unfold lexFraction at h
  split at h
  · obtain ⟨⟨d, r'⟩, hd, he⟩ := Option.map_eq_some_iff.1 h
    cases he
    have := lexDigits_length hd
    simp only [List.length_cons]; omega
  · cases h; exact Nat.le_refl _

theorem lexSigned_length {s r : List Char} {u : Bool × List Char} (h : lexSigned s = some (u, r)) :
    r.length ≤ s.length := by
  unfold lexSigned at h
  split at h <;>
  · obtain ⟨⟨d, r'⟩, hd, he⟩ := Option.map_eq_some_iff.1 h
    cases he
    have := lexDigits_length hd
    simp only [List.length_cons] at *; omega

theorem lexExponent_length {s r : List Char} {u : Option (Bool × List Char)} (h : lexExponent s = some (u, r)) :
    r.length ≤ s.length := by
  unfold lexExponent at h
  split at h
  case h_3 => cases h; exact Nat.le_refl _
  all_goals
    obtain ⟨⟨d, r'⟩, hd, he⟩ := Option.map_eq_some_iff.1 h
    cases he
    have := lexSigned_length hd
    simp only [List.length_cons]; omega

theorem lexUnsigned_length {negative : Bool} {s r : List Char} {n : Number} (h : lexUnsigned negative s = some (n, r)) :
    r.length < s.length := by
  unfold lexUnsigned at h
  split at h
  · cases h
  · rename_i hw
    split at h
    · cases h
    · rename_i hf
      split at h
      · cases h
      · rename_i he
        cases h
        have := lexWhole_length hw
        have := lexFraction_length hf
        have := lexExponent_length he
        omega

theorem lexNumber_length {s r : List Char} {n : Number} (h : lexNumber s = some (n, r)) : r.length < s.length := by
  unfold lexNumber at h
  split at h
  · have := lexUnsigned_length h
    simp only [List.length_cons]; omega
  · exact lexUnsigned_length h

theorem lexToken_length {s r : List Char} {t : Token} (h : lexToken s = some (t, r)) : r.length < s.length := by
  unfold lexToken at h
  split at h
  case h_10 =>
    obtain ⟨⟨u, r'⟩, hu, he⟩ := Option.map_eq_some_iff.1 h
    cases he
    have := lexString_length hu
    simp only [List.length_cons]; omega
  case h_11 =>
    obtain ⟨⟨n, r'⟩, hn, he⟩ := Option.map_eq_some_iff.1 h
    cases he
    exact lexNumber_length hn
  all_goals
    cases h
    simp only [List.length_cons]; omega

/-- The tokens of a text. `done` is read so far, last first. -/
def lex (done : List Token) : List Char → Option (List Token)
  | [] => some done.reverse
  | c :: rest =>
    if isBlank c then lex done rest
    else
      match _h : lexToken (c :: rest) with
      | none => none
      | some (t, left) => lex (t :: done) left
termination_by s => s.length
decreasing_by
  · simp
  · exact lexToken_length ‹_›

/-! ## Values -/

/-- An array or object whose end has not been read, with what it holds so far, last first. -/
inductive Frame where
  | array (before : List Json)
  | object (before : List (List Unit16 × Json)) (key : List Unit16)

inductive Want where
  | value
  /-- Just after an array was opened, which may end at once. -/
  | firstItem
  | key (before : List (List Unit16 × Json)) (mayEnd : Bool)
  | colon (before : List (List Unit16 × Json)) (key : List Unit16)
  /-- The value has been read in full. -/
  | done (v : Json)

structure Machine where
  want : Want
  frames : List Frame

namespace Machine

def start : Machine := ⟨.value, []⟩

def beginValue (frames : List Frame) : Token → Option Machine
  | .null => some ⟨.done .null, frames⟩
  | .bool b => some ⟨.done (.bool b), frames⟩
  | .number n => some ⟨.done (.number n), frames⟩
  | .string s => some ⟨.done (.string s), frames⟩
  | .beginArray => some ⟨.firstItem, .array [] :: frames⟩
  | .beginObject => some ⟨.key [] true, frames⟩
  | .endArray | .endObject | .comma | .colon => none

/-- What follows a value `v`: the next of its siblings, or the end of what holds it. -/
def afterValue (v : Json) : List Frame → Token → Option Machine
  | .array before :: frames, .comma => some ⟨.value, .array (v :: before) :: frames⟩
  | .array before :: frames, .endArray => some ⟨.done (.array (v :: before).reverse), frames⟩
  | .object before key :: frames, .comma => some ⟨.key ((key, v) :: before) false, frames⟩
  | .object before key :: frames, .endObject => some ⟨.done (.object ((key, v) :: before).reverse), frames⟩
  | _, _ => none

def step (m : Machine) (t : Token) : Option Machine :=
  match m.want, t with
  | .value, t => beginValue m.frames t
  | .firstItem, .endArray => some ⟨.done (.array []), m.frames.tail⟩
  | .firstItem, t => beginValue m.frames t
  | .key before _, .string k => some ⟨.colon before k, m.frames⟩
  | .key before true, .endObject => some ⟨.done (.object before.reverse), m.frames⟩
  | .key .., _ => none
  | .colon before k, .colon => some ⟨.value, .object before k :: m.frames⟩
  | .colon .., _ => none
  | .done v, t => afterValue v m.frames t

def result? (m : Machine) : Option Json :=
  match m.want, m.frames with
  | .done v, [] => some v
  | _, _ => none

end Machine

def ofTokens? (tokens : List Token) : Option Json := do
  let m ← tokens.foldlM Machine.step Machine.start
  m.result?

def parse? (text : String) : Option Json := do ofTokens? (← lex [] text.toList)

end TransitSearch.Json

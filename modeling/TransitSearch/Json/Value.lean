/-
  TransitSearch.Json.Value — JSON values as they are written.

  Numbers keep their digits and strings their escapes, so that a value says exactly what
  its text said and each reader decides what it makes of it. A value is a sequence of
  tokens; the compact text of the value is theirs, one after the other.
-/

namespace TransitSearch

namespace Json

/-- A place in a string: a character, or an escape by its 16-bit code. -/
inductive Unit16 where
  | char (c : Char)
  | code (n : Nat)
  deriving DecidableEq, Repr

structure Number where
  negative : Bool
  whole : List Char
  fraction : Option (List Char)
  /-- Whether the exponent is negative, and its digits. -/
  exponent : Option (Bool × List Char)
  deriving DecidableEq, Repr

inductive Token where
  | beginArray
  | endArray
  | beginObject
  | endObject
  | comma
  | colon
  | null
  | bool (b : Bool)
  | number (n : Number)
  | string (s : List Unit16)
  deriving DecidableEq, Repr

end Json

inductive Json where
  | null
  | bool (b : Bool)
  | number (n : Json.Number)
  | string (s : List Json.Unit16)
  | array (items : List Json)
  | object (members : List (List Json.Unit16 × Json))

namespace Json

/-! ## Strings -/

def ofText (s : String) : Json := .string (s.toList.map .char)

def isLeading (n : Nat) : Bool := 0xD800 ≤ n && n < 0xDC00

def isTrailing (n : Nat) : Bool := 0xDC00 ≤ n && n < 0xE000

/-- The characters meant. A code above 16 bits takes two escapes; one half alone means nothing. -/
def meaning : List Unit16 → Option (List Char)
  | [] => some []
  | .char c :: rest => (c :: ·) <$> meaning rest
  | .code n :: .code m :: rest =>
    if isLeading n then
      if isTrailing m then (Char.ofNat (0x10000 + (n - 0xD800) * 0x400 + (m - 0xDC00)) :: ·) <$> meaning rest
      else none
    else if isTrailing n then none
    else (Char.ofNat n :: ·) <$> meaning (.code m :: rest)
  | .code n :: rest => if isLeading n || isTrailing n then none else (Char.ofNat n :: ·) <$> meaning rest

def textOf (s : List Unit16) : Option String := String.ofList <$> meaning s

def text? : Json → Option String
  | .string s => textOf s
  | _ => none

/-! ## Compact text -/

def hexDigits (n : Nat) : List Char :=
  [n / 4096 % 16, n / 256 % 16, n / 16 % 16, n % 16].map Nat.digitChar

def Unit16.chars : Unit16 → List Char
  | .code n => '\\' :: 'u' :: hexDigits n
  | .char '"' => ['\\', '"']
  | .char '\\' => ['\\', '\\']
  | .char c => if c.toNat < 32 then '\\' :: 'u' :: hexDigits c.toNat else [c]

/-- The exponent always has its sign. -/
def Number.chars (n : Number) : List Char :=
  let sign := if n.negative then ['-'] else []
  let fraction := match n.fraction with
    | none => []
    | some digits => '.' :: digits
  let exponent := match n.exponent with
    | none => []
    | some (negative, digits) => 'e' :: (if negative then '-' else '+') :: digits
  sign ++ n.whole ++ fraction ++ exponent

def Token.chars : Token → List Char
  | .beginArray => ['[']
  | .endArray => [']']
  | .beginObject => ['\x7b']
  | .endObject => ['\x7d']
  | .comma => [',']
  | .colon => [':']
  | .null => ['n', 'u', 'l', 'l']
  | .bool true => ['t', 'r', 'u', 'e']
  | .bool false => ['f', 'a', 'l', 's', 'e']
  | .number n => n.chars
  | .string s => '"' :: s.flatMap Unit16.chars ++ ['"']

mutual

def tokens : Json → List Token
  | .null => [.null]
  | .bool b => [.bool b]
  | .number n => [.number n]
  | .string s => [.string s]
  | .array items => .beginArray :: itemTokens items ++ [.endArray]
  | .object members => .beginObject :: memberTokens members ++ [.endObject]

def itemTokens : List Json → List Token
  | [] => []
  | [v] => v.tokens
  | v :: w :: rest => v.tokens ++ .comma :: itemTokens (w :: rest)

def memberTokens : List (List Unit16 × Json) → List Token
  | [] => []
  | [(k, v)] => .string k :: .colon :: v.tokens
  | (k, v) :: m :: rest => .string k :: .colon :: v.tokens ++ .comma :: memberTokens (m :: rest)

end

def chars (v : Json) : List Char := v.tokens.flatMap Token.chars

def render (v : Json) : String := String.ofList v.chars

end Json

end TransitSearch

/-
  TransitSearch.Proofs.Json.Spelling — how a value may be written, and that the lexer follows.

  A value has many texts. White space may stand before, between and after its tokens. A
  character of a string stands for itself or is escaped, and the code of an escape is
  written in letters of either case. An exponent follows either letter, and its plus sign
  may be left out. `Spells` says all that of a whole text, with its own tables of white
  space, escapes and digits, and `Means` what the characters and escapes of a string stand
  for (`means_iff`).

  The lexer takes the longest token, so what it finds depends on what comes next. Only a
  number can go on: digits, a point or a letter after it would be taken for more of it
  (`Ends`). In the tokens of a value a number has nothing after it but a comma or a closing
  bracket (`apart_tokens`), so every spelling of a value is cut into the tokens of the value
  (`lex_of_spells`).
-/

import Mathlib.Data.List.Chain
import TransitSearch.Json.Reader
import TransitSearch.Proofs.Text

namespace TransitSearch.Json

open Text (EndsNumeral)

/-! ## Spellings -/

/-- The space, the tab and the two ends of a line. -/
def Blank (s : List Char) : Prop := ∀ c ∈ s, c ∈ [' ', '\t', '\n', '\r']

/-- The letters after a backslash, with what they stand for. -/
def escapes : List (Char × Char) :=
  [('"', '"'), ('\\', '\\'), ('/', '/'), ('b', '\x08'), ('f', '\x0c'), ('n', '\n'), ('r', '\r'), ('t', '\t')]

/-- The hexadecimal digits of the values from 0 to 15. -/
def IsHex (c : Char) (value : Nat) : Prop :=
  ['0', '1', '2', '3', '4', '5', '6', '7', '8', '9', 'a', 'b', 'c', 'd', 'e', 'f'][value]? = some c ∨
  ['0', '1', '2', '3', '4', '5', '6', '7', '8', '9', 'A', 'B', 'C', 'D', 'E', 'F'][value]? = some c

inductive Unit16.Spells : Unit16 → List Char → Prop
  | plain (c : Char) : 32 ≤ c.toNat → c ≠ '"' → c ≠ '\\' → Spells (.char c) [c]
  | escaped (e c : Char) : (e, c) ∈ escapes → Spells (.char c) ['\\', e]
  | code (a b c d : Char) (i j k l : Nat) : IsHex a i → IsHex b j → IsHex c k → IsHex d l →
      Spells (.code (4096 * i + 256 * j + 16 * k + l)) ['\\', 'u', a, b, c, d]

/-- What stands between the quotes. -/
inductive SpellsString : List Unit16 → List Char → Prop
  | nil : SpellsString [] []
  | cons {u : Unit16} {us : List Unit16} {s r : List Char} : u.Spells s → SpellsString us r →
      SpellsString (u :: us) (s ++ r)

def IsDigits (s : List Char) : Prop := s ≠ [] ∧ ∀ c ∈ s, c.isDigit = true

/-- No leading zeros. -/
def IsWhole (s : List Char) : Prop := s = ['0'] ∨ IsDigits s ∧ s.head? ≠ some '0'

structure Number.WellFormed (n : Number) : Prop where
  whole : IsWhole n.whole
  fraction : ∀ digits ∈ n.fraction, IsDigits digits
  exponent : ∀ exponent ∈ n.exponent, IsDigits exponent.2

def exponentSpellings : Option (Bool × List Char) → List (List Char)
  | none => [[]]
  | some (true, digits) => ['e' :: '-' :: digits, 'E' :: '-' :: digits]
  | some (false, digits) => ['e' :: '+' :: digits, 'E' :: '+' :: digits, 'e' :: digits, 'E' :: digits]

def fractionChars : Option (List Char) → List Char
  | none => []
  | some digits => '.' :: digits

def Number.Spells (n : Number) (s : List Char) : Prop :=
  n.WellFormed ∧ ∃ exponent ∈ exponentSpellings n.exponent,
    s = (if n.negative then ['-'] else []) ++ (n.whole ++ (fractionChars n.fraction ++ exponent))

def Token.Spells : Token → List Char → Prop
  | .beginArray, s => s = ['[']
  | .endArray, s => s = [']']
  | .beginObject, s => s = ['\x7b']
  | .endObject, s => s = ['\x7d']
  | .comma, s => s = [',']
  | .colon, s => s = [':']
  | .null, s => s = ['n', 'u', 'l', 'l']
  | .bool true, s => s = ['t', 'r', 'u', 'e']
  | .bool false, s => s = ['f', 'a', 'l', 's', 'e']
  | .number n, s => n.Spells s
  | .string u, s => ∃ inside, SpellsString u inside ∧ s = '"' :: (inside ++ ['"'])

inductive SpellsTokens : List Token → List Char → Prop
  | nil {b : List Char} : Blank b → SpellsTokens [] b
  | cons {t : Token} {ts : List Token} {b s r : List Char} : Blank b → t.Spells s → SpellsTokens ts r →
      SpellsTokens (t :: ts) (b ++ (s ++ r))

/-- `text` is a text of `v`. -/
def Spells (v : Json) (text : String) : Prop := SpellsTokens v.tokens text.toList

theorem exists_spellsTokens {ts : List Token} (h : ∀ t ∈ ts, ∃ s, t.Spells s) : ∃ s, SpellsTokens ts s := by
  induction ts with
  | nil => exact ⟨[], .nil nofun⟩
  | cons t ts ih =>
    obtain ⟨s, hs⟩ := h t List.mem_cons_self
    obtain ⟨r, hr⟩ := ih fun u hu => h u (List.mem_cons_of_mem _ hu)
    exact ⟨[] ++ (s ++ r), .cons nofun hs hr⟩

theorem SpellsTokens.each {ts : List Token} {s : List Char} (h : SpellsTokens ts s) : ∀ t ∈ ts, ∃ s, t.Spells s := by
  induction h with
  | nil => exact nofun
  | cons _ hs _ ih => exact List.forall_mem_cons.mpr ⟨⟨_, hs⟩, ih⟩

/-- An object that has a text still has one without its first member. -/
theorem exists_spells_rest {m : List Unit16 × Json} {rest : List (List Unit16 × Json)} {text : String}
    (h : (object (m :: rest)).Spells text) : ∃ text', (object rest).Spells text' := by
  have htokens : ∀ t ∈ (object rest).tokens, t ∈ (object (m :: rest)).tokens := by
    intro t ht
    cases rest <;> simp only [tokens, memberTokens, List.mem_cons, List.mem_append, List.not_mem_nil, or_false] at ht ⊢ <;>
      tauto
  obtain ⟨s, hs⟩ := exists_spellsTokens fun t ht => h.each t (htokens t ht)
  exact ⟨String.ofList s, by rwa [Spells, String.toList_ofList]⟩

/-! ## What a string means -/

/-- A code names a character, or its first half: the codes of the halves are from D800 and from DC00 on. -/
inductive MeansChars : List Unit16 → List Char → Prop
  | nil : MeansChars [] []
  | char (c : Char) {us : List Unit16} {s : List Char} : MeansChars us s → MeansChars (.char c :: us) (c :: s)
  | code {n : Nat} {us : List Unit16} {s : List Char} : n < 0xD800 ∨ 0xE000 ≤ n → MeansChars us s →
      MeansChars (.code n :: us) (Char.ofNat n :: s)
  | halves {first second : Nat} {us : List Unit16} {s : List Char} : first < 0x400 → second < 0x400 →
      MeansChars us s → MeansChars (.code (0xD800 + first) :: .code (0xDC00 + second) :: us)
        (Char.ofNat (0x10000 + 0x400 * first + second) :: s)

/-- The string between the quotes is a spelling of `name`. -/
def Means (u : List Unit16) (name : String) : Prop := MeansChars u name.toList

theorem meansChars_of_meaning {u : List Unit16} {s : List Char} (h : meaning u = some s) : MeansChars u s := by
  fun_induction meaning u generalizing s with
  | case1 =>
    cases h
    exact .nil
  | case2 c rest ih =>
    obtain ⟨t, ht, rfl⟩ := Option.map_eq_some_iff.mp h
    exact .char c (ih ht)
  | case3 first second rest hfirst hsecond ih =>
    obtain ⟨t, ht, rfl⟩ := Option.map_eq_some_iff.mp h
    simp only [isLeading, isTrailing, Bool.and_eq_true, decide_eq_true_eq] at hfirst hsecond
    obtain ⟨i, rfl⟩ := Nat.exists_eq_add_of_le hfirst.1
    obtain ⟨j, rfl⟩ := Nat.exists_eq_add_of_le hsecond.1
    have hi : i < 0x400 := by omega
    have hj : j < 0x400 := by omega
    have hhalves := MeansChars.halves hi hj (ih ht)
    simpa [Nat.mul_comm] using hhalves
  | case4 => cases h
  | case5 => cases h
  | case6 n m rest hleading htrailing ih =>
    obtain ⟨t, ht, rfl⟩ := Option.map_eq_some_iff.mp h
    refine .code ?_ (ih ht)
    simp only [isLeading, isTrailing, Bool.and_eq_true, decide_eq_true_eq] at hleading htrailing
    omega
  | case7 => cases h
  | case8 n rest _ hhalf ih =>
    obtain ⟨t, ht, rfl⟩ := Option.map_eq_some_iff.mp h
    refine .code ?_ (ih ht)
    simp only [isLeading, isTrailing, Bool.or_eq_true, Bool.and_eq_true, decide_eq_true_eq] at hhalf
    omega

theorem meaning_code {n : Nat} (hn : n < 0xD800 ∨ 0xE000 ≤ n) (us : List Unit16) :
    meaning (.code n :: us) = (Char.ofNat n :: ·) <$> meaning us := by
  have hleading : isLeading n = false := by
    simp only [isLeading, Bool.and_eq_false_iff, decide_eq_false_iff_not]
    omega
  have htrailing : isTrailing n = false := by
    simp only [isTrailing, Bool.and_eq_false_iff, decide_eq_false_iff_not]
    omega
  rcases us with _ | ⟨_ | m, us⟩ <;> simp [meaning, hleading, htrailing]

theorem meaning_halves {first second : Nat} (hfirst : first < 0x400) (hsecond : second < 0x400) (us : List Unit16) :
    meaning (.code (0xD800 + first) :: .code (0xDC00 + second) :: us) =
      (Char.ofNat (0x10000 + 0x400 * first + second) :: ·) <$> meaning us := by
  have hleading : isLeading (0xD800 + first) = true := by
    simp only [isLeading, Bool.and_eq_true, decide_eq_true_eq]
    omega
  have htrailing : isTrailing (0xDC00 + second) = true := by
    simp only [isTrailing, Bool.and_eq_true, decide_eq_true_eq]
    omega
  simp [meaning, hleading, htrailing, Nat.mul_comm]

theorem meaning_of_meansChars {u : List Unit16} {s : List Char} (h : MeansChars u s) : meaning u = some s := by
  induction h with
  | nil => rfl
  | char c _ ih =>
    rw [meaning, ih]
    rfl
  | code hn _ ih =>
    rw [meaning_code hn, ih]
    rfl
  | halves hfirst hsecond _ ih =>
    rw [meaning_halves hfirst hsecond, ih]
    rfl

/-- The meaning that the reader works out. -/
theorem means_iff {u : List Unit16} {name : String} : Means u name ↔ textOf u = some name := by
  constructor
  · intro h
    rw [textOf, meaning_of_meansChars h]
    exact congrArg some String.ofList_toList
  · intro h
    obtain ⟨s, hs, rfl⟩ := Option.map_eq_some_iff.mp h
    rw [Means, String.toList_ofList]
    exact meansChars_of_meaning hs

theorem Means.unique {u : List Unit16} {name other : String} (h : Means u name) (h' : Means u other) : name = other :=
  Option.some.inj ((means_iff.mp h).symm.trans (means_iff.mp h'))

/-! ## The tables of the reader -/

theorem isBlank_iff {c : Char} : isBlank c = true ↔ c ∈ [' ', '\t', '\n', '\r'] := by
  simp [isBlank, or_assoc]

theorem escaped?_eq_some_iff {e c : Char} : escaped? e = some c ↔ (e, c) ∈ escapes := by
  constructor
  · intro h
    unfold escaped? at h
    split at h <;> cases h <;> decide
  · intro h
    simp only [escapes, List.mem_cons, List.not_mem_nil, or_false, Prod.mk.injEq] at h
    rcases h with ⟨rfl, rfl⟩ | ⟨rfl, rfl⟩ | ⟨rfl, rfl⟩ | ⟨rfl, rfl⟩ | ⟨rfl, rfl⟩ | ⟨rfl, rfl⟩ | ⟨rfl, rfl⟩ | ⟨rfl, rfl⟩ <;>
      rfl

/-- A digit counts from the first of its range on. -/
theorem isHex_of_range {low high c : Char} {first : Nat}
    (hrange : ∀ k < high.toNat + 1 - low.toNat, IsHex (Char.ofNat (low.toNat + k)) (k + first))
    (h : low ≤ c ∧ c ≤ high) : IsHex c (c.toNat - low.toNat + first) := by
  have hlow : low.toNat ≤ c.toNat := h.1
  have hhigh : c.toNat ≤ high.toNat := h.2
  have hhex := hrange (c.toNat - low.toNat) (by omega)
  rwa [Nat.add_sub_cancel' hlow, Char.ofNat_toNat] at hhex

theorem isHex_of_hexValue? {c : Char} {value : Nat} (h : hexValue? c = some value) : IsHex c value := by
  have hdigits : ∀ k < '9'.toNat + 1 - '0'.toNat, IsHex (Char.ofNat ('0'.toNat + k)) (k + 0) := by
    unfold IsHex
    decide
  have hsmall : ∀ k < 'f'.toNat + 1 - 'a'.toNat, IsHex (Char.ofNat ('a'.toNat + k)) (k + 10) := by
    unfold IsHex
    decide
  have hlarge : ∀ k < 'F'.toNat + 1 - 'A'.toNat, IsHex (Char.ofNat ('A'.toNat + k)) (k + 10) := by
    unfold IsHex
    decide
  unfold hexValue? at h
  split at h
  · cases h
    exact isHex_of_range hdigits ‹_›
  · split at h
    · cases h
      exact isHex_of_range hsmall ‹_›
    · split at h
      · cases h
        exact isHex_of_range hlarge ‹_›
      · cases h

theorem hexValue?_eq_some_iff {c : Char} {value : Nat} : hexValue? c = some value ↔ IsHex c value := by
  refine ⟨isHex_of_hexValue?, fun h => ?_⟩
  rcases h with h | h
  all_goals
    obtain ⟨hlt, rfl⟩ := List.getElem?_eq_some_iff.mp h
    clear h
    revert value
    decide

theorem code?_eq_some_iff {a b c d : Char} {n : Nat} : code? a b c d = some n ↔
    ∃ i j k l, IsHex a i ∧ IsHex b j ∧ IsHex c k ∧ IsHex d l ∧ n = 4096 * i + 256 * j + 16 * k + l := by
  simp only [code?, Option.bind_eq_bind, Option.bind_eq_some_iff, hexValue?_eq_some_iff, Option.pure_def,
    Option.some.injEq]
  constructor
  · rintro ⟨i, hi, j, hj, k, hk, l, hl, rfl⟩
    exact ⟨i, j, k, l, hi, hj, hk, hl, by omega⟩
  · rintro ⟨i, j, k, l, hi, hj, hk, hl, rfl⟩
    exact ⟨i, hi, j, hj, k, hk, l, hl, by omega⟩

/-! ## Where a token ends -/

/-- A number before `r` does not go on in `r`. -/
def Ends (r : List Char) : Prop := ∀ c ∈ r.head?, c.isDigit = false ∧ c ≠ '.' ∧ c ≠ 'e' ∧ c ≠ 'E'

theorem Ends.digits {r : List Char} (h : Ends r) : EndsNumeral r := fun c hc => (h c hc).1

theorem ends_of_blank {b r : List Char} (hb : Blank b) (hne : b ≠ []) : Ends (b ++ r) := by
  cases b with
  | nil => exact absurd rfl hne
  | cons c rest =>
    intro d hd
    cases hd
    have hblank := hb c List.mem_cons_self
    simp only [List.mem_cons, List.not_mem_nil, or_false] at hblank
    rcases hblank with rfl | rfl | rfl | rfl <;> decide

def Token.isNumber : Token → Bool
  | .number _ => true
  | _ => false

/-- It may follow a value. -/
def Token.closes : Token → Bool
  | .comma | .endArray | .endObject => true
  | _ => false

/-- After a number there is nothing or a token that closes it. -/
def Apart (ts : List Token) : Prop := ts.IsChain fun t next => t.isNumber = true → next.closes = true

theorem ends_of_closes {t : Token} {s r : List Char} (ht : t.closes = true) (hs : t.Spells s) : Ends (s ++ r) := by
  cases t with
  | comma | endArray | endObject =>
    cases hs
    intro c hc
    cases hc
    decide
  | beginArray | beginObject | colon | null | bool | number | string => cases ht

theorem ends_of_spells {ts : List Token} {s : List Char} (h : SpellsTokens ts s)
    (hcloses : ∀ t ∈ ts.head?, t.closes = true) : Ends s := by
  cases h with
  | nil hb =>
    by_cases hne : s = []
    · rw [hne]
      nofun
    · rw [← List.append_nil s]
      exact ends_of_blank hb hne
  | @cons t _ b _ _ hb hs =>
    by_cases hne : b = []
    · rw [hne, List.nil_append]
      exact ends_of_closes (hcloses t rfl) hs
    · exact ends_of_blank hb hne

/-! ## Numbers -/

theorem lexDigits_append {digits r : List Char} (hd : IsDigits digits) (hr : EndsNumeral r) :
    lexDigits (digits ++ r) = some (digits, r) := by
  obtain ⟨hne, hdigits⟩ := hd
  rw [lexDigits, Text.takeWhile_digits hdigits hr, Text.dropWhile_digits hdigits hr, if_neg (by simpa using hne)]

theorem lexWhole_append {whole r : List Char} (h : IsWhole whole) (hr : EndsNumeral r) :
    lexWhole (whole ++ r) = some (whole, r) := by
  rcases h with rfl | ⟨hd, hzero⟩
  · rfl
  · cases whole with
    | nil => exact absurd rfl hd.1
    | cons c rest =>
      have hc : c ≠ '0' := by simpa using hzero
      rw [← lexDigits_append hd hr, List.cons_append, lexWhole]
      simpa using hc

theorem lexFraction_append {fraction : Option (List Char)} {r : List Char} (h : ∀ digits ∈ fraction, IsDigits digits)
    (hr : EndsNumeral r) (hpoint : ∀ c ∈ r.head?, c ≠ '.') :
    lexFraction (fractionChars fraction ++ r) = some (fraction, r) := by
  cases fraction with
  | none =>
    cases r with
    | nil => rfl
    | cons c rest =>
      have hc : c ≠ '.' := hpoint c rfl
      rw [fractionChars, List.nil_append, lexFraction]
      simpa using hc
  | some digits =>
    rw [fractionChars, List.cons_append, lexFraction, lexDigits_append (h digits rfl) hr]
    rfl

theorem lexSigned_digits {digits r : List Char} (hd : IsDigits digits) (hr : EndsNumeral r) :
    lexSigned (digits ++ r) = some ((false, digits), r) := by
  have hlex := lexDigits_append hd hr
  cases digits with
  | nil => exact absurd rfl hd.1
  | cons c rest =>
    have hdigit := hd.2 c List.mem_cons_self
    have hminus : c ≠ '-' := by
      rintro rfl
      cases hdigit
    have hplus : c ≠ '+' := by
      rintro rfl
      cases hdigit
    rw [List.cons_append] at hlex ⊢
    rw [lexSigned, hlex]
    · rfl
    · simpa using hminus
    · simpa using hplus

theorem lexExponent_append {exponent : Option (Bool × List Char)} {s r : List Char}
    (h : ∀ e ∈ exponent, IsDigits e.2) (hs : s ∈ exponentSpellings exponent) (hr : Ends r) :
    lexExponent (s ++ r) = some (exponent, r) := by
  match exponent with
  | none =>
    cases List.mem_singleton.mp hs
    cases r with
    | nil => rfl
    | cons c rest =>
      obtain ⟨-, -, hsmall, hlarge⟩ := hr c rfl
      rw [List.nil_append, lexExponent]
      · simpa using hsmall
      · simpa using hlarge
  | some (true, digits) =>
    have hlex := lexDigits_append (h _ rfl) hr.digits
    simp only [exponentSpellings, List.mem_cons, List.not_mem_nil, or_false] at hs
    rcases hs with rfl | rfl <;> simp [lexExponent, lexSigned, hlex]
  | some (false, digits) =>
    have hlex := lexDigits_append (h _ rfl) hr.digits
    have hbare := lexSigned_digits (h _ rfl) hr.digits
    simp only [exponentSpellings, List.mem_cons, List.not_mem_nil, or_false] at hs
    rcases hs with rfl | rfl | rfl | rfl
    · simp [lexExponent, lexSigned, hlex]
    · simp [lexExponent, lexSigned, hlex]
    · simp [lexExponent, hbare]
    · simp [lexExponent, hbare]

/-- What a number's text goes on with after the whole part is no digit. -/
theorem endsNumeral_of_tail {fraction : Option (List Char)} {exponent : Option (Bool × List Char)} {s r : List Char}
    (hs : s ∈ exponentSpellings exponent) (hr : Ends r) : EndsNumeral (fractionChars fraction ++ (s ++ r)) ∧
      EndsNumeral (s ++ r) ∧ ∀ c ∈ (s ++ r).head?, c ≠ '.' := by
  have hexponent : EndsNumeral (s ++ r) ∧ ∀ c ∈ (s ++ r).head?, c ≠ '.' := by
    match exponent with
    | none =>
      cases List.mem_singleton.mp hs
      exact ⟨hr.digits, fun c hc => (hr c hc).2.1⟩
    | some (true, _) | some (false, _) =>
      simp only [exponentSpellings, List.mem_cons, List.not_mem_nil, or_false] at hs
      rcases hs with rfl | rfl | rfl | rfl <;>
        exact ⟨fun c hc => by cases hc; decide, fun c hc => by cases hc; decide⟩
  refine ⟨?_, hexponent⟩
  cases fraction with
  | none => exact hexponent.1
  | some digits =>
    intro c hc
    cases hc
    decide

theorem lexNumber_append {n : Number} {s r : List Char} (h : n.Spells s) (hr : Ends r) :
    lexNumber (s ++ r) = some (n, r) := by
  obtain ⟨formed, exponent, hexponent, rfl⟩ := h
  obtain ⟨hwhole, hfraction, hpoint⟩ := @endsNumeral_of_tail n.fraction _ _ _ hexponent hr
  have hunsigned : lexUnsigned n.negative (n.whole ++ (fractionChars n.fraction ++ (exponent ++ r))) = some (n, r) := by
    simp only [lexUnsigned, lexWhole_append formed.whole hwhole, lexFraction_append formed.fraction hfraction hpoint,
      lexExponent_append formed.exponent hexponent hr]
  by_cases hneg : n.negative = true
  · rw [hneg] at hunsigned
    simpa [hneg, lexNumber] using hunsigned
  · rw [Bool.not_eq_true] at hneg
    rw [hneg] at hunsigned
    obtain ⟨c, rest, hc, hminus⟩ : ∃ c rest, n.whole = c :: rest ∧ c ≠ '-' := by
      rcases formed.whole with hzero | ⟨⟨hne, hdigits⟩, -⟩
      · exact ⟨'0', [], hzero, by decide⟩
      · obtain ⟨c, rest, hc⟩ := List.exists_cons_of_ne_nil hne
        refine ⟨c, rest, hc, ?_⟩
        rintro rfl
        cases hdigits '-' (by simp [hc])
    simp only [hneg, Bool.false_eq_true, if_false, List.nil_append, hc, List.cons_append,
      List.append_assoc] at hunsigned ⊢
    rw [lexNumber, hunsigned]
    simpa using hminus

/-! ## Strings -/

theorem lexString_append {us : List Unit16} {s : List Char} (h : SpellsString us s) :
    ∀ (done : List Unit16) (r : List Char), lexString done (s ++ '"' :: r) = some (done.reverse ++ us, r) := by
  induction h with
  | nil =>
    intro done r
    rw [List.nil_append, lexString, List.append_nil]
  | @cons u us s t hu _ ih =>
    intro done r
    cases hu with
    | plain c hprintable hquote hslash =>
      rw [List.append_assoc, List.singleton_append, lexString, if_neg (by omega), ih]
      · simp
      · exact hquote
      · exact fun _ _ _ _ _ hc _ => hslash hc
      · exact fun _ _ hc _ => hslash hc
    | escaped e c he =>
      have hescaped := escaped?_eq_some_iff.mpr he
      have hcode : e ≠ 'u' := by
        rintro rfl
        cases hescaped
      simp only [List.cons_append, List.nil_append]
      rw [lexString, hescaped]
      · simp [ih]
      · exact fun _ _ _ _ _ hc _ => hcode hc
    | code a b c d i j k l ha hb hc hd =>
      have hcode := code?_eq_some_iff.mpr ⟨i, j, k, l, ha, hb, hc, hd, rfl⟩
      simp only [List.cons_append, List.nil_append]
      rw [lexString, hcode]
      simp [ih]

/-! ## Tokens -/

theorem Number.Spells.head {n : Number} {s : List Char} (h : n.Spells s) :
    ∃ c rest, s = c :: rest ∧ (c = '-' ∨ c.isDigit = true) := by
  obtain ⟨formed, exponent, -, rfl⟩ := h
  by_cases hneg : n.negative = true
  · exact ⟨'-', _, by rw [hneg]; rfl, .inl rfl⟩
  · rcases formed.whole with hzero | ⟨⟨hne, hdigits⟩, -⟩
    · exact ⟨'0', fractionChars n.fraction ++ exponent, by simp [hneg, hzero], .inr (by decide)⟩
    · obtain ⟨c, rest, hc⟩ := List.exists_cons_of_ne_nil hne
      exact ⟨c, rest ++ (fractionChars n.fraction ++ exponent), by simp [hneg, hc], .inr (hdigits c (by simp [hc]))⟩

theorem isBlank_of_digit {c : Char} (h : c.isDigit = true) : isBlank c = false := by
  cases hblank : isBlank c with
  | false => rfl
  | true =>
    simp only [isBlank, Bool.or_eq_true, decide_eq_true_eq] at hblank
    rcases hblank with ((rfl | rfl) | rfl) | rfl <;> cases h

/-- A token is never empty and starts with no white space. -/
theorem Token.Spells.head {t : Token} {s : List Char} (h : t.Spells s) :
    ∃ c rest, s = c :: rest ∧ isBlank c = false := by
  cases t with
  | number n =>
    obtain ⟨c, rest, hs, hc⟩ := Number.Spells.head h
    refine ⟨c, rest, hs, ?_⟩
    rcases hc with rfl | hdigit
    · decide
    · exact isBlank_of_digit hdigit
  | string u =>
    obtain ⟨inside, -, rfl⟩ := h
    exact ⟨'"', _, rfl, by decide⟩
  | bool b => cases b <;> exact ⟨_, _, h, by decide⟩
  | beginArray | endArray | beginObject | endObject | comma | colon | null => exact ⟨_, _, h, by decide⟩

theorem lexToken_append {t : Token} {s r : List Char} (h : t.Spells s) (hr : t.isNumber = true → Ends r) :
    lexToken (s ++ r) = some (t, r) := by
  cases t with
  | number n =>
    have hlex := lexNumber_append h (hr rfl)
    obtain ⟨c, rest, rfl, hc⟩ := Number.Spells.head h
    rw [List.cons_append] at hlex ⊢
    rw [lexToken, hlex]
    · rfl
    all_goals
      intro _ heq
      obtain ⟨rfl, -⟩ := List.cons.inj heq
      revert hc
      decide
  | string u =>
    obtain ⟨inside, hinside, rfl⟩ := h
    simp [lexToken, lexString_append hinside]
  | bool b => cases b <;> cases h <;> rfl
  | beginArray | endArray | beginObject | endObject | comma | colon | null => cases h; rfl

/-! ## Texts -/

theorem lex_blank {b : List Char} (hb : Blank b) (done : List Token) (r : List Char) :
    lex done (b ++ r) = lex done r := by
  induction b with
  | nil => rfl
  | cons c rest ih =>
    have hc : isBlank c = true := isBlank_iff.mpr (hb c List.mem_cons_self)
    rw [List.cons_append, lex, if_pos hc]
    exact ih fun d hd => hb d (List.mem_cons_of_mem _ hd)

theorem lex_token {t : Token} {s r : List Char} (h : t.Spells s) (hr : t.isNumber = true → Ends r) (done : List Token) :
    lex done (s ++ r) = lex (t :: done) r := by
  have hlex := lexToken_append h hr
  obtain ⟨c, rest, rfl, hc⟩ := Token.Spells.head h
  rw [List.cons_append] at hlex ⊢
  rw [lex, if_neg (by simp [hc])]
  split
  · rename_i hnone
    rw [hlex] at hnone
    cases hnone
  · rename_i hsome
    rw [hlex] at hsome
    cases hsome
    rfl

theorem lex_append {ts : List Token} {s : List Char} (h : SpellsTokens ts s) (apart : Apart ts) :
    ∀ done, lex done s = some (done.reverse ++ ts) := by
  induction h with
  | @nil b hb =>
    intro done
    rw [← List.append_nil b, lex_blank hb, lex, List.append_nil]
  | @cons t ts b s r hb hs hr ih =>
    obtain ⟨hnext, happart⟩ := List.isChain_cons.mp apart
    intro done
    rw [lex_blank hb, lex_token hs fun hnumber => ends_of_spells hr fun u hu => hnext u hu hnumber, ih happart]
    simp

/-- What may follow a value. -/
def Closed (rest : List Token) : Prop := Apart rest ∧ ∀ t ∈ rest.head?, t.closes = true

theorem Closed.cons {t : Token} {rest : List Token} (ht : t.closes = true) (h : Apart rest) : Closed (t :: rest) := by
  refine ⟨List.isChain_cons.mpr ⟨fun _ _ hnumber => ?_, h⟩, fun u hu => ?_⟩
  · cases t with
    | number => cases ht
    | _ => cases hnumber
  · cases hu
    exact ht

theorem Apart.cons {t : Token} {rest : List Token} (ht : t.isNumber = false) (h : Apart rest) : Apart (t :: rest) :=
  List.isChain_cons.mpr ⟨fun _ _ hnumber => absurd (ht.symm.trans hnumber) (by decide), h⟩

mutual

theorem apart_tokens : ∀ (v : Json) {rest : List Token}, Closed rest → Apart (v.tokens ++ rest)
  | .null, _, h | .bool _, _, h | .string _, _, h => Apart.cons rfl h.1
  | .number _, _, h => List.isChain_cons.mpr ⟨fun t ht _ => h.2 t ht, h.1⟩
  | .array items, rest, h => by
    rw [tokens, List.cons_append, List.cons_append, List.append_assoc]
    exact Apart.cons rfl (apart_itemTokens items (Closed.cons rfl h.1))
  | .object members, rest, h => by
    rw [tokens, List.cons_append, List.cons_append, List.append_assoc]
    exact Apart.cons rfl (apart_memberTokens members (Closed.cons rfl h.1))

theorem apart_itemTokens : ∀ (items : List Json) {rest : List Token}, Closed rest → Apart (itemTokens items ++ rest)
  | [], _, h => h.1
  | [v], _, h => apart_tokens v h
  | v :: w :: items, rest, h => by
    rw [itemTokens, List.append_assoc]
    exact apart_tokens v (Closed.cons rfl (apart_itemTokens (w :: items) h))

theorem apart_memberTokens : ∀ (members : List (List Unit16 × Json)) {rest : List Token}, Closed rest →
    Apart (memberTokens members ++ rest)
  | [], _, h => h.1
  | [(_, v)], _, h => Apart.cons rfl (Apart.cons rfl (apart_tokens v h))
  | (_, v) :: m :: members, rest, h => by
    rw [memberTokens, List.append_assoc]
    exact Apart.cons rfl (Apart.cons rfl (apart_tokens v (Closed.cons rfl (apart_memberTokens (m :: members) h))))

end

theorem lex_of_spells {v : Json} {text : String} (h : v.Spells text) : lex [] text.toList = some v.tokens := by
  have happart : Apart v.tokens := by
    rw [← List.append_nil v.tokens]
    exact apart_tokens v ⟨List.isChain_nil, nofun⟩
  rw [lex_append h happart]
  rfl

end TransitSearch.Json

/-
  TransitSearch.Proofs.Json.Printing — what is written spells the value it was written from.

  `render` leaves out all white space. That is a spelling of the value as long as its
  numbers are well formed and its strings hold characters only, none of them a control
  character (`spells_render`): such a character is written by its code and would come back
  as an escape. The numbers written here are well formed.
  - An integer is written as its numeral, and read back from it (`int?_ofInt`).
  - A double is written with the digits of a decimal that is not zero unless the double is
    (`sound_shortest`), so no digits are missing and none lead with a zero
    (`wellFormed_ofDecimal`).

  Not every double is read back from its shortest digits: the reader multiplies or divides
  by a power of ten, which can be one unit off. `Doubles.shortestOrBits` writes those by
  their bits and reads every finite double back (`exact_shortestOrBits`).
-/

import TransitSearch.Json.Number
import TransitSearch.Proofs.Json.Spelling

namespace TransitSearch

/-! ## Values -/

namespace Json

/-- The token is spelled by what is written for it. -/
def Token.Printable : Token → Prop
  | .number n => n.WellFormed
  | .string u => ∀ x ∈ u, ∃ c : Char, x = .char c ∧ 32 ≤ c.toNat
  | _ => True

theorem printable_chars {s : List Char} (h : s.all (32 ≤ ·.toNat) = true) : (Token.string (s.map .char)).Printable := by
  intro x hx
  obtain ⟨c, hc, rfl⟩ := List.mem_map.mp hx
  exact ⟨c, rfl, of_decide_eq_true (List.all_eq_true.mp h c hc)⟩

theorem Unit16.spells_chars {c : Char} (h : 32 ≤ c.toNat) : (Unit16.char c).Spells (Unit16.char c).chars := by
  by_cases hquote : c = '"'
  · subst hquote
    exact .escaped '"' '"' (by decide)
  · by_cases hslash : c = '\\'
    · subst hslash
      exact .escaped '\\' '\\' (by decide)
    · have hchars : (Unit16.char c).chars = [c] := by simp [Unit16.chars, Nat.not_lt.mpr h]
      rw [hchars]
      exact .plain c h hquote hslash

theorem spellsString_chars {u : List Unit16} (h : (Token.string u).Printable) :
    SpellsString u (u.flatMap Unit16.chars) := by
  induction u with
  | nil => exact .nil
  | cons x u ih =>
    obtain ⟨c, rfl, hc⟩ := h x List.mem_cons_self
    exact .cons (Unit16.spells_chars hc) (ih fun y hy => h y (List.mem_cons_of_mem _ hy))

theorem Number.chars_eq (n : Number) : ∃ exponent ∈ exponentSpellings n.exponent,
    n.chars = (if n.negative then ['-'] else []) ++ (n.whole ++ (fractionChars n.fraction ++ exponent)) := by
  obtain ⟨negative, whole, fraction, exponent⟩ := n
  rcases exponent with _ | ⟨_ | _, digits⟩ <;> refine ⟨_, List.mem_cons_self, ?_⟩ <;>
    cases fraction <;> simp [Number.chars, fractionChars]

theorem Token.spells_chars {t : Token} (h : t.Printable) : t.Spells t.chars := by
  cases t with
  | number n => exact ⟨h, n.chars_eq⟩
  | string u => exact ⟨_, spellsString_chars h, rfl⟩
  | bool b => cases b <;> exact rfl
  | beginArray | endArray | beginObject | endObject | comma | colon | null => exact rfl

theorem spellsTokens_chars {ts : List Token} (h : ∀ t ∈ ts, t.Printable) :
    SpellsTokens ts (ts.flatMap Token.chars) := by
  induction ts with
  | nil => exact .nil nofun
  | cons t ts ih =>
    have hrest := ih fun u hu => h u (List.mem_cons_of_mem _ hu)
    exact .cons (b := []) nofun (Token.spells_chars (h t List.mem_cons_self)) hrest

theorem spells_render {v : Json} (h : ∀ t ∈ v.tokens, t.Printable) : v.Spells v.render := by
  rw [Spells, render, String.toList_ofList]
  exact spellsTokens_chars h

theorem printable_memberTokens {members : List (List Unit16 × Json)}
    (h : ∀ m ∈ members, (Token.string m.1).Printable ∧ ∀ t ∈ m.2.tokens, t.Printable) :
    ∀ t ∈ memberTokens members, t.Printable := by
  intro t ht
  match members with
  | [] => cases ht
  | [(k, v)] =>
    obtain ⟨hk, hv⟩ := h (k, v) List.mem_cons_self
    simp only [memberTokens, List.mem_cons] at ht
    rcases ht with rfl | rfl | ht
    · exact hk
    · trivial
    · exact hv t ht
  | (k, v) :: m :: members =>
    obtain ⟨hk, hv⟩ := h (k, v) List.mem_cons_self
    simp only [memberTokens, List.mem_cons, List.mem_append] at ht
    rcases ht with (rfl | rfl | ht) | rfl | ht
    · exact hk
    · trivial
    · exact hv t ht
    · trivial
    · exact printable_memberTokens (fun m' hm' => h m' (List.mem_cons_of_mem _ hm')) t ht

theorem printable_object {members : List (List Unit16 × Json)}
    (h : ∀ m ∈ members, (Token.string m.1).Printable ∧ ∀ t ∈ m.2.tokens, t.Printable) :
    ∀ t ∈ (Json.object members).tokens, t.Printable := by
  intro t ht
  rw [tokens, List.mem_append, List.mem_cons, List.mem_singleton] at ht
  rcases ht with (rfl | ht) | rfl
  · trivial
  · exact printable_memberTokens h t ht
  · trivial

/-! ## Integers -/

theorem isDigits_toDigits (n : Nat) : IsDigits (Nat.toDigits 10 n) :=
  ⟨Nat.toDigits_ne_nil, Text.digits_isDigit n⟩

theorem head?_toDigits {n : Nat} (h : 0 < n) : (Nat.toDigits 10 n).head? ≠ some '0' := by
  induction n using Nat.strongRecOn with
  | ind n ih =>
    by_cases hlt : n < 10
    · rw [Nat.toDigits_of_lt_base hlt]
      simpa using Nat.ne_of_gt h
    · have hrest := ih (n / 10) (by omega) (by omega)
      rw [Nat.toDigits_of_base_le (by decide) (by omega), List.head?_append_of_ne_nil _ Nat.toDigits_ne_nil]
      exact hrest

theorem isWhole_toDigits (n : Nat) : IsWhole (Nat.toDigits 10 n) := by
  by_cases hzero : n = 0
  · subst hzero
    exact .inl rfl
  · exact .inr ⟨isDigits_toDigits n, head?_toDigits (Nat.pos_of_ne_zero hzero)⟩

theorem Number.natOf_toDigits (n : Nat) : natOf (Nat.toDigits 10 n) = n := by
  have hread : Nat.ofDigitChars 10 (Nat.toDigits 10 n) 0 = n := Nat.ofDigitChars_ten_toDigits
  rw [Nat.ofDigitChars_eq_foldl] at hread
  simp only [natOf, digitValue, Nat.mul_comm _ 10]
  exact hread

theorem Number.wellFormed_ofInt (n : Int) : (ofInt n).WellFormed := ⟨isWhole_toDigits n.natAbs, nofun, nofun⟩

theorem Number.int?_ofInt (n : Int) : (ofInt n).int? = some n := by
  simp only [int?, ofInt, natOf_toDigits]
  by_cases hneg : n < 0
  · have hne : n.natAbs ≠ 0 := by omega
    have hback : -(n.natAbs : Int) = n := by omega
    simp only [hneg, decide_true, if_true, if_neg hne, hback]
  · have hback : (n.natAbs : Int) = n := by omega
    simp only [hneg, decide_false, Bool.false_eq_true, if_false, hback]

theorem int?_ofInt {n : Int} (h : Checked.Fits n) : int? (.ofInt n) = some n := by
  simp [int?, ofInt, Number.int?_ofInt, h]

end Json

/-! ## Doubles -/

namespace Decimal

/-- Zero has no exponent. -/
def Sound (d : Decimal) : Prop := 0 < d.digits ∨ d.exponent = 0

theorem digits_strip {d : Decimal} (h : 0 < d.digits) : 0 < d.strip.digits := by
  fun_induction strip d with
  | case1 d hd ih => exact ih (by simp; omega)
  | case2 d hd => exact h

theorem unitOf_pos (q : Int) : 0 < (unitOf q).1 := by
  cases q with
  | ofNat k => exact Nat.pow_pos (by decide)
  | negSucc k => exact Nat.pow_pos (by decide)

theorem readsBack_zero {x : Magnitude} {u : Nat} (hm : 0 < x.m) (hu : 0 < u) : readsBack x u 0 = false := by
  have hexact : u ≤ x.m * u := Nat.le_mul_of_pos_left u hm
  unfold readsBack
  by_cases heven : x.m % 2 = 0 <;> cases x.narrowBelow <;> simp [heven] <;> omega

theorem onGrid_pos {tie : Tie} {x : Magnitude} {u grid n : Nat} (hm : 0 < x.m) (hu : 0 < u)
    (h : onGrid tie x u grid = some n) : 0 < n := by
  have hzero := readsBack_zero hm hu
  have hbelow : readsBack x u (x.m * u / grid * grid) = true → 0 < x.m * u / grid := by
    intro hreads
    rcases Nat.eq_zero_or_pos (x.m * u / grid) with hnone | hpos
    · rw [hnone, Nat.zero_mul, hzero] at hreads
      cases hreads
    · exact hpos
  simp only [onGrid] at h
  split at h
  · cases h
  · rename_i hreads _
    cases h
    exact hbelow hreads
  · cases h
    exact Nat.succ_pos _
  · rename_i hreads _
    have hpos := hbelow hreads
    split at h
    · cases h
      exact hpos
    · cases h
      exact Nat.succ_pos _
    · split at h <;> cases h
      · exact hpos
      · exact Nat.succ_pos _

theorem sound_shortest (tie : Tie) (x : Magnitude) : (shortest tie x).Sound := by
  by_cases hm : x.m = 0
  · rw [shortest, if_pos hm]
    exact .inr rfl
  · have hpos := Nat.pos_of_ne_zero hm
    have hu := unitOf_pos x.q
    rw [shortest, if_neg hm]
    refine .inl (digits_strip ?_)
    cases hfound : List.findSome? _ _ with
    | none => exact Nat.mul_pos hpos hu
    | some d =>
      obtain ⟨count, -, hcount⟩ := List.exists_of_findSome?_eq_some hfound
      obtain ⟨n, hn, rfl⟩ := Option.map_eq_some_iff.mp hcount
      exact onGrid_pos hpos hu hn

end Decimal

namespace Json

theorem isWhole_take_one {s : List Char} (h : IsWhole s) : IsWhole (s.take 1) := by
  rcases h with rfl | ⟨⟨hne, hdigits⟩, hhead⟩
  · exact .inl rfl
  · have hfirst : IsDigits (s.take 1) := ⟨by simpa using hne, fun c hc => hdigits c (List.mem_of_mem_take hc)⟩
    exact .inr ⟨hfirst, by simpa [List.head?_take] using hhead⟩

theorem digits_replicate {k : Nat} : ∀ c ∈ List.replicate k '0', c.isDigit = true := by
  intro c hc
  rw [List.eq_of_mem_replicate hc]
  decide

theorem isWhole_shifted {d : Decimal} {k : Nat} (h : 0 < d.digits ∨ k = 0) :
    IsWhole (d.chars ++ List.replicate k '0') := by
  rcases h with hpos | rfl
  · have hhead := head?_toDigits hpos
    refine .inr ⟨⟨by simp [Decimal.chars], ?_⟩, ?_⟩
    · intro c hc
      rcases List.mem_append.mp hc with hc | hc
      · exact (isDigits_toDigits _).2 c hc
      · exact digits_replicate c hc
    · rw [Decimal.chars, List.head?_append_of_ne_nil _ Nat.toDigits_ne_nil]
      exact hhead
  · rw [List.replicate_zero, List.append_nil]
    exact isWhole_toDigits d.digits

theorem isWhole_pointed {d : Decimal} {behind : Nat} {padded : List Char} (hd : 0 < d.digits) (hbehind : 0 < behind)
    (hpadded : padded = List.replicate (behind + 1 - d.chars.length) '0' ++ d.chars) :
    IsWhole (padded.take (padded.length - behind)) ∧ IsDigits (padded.drop (padded.length - behind)) := by
  have hdigits : ∀ c ∈ padded, c.isDigit = true := by
    intro c hc
    rw [hpadded] at hc
    rcases List.mem_append.mp hc with hc | hc
    · exact digits_replicate c hc
    · exact (isDigits_toDigits _).2 c hc
  have hlength : padded.length = behind + 1 - d.chars.length + d.chars.length := by simp [hpadded]
  refine ⟨?_, fun hnil => ?_, fun c hc => hdigits c (List.mem_of_mem_drop hc)⟩
  · by_cases hshort : d.chars.length ≤ behind
    · have hone : padded.length - behind = 1 := by omega
      obtain ⟨zeros, hzeros⟩ : ∃ zeros, behind + 1 - d.chars.length = zeros + 1 := ⟨behind - d.chars.length, by omega⟩
      rw [hone, hpadded, hzeros]
      exact .inl rfl
    · have hnone : behind + 1 - d.chars.length = 0 := by omega
      obtain ⟨kept, hkept⟩ : ∃ kept, padded.length - behind = kept + 1 := ⟨padded.length - behind - 1, by omega⟩
      rw [hnone, List.replicate_zero, List.nil_append] at hpadded
      refine .inr ⟨⟨?_, fun c hc => hdigits c (List.mem_of_mem_take hc)⟩, ?_⟩
      · rw [hkept, hpadded]
        simp [Decimal.chars]
      · rw [hkept, List.head?_take, hpadded]
        simpa [Decimal.chars] using head?_toDigits hd
  · have hnone := congrArg List.length hnil
    simp only [List.length_drop, List.length_nil] at hnone
    omega

theorem positional_parts {d : Decimal} (h : d.Sound) :
    IsWhole d.positional.1 ∧ (d.positional.2 = [] ∨ IsDigits d.positional.2) := by
  obtain ⟨digits, exponent⟩ := d
  cases exponent with
  | ofNat k =>
    have hk : 0 < digits ∨ k = 0 := by
      rcases h with hpos | hzero
      · exact .inl hpos
      · exact .inr (by simpa using hzero)
    exact ⟨isWhole_shifted hk, .inl rfl⟩
  | negSucc k =>
    have hpos : 0 < digits := by
      rcases h with hpos | hzero
      · exact hpos
      · cases hzero
    obtain ⟨hwhole, hfraction⟩ := @isWhole_pointed ⟨digits, .negSucc k⟩ (k + 1) _ hpos (by omega) rfl
    exact ⟨hwhole, .inr hfraction⟩

theorem Number.wellFormed_ofDecimal (negative : Bool) {d : Decimal} (h : d.Sound) :
    (ofDecimal negative d).WellFormed := by
  by_cases hplain : isPlain d.leadingExponent = true
  · obtain ⟨hwhole, hfraction⟩ := positional_parts h
    have hbehind : IsDigits (if d.positional.2.isEmpty then ['0'] else d.positional.2) := by
      rcases hfraction with hnone | hsome
      · rw [hnone]
        exact isDigits_toDigits 0
      · rwa [if_neg (by simpa using hsome.1)]
    simp only [ofDecimal, hplain, if_true]
    refine ⟨hwhole, fun digits hdigits => ?_, nofun⟩
    cases hdigits
    exact hbehind
  · have hbehind : ∀ digits ∈ (if d.chars.tail.isEmpty then none else some d.chars.tail), IsDigits digits := by
      intro digits hdigits
      by_cases hnone : d.chars.tail = []
      · simp [hnone] at hdigits
      · rw [if_neg (by simpa using hnone)] at hdigits
        cases hdigits
        exact ⟨hnone, fun c hc => (isDigits_toDigits d.digits).2 c (List.mem_of_mem_tail hc)⟩
    simp only [ofDecimal, hplain, Bool.false_eq_true, if_false]
    refine ⟨isWhole_take_one (isWhole_toDigits d.digits), hbehind, fun e he => ?_⟩
    cases he
    exact isDigits_toDigits _

theorem Number.wellFormed_ofFloat? {x : Float} {n : Number} (h : ofFloat? x = some n) : n.WellFormed := by
  unfold ofFloat? at h
  split at h
  · cases h
    exact wellFormed_ofDecimal _ (Decimal.sound_shortest _ _)
  · cases h
  · cases h

/-! ## Doubles that are all read back -/

open Float.Model (Format)

instance (format : Format) (bits : BitVec format.numBits) : Decidable (format.Valid bits) :=
  decidable_of_iff _ ⟨Format.Valid.mk, Format.Valid.eq_packedNaN⟩

/-- The exponent that marks the bits of a double. -/
def bitsMark : Bool × List Char := (false, ['0', '0', '0'])

/-- The double with these bits, if it has no other bits. -/
def floatOfBits? (bits : UInt64) : Option Float :=
  if valid : Format.binary64.Valid bits.toBitVec then some (.ofModel ⟨bits, valid⟩) else none

theorem floatOfBits?_toBits (x : Float) : floatOfBits? x.toBits = some x := dif_pos x.toModel.valid

namespace Doubles

/-- Every finite double is read back from what is written for it. -/
def Exact (doubles : Doubles) : Prop := ∀ x negative magnitude, Binary64.ofFloat x = .finite negative magnitude →
  ∃ n, doubles.write? x = some n ∧ doubles.read? n = some x

/-- This double is read back as the next one. -/
theorem not_exact_shortest : ¬ shortest.Exact := by
  intro exact
  have hwritten : shortest.write? 0.011000000000000001 = some ⟨false, ['0'], some "011000000000000001".toList, none⟩ := by
    decide +kernel
  obtain ⟨n, hn, hread⟩ := exact 0.011000000000000001 _ _ rfl
  rw [hwritten] at hn
  cases hn
  revert hread
  decide +kernel

/-- The shortest digits where they are read back, the bits where they are not. -/
def shortestOrBits : Doubles where
  write? x := (Number.ofFloat? x).map fun n =>
    if n.exponent ≠ some bitsMark ∧ n.float? = some x then n
    else ⟨false, Nat.toDigits 10 x.toBits.toNat, none, some bitsMark⟩
  read? n := if n.exponent = some bitsMark then floatOfBits? (.ofNat (Number.natOf n.whole)) else n.float?

theorem exact_shortestOrBits : shortestOrBits.Exact := by
  intro x negative magnitude hx
  obtain ⟨n, hn⟩ : ∃ n, Number.ofFloat? x = some n := by
    simp only [Number.ofFloat?, hx]
    exact ⟨_, rfl⟩
  simp only [shortestOrBits, hn, Option.map_some, Option.some.injEq, exists_eq_left']
  by_cases hback : n.exponent ≠ some bitsMark ∧ n.float? = some x
  · rw [if_pos hback, if_neg hback.1]
    exact hback.2
  · rw [if_neg hback, if_pos rfl, Number.natOf_toDigits, UInt64.ofNat_toNat]
    exact floatOfBits?_toBits x

theorem wellFormed_shortestOrBits {x : Float} {n : Number} (h : shortestOrBits.write? x = some n) : n.WellFormed := by
  obtain ⟨m, hm, rfl⟩ := Option.map_eq_some_iff.mp h
  split
  · exact Number.wellFormed_ofFloat? hm
  · refine ⟨isWhole_toDigits _, nofun, fun e he => ?_⟩
    cases he
    exact ⟨by decide, @digits_replicate 3⟩

end Doubles

end Json

end TransitSearch

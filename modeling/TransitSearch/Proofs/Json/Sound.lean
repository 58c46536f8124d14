/-
  TransitSearch.Proofs.Json.Sound — only the texts of a value are read as that value.

  A token that the lexer takes is spelled by the characters it takes (`lexToken_sound`). The
  machine keeps what it has read in what it wants and in its frames, so the tokens so far
  can be told from it (`Machine.taken`): each step adds its own (`step_taken`), and a
  machine that is done has taken the tokens of its value. With `parse?_of_spells` that says
  which texts are read: exactly the spellings (`parse?_eq_some_iff`).
-/

import TransitSearch.Proofs.Json.Reading

namespace TransitSearch.Json

/-! ## Numbers -/

theorem lexDigits_sound {s digits r : List Char} (h : lexDigits s = some (digits, r)) :
    IsDigits digits ∧ s = digits ++ r := by
  unfold lexDigits at h
  split at h
  · cases h
  · rename_i hne
    cases h
    refine ⟨⟨by simpa using hne, fun c hc => ?_⟩, List.takeWhile_append_dropWhile.symm⟩
    exact List.all_eq_true.mp List.all_takeWhile c hc

theorem lexWhole_sound {s whole r : List Char} (h : lexWhole s = some (whole, r)) : IsWhole whole ∧ s = whole ++ r := by
  unfold lexWhole at h
  split at h
  · cases h
    exact ⟨.inl rfl, rfl⟩
  · rename_i hzero
    obtain ⟨hdigits, rfl⟩ := lexDigits_sound h
    refine ⟨.inr ⟨hdigits, fun hhead => ?_⟩, rfl⟩
    obtain ⟨rest, rfl⟩ := List.head?_eq_some_iff.mp hhead
    exact hzero _ rfl

theorem lexFraction_sound {s r : List Char} {fraction : Option (List Char)} (h : lexFraction s = some (fraction, r)) :
    (∀ digits ∈ fraction, IsDigits digits) ∧ s = fractionChars fraction ++ r := by
  unfold lexFraction at h
  split at h
  · obtain ⟨⟨digits, r'⟩, hdigits, heq⟩ := Option.map_eq_some_iff.mp h
    cases heq
    obtain ⟨hformed, rfl⟩ := lexDigits_sound hdigits
    exact ⟨fun _ hd => by cases hd; exact hformed, rfl⟩
  · cases h
    exact ⟨nofun, rfl⟩

theorem lexSigned_sound {s r : List Char} {signed : Bool × List Char} (h : lexSigned s = some (signed, r)) :
    IsDigits signed.2 ∧ ∀ letter ∈ ['e', 'E'], ∃ taken ∈ exponentSpellings (some signed), letter :: s = taken ++ r := by
  unfold lexSigned at h
  split at h
  all_goals
    obtain ⟨⟨digits, r'⟩, hdigits, heq⟩ := Option.map_eq_some_iff.mp h
    cases heq
    obtain ⟨hformed, rfl⟩ := lexDigits_sound hdigits
    refine ⟨hformed, fun letter hletter => ?_⟩
    simp only [List.mem_cons, List.not_mem_nil, or_false] at hletter
    rcases hletter with rfl | rfl <;> simp [exponentSpellings]

theorem lexExponent_sound {s r : List Char} {exponent : Option (Bool × List Char)}
    (h : lexExponent s = some (exponent, r)) :
    (∀ e ∈ exponent, IsDigits e.2) ∧ ∃ taken ∈ exponentSpellings exponent, s = taken ++ r := by
  unfold lexExponent at h
  split at h
  case h_3 =>
    cases h
    exact ⟨nofun, [], List.mem_cons_self, rfl⟩
  all_goals
    obtain ⟨⟨signed, r'⟩, hsigned, heq⟩ := Option.map_eq_some_iff.mp h
    cases heq
    obtain ⟨hformed, htaken⟩ := lexSigned_sound hsigned
    exact ⟨fun _ he => by cases he; exact hformed, htaken _ (by decide)⟩

theorem lexUnsigned_sound {negative : Bool} {s r : List Char} {n : Number}
    (h : lexUnsigned negative s = some (n, r)) :
    n.negative = negative ∧ n.WellFormed ∧ ∃ exponent ∈ exponentSpellings n.exponent,
      s = n.whole ++ (fractionChars n.fraction ++ exponent) ++ r := by
  unfold lexUnsigned at h
  split at h
  · cases h
  · rename_i hwhole
    split at h
    · cases h
    · rename_i hfraction
      split at h
      · cases h
      · rename_i hexponent
        cases h
        obtain ⟨whole, rfl⟩ := lexWhole_sound hwhole
        obtain ⟨fraction, rfl⟩ := lexFraction_sound hfraction
        obtain ⟨exponent, taken, htaken, rfl⟩ := lexExponent_sound hexponent
        exact ⟨rfl, ⟨whole, fraction, exponent⟩, taken, htaken, by simp⟩

theorem lexNumber_sound {s r : List Char} {n : Number} (h : lexNumber s = some (n, r)) :
    ∃ taken, n.Spells taken ∧ s = taken ++ r := by
  unfold lexNumber at h
  split at h
  · obtain ⟨hneg, formed, exponent, hexponent, rfl⟩ := lexUnsigned_sound h
    exact ⟨_, ⟨formed, exponent, hexponent, rfl⟩, by simp [hneg]⟩
  · obtain ⟨hneg, formed, exponent, hexponent, rfl⟩ := lexUnsigned_sound h
    exact ⟨_, ⟨formed, exponent, hexponent, rfl⟩, by simp [hneg]⟩

/-! ## Tokens -/

theorem lexString_sound {done u : List Unit16} {s r : List Char} (h : lexString done s = some (u, r)) :
    ∃ us inside, u = done.reverse ++ us ∧ SpellsString us inside ∧ s = inside ++ '"' :: r := by
  fun_induction lexString done s with
  | case1 => cases h
  | case2 done rest =>
    cases h
    exact ⟨[], [], (List.append_nil _).symm, .nil, rfl⟩
  | case3 => cases h
  | case4 done a b c d rest n hn ih =>
    obtain ⟨us, inside, rfl, hinside, rfl⟩ := ih h
    obtain ⟨i, j, k, l, ha, hb, hc, hd, rfl⟩ := code?_eq_some_iff.mp hn
    exact ⟨_, ['\\', 'u', a, b, c, d] ++ inside, by simp, .cons (.code a b c d i j k l ha hb hc hd) hinside, rfl⟩
  | case5 => cases h
  | case6 done e rest _ c hc ih =>
    obtain ⟨us, inside, rfl, hinside, rfl⟩ := ih h
    exact ⟨.char c :: us, ['\\', e] ++ inside, by simp, .cons (.escaped e c (escaped?_eq_some_iff.mp hc)) hinside, rfl⟩
  | case7 => cases h
  | case8 done c rest hquote _ hlone hprintable ih =>
    -- a backslash has another character after it, if the string ends at all
    have hslash : c ≠ '\\' := by
      rintro rfl
      cases rest with
      | nil => rw [lexString] at h; cases h
      | cons d rest => exact hlone d rest rfl rfl
    obtain ⟨us, inside, rfl, hinside, rfl⟩ := ih h
    exact ⟨.char c :: us, [c] ++ inside, by simp, .cons (.plain c (by omega) hquote hslash) hinside, rfl⟩

theorem lexToken_sound {s r : List Char} {t : Token} (h : lexToken s = some (t, r)) :
    ∃ taken, t.Spells taken ∧ s = taken ++ r := by
  unfold lexToken at h
  split at h
  case h_10 =>
    obtain ⟨⟨u, r'⟩, hu, heq⟩ := Option.map_eq_some_iff.mp h
    cases heq
    obtain ⟨us, inside, rfl, hinside, rfl⟩ := lexString_sound hu
    exact ⟨_, ⟨inside, hinside, rfl⟩, by simp⟩
  case h_11 =>
    obtain ⟨⟨n, r'⟩, hn, heq⟩ := Option.map_eq_some_iff.mp h
    cases heq
    exact lexNumber_sound hn
  all_goals
    cases h
    exact ⟨_, rfl, rfl⟩

theorem SpellsTokens.blank {ts : List Token} {c : Char} {s : List Char} (hc : isBlank c = true)
    (h : SpellsTokens ts s) : SpellsTokens ts (c :: s) := by
  cases h with
  | nil hb => exact .nil (List.forall_mem_cons.mpr ⟨isBlank_iff.mp hc, hb⟩)
  | cons hb ht hr => exact .cons (List.forall_mem_cons.mpr ⟨isBlank_iff.mp hc, hb⟩) ht hr

theorem lex_sound {done ts : List Token} {s : List Char} (h : lex done s = some ts) :
    ∃ rest, ts = done.reverse ++ rest ∧ SpellsTokens rest s := by
  fun_induction lex done s with
  | case1 done =>
    cases h
    exact ⟨[], (List.append_nil _).symm, .nil nofun⟩
  | case2 done c s hc ih =>
    obtain ⟨rest, hts, hrest⟩ := ih h
    exact ⟨rest, hts, hrest.blank hc⟩
  | case3 => cases h
  | case4 done c s _ t left hlex ih =>
    obtain ⟨rest, rfl, hrest⟩ := ih h
    obtain ⟨taken, htaken, heq⟩ := lexToken_sound hlex
    rw [heq]
    exact ⟨t :: rest, by simp, .cons (b := []) nofun htaken hrest⟩

theorem lex_eq_some_iff {v : Json} {text : String} : lex [] text.toList = some v.tokens ↔ v.Spells text := by
  refine ⟨fun h => ?_, lex_of_spells⟩
  obtain ⟨rest, hts, hrest⟩ := lex_sound h
  rw [Spells, hts]
  exact hrest

/-! ## Values -/

/-- The tokens of items, last first, that others follow. -/
def itemsTaken (before : List Json) : List Token := before.reverse.flatMap fun v => v.tokens ++ [.comma]

def membersTaken (before : List (List Unit16 × Json)) : List Token :=
  before.reverse.flatMap fun m => .string m.1 :: .colon :: (m.2.tokens ++ [.comma])

theorem itemTokens_snoc (items : List Json) (v : Json) :
    itemTokens (items ++ [v]) = items.flatMap (fun w => w.tokens ++ [.comma]) ++ v.tokens := by
  induction items with
  | nil => simp [itemTokens]
  | cons w items ih =>
    cases items with
    | nil => simp [itemTokens]
    | cons x items =>
      rw [List.cons_append] at ih
      rw [List.cons_append, List.cons_append, itemTokens, ih]
      simp

theorem memberTokens_snoc (members : List (List Unit16 × Json)) (k : List Unit16) (v : Json) :
    memberTokens (members ++ [(k, v)]) =
      members.flatMap (fun m => .string m.1 :: .colon :: (m.2.tokens ++ [.comma])) ++ .string k :: .colon :: v.tokens := by
  induction members with
  | nil => simp [memberTokens]
  | cons m members ih =>
    cases members with
    | nil => simp [memberTokens]
    | cons n members =>
      rw [List.cons_append] at ih
      rw [List.cons_append, List.cons_append, memberTokens, ih]
      simp

def Frame.taken : Frame → List Token
  | .array before => .beginArray :: itemsTaken before
  | .object before k => .beginObject :: membersTaken before ++ [.string k, .colon]

def Want.taken : Want → List Token
  | .value | .firstItem => []
  | .key before _ => .beginObject :: membersTaken before
  | .colon before k => .beginObject :: membersTaken before ++ [.string k]
  | .done v => v.tokens

namespace Machine

def taken (m : Machine) : List Token := m.frames.reverse.flatMap Frame.taken ++ m.want.taken

/-- What may end at once is still empty. -/
def Opened (m : Machine) : Prop :=
  match m.want with
  | .firstItem => m.frames.head? = some (.array [])
  | .key before true => before = []
  | _ => True

variable {m m' : Machine} {frames : List Frame} {t : Token} {v : Json}

theorem beginValue_taken (h : beginValue frames t = some m') :
    m'.Opened ∧ m'.taken = taken ⟨.value, frames⟩ ++ [t] := by
  cases t with
  | endArray | endObject | comma | colon => cases h
  | null | bool | number | string =>
    cases h
    exact ⟨trivial, by simp [taken, Want.taken, tokens]⟩
  | beginArray =>
    cases h
    exact ⟨rfl, by simp [taken, Want.taken, Frame.taken, itemsTaken]⟩
  | beginObject =>
    cases h
    exact ⟨rfl, by simp [taken, Want.taken, membersTaken]⟩

theorem afterValue_taken (h : afterValue v frames t = some m') :
    m'.Opened ∧ m'.taken = taken ⟨.done v, frames⟩ ++ [t] := by
  unfold afterValue at h
  split at h
  · cases h
    exact ⟨trivial, by simp [taken, Want.taken, Frame.taken, itemsTaken]⟩
  · cases h
    exact ⟨trivial, by simp [taken, Want.taken, Frame.taken, tokens, itemsTaken, itemTokens_snoc]⟩
  · cases h
    exact ⟨trivial, by simp [taken, Want.taken, Frame.taken, membersTaken]⟩
  · cases h
    exact ⟨trivial, by simp [taken, Want.taken, Frame.taken, tokens, membersTaken, memberTokens_snoc]⟩
  · cases h

theorem step_taken (hopened : m.Opened) (h : step m t = some m') : m'.Opened ∧ m'.taken = m.taken ++ [t] := by
  obtain ⟨want, frames⟩ := m
  cases want with
  | value => exact beginValue_taken h
  | firstItem =>
    cases t with
    | endArray =>
      cases h
      obtain ⟨outer, rfl⟩ := List.head?_eq_some_iff.mp hopened
      exact ⟨trivial, by simp [taken, Want.taken, Frame.taken, itemsTaken, tokens, itemTokens]⟩
    | _ => exact beginValue_taken h
  | key before mayEnd =>
    cases t with
    | string k =>
      cases h
      exact ⟨trivial, by simp [taken, Want.taken]⟩
    | endObject =>
      cases mayEnd with
      | false => cases h
      | true =>
        cases h
        obtain rfl : before = [] := hopened
        exact ⟨trivial, by simp [taken, Want.taken, membersTaken, tokens, memberTokens]⟩
    | _ => cases mayEnd <;> cases h
  | colon before k =>
    cases t with
    | colon =>
      cases h
      exact ⟨trivial, by simp [taken, Want.taken, Frame.taken]⟩
    | _ => cases h
  | done v => exact afterValue_taken h

theorem foldlM_taken {ts : List Token} (hopened : m.Opened) (h : ts.foldlM step m = some m') :
    m'.taken = m.taken ++ ts := by
  induction ts generalizing m with
  | nil =>
    cases h
    exact (List.append_nil _).symm
  | cons t ts ih =>
    obtain ⟨n, hn, hrest⟩ := Option.bind_eq_some_iff.mp h
    obtain ⟨hopened, htaken⟩ := step_taken hopened hn
    rw [ih hopened hrest, htaken, List.append_assoc]
    rfl

theorem tokens_of_result {m : Machine} (h : m.result? = some v) : m.taken = v.tokens := by
  unfold result? at h
  split at h
  · rename_i hwant hframes
    cases h
    rw [taken, hwant, hframes]
    rfl
  · cases h

end Machine

theorem ofTokens?_sound {ts : List Token} {v : Json} (h : ofTokens? ts = some v) : ts = v.tokens := by
  obtain ⟨m, hm, hv⟩ := Option.bind_eq_some_iff.mp h
  have hopened : Machine.start.Opened := trivial
  rw [← Machine.tokens_of_result hv, Machine.foldlM_taken hopened hm]
  rfl

/-- The reader finds `v` in the texts of `v` and in no others. -/
theorem parse?_eq_some_iff {v : Json} {text : String} : parse? text = some v ↔ v.Spells text := by
  refine ⟨fun h => ?_, parse?_of_spells⟩
  obtain ⟨ts, hlex, hread⟩ := Option.bind_eq_some_iff.mp h
  obtain ⟨rest, rfl, hspells⟩ := lex_sound hlex
  rw [Spells, ← ofTokens?_sound hread]
  exact hspells

end TransitSearch.Json

/-
  TransitSearch.Proofs.Json.Reading — every text of a value is read as that value.

  The machine that is fed the tokens of a value ends up where it was, with the value done,
  whatever was open before and whatever comes next (`run_tokens`). Nesting costs nothing:
  each value hands the machine on to what follows it, and what is open is in the frames.
  Since the lexer finds those tokens in each spelling of the value, so does the reader find
  the value (`parse?_of_spells`).
-/

import TransitSearch.Proofs.Json.Spelling

namespace TransitSearch.Json

open Machine

/-- A value begins with a token that the machine takes for a value just as well where an array may end. -/
theorem tokens_begin (v : Json) : ∃ t rest, v.tokens = t :: rest ∧ t ≠ .endArray := by
  cases v <;> exact ⟨_, _, rfl, by simp⟩

theorem run_firstItem (v : Json) (frames : List Frame) (rest : List Token) :
    (v.tokens ++ rest).foldlM step ⟨.firstItem, frames⟩ = (v.tokens ++ rest).foldlM step ⟨.value, frames⟩ := by
  obtain ⟨t, ts, hv, ht⟩ := tokens_begin v
  have hstep : step ⟨.firstItem, frames⟩ t = step ⟨.value, frames⟩ t := by
    cases t with
    | endArray => exact absurd rfl ht
    | _ => rfl
  rw [hv, List.cons_append, List.foldlM_cons, List.foldlM_cons, hstep]

theorem itemTokens_begin (v : Json) (items : List Json) : ∃ rest, itemTokens (v :: items) = v.tokens ++ rest := by
  cases items with
  | nil => exact ⟨[], by rw [itemTokens, List.append_nil]⟩
  | cons w rest => exact ⟨_, by rw [itemTokens]⟩

mutual

theorem run_tokens : ∀ (v : Json) (frames : List Frame) (rest : List Token),
    (v.tokens ++ rest).foldlM step ⟨.value, frames⟩ = rest.foldlM step ⟨.done v, frames⟩
  | .null, _, _ | .bool _, _, _ | .number _, _, _ | .string _, _, _ => rfl
  | .array [], _, _ => rfl
  | .array (v :: items), frames, rest => by
    have hitems := run_itemTokens (v :: items) (List.cons_ne_nil _ _) [] frames rest
    obtain ⟨after, hafter⟩ := itemTokens_begin v items
    rw [hafter, List.append_assoc] at hitems
    rw [tokens, hafter, List.cons_append, List.cons_append, List.append_assoc, List.append_assoc]
    exact (run_firstItem v _ _).trans hitems
  | .object [], _, _ => rfl
  | .object (m :: members), frames, rest => by
    rw [tokens, List.cons_append, List.cons_append, List.append_assoc]
    exact run_memberTokens (m :: members) (List.cons_ne_nil _ _) [] true frames rest

theorem run_itemTokens : ∀ (items : List Json), items ≠ [] → ∀ (before : List Json) (frames : List Frame)
    (rest : List Token), (itemTokens items ++ .endArray :: rest).foldlM step ⟨.value, .array before :: frames⟩ =
      rest.foldlM step ⟨.done (.array (before.reverse ++ items)), frames⟩
  | [], hne, _, _, _ => absurd rfl hne
  | [v], _, before, frames, rest => by
    rw [itemTokens, run_tokens v, ← List.reverse_cons]
    rfl
  | v :: w :: items, _, before, frames, rest => by
    rw [itemTokens, List.append_assoc, run_tokens v, List.append_cons before.reverse, ← List.reverse_cons]
    exact run_itemTokens (w :: items) (List.cons_ne_nil _ _) (v :: before) frames rest

theorem run_memberTokens : ∀ (members : List (List Unit16 × Json)), members ≠ [] →
    ∀ (before : List (List Unit16 × Json)) (mayEnd : Bool) (frames : List Frame) (rest : List Token),
      (memberTokens members ++ .endObject :: rest).foldlM step ⟨.key before mayEnd, frames⟩ =
        rest.foldlM step ⟨.done (.object (before.reverse ++ members)), frames⟩
  | [], hne, _, _, _, _ => absurd rfl hne
  | [(k, v)], _, before, _, frames, rest => by
    rw [memberTokens, ← List.reverse_cons]
    exact run_tokens v (.object before k :: frames) (.endObject :: rest)
  | (k, v) :: m :: members, _, before, _, frames, rest => by
    rw [memberTokens, List.append_assoc, List.append_cons before.reverse, ← List.reverse_cons]
    exact (run_tokens v (.object before k :: frames) _).trans
      (run_memberTokens (m :: members) (List.cons_ne_nil _ _) ((k, v) :: before) false frames rest)

end

theorem parse?_of_spells {v : Json} {text : String} (h : v.Spells text) : parse? text = some v := by
  have hrun := run_tokens v [] []
  rw [List.append_nil] at hrun
  rw [parse?, lex_of_spells h]
  simp only [Option.bind_eq_bind, Option.bind_some, ofTokens?, start, hrun]
  rfl

end TransitSearch.Json

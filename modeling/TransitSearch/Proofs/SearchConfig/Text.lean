/-
  TransitSearch.Proofs.SearchConfig.Text — a configuration is read back from its texts.

  Of the format only its laws are used, and that doubles are read back. A text that spells
  an object which lists a valid configuration is read as it, however it is spelled; what is
  written for a configuration is such a text. Whatever the text, only valid configurations
  with integers of 32 bits come out of it, and those are read back from what is written for
  them in turn (`configurations_are_read_back`).

  JSON keeps the laws, whatever it does with doubles (`json_lawful`).
-/

import TransitSearch.Proofs.Json.Sound
import TransitSearch.Proofs.SearchConfig.Members
import TransitSearch.SearchConfig.Load

namespace TransitSearch

open Json (Doubles Means)
open SearchConfig (standard)

variable {doubles : Doubles} {p : Parameter} {c : SearchConfig} {v : Json} {setting : Setting}

/-! ## JSON is written -/

theorem Setting.printable_toJson (wellFormed : ∀ x n, doubles.write? x = some n → n.WellFormed) (setting : Setting) :
    ∀ t ∈ (setting.toJson doubles).tokens, t.Printable := by
  have hinteger : ∀ n, ∀ t ∈ (Json.ofInt n).tokens, t.Printable := by
    intro n t ht
    cases List.mem_singleton.mp ht
    exact Json.Number.wellFormed_ofInt n
  intro t ht
  cases setting with
  | direction d =>
    cases List.mem_singleton.mp ht
    refine Json.printable_chars ?_
    cases d <;> decide
  | integer n => exact hinteger n t ht
  | double x =>
    rw [toJson, Json.ofFloat] at ht
    cases hx : doubles.write? x with
    | none =>
      rw [hx] at ht
      cases List.mem_singleton.mp ht
      trivial
    | some n =>
      rw [hx] at ht
      cases List.mem_singleton.mp ht
      exact wellFormed x n hx
  | flag b =>
    cases List.mem_singleton.mp ht
    trivial
  | limit time =>
    cases time with
    | none =>
      cases List.mem_singleton.mp ht
      trivial
    | some n => exact hinteger n t ht

namespace SearchConfig

theorem spells_render (wellFormed : ∀ x n, doubles.write? x = some n → n.WellFormed) (c : SearchConfig) :
    (c.toJson doubles).Spells (c.toJson doubles).render := by
  have hkeys : ∀ p ∈ Parameter.all, p.key.toList.all (32 ≤ ·.toNat) = true := by decide
  refine Json.spells_render (Json.printable_object fun m hm => ?_)
  obtain ⟨p, hp, rfl⟩ := List.mem_map.mp hm
  exact ⟨Json.printable_chars (hkeys p hp), Setting.printable_toJson wellFormed _⟩

end SearchConfig

/-! ## JSON is read -/

theorem Json.fits_of_int? {n : Int} (h : v.int? = some n) : Checked.Fits n := by
  cases v with
  | number number =>
    obtain ⟨-, hfits⟩ := Option.filter_eq_some_iff.mp h
    exact of_decide_eq_true hfits
  | null | bool | string | array | object => cases h

theorem Json.fits_of_orNull? {time : Option Int} (h : v.orNull? Json.int? = some time) : ∀ t ∈ time, Checked.Fits t := by
  intro t ht
  unfold orNull? at h
  split at h
  · cases h
    cases ht
  · obtain ⟨n, hn, rfl⟩ := Option.map_eq_some_iff.mp h
    cases ht
    exact fits_of_int? hn

theorem Parameter.fits_of_read? (h : p.read? doubles v = some setting) : setting.Fits := by
  cases p <;> obtain ⟨x, hx, rfl⟩ := Option.map_eq_some_iff.mp h
  case transferSlack | transferCost => exact Json.fits_of_int? hx
  case latestArrival | earliestDeparture => exact Json.fits_of_orNull? hx
  case direction | waitReluctance | includeCost | timetable | debug => trivial

theorem Parameter.read?_of_states (hfits : (p.get c).Fits) (h : (p.get c).States doubles v) :
    p.read? doubles v = some (p.get c) := by
  have hlimit : ∀ {time : Option Int}, (Setting.limit time).Fits → (Setting.limit time).States doubles v →
      v.orNull? Json.int? = some time := by
    rintro (_ | t) htime rfl
    · rfl
    · exact congrArg (some <$> ·) (Json.int?_ofInt (htime t rfl))
  cases p with
  | direction =>
    obtain ⟨name, rfl, hname⟩ := h
    have hread : Direction.ofJson? (.string name) = some c.direction := by
      simp only [Direction.ofJson?, Json.choice?, Json.means_iff.mp hname, Option.bind_eq_bind, Option.bind_some]
      cases c.direction <;> rfl
    exact congrArg (Setting.direction <$> ·) hread
  | transferSlack | transferCost =>
    cases h
    exact congrArg (Setting.integer <$> ·) (Json.int?_ofInt hfits)
  | waitReluctance =>
    obtain ⟨n, rfl, hread⟩ := h
    exact congrArg (Setting.double <$> ·) hread
  | includeCost | timetable | debug =>
    cases h
    rfl
  | latestArrival | earliestDeparture => exact congrArg (Setting.limit <$> ·) (hlimit hfits h)

namespace SearchConfig

theorem inRange_readMembers {members : List (List Json.Unit16 × Json)} (h : readMembers doubles members = some c) :
    c.InRange := by
  induction members generalizing c with
  | nil =>
    cases h
    exact inRange_standard
  | cons m rest ih =>
    obtain ⟨b, hb, hmember⟩ := Option.bind_eq_some_iff.mp h
    obtain ⟨key, -, hmember⟩ := Option.bind_eq_some_iff.mp hmember
    cases hp : Parameter.ofKey? key with
    | none =>
      rw [hp] at hmember
      cases hmember
      exact ih hb
    | some p =>
      simp only [hp] at hmember
      split at hmember
      · cases hmember
      · obtain ⟨setting, hsetting, hset⟩ := Option.bind_eq_some_iff.mp hmember
        cases hset
        exact (ih hb).set (Parameter.fits_of_read? hsetting) p

theorem inRange_readItems {b : SearchConfig} {ps : List Parameter} {items : List Json} (hb : b.InRange)
    (h : readItems doubles b ps items = some c) : c.InRange := by
  induction items generalizing b ps with
  | nil =>
    rw [readItems] at h
    cases h
    exact hb
  | cons v rest ih =>
    cases ps with
    | nil => cases h
    | cons p ps =>
      obtain ⟨setting, hsetting, hrest⟩ := Option.bind_eq_some_iff.mp h
      exact ih (hb.set (Parameter.fits_of_read? hsetting) p) hrest

theorem inRange_ofJson? (h : ofJson? doubles v = some c) : c.InRange := by
  cases v with
  | object members => exact inRange_readMembers h
  | array items => exact inRange_readItems inRange_standard h
  | null | bool | number | string => cases h

theorem readMembers_unknown {key : List Json.Unit16} {name : String} (hname : Means key name)
    (hother : ∀ p : Parameter, p.key ≠ name) (rest : List (List Json.Unit16 × Json)) :
    readMembers doubles ((key, v) :: rest) = readMembers doubles rest := by
  simp [readMembers, Json.means_iff.mp hname, Parameter.ofKey?_other hother]

theorem readMembers_known {key : List Json.Unit16} {rest : List (List Json.Unit16 × Json)} {b : SearchConfig}
    (hkey : Means key p.key) (honce : ∀ m ∈ rest, ¬ Means m.1 p.key) (hread : p.read? doubles v = some setting)
    (hrest : readMembers doubles rest = some b) :
    readMembers doubles ((key, v) :: rest) = some (p.set setting b) := by
  have hnone : (rest.any fun m => Json.textOf m.1 = some p.key) = false := by
    simpa [Json.means_iff] using honce
  simp [readMembers, hrest, Json.means_iff.mp hkey, hnone, hread]

/-- JSON is a format, as long as what is written for doubles are numbers. -/
theorem Format.json_lawful (wellFormed : ∀ x n, doubles.write? x = some n → n.WellFormed) :
    (Format.json doubles).Lawful doubles := by
  have hread : ∀ {v : Json} {text : String}, v.Spells text → (Format.json doubles).read? text = ofJson? doubles v := by
    intro v text hspells
    simp only [json, Json.parse?_of_spells hspells, Option.bind_eq_bind, Option.bind_some]
  exact
    { writes := fun c _ => spells_render wellFormed c
      empty := fun text hspells => hread hspells
      ignores := fun key v rest text text' hspells hrest ⟨name, hname, hother⟩ => by
        rw [hread hspells, hread hrest]
        exact readMembers_unknown hname hother rest
      takes := fun p a b key v rest text text' hspells hrest hkey honce hfits hstates hb => by
        rw [hread hrest] at hb
        rw [hread hspells]
        exact readMembers_known hkey honce (Parameter.read?_of_states hfits hstates) hb
      inRange := fun text c h => by
        obtain ⟨v, -, hv⟩ := Option.bind_eq_some_iff.mp h
        exact inRange_ofJson? hv }

/-! ## Texts -/

theorem ofText_eq_ok_iff {format : Format} {text : String} :
    ofText format text = .ok c ↔ format.read? text = some c ∧ c.validate = .ok () := by
  rw [ofText]
  cases format.read? text with
  | none => simp [throw, throwThe, MonadExceptOf.throw]
  | some d =>
    dsimp only
    constructor
    · intro h
      cases hvalid : d.validate with
      | error e =>
        rw [hvalid] at h
        cases h
      | ok =>
        rw [hvalid] at h
        cases h
        exact ⟨rfl, hvalid⟩
    · rintro ⟨heq, hvalid⟩
      cases heq
      rw [hvalid]
      rfl

theorem finite_of_validate (h : c.validate = .ok ()) :
    ∃ negative magnitude, Binary64.ofFloat c.waitReluctance = .finite negative magnitude := by
  have hnumber : (Binary64.ofFloat c.waitReluctance).isNonNegative = true := by
    unfold validate at h
    split at h
    · cases h
    · split at h
      · cases h
      · rename_i hnot
        simpa using hnot
  cases hx : Binary64.ofFloat c.waitReluctance with
  | finite negative magnitude => exact ⟨negative, magnitude, rfl⟩
  | infinite | nan =>
    rw [hx] at hnumber
    cases hnumber

/-- Where doubles are read back, a valid configuration is read back from what is written for it and from every text of an
object that lists it: its parameters in any order, those with their defaults left out or not, members of other names
among them. What is read, from whatever text, is a valid configuration, which is read back from what is written for
it. -/
theorem configurations_are_read_back {format : Format} {doubles : Doubles} (lawful : format.Lawful doubles)
    (exact : doubles.Exact) :
    (∀ c : SearchConfig, c.InRange → c.validate = .ok () →
      ofText format (format.write c) = .ok c ∧
      ∀ members text, c.Lists doubles members → (Json.object members).Spells text → ofText format text = .ok c) ∧
    ∀ text c, ofText format text = .ok c →
      c.InRange ∧ c.validate = .ok () ∧ ofText format (format.write c) = .ok c := by
  have hobject : ∀ c : SearchConfig, c.InRange → c.validate = .ok () → ∀ members text, c.Lists doubles members →
      (Json.object members).Spells text → ofText format text = .ok c := fun c hrange hvalid members text hlists hspells =>
    ofText_eq_ok_iff.mpr ⟨lawful.read_of_lists hrange hlists hspells, hvalid⟩
  have hwritten : ∀ c : SearchConfig, c.InRange → c.validate = .ok () → ofText format (format.write c) = .ok c := by
    intro c hrange hvalid
    obtain ⟨negative, magnitude, hfinite⟩ := finite_of_validate hvalid
    exact hobject c hrange hvalid _ _ (lists_written (exact _ _ _ hfinite)) (lawful.writes c hrange)
  refine ⟨fun c hrange hvalid => ⟨hwritten c hrange hvalid, hobject c hrange hvalid⟩, fun text c h => ?_⟩
  obtain ⟨hread, hvalid⟩ := ofText_eq_ok_iff.mp h
  have hrange := lawful.inRange text c hread
  exact ⟨hrange, hvalid, hwritten c hrange hvalid⟩

/-- Four parameters, not in their order and one with an escape in its name, five defaults left out, a note among them, and
white space. -/
theorem configurations_are_read_back_note :
    let format := Format.json .shortestOrBits
    let c : SearchConfig :=
      { SearchConfig.standard with
        direction := .reverse, waitReluctance := 0.5, earliestDeparture := some 25200, debug := true }
    let text := "\x7b \"debug\" : true,\n\t\"wait_reluctance\":5E-1, \"note\" : [null, \x7b\"debug\":\"\\n\"\x7d ],\r\n" ++
      "\"earliest_departure_time\":25200, \"dir\\u0065ction\" : \"reverse\"\x7d\n"
    format.Lawful .shortestOrBits ∧ Doubles.shortestOrBits.Exact ∧ ofText format text = .ok c ∧
      ofText format (format.write c) = .ok c := by
  intro format c text
  let direction : List Json.Unit16 := "dir".toList.map .char ++ .code 0x65 :: "ction".toList.map .char
  let note : Json := .array [.null, .object [("debug".toList.map .char, .ofText "\n")]]
  let members : List (List Json.Unit16 × Json) :=
    [("debug".toList.map .char, .bool true),
      ("wait_reluctance".toList.map .char, .number ⟨false, ['5'], none, some (true, ['1'])⟩),
      ("note".toList.map .char, note), ("earliest_departure_time".toList.map .char, .ofInt 25200),
      (direction, .ofText "reverse")]
  have lawful : format.Lawful .shortestOrBits := Format.json_lawful fun x n => Doubles.wellFormed_shortestOrBits
  have hspells : (Json.object members).Spells text := Json.lex_eq_some_iff.mp (by decide +kernel)
  have hrange : c.InRange := by
    intro p
    cases p <;> simp [Parameter.get, Setting.Fits, c, standard, Checked.Fits]
  have hvalid : c.validate = .ok () := by
    rw [validate, if_neg (by decide), if_neg (by decide +kernel), if_neg (by decide)]
    rfl
  have hmeans : ∀ {u : List Json.Unit16} {name : String}, Json.textOf u = some name → Means u name := Json.means_iff.mpr
  have hstates : ∀ m ∈ members, ∀ p : Parameter, Means m.1 p.key → (p.get c).States .shortestOrBits m.2 := by
    have hnote : ∀ p : Parameter, ¬ Means ("note".toList.map .char) p.key := by
      intro p hp
      have hother : ∀ p ∈ Parameter.all, p.key ≠ "note" := by decide
      exact hother p p.mem_all (hp.unique (hmeans rfl))
    simp only [members, List.forall_mem_cons]
    refine ⟨fun p hp => ?_, fun p hp => ?_, fun p hp => absurd hp (hnote p), fun p hp => ?_, fun p hp => ?_,
      List.forall_mem_nil _⟩
    · cases key_of_means (p := .debug) (hmeans rfl) hp
      exact rfl
    · cases key_of_means (p := .waitReluctance) (hmeans rfl) hp
      exact ⟨_, rfl, by decide +kernel⟩
    · cases key_of_means (p := .earliestDeparture) (hmeans rfl) hp
      exact rfl
    · cases key_of_means (p := .direction) (hmeans rfl) hp
      exact ⟨_, rfl, hmeans rfl⟩
  have hnames : members.map (fun m => Json.textOf m.1) =
      ["debug", "wait_reluctance", "note", "earliest_departure_time", "direction"].map some := by decide
  have hdistinct : members.Pairwise fun m n => Json.textOf m.1 ≠ Json.textOf n.1 := by decide
  have hgiven : ∀ p ∈ ([.direction, .waitReluctance, .earliestDeparture, .debug] : List Parameter),
      ∃ m ∈ members, Json.textOf m.1 = some p.key := by decide
  have hlists : c.Lists .shortestOrBits members :=
    { keys := fun m hm => by
        have hname : Json.textOf m.1 ∈ members.map (fun m => Json.textOf m.1) := List.mem_map_of_mem hm
        rw [hnames] at hname
        obtain ⟨name, -, hname⟩ := List.mem_map.mp hname
        exact ⟨name, hmeans hname.symm⟩
      states := hstates
      once := hdistinct.imp (by
        intro m n hne p hm hn
        exact hne ((Json.means_iff.mp hm).trans (Json.means_iff.mp hn).symm))
      default := fun p hmissing => by
        by_cases hp : p ∈ ([.direction, .waitReluctance, .earliestDeparture, .debug] : List Parameter)
        · obtain ⟨m, hm, hkey⟩ := hgiven p hp
          exact absurd (hmeans hkey) (hmissing m hm)
        · cases p <;> first | exact absurd (by decide) hp | rfl }
  have hback := configurations_are_read_back lawful Doubles.exact_shortestOrBits
  exact ⟨lawful, Doubles.exact_shortestOrBits, (hback.1 c hrange hvalid).2 members text hlists hspells,
    (hback.1 c hrange hvalid).1⟩

end SearchConfig

end TransitSearch

/-
  TransitSearch.Proofs.SearchConfig.Members — which objects describe a configuration.

  An object describes `c` if it lists `c` (`Lists`): each parameter is a member that states
  the value it has in `c`, or is left out where that is the default; none is there twice;
  and members of other names stand anywhere among them, whatever they hold. A name is the
  text its characters and escapes mean.

  Of a format it is required what it does with one member (`Format.Lawful`): a member of
  another name changes nothing, a parameter gets the value stated and leaves the others
  alone, and an empty object has all defaults. Then any object that lists `c` is read as
  `c`, by induction on its members (`Lawful.read_of_lists`): without its first member it
  lists the configuration that has the default of that parameter. What is written for a
  configuration lists it, as long as its wait reluctance is read back (`lists_written`).
-/

import Mathlib.Data.List.Nodup
import TransitSearch.Proofs.Json.Printing
import TransitSearch.SearchConfig.Text

namespace TransitSearch

open Json (Means)
open SearchConfig (standard)

/-! ## One parameter -/

namespace Parameter

variable {p q : Parameter} {a b : SearchConfig} {name : String}

theorem mem_all (p : Parameter) : p ∈ all := by cases p <;> decide

theorem key_inj (h : p.key = q.key) : p = q :=
  List.inj_on_of_nodup_map (f := key) (by decide) (mem_all p) (mem_all q) h

@[simp] theorem ofKey?_key (p : Parameter) : ofKey? p.key = some p := by cases p <;> decide

theorem ofKey?_other (h : ∀ p : Parameter, p.key ≠ name) : ofKey? name = none := by simp [ofKey?, h]

theorem ext_get (h : ∀ p : Parameter, p.get a = p.get b) : a = b := by
  have hall : all.map (·.get a) = all.map (·.get b) := List.map_congr_left fun p _ => h p
  cases a
  cases b
  simpa [all, get] using hall

@[simp] theorem get_set (p : Parameter) (a b : SearchConfig) : p.get (p.set (p.get a) b) = p.get a := by
  cases p <;> rfl

theorem get_set_of_ne (h : q ≠ p) (setting : Setting) (a : SearchConfig) : q.get (p.set setting a) = q.get a := by
  cases p <;> cases setting <;> first | rfl | cases q <;> first | rfl | exact absurd rfl h

/-- Setting a parameter undoes what was set before. -/
theorem set_set (p : Parameter) (a b : SearchConfig) : p.set (p.get a) (p.set (p.get b) a) = a := by
  refine ext_get fun q => ?_
  by_cases hq : q = p
  · rw [hq, get_set]
  · rw [get_set_of_ne hq, get_set_of_ne hq]

end Parameter

/-! ## Values -/

/-- An integer has 32 bits. -/
def Setting.Fits : Setting → Prop
  | .integer n => Checked.Fits n
  | .limit time => ∀ t ∈ time, Checked.Fits t
  | .direction _ | .double _ | .flag _ => True

/-- What a value has to be to state the setting. A double may be written as any number that is read as it. -/
def Setting.States (doubles : Json.Doubles) : Setting → Json → Prop
  | .direction d, v => ∃ name, v = .string name ∧ Means name d.name
  | .integer n, v => v = .ofInt n
  | .double x, v => ∃ n, v = .number n ∧ doubles.read? n = some x
  | .flag b, v => v = .bool b
  | .limit none, v => v = .null
  | .limit (some t), v => v = .ofInt t

namespace SearchConfig

/-- The integers of the configuration have 32 bits. -/
def InRange (c : SearchConfig) : Prop := ∀ p : Parameter, (p.get c).Fits

theorem inRange_standard : standard.InRange := by
  intro p
  cases p <;> simp [Parameter.get, Setting.Fits, standard, Checked.Fits]

theorem InRange.set {c : SearchConfig} (h : c.InRange) {setting : Setting} (hsetting : setting.Fits) (p : Parameter) :
    (p.set setting c).InRange := by
  intro q
  by_cases hq : q = p
  · subst hq
    cases q <;> cases setting <;> first | exact hsetting | exact h _
  · rw [Parameter.get_set_of_ne hq]
    exact h q

/-! ## The members of a configuration -/

/-- The members of an object that describes `c`. -/
structure Lists (doubles : Json.Doubles) (c : SearchConfig) (members : List (List Json.Unit16 × Json)) : Prop where
  keys : ∀ m ∈ members, ∃ name, Means m.1 name
  states : ∀ m ∈ members, ∀ p : Parameter, Means m.1 p.key → (p.get c).States doubles m.2
  once : members.Pairwise fun m n => ∀ p : Parameter, Means m.1 p.key → ¬ Means n.1 p.key
  default : ∀ p : Parameter, (∀ m ∈ members, ¬ Means m.1 p.key) → p.get c = p.get standard

variable {doubles : Json.Doubles} {c : SearchConfig} {m : List Json.Unit16 × Json}
  {rest : List (List Json.Unit16 × Json)}

theorem key_of_means {u : List Json.Unit16} {p q : Parameter} (hp : Means u p.key) (hq : Means u q.key) : q = p :=
  Parameter.key_inj (hq.unique hp)

theorem Lists.eq_standard (h : c.Lists doubles []) : c = standard := Parameter.ext_get fun p => h.default p nofun

theorem Lists.of_unknown (h : c.Lists doubles (m :: rest)) (hm : ∀ p : Parameter, ¬ Means m.1 p.key) :
    c.Lists doubles rest where
  keys n hn := h.keys n (List.mem_cons_of_mem _ hn)
  states n hn := h.states n (List.mem_cons_of_mem _ hn)
  once := (List.pairwise_cons.mp h.once).2
  default p hrest := h.default p (List.forall_mem_cons.mpr ⟨hm p, hrest⟩)

/-- Without the member of a parameter, that parameter has its default. -/
theorem Lists.of_known (h : c.Lists doubles (m :: rest)) {p : Parameter} (hm : Means m.1 p.key) :
    (p.set (p.get standard) c).Lists doubles rest := by
  obtain ⟨hnone, honce⟩ := List.pairwise_cons.mp h.once
  have hstates : ∀ n ∈ rest, ∀ q : Parameter, Means n.1 q.key →
      (q.get (p.set (p.get standard) c)).States doubles n.2 := by
    intro n hn q hq
    have hne : q ≠ p := by
      rintro rfl
      exact hnone n hn q hm hq
    rw [Parameter.get_set_of_ne hne]
    exact h.states n (List.mem_cons_of_mem _ hn) q hq
  have hdefault : ∀ q : Parameter, (∀ n ∈ rest, ¬ Means n.1 q.key) →
      q.get (p.set (p.get standard) c) = q.get standard := by
    intro q hrest
    by_cases hq : q = p
    · rw [hq, Parameter.get_set]
    · rw [Parameter.get_set_of_ne hq]
      exact h.default q (List.forall_mem_cons.mpr ⟨fun hmq => hq (key_of_means hm hmq), hrest⟩)
  exact
    { keys := fun n hn => h.keys n (List.mem_cons_of_mem _ hn)
      states := hstates
      once := honce
      default := hdefault }

/-! ## What is written -/

theorem means_chars (name : String) : Means (name.toList.map .char) name := by
  rw [Means]
  induction name.toList with
  | nil => exact .nil
  | cons c rest ih => exact .char c ih

theorem states_toJson {setting : Setting}
    (h : ∀ x, setting = .double x → ∃ n, doubles.write? x = some n ∧ doubles.read? n = some x) :
    setting.States doubles (setting.toJson doubles) := by
  cases setting with
  | direction d => exact ⟨_, rfl, means_chars d.name⟩
  | integer | flag => exact rfl
  | double x =>
    obtain ⟨n, hwritten, hread⟩ := h x rfl
    refine ⟨n, ?_, hread⟩
    rw [Setting.toJson, Json.ofFloat, hwritten]
    rfl
  | limit time => cases time <;> exact rfl

theorem lists_written (h : ∃ n, doubles.write? c.waitReluctance = some n ∧ doubles.read? n = some c.waitReluctance) :
    c.Lists doubles (Parameter.all.map (c.member doubles)) where
  keys m hm := by
    obtain ⟨p, -, rfl⟩ := List.mem_map.mp hm
    exact ⟨p.key, means_chars p.key⟩
  states m hm q hq := by
    obtain ⟨p, -, rfl⟩ := List.mem_map.mp hm
    cases key_of_means (means_chars p.key) hq
    refine states_toJson fun x hx => ?_
    cases q <;> cases hx
    exact h
  once := by
    have hdistinct : Parameter.all.Pairwise (· ≠ ·) := by decide
    refine List.pairwise_map.mpr (hdistinct.imp fun hne p hpr hqr => hne ?_)
    exact (key_of_means hpr (means_chars _)).trans (key_of_means hqr (means_chars _)).symm
  default p hmissing :=
    absurd (means_chars p.key) (hmissing _ (List.mem_map_of_mem (Parameter.mem_all p)))

/-! ## Reading -/

/-- What the texts of configurations are to a format, with one member after another taken off an object. -/
structure Format.Lawful (format : Format) (doubles : Json.Doubles) : Prop where
  /-- A configuration is written as the object of its parameters. -/
  writes : ∀ c : SearchConfig, c.InRange → (c.toJson doubles).Spells (format.write c)
  /-- Parameters left out have their defaults. -/
  empty : ∀ text, (Json.object []).Spells text → format.read? text = some standard
  /-- A member of another name is passed over. -/
  ignores : ∀ key v rest text text', (Json.object ((key, v) :: rest)).Spells text → (Json.object rest).Spells text' →
    (∃ name, Means key name ∧ ∀ p : Parameter, p.key ≠ name) → format.read? text = format.read? text'
  /-- A parameter that is there once gets what is stated. -/
  takes : ∀ (p : Parameter) (a b : SearchConfig) key v rest text text',
    (Json.object ((key, v) :: rest)).Spells text → (Json.object rest).Spells text' → Means key p.key →
    (∀ m ∈ rest, ¬ Means m.1 p.key) → (p.get a).Fits → (p.get a).States doubles v →
    format.read? text' = some b → format.read? text = some (p.set (p.get a) b)
  /-- The integers read have 32 bits. -/
  inRange : ∀ text c, format.read? text = some c → c.InRange

/-- Any object that lists a configuration is read as it. -/
theorem Format.Lawful.read_of_lists {format : Format} (lawful : format.Lawful doubles)
    {members : List (List Json.Unit16 × Json)} (hrange : c.InRange) (hlists : c.Lists doubles members) {text : String}
    (hspells : (Json.object members).Spells text) : format.read? text = some c := by
  induction members generalizing c text with
  | nil =>
    rw [hlists.eq_standard]
    exact lawful.empty text hspells
  | cons m rest ih =>
    obtain ⟨text', hrest⟩ := Json.exists_spells_rest hspells
    obtain ⟨name, hname⟩ := hlists.keys m List.mem_cons_self
    by_cases hp : ∃ p : Parameter, p.key = name
    · obtain ⟨p, rfl⟩ := hp
      -- the rest is read as `c` with the default of `p`, on top of which the member sets what `c` has
      have hdefault : (p.set (p.get standard) c).InRange := hrange.set (inRange_standard p) p
      have htaken := lawful.takes p c _ m.1 m.2 rest text text' hspells hrest hname
        (fun n hn => (List.pairwise_cons.mp hlists.once).1 n hn p hname) (hrange p)
        (hlists.states m List.mem_cons_self p hname) (ih hdefault (hlists.of_known hname) hrest)
      rwa [Parameter.set_set] at htaken
    · have hother : ∀ p : Parameter, p.key ≠ name := fun p hkey => hp ⟨p, hkey⟩
      have hunknown : ∀ p : Parameter, ¬ Means m.1 p.key := fun p hkey => hother p (hkey.unique hname)
      rw [lawful.ignores m.1 m.2 rest text text' hspells hrest ⟨name, hname, hother⟩]
      exact ih hrange (hlists.of_unknown hunknown) hrest

end SearchConfig

end TransitSearch

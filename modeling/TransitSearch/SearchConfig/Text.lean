/-
  TransitSearch.SearchConfig.Text — configurations as text.

  How a configuration is written, and what is made of a text, is the business of a format,
  which is an argument wherever one is loaded. `Format.system` is the one that runs, with
  JSON for its texts.

  There a configuration is an object with its parameters as members, in any order. A
  parameter left out has its default, and a member of another name is passed over whatever
  it holds. The same parameter twice is an error. An array is taken too: its items are the
  parameters in their order, and it may stop early. A choice is written as its name; it is
  read from its name too, or from an object whose one member has that name and is null.
  What is written is the object with all parameters in their order.
-/

import TransitSearch.Json.Number
import TransitSearch.Json.Reader
import TransitSearch.SearchConfig

namespace TransitSearch

/-- What reads and writes configurations, valid or not. -/
structure SearchConfig.Format where
  read? (text : String) : Option SearchConfig
  write (c : SearchConfig) : String

/-! ## Values -/

namespace Json

/-- The choice among `choices` that a value names. -/
def choice? {α : Type} (choices : List α) (name : α → String) (v : Json) : Option α := do
  let text ← match v with
    | .string s => textOf s
    | .object [(key, .null)] => textOf key
    | _ => none
  choices.find? fun a => name a = text

def bool? : Json → Option Bool
  | .bool b => some b
  | _ => none

def orNull? {α : Type} (read? : Json → Option α) : Json → Option (Option α)
  | .null => some none
  | v => some <$> read? v

def ofOption {α : Type} (write : α → Json) : Option α → Json
  | none => .null
  | some a => write a

end Json

def Direction.ofJson? (v : Json) : Option Direction := v.choice? [.forward, .reverse] Direction.name

def Criteria.ofJson? (v : Json) : Option Criteria :=
  v.choice? [.standard, .timetable, .standardWithCost, .timetableWithCost] Criteria.name

/-! ## Parameters -/

/-- What a parameter is set to. -/
inductive Setting where
  | direction (d : Direction)
  | integer (n : Int)
  | double (x : Float)
  | flag (b : Bool)
  | limit (time : Option Int)

def Setting.toJson (doubles : Json.Doubles) : Setting → Json
  | .direction d => .ofText d.name
  | .integer n => .ofInt n
  | .double x => .ofFloat doubles x
  | .flag b => .bool b
  | .limit time => .ofOption Json.ofInt time

inductive Parameter where
  | direction
  | transferSlack
  | waitReluctance
  | transferCost
  | includeCost
  | timetable
  | latestArrival
  | earliestDeparture
  | debug
  deriving DecidableEq, Repr

namespace Parameter

/-- All parameters, in their order. -/
def all : List Parameter :=
  [.direction, .transferSlack, .waitReluctance, .transferCost, .includeCost, .timetable, .latestArrival,
    .earliestDeparture, .debug]

def key : Parameter → String
  | .direction => "direction"
  | .transferSlack => "transfer_slack_secs"
  | .waitReluctance => "wait_reluctance"
  | .transferCost => "transfer_cost"
  | .includeCost => "include_c1"
  | .timetable => "timetable"
  | .latestArrival => "latest_arrival_time"
  | .earliestDeparture => "earliest_departure_time"
  | .debug => "debug"

def ofKey? (key : String) : Option Parameter := all.find? (·.key = key)

def get (p : Parameter) (c : SearchConfig) : Setting :=
  match p with
  | .direction => .direction c.direction
  | .transferSlack => .integer c.transferSlack
  | .waitReluctance => .double c.waitReluctance
  | .transferCost => .integer c.transferCost
  | .includeCost => .flag c.includeCost
  | .timetable => .flag c.timetable
  | .latestArrival => .limit c.latestArrival
  | .earliestDeparture => .limit c.earliestDeparture
  | .debug => .flag c.debug

/-- A setting that is none of this parameter's is passed over. -/
def set (p : Parameter) (setting : Setting) (c : SearchConfig) : SearchConfig :=
  match p, setting with
  | .direction, .direction d => { c with direction := d }
  | .transferSlack, .integer n => { c with transferSlack := n }
  | .waitReluctance, .double x => { c with waitReluctance := x }
  | .transferCost, .integer n => { c with transferCost := n }
  | .includeCost, .flag b => { c with includeCost := b }
  | .timetable, .flag b => { c with timetable := b }
  | .latestArrival, .limit time => { c with latestArrival := time }
  | .earliestDeparture, .limit time => { c with earliestDeparture := time }
  | .debug, .flag b => { c with debug := b }
  | _, _ => c

def read? (doubles : Json.Doubles) (p : Parameter) (v : Json) : Option Setting :=
  match p with
  | .direction => .direction <$> Direction.ofJson? v
  | .transferSlack | .transferCost => .integer <$> v.int?
  | .waitReluctance => .double <$> v.float? doubles
  | .includeCost | .timetable | .debug => .flag <$> v.bool?
  | .latestArrival | .earliestDeparture => .limit <$> v.orNull? Json.int?

end Parameter

namespace SearchConfig

/-! ## Reading -/

/-- What the first member says comes on top of the others. -/
def readMembers (doubles : Json.Doubles) : List (List Json.Unit16 × Json) → Option SearchConfig
  | [] => some standard
  | (key, v) :: rest => do
    let c ← readMembers doubles rest
    let key ← Json.textOf key
    match Parameter.ofKey? key with
    | none => pure c
    | some p =>
      if rest.any fun m => Json.textOf m.1 = some key then none
      else
        let setting ← p.read? doubles v
        pure (p.set setting c)

def readItems (doubles : Json.Doubles) (c : SearchConfig) : List Parameter → List Json → Option SearchConfig
  | _, [] => some c
  | [], _ :: _ => none
  | p :: ps, v :: rest => do
    let setting ← p.read? doubles v
    readItems doubles (p.set setting c) ps rest

/-- The configuration a value describes, valid or not. -/
def ofJson? (doubles : Json.Doubles) : Json → Option SearchConfig
  | .object members => readMembers doubles members
  | .array items => readItems doubles standard Parameter.all items
  | _ => none

/-! ## Writing -/

def member (doubles : Json.Doubles) (c : SearchConfig) (p : Parameter) : List Json.Unit16 × Json :=
  (p.key.toList.map .char, (p.get c).toJson doubles)

def toJson (doubles : Json.Doubles) (c : SearchConfig) : Json := .object (Parameter.all.map (c.member doubles))

/-! ## Formats -/

namespace Format

/-- JSON, with doubles as they are given. -/
def json (doubles : Json.Doubles) : Format where
  read? text := Json.parse? text >>= ofJson? doubles
  write c := (c.toJson doubles).render

def system : Format := json .shortest

end Format

end SearchConfig

end TransitSearch

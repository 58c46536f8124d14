/-
  TransitSearch.SearchConfig.Load — configurations from texts and files.

  A configuration that is loaded is valid. Otherwise the error says whether the file could
  not be read, the text is no configuration, or which of its values is out of range.
-/

import TransitSearch.SearchConfig.Text

namespace TransitSearch

/-- Why a file could not be read. -/
inductive ReadFailure where
  | missing
  | directory
  | notText
  deriving DecidableEq, Repr

def ReadFailure.message : ReadFailure → String
  | .missing => "No such file or directory (os error 2)"
  | .directory => "Is a directory (os error 21)"
  | .notText => "stream did not contain valid UTF-8"

inductive ConfigError where
  | io (path : String) (failure : ReadFailure)
  | parse
  | invalid (why : InvalidConfig)

/-- The reason, for the kinds of error that state one. -/
def ConfigError.message? : ConfigError → Option String
  | .io path failure => some s!"failed to read config {path}: {failure.message}"
  | .parse => none
  | .invalid why => some why.message

/-- What is found where a file is looked for. -/
inductive FileContents where
  | nothing
  | directory
  | bytes (contents : ByteArray)

namespace SearchConfig

def ofText (format : Format) (text : String) : Except ConfigError SearchConfig :=
  match format.read? text with
  | none => throw .parse
  | some c => do
    c.validate.mapError .invalid
    pure c

def ofFile (format : Format) (path : String) : FileContents → Except ConfigError SearchConfig
  | .nothing => throw (.io path .missing)
  | .directory => throw (.io path .directory)
  | .bytes contents =>
    match String.fromUTF8? contents with
    | none => throw (.io path .notText)
    | some text => ofText format text

end SearchConfig

end TransitSearch

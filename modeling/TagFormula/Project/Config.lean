import TagFormula.Catalog
import TagFormula.Event.Emission
import TagFormula.Session.Basic

/-!
# Project configuration

A project is configured by the members of a document, which replace the defaults;
members that mean nothing are kept. Where the document stands for nothing (it is
missing, empty, null, false or zero) the defaults hold.

The configuration says where the catalog of variables is, how many suggestions
are offered and how events are logged. The log is not allowed to fail because of
the configuration: what cannot be read counts as not said.
-/

namespace TagFormula

/-- Why the configuration or the catalog of a project cannot be used. -/
inductive ProjectError where
  /-- A file cannot be used. -/
  | file (error : FileError)
  /-- The configuration is not a mapping but a value of this kind. -/
  | notMapping (kind : String)
  /-- The location of the catalog is not a text but a value of this kind. -/
  | notLocation (kind : String)
  /-- The document at this place is not a list of variables. -/
  | notList (place : Text)
  /-- The records make no catalog. -/
  | catalog (error : CatalogError)
  /-- A number of the configuration cannot be read. -/
  | number (error : ConversionError)
deriving DecidableEq, Repr

/-- The members of the configuration. -/
abbrev Config := List (JsonString × Json)

namespace Config

/-- The name of the file that holds the configuration. -/
def fileName : String := "tagcalc.yaml"

/-- The path of the file that holds the configuration. -/
def path : Path := [fileName.toList]

/-- The configuration if nothing else is said. -/
def defaults : Config :=
  [("suggestions_file", .null), ("suggestion_limit", .integer Session.defaultLimit),
   ("logging_enabled", .bool true), ("logging_fsync", .bool false),
   ("logging_tail_bytes", .integer EventLog.defaultTail)]

/-- The value under a key, and null if there is none. -/
def value (c : Config) (key : JsonString) : Json :=
  (Json.lookup? c key).getD .null

/-- The configuration that a document describes. -/
def ofDocument (j : Json) : Except ProjectError Config :=
  if j.isTrue then
    match j with
    | .object members => .ok (Json.putAll defaults members)
    | _ => .error (.notMapping j.kind)
  else .ok defaults

/-- The configuration of a project. -/
def load (fs : Files) : Except ProjectError Config :=
  if fs.isThere path then
    match fs.readDocument (.ofPath path) with
    | .ok j => ofDocument j
    | .error e => .error (.file e)
  else .ok defaults

/-! ## Suggestions -/

/-- Where the catalog is, if it is not the built-in one. -/
def suggestionsPlace? (c : Config) : Except ProjectError (Option Location) :=
  let j := c.value "suggestions_file"
  if j.isTrue then
    match j with
    | .string s => .ok (some (.ofText s.text))
    | _ => .error (.notLocation j.kind)
  else .ok none

/-- The records of a document: a list of them, or an object that has one. -/
def records (j : Json) : Option (List Json) :=
  if j.isTrue then
    match j with
    | .array items => some items
    | .object members =>
      let listed := (Json.lookup? members "suggestions").getD .null
      if listed.isTrue then
        match listed with
        | .array items => some items
        | _ => none
      else some []
    | _ => none
  else some []

/-- The catalog at a location. -/
def catalogAt (fs : Files) (l : Location) : Except ProjectError Catalog :=
  match fs.readDocument l with
  | .error e => .error (.file e)
  | .ok j =>
    match records j with
    | none => .error (.notList (l.text fs.root))
    | some items =>
      match Catalog.ofRecords items with
      | .ok c => .ok c
      | .error e => .error (.catalog e)

/-- The catalog of a project with this configuration. -/
def catalog (c : Config) (fs : Files) : Except ProjectError Catalog :=
  match c.suggestionsPlace? with
  | .error e => .error e
  | .ok none => .ok .builtIn
  | .ok (some l) => catalogAt fs l

/-- How many suggestions are offered. -/
def suggestionLimit (c : Config) : Except ProjectError Int :=
  match (c.value "suggestion_limit").toInteger with
  | .ok n => .ok n
  | .error e => .error (.number e)

/-! ## Logging -/

/-- The log, if there is to be one. -/
def eventLog? (c : Config) : Option EventLog :=
  if (c.value "logging_enabled").isTrue then
    let tailBytes := match c.value "logging_tail_bytes" with
      | .null => EventLog.defaultTail
      | j => match j.toInteger with
        | .ok n => n
        | .error _ => EventLog.defaultTail
    some ⟨(c.value "logging_fsync").isTrue, tailBytes, .usual⟩
  else none

end Config

namespace Catalog

/-- The catalog of a project. -/
def load (fs : Files) : Except ProjectError Catalog := do
  (← Config.load fs).catalog fs

end Catalog

namespace EventLog

/-- The log of a project, if there is to be one; with a configuration that cannot
be read it is as if nothing were said. -/
def configured? (fs : Files) : Option EventLog :=
  match Config.load fs with
  | .ok c => c.eventLog?
  | .error _ => some .default

/-- Makes the log of a project ready, if there is to be one. -/
def openProject : Files.Action (Option EventLog) := do
  match configured? (← get) with
  | none => return none
  | some log =>
    prepare
    return some log

end EventLog

namespace ProjectError

/-- The message of an error. -/
def message : ProjectError → String
  | file error => error.message
  | notMapping kind => Config.fileName ++ " must contain a mapping, got " ++ kind
  | notLocation kind => "expected str, bytes or os.PathLike object, not " ++ kind
  | notList place => "Suggestions file " ++ String.ofList place ++ " must contain a list"
  | catalog error => error.message
  | number error => error.message

end ProjectError

end TagFormula

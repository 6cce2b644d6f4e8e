import TagFormula.Command.Basic

/-!
# Running a command

Every command is a function from the files of a project to a report; reading the
log makes its folders, so running a command gives the files afterwards too.
-/

namespace TagFormula

namespace ProjectError

/-- Whether an error is a mistake in the files of the user, to be reported to
them: a file cannot be used, or what it says is of the right kind but not
acceptable. -/
def isReported : ProjectError → Bool
  | file _ => true
  | notMapping _ => true
  | notList _ => true
  | catalog (.duplicateId _) => true
  | catalog (.invalid _) => true
  | catalog (.field error) => isText error
  | _ => false
where
  /-- Whether a number cannot be read because of what is said, and not because of
  its kind or its size. -/
  isText : ConversionError → Bool
    | .integerText _ _ => true
    | .doubleText _ => true
    | .undefined => true
    | _ => false

end ProjectError

namespace Command

/-- The name and the version of the program. -/
def versionLine : Text :=
  "tagcalc, version 0.3.0 (core_api=1)".toList

/-- Prints the value of a formula; an error in it shows in the exit code. -/
def runEval (fs : Files) (formula : Text) (given : List Text) (json : Bool) :
    Stage Report := do
  let result := (← buffer fs formula given).calculate
  let out := if json then (evaluationJson result).indented else result.display
  return ⟨if result.isOk then 0 else 1, Text.plainLine out, []⟩

/-- Prints the segments of a formula. -/
def runRender (fs : Files) (formula : Text) (given : List Text) : Stage Report := do
  let segments := (← buffer fs formula given).render
  return .printed (segments.flatMap fun s => Text.plainLine (segmentLine s))

/-- The catalog of the project; a mistake in its files is reported. -/
def reportedCatalog (fs : Files) : Stage Catalog :=
  match Catalog.load fs with
  | .ok c => return c
  | .error e =>
    if e.isReported then complain e.message.toList
    else ExceptT.lift (.error (.project e))

/-- Prints the variables whose name contains a term. -/
def runSuggest (fs : Files) (term : Text) (json : Bool) : Stage Report := do
  let catalog ← reportedCatalog fs
  let limit ← usable ((Config.load fs).bind Config.suggestionLimit)
  let found := Slice.before (catalog.search term) limit
  if json then return .printed (Text.plainLine (Json.array (found.map suggestionJson)).indented)
  else if found.isEmpty then return .printed (Text.plainLine "No matches.".toList)
  else return .printed (found.flatMap fun s => Text.plainLine (suggestionLine s))

/-- Prints events of the log, most recent first. -/
def printEvents (events : List Json) (json : Bool) : Except CommandError Report := do
  if json then return .printed (Text.plainLine (Json.array events).indented)
  else if events.isEmpty then return .printed (Text.plainLine "No events.".toList)
  else
    let lines ← events.mapM fun j => do printLine (← eventLine j)
    return .printed lines.flatten

/-- Prints the events of the log that are wanted. -/
def runLogs (fs : Files) (wanted : EventFilter) (limit : Int) (json : Bool) :
    Except CommandError Report × Files :=
  match fs.apply EventLog.prepare with
  | (.error e, fs) => (.error (.project (.file e)), fs)
  | (.ok (), fs) =>
    match EventLog.default.read fs wanted limit with
    | .error e => (.error (.log e), fs)
    | .ok events => (printEvents events json, fs)

/-- The report of a stage that gives one. -/
def reportOf (stage : Stage Report) : Except CommandError Report :=
  match stage.run with
  | .ok (.ok r) => .ok r
  | .ok (.error r) => .ok r
  | .error e => .error e

/-- Runs a command on the files of a project. -/
def run (fs : Files) : Command → Except CommandError Report × Files
  | version => (.ok (.printed (Text.plainLine versionLine)), fs)
  | eval formula given json => (reportOf (runEval fs formula given json), fs)
  | render formula given => (reportOf (runRender fs formula given), fs)
  | suggest term json => (reportOf (runSuggest fs term json), fs)
  | logs wanted limit json => runLogs fs wanted limit json

/-- How many events are printed if nothing else is said. -/
def defaultLogLimit : Int := 50

end Command

namespace TaggingError

/-- The message of an error. -/
def message : TaggingError → String
  | invalid faults => FieldFault.describeAll faults
  | edit error => error.message

end TaggingError

namespace CommandError

/-- The message of an error. -/
def message : CommandError → String
  | project error => error.message
  | tagging error => error.message
  | log error => error.message
  | notPaddable kind => "unsupported format string passed to " ++ kind ++ ".__format__"
  | surrogates first place 1 =>
    "'utf-8' codec can't encode character " ++ quotedPoint first ++ " in position " ++
      toString place ++ ": surrogates not allowed"
  | surrogates _ place count =>
    "'utf-8' codec can't encode characters in position " ++ toString place ++ "-" ++
      toString (place + count - 1) ++ ": surrogates not allowed"
where
  /-- A code point between quotes. -/
  quotedPoint (p : CodePoint) : String :=
    String.ofList ('\'' :: JsonString.quotePoint '\'' p ++ ['\''])

end CommandError

end TagFormula

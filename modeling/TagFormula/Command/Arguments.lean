import TagFormula.Command.Run

/-!
# Command lines

A command line names a command, gives its argument, and may hold options: flags,
and options with a value, which follows as the next word or behind an equals
sign. A lone pair of hyphens ends the options. What is given twice counts the
second time, except that variables add up.
-/

namespace TagFormula

/-- What the words of a command line say. -/
structure Arguments where
  /-- The words that are no options. -/
  words : List Text
  /-- Options with their values, in order; flags have an empty one. -/
  options : List (String × Text)

/-- A command on a project. -/
structure Invocation where
  /-- The project folder. -/
  project : Text
  /-- The command. -/
  command : Command

namespace Arguments

/-- The options that take a value. -/
def valued : List String :=
  ["--tag", "--project", "--level", "--type", "--session", "--limit"]

/-- The options that take none. -/
def flags : List String :=
  ["--json", "--version"]

/-- An option and its value, if a word has both. -/
def assignment? (word : String) : Option (String × Text) :=
  match Command.splitAssignment word.toList with
  | some (name, value) =>
    if (String.ofList name) ∈ valued then some (String.ofList name, value) else none
  | none => none

/-- Adds a word in front. -/
def addWord (a : Arguments) (word : String) : Arguments :=
  { a with words := word.toList :: a.words }

/-- Adds an option in front. -/
def addOption (a : Arguments) (name : String) (value : Text) : Arguments :=
  { a with options := (name, value) :: a.options }

/-- Reads the words of a command line; a word that is not understood is the
error. -/
def read : List String → Except String Arguments
  | [] => .ok ⟨[], []⟩
  | "--" :: rest => .ok ⟨rest.map String.toList, []⟩
  | word :: rest =>
    if !word.startsWith "--" then (read rest).map (·.addWord word)
    else if word ∈ flags then (read rest).map (·.addOption word [])
    else
      match assignment? word with
      | some (name, value) => (read rest).map (·.addOption name value)
      | none =>
        if word ∈ valued then
          match rest with
          | [] => .error word
          | value :: rest => (read rest).map (·.addOption word value.toList)
        else .error word

/-- The value of an option that was given last. -/
def last? (a : Arguments) (name : String) : Option Text :=
  (a.options.filter (·.1 = name)).getLast?.map (·.2)

/-- The values of an option, in order. -/
def all (a : Arguments) (name : String) : List Text :=
  (a.options.filter (·.1 = name)).map (·.2)

/-- Whether a flag is given. -/
def has (a : Arguments) (name : String) : Bool :=
  a.options.any (·.1 = name)

/-- The filter for events that the options say. -/
def eventFilter (a : Arguments) : EventFilter :=
  ⟨(a.last? "--level").getD [], (a.last? "--type").getD [], (a.last? "--session").getD []⟩

/-- The limit that the options say; missing when it is no integer. -/
def limit? (a : Arguments) : Option Int :=
  match a.last? "--limit" with
  | none => some Command.defaultLogLimit
  | some t => (Literal.integer t).toOption

/-- The command that the words and options say. -/
def command? (a : Arguments) : Option Command :=
  if a.has "--version" then some .version
  else
    match a.words.map String.ofList with
    | ["eval", formula] => some (.eval formula.toList (a.all "--tag") (a.has "--json"))
    | ["render", formula] => some (.render formula.toList (a.all "--tag"))
    | ["suggest", term] => some (.suggest term.toList (a.has "--json"))
    | ["logs"] => a.limit?.map fun limit => .logs a.eventFilter limit (a.has "--json")
    | _ => none

end Arguments

namespace Invocation

/-- How the program is called. -/
def usage : String :=
  "Usage: tagcalc (eval FORMULA | render FORMULA | suggest TERM | logs | --version) [OPTIONS]"

/-- The command of a command line; the project is the current folder unless an
option says otherwise. -/
def ofCommandLine (words : List String) : Except String Invocation :=
  match Arguments.read words with
  | .error word => .error ("Error: No such option: " ++ word)
  | .ok a =>
    match a.command? with
    | some command => .ok ⟨(a.last? "--project").getD ['.'], command⟩
    | none => .error usage

end Invocation

end TagFormula

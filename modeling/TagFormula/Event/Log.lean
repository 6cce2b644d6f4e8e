import TagFormula.Event.Host
import TagFormula.Project.Files
import TagFormula.Text.Lines

/-!
# The event log

Events are written to a file of the project, one line of JSON each, with the
members of every object in the order of their keys. An event addressed to a
session is also written to a file of that session's own, if the id of the session
can stand in a file name: it holds ASCII letters, digits, underscores and hyphens
only, and at least one, except that a line feed may follow them.

A file is read from its end, up to a number of bytes. They are asked for once, and
where the system hands over fewer the rest is not read. When a part of the file is
left out, what remains is read from the first line feed on, since the line before it
may be cut. Lines that are blank or not JSON are passed over. A line that is JSON but
too long or too deep is an error, and so is a value that is no object where its members
are asked for. A folder in the place of a file has a size, so a number of bytes that
makes no sense is found out first.
-/

namespace TagFormula

/-- How events are written and read. -/
structure EventLog where
  /-- Whether every line is forced to the disk. -/
  forced : Bool
  /-- How many bytes are read from the end of a file. -/
  tailBytes : Int
  /-- The system that the log is on. -/
  host : Host

/-- Which events are wanted; an empty text asks for nothing. -/
structure EventFilter where
  /-- The word for the level. -/
  level : Text
  /-- The word for the kind. -/
  kind : Text
  /-- The id of the session in the context. -/
  session : Text

/-- Why an event is not written to a log. -/
inductive WriteError where
  /-- The event cannot be written. -/
  | event (fault : EventFault)
  /-- A file cannot be used. -/
  | file (error : FileError)
deriving DecidableEq, Repr

/-- Why a log cannot be read. -/
inductive ReadError where
  /-- A file cannot be used. -/
  | file (error : FileError)
  /-- A line cannot be read, though it may be JSON. -/
  | line (error : Json.ParseError)
  /-- A value of this kind has no members. -/
  | notObject (kind : String)
deriving DecidableEq, Repr

namespace WriteError

/-- The message of an error. -/
def message : WriteError → String
  | event fault => fault.message
  | file error => error.message

end WriteError

namespace ReadError

/-- The message of an error. -/
def message : ReadError → String
  | file error => error.message
  | line .malformed => "malformed line"
  | line (.integerTooLong digits) => (ConversionError.integerText [] (.tooLong digits)).message
  | line (.tooDeep list) =>
    "maximum recursion depth exceeded while decoding a JSON " ++
      (if list then "array" else "object") ++ " from a unicode string"
  | notObject kind => "'" ++ kind ++ "' object has no attribute 'get'"

end ReadError

namespace EventFilter

/-- The filter that lets every event pass. -/
def all : EventFilter := ⟨[], [], []⟩

/-- The values for which a test, which may fail, says yes. -/
def keep (test : Json → Except ReadError Bool) : List Json → Except ReadError (List Json)
  | [] => .ok []
  | j :: rest =>
    match test j with
    | .error e => .error e
    | .ok wanted =>
      match keep test rest with
      | .error e => .error e
      | .ok kept => .ok (if wanted then j :: kept else kept)

/-- Whether the value under a key is a string. -/
def holds (key : JsonString) (t : Text) (members : List (JsonString × Json)) : Bool :=
  match Json.lookup? members key with
  | some (.string s) => s == .ofText t
  | _ => false

/-- Whether the value under a key of an object is a string. -/
def test (key : JsonString) (t : Text) : Json → Except ReadError Bool
  | .object members => .ok (holds key t members)
  | j => .error (.notObject j.kind)

/-- Whether the context of an event names a session; an event without context
names none. -/
def testSession (id : Text) : Json → Except ReadError Bool
  | .object members =>
    match Json.lookup? members "context" with
    | none => .ok false
    | some context => test "session_id" id context
  | j => .error (.notObject j.kind)

/-- Applies a test unless nothing is asked for. -/
def keepIf (wanted : Text) (test : Text → Json → Except ReadError Bool) (events : List Json) :
    Except ReadError (List Json) :=
  if wanted.isEmpty then .ok events else keep (test wanted) events

/-- The events that are wanted. -/
def select (f : EventFilter) (events : List Json) : Except ReadError (List Json) := do
  let events ← keepIf f.level (test "level") events
  let events ← keepIf f.kind (test "event_type") events
  keepIf f.session testSession events

end EventFilter

namespace EventLog

/-- How many bytes are read if nothing else is said: two mebibytes. -/
def defaultTail : Int := 2 * 1024 * 1024

/-- The log as it is if nothing else is said. -/
def default : EventLog := ⟨false, defaultTail, .usual⟩

/-- How many events are read if nothing else is said. -/
def defaultLimit : Int := 200

/-- The greatest number of events that is read. -/
def maxLimit : Int := 2000

/-! ## Files -/

/-- The folder of the log. -/
def folder : Path := ["logs".toList]

/-- The folder of the sessions. -/
def sessionFolder : Path := ["logs".toList, "sessions".toList]

/-- The file of all events. -/
def globalFile : Path := ["logs".toList, "events.ndjson".toList]

/-- The file of a session. -/
def sessionFile (id : Text) : Path := ["logs".toList, "sessions".toList, id ++ ".ndjson".toList]

/-- Whether a character may stand in the name of a session's file. -/
def isIdChar (c : Char) : Bool :=
  c.isAlphanum || c = '_' || c = '-'

/-- Whether an id can stand in a file name. -/
def isFileSafe (id : Text) : Bool :=
  let core := if id.getLast? = some '\n' then id.dropLast else id
  !core.isEmpty && core.all isIdChar

/-! ## Writing -/

/-- Makes the folders of the log. -/
def prepare : Files.Action Unit := do
  Files.makeFolder folder
  Files.makeFolder sessionFolder

/-- The line for a value. -/
def lineOf (j : Json) : List UInt8 :=
  Text.utf8Encode (j.sorted.compact ++ ['\n'])

/-- The line for an event that is written at a time. -/
def line (e : Event) (time : String) : Except EventFault (List UInt8) :=
  match e.toJson time with
  | .error fault => .error fault
  | .ok j => if j.hasLongInteger then .error .integerTooLong else .ok (lineOf j)

/-- Adds a line to the files of an event addressed to a session or to none. -/
def addLine (data : List UInt8) (session : Option Text) : Files.Action Unit := do
  Files.append globalFile data
  match session with
  | some id => if isFileSafe id then Files.append (sessionFile id) data
  | none => return ()

/-- Writes an event at a time, addressed to a session or to none. -/
def write (e : Event) (time : String) (session : Option Text) : EStateM WriteError Files Unit :=
  match line e time with
  | .error fault => throw (.event fault)
  | .ok data => (addLine data session).adaptExcept .file

/-! ## Reading -/

/-- Bytes from behind the first line feed on, or all of them if there is none. -/
def afterFirstLine (data : List UInt8) : List UInt8 :=
  if data.contains 10 then (data.dropWhile (· ≠ 10)).drop 1 else data

/-- The greatest offset in a file. -/
def maxOffset : Int := 0x7FFFFFFFFFFFFFFF

/-- The size of a folder. -/
def folderSize : Nat := 4096

/-- How many bytes are asked for at the end of what has a size. -/
def readSize (log : EventLog) (size : Nat) : Except FileFault Nat :=
  if size ≤ log.tailBytes then .ok size
  else if maxOffset < size - log.tailBytes then .error .sizeTooLarge
  else if log.tailBytes < 0 then .error .invalidSize
  else .ok log.tailBytes.toNat

/-- The end of a file, as far as it is read. -/
def tail (log : EventLog) (data : List UInt8) : Except FileFault (List UInt8) :=
  match log.readSize data.length with
  | .error fault => .error fault
  | .ok n =>
    -- One read, which gives no more than the system hands over at once.
    let given := (data.drop (data.length - n)).take log.host.chunk
    .ok (if n < data.length then afterFirstLine given else given)

/-- Why a folder cannot be read. -/
def folderFault (log : EventLog) : FileFault :=
  match log.readSize folderSize with
  | .error fault => fault
  | .ok _ => .isFolder

/-- The values of lines, those passed over that are blank or not JSON. -/
def valuesOf (nesting : Nat) : List Text → Except ReadError (List Json)
  | [] => .ok []
  | t :: rest =>
    if (Text.strip t).isEmpty then valuesOf nesting rest
    else
      match Json.parse nesting (Text.strip t) with
      | .ok j => (valuesOf nesting rest).map (j :: ·)
      | .error .malformed => valuesOf nesting rest
      | .error e => .error (.line e)

/-- The values in a file, oldest first; none when there is no file. -/
def readFile (log : EventLog) (fs : Files) (p : Path) : Except ReadError (List Json) :=
  match fs.find? p with
  | .error e => .error (.file e)
  | .ok none => .ok []
  | .ok (some .folder) => .error (.file ⟨log.folderFault, none⟩)
  | .ok (some (.file c)) =>
    match log.tail c.toBytes with
    | .error fault => .error (.file ⟨fault, none⟩)
    | .ok data => valuesOf log.host.nesting (Text.lines (Text.utf8Decode data))

/-- The events that are wanted, most recent first, up to a limit; a negative
limit leaves out that many at the end. -/
def read (log : EventLog) (fs : Files) (f : EventFilter) (limit : Int) :
    Except ReadError (List Json) :=
  match log.readFile fs globalFile with
  | .error e => .error e
  | .ok events =>
    match f.select events with
    | .error e => .error e
    | .ok events => .ok (Slice.before events.reverse (min limit maxLimit))

/-- The events of a session, oldest first; none if its id cannot stand in a file
name. -/
def readSession (log : EventLog) (fs : Files) (id : Text) : Except ReadError (List Json) :=
  if isFileSafe id then log.readFile fs (sessionFile id) else .ok []

/-- Which ids can stand in a file name. -/
example : isFileSafe "ABCxyz019-_".toList = true ∧ isFileSafe "a\n".toList = true ∧
    isFileSafe "a\n\n".toList = false ∧ isFileSafe "\n".toList = false ∧
    isFileSafe "../up".toList = false ∧ isFileSafe [] = false := by
  decide +kernel

end EventLog

end TagFormula

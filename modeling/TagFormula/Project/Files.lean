import TagFormula.Json.Parser
import TagFormula.Json.Printer
import TagFormula.Project.Location
import TagFormula.Text.Utf8

/-!
# The files of a project

A project is a folder. Its files and folders are kept as a list of entries, each
under its path, and a file holds either a document, which is read as a whole, or
bytes. Where a document is wanted, bytes are read as JSON, and as a string if
they are not JSON; where bytes are wanted, a document is its JSON text.

A location is followed name by name, as the names lead from folder to folder
(`Files.follow`). What lies outside the project is not known: there are folders
but nothing can be found in them.

Files are changed by actions that may be refused. An action that is refused
keeps what it did before. It is assumed that the system takes all bytes that are
added to a file at once: how many of them it has taken is not looked at, and a
line of which it takes only a part, as on a full disk, is left out here.
-/

namespace TagFormula

/-- What a file holds. -/
inductive Content where
  /-- A document. -/
  | document (j : Json)
  /-- Bytes. -/
  | bytes (data : List UInt8)

/-- What is found at a path. -/
inductive Entry where
  /-- A folder. -/
  | folder
  /-- A file. -/
  | file (content : Content)

/-- The files of a project. -/
structure Files where
  /-- How the project folder is written. -/
  root : Text
  /-- Files and folders under their paths, in the order in which they came. -/
  entries : List (Path × Entry)

/-- What is wrong with a file. -/
inductive FileFault where
  /-- There is none. -/
  | notFound
  /-- There is one already. -/
  | taken
  /-- A name on the way is that of a file. -/
  | notFolder
  /-- It is a folder. -/
  | isFolder
  /-- A size makes no sense. -/
  | invalidSize
  /-- A size exceeds all sizes. -/
  | sizeTooLarge
  /-- A name is too long. -/
  | nameTooLong
  /-- A name holds the null character. -/
  | nullCharacter
deriving DecidableEq, Repr

/-- Why a file cannot be used; the location is in full, and not always known. -/
structure FileError where
  /-- What is wrong. -/
  fault : FileFault
  /-- Where the file is. -/
  place : Option Text
deriving DecidableEq, Repr

namespace Content

/-- The document a file holds. -/
def toDocument : Content → Json
  | document j => j
  | bytes data =>
    let t := Text.utf8Decode data
    -- No text is nested deeper than it is long.
    match Json.parse t.length t with
    | .ok j => j
    | .error _ => .ofText t

/-- The bytes a file holds. -/
def toBytes : Content → List UInt8
  | document j => Text.utf8Encode j.compact
  | bytes data => data

end Content

namespace FileFault

/-- The number of a fault, if it has one. -/
def number? : FileFault → Option Nat
  | notFound => some 2
  | taken => some 17
  | notFolder => some 20
  | isFolder => some 21
  | invalidSize => some 22
  | sizeTooLarge => none
  | nameTooLong => some 36
  | nullCharacter => none

/-- A fault in words. -/
def words : FileFault → String
  | notFound => "No such file or directory"
  | taken => "File exists"
  | notFolder => "Not a directory"
  | isFolder => "Is a directory"
  | invalidSize => "Invalid argument"
  | sizeTooLarge => "Python int too large to convert to C long"
  | nameTooLong => "File name too long"
  | nullCharacter => "embedded null byte"

end FileFault

namespace FileError

/-- The message of an error; the place is told only if the fault has a number. -/
def message (e : FileError) : String :=
  match e.fault.number? with
  | none => e.fault.words
  | some number =>
    "[Errno " ++ toString number ++ "] " ++ e.fault.words ++
      match e.place with
      | some t => ": " ++ String.ofList (Text.quoted t)
      | none => ""

end FileError

namespace Files

/-- The greatest number of bytes of a name. -/
def maxNameBytes : Nat := 255

/-- Whether a name has more bytes than a name can have. -/
def isTooLong (name : Text) : Bool :=
  maxNameBytes < (Text.utf8Encode name).length

/-- The greatest number of bytes of a location in full. -/
def maxPlaceBytes : Nat := 4095

/-- A project folder without files. -/
def empty (root : Text) : Files :=
  ⟨root, []⟩

/-- What is found at a path. -/
def lookup? (fs : Files) (p : Path) : Option Entry :=
  if p.isEmpty then some .folder else (fs.entries.find? (·.1 == p)).map (·.2)

/-- Puts an entry at a path, in the place of the one that is there. -/
def put (fs : Files) (p : Path) (e : Entry) : Files :=
  if (fs.lookup? p).isSome then
    { fs with entries := fs.entries.map fun x => if x.1 = p then (p, e) else x }
  else { fs with entries := fs.entries ++ [(p, e)] }

/-- An error at a path. -/
def errorAt (fs : Files) (fault : FileFault) (p : Path) : FileError :=
  ⟨fault, some ((Location.ofPath p).text fs.root)⟩

/-! ## Looking up -/

/-- Follows names from a folder on, which is missing when it lies outside the
project, to what is there: the content of a file, or nothing for a folder. -/
def follow (fs : Files) : Option Path → List Text → Except FileFault (Option Content)
  | _, [] => .ok none
  | folder, name :: rest =>
    if isTooLong name then .error .nameTooLong
    else if name = ['.', '.'] then
      fs.follow (folder.bind fun p => if p.isEmpty then none else some p.dropLast) rest
    else
      match folder with
      | none => .error .notFound
      | some p =>
        match fs.lookup? (p ++ [name]) with
        | none => .error .notFound
        | some .folder => fs.follow (some (p ++ [name])) rest
        | some (.file c) => if rest.isEmpty then .ok (some c) else .error .notFolder

/-- Whether a location in full has more bytes than it can have. -/
def isPlaceTooLong (fs : Files) (l : Location) : Bool :=
  maxPlaceBytes < (Text.utf8Encode (l.text fs.root)).length

/-- What is at a location: the content of a file, or nothing for a folder. -/
def at? (fs : Files) (l : Location) : Except FileFault (Option Content) :=
  if l.names.any (·.contains '\x00') then .error .nullCharacter
  else if fs.isPlaceTooLong l then .error .nameTooLong
  else
    match l.anchor with
    | .project => fs.follow (some []) l.names
    | .top _ => fs.follow none l.names

/-- Whether there is a file or a folder at a path. -/
def isThere (fs : Files) (p : Path) : Bool :=
  (fs.lookup? p).isSome

/-- The document at a location. -/
def readDocument (fs : Files) (l : Location) : Except FileError Json :=
  let place := l.text fs.root
  match fs.at? l with
  | .ok (some c) => .ok c.toDocument
  | .ok none => .error ⟨.isFolder, some place⟩
  | .error fault => .error ⟨fault, some place⟩

/-- What is found at a path where there is to be a file. -/
def find? (fs : Files) (p : Path) : Except FileError (Option Entry) :=
  if p.any isTooLong then .error (fs.errorAt .nameTooLong p) else .ok (fs.lookup? p)

/-! ## Changing -/

/-- An action on the files of a project, which may be refused. -/
abbrev Action := EStateM FileError Files

/-- Runs an action; the files afterwards are there also when it is refused. -/
def apply {ε α : Type} (fs : Files) (action : EStateM ε Files α) : Except ε α × Files :=
  match action fs with
  | .ok x fs => (.ok x, fs)
  | .error e fs => (.error e, fs)

/-- Makes a folder unless it is there. -/
def makeFolder (p : Path) : Action Unit := do
  let fs ← get
  match fs.lookup? p with
  | some .folder => return ()
  | some (.file _) => throw (fs.errorAt .taken p)
  | none => set (fs.put p .folder)

/-- Makes all folders on a way that are not there, those on the way so far being
`done`. -/
def makeFolders (done : Path) : List Text → Action Unit
  | [] => return ()
  | name :: rest => do
    makeFolder (done ++ [name])
    makeFolders (done ++ [name]) rest

/-- Adds bytes at the end of a file, all of them at once. The file is made if it is not there. -/
def append (p : Path) (data : List UInt8) : Action Unit := do
  makeFolders [] p.dropLast
  let fs ← get
  if p.any isTooLong then throw (fs.errorAt .nameTooLong p)
  match fs.lookup? p with
  | some .folder => throw (fs.errorAt .isFolder p)
  | some (.file c) => set (fs.put p (.file (.bytes (c.toBytes ++ data))))
  | none => set (fs.put p (.file (.bytes data)))

/-- Puts a file at a path, with the folders on the way. -/
def write (p : Path) (c : Content) : Action Unit := do
  makeFolders [] p.dropLast
  modify (·.put p (.file c))

/-! ## What a change leaves -/

theorem lookup?_eq (fs : Files) {p : Path} (h : p ≠ []) :
    fs.lookup? p = (fs.entries.find? (·.1 == p)).map (·.2) := by
  simp [lookup?, h]

@[simp] theorem root_put (fs : Files) (p : Path) (e : Entry) : (fs.put p e).root = fs.root := by
  unfold put
  split <;> rfl

end Files

end TagFormula

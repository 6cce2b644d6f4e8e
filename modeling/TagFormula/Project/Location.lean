import TagFormula.Text.Basic

/-!
# Locations

A path inside a project is the list of the names on the way down from the
project folder. A location is written with slashes between names. It starts at
the project folder, unless it begins with a slash and so starts at the top of
the whole file system; exactly two slashes there are kept as they are, and more
count as one. Empty names and the name `.` lead nowhere and are left out, while
`..` is kept, because it depends on what is there.
-/

namespace TagFormula

/-- The names on the way down from the project folder. -/
abbrev Path := List Text

/-- Where a location starts. -/
inductive Anchor where
  /-- At the project folder. -/
  | project
  /-- At the top, written as one slash or as two. -/
  | top (twoSlashes : Bool)
deriving DecidableEq, Repr

/-- Where a file is. -/
structure Location where
  /-- Where the location starts. -/
  anchor : Anchor
  /-- The names from there on. -/
  names : List Text
deriving DecidableEq, Repr

/-- The parts of a text between slashes, the name read so far being `name`, in
reverse. -/
def splitAtSlashes (name : Text) : Text → List Text
  | [] => [name.reverse]
  | c :: rest =>
    if c = '/' then name.reverse :: splitAtSlashes [] rest else splitAtSlashes (c :: name) rest

/-- Names with slashes between them. -/
def joinNames : List Text → Text
  | [] => []
  | [name] => name
  | name :: rest => name ++ '/' :: joinNames rest

namespace Location

/-- The location of a path in the project. -/
def ofPath (p : Path) : Location :=
  ⟨.project, p⟩

/-- Where a written location starts. -/
def anchorOf (t : Text) : Anchor :=
  match t.takeWhile (· = '/') with
  | [] => .project
  | [_, _] => .top true
  | _ => .top false

/-- Reads a location. -/
def ofText (t : Text) : Location :=
  ⟨anchorOf t, (splitAtSlashes [] t).filter fun name => name ≠ [] ∧ name ≠ ['.']⟩

/-- A location in full, for a project folder that is written as `root`. -/
def text (root : Text) (l : Location) : Text :=
  match l.anchor with
  | .top twoSlashes => (if twoSlashes then ['/', '/'] else ['/']) ++ joinNames l.names
  | .project =>
    if l.names.isEmpty then root
    else if root = ['.'] then joinNames l.names
    else if root.getLast? = some '/' then root ++ joinNames l.names
    else root ++ '/' :: joinNames l.names

/-- How locations are read and written. -/
example : ofText "./data//vars.yaml".toList = ofPath ["data".toList, "vars.yaml".toList] ∧
    text "p".toList (ofText "a/../b/.".toList) = "p/a/../b".toList ∧
    text "p".toList (ofText "//a".toList) = "//a".toList ∧
    text "p".toList (ofText "///a/".toList) = "/a".toList := by
  decide +kernel

end Location

end TagFormula

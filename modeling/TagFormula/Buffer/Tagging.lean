import TagFormula.Buffer.Edit

/-!
# Tagging a plain formula

A formula written as plain text becomes a buffer in which every name of a known
variable is a tag. The names are found from left to right, and at each place the
longest one that fits is taken; the text between them stays plain. The tags get
the ids 1, 2, … in the order of the text, and the cursor comes to stand at the
end.
-/

namespace TagFormula

/-- A variable known by its name. -/
structure Variable where
  /-- The name. -/
  name : Text
  /-- The value. -/
  value : Float

namespace Variable

/-- Files a variable under its name: in the place of the one that has this name,
or else behind all others. -/
def file (known : List Variable) (v : Variable) : List Variable :=
  if known.any (·.name == v.name) then known.map fun u => if u.name = v.name then v else u
  else known ++ [v]

/-- Variables filed one after the other, so that every name occurs once. -/
def filed (known : List Variable) : List Variable :=
  known.foldl file []

/-- Variables with a name, those with longer names first. -/
def byLength (known : List Variable) : List Variable :=
  (known.filter fun v => !v.name.isEmpty).mergeSort fun u v => v.name.length ≤ u.name.length

end Variable

/-- A piece of a formula: text without a name in it, or a name. -/
inductive Piece where
  /-- Plain text. -/
  | plain (text : Text)
  /-- The name of a variable. -/
  | name (variable_ : Variable)

namespace Piece

/-- Plain text held in reverse, as a piece if it is not empty. -/
def flush (plain : Text) : List Piece :=
  if plain.isEmpty then [] else [.plain plain.reverse]

/-- Splits a text at the names of variables, of which none is empty and the
first that fits is taken. The plain text read before it is `plain`, in reverse. -/
def split (known : List Variable) (plain : Text) : Text → List Piece
  | [] => flush plain
  | c :: rest =>
    match known.find? fun v => v.name.isPrefixOf (c :: rest) with
    | some v => flush plain ++ .name v :: split known [] (rest.drop (v.name.length - 1))
    | none => split known (c :: plain) rest
termination_by t => t.length

end Piece

/-- Why a formula cannot be tagged. -/
inductive TaggingError where
  /-- A name stands for a variable with faults. -/
  | invalid (faults : List FieldFault)
  /-- An edit is refused. -/
  | edit (error : BufferError)

namespace Buffer

/-- Puts a piece in at the end; `next` is the id for a tag. -/
def append (b : Buffer) (next : Nat) : Piece → Except TaggingError Buffer
  | .plain t =>
    match b.apply (insertText b.length t) with
    | (.ok (), b) => .ok b
    | (.error e, _) => .error (.edit e)
  | .name v =>
    let s : Suggestion := ⟨next, v.name, v.value⟩
    if s.faults.isEmpty then
      match b.apply (insertTag s b.length) with
      | (.ok _, b) => .ok b
      | (.error e, _) => .error (.edit e)
    else .error (.invalid s.faults)

/-- Puts pieces in at the end one after the other; the tags get ids from `next`
on. -/
def appendAll (b : Buffer) (next : Nat) : List Piece → Except TaggingError Buffer
  | [] => .ok b
  | p :: rest =>
    match b.append next p with
    | .ok b =>
      match p with
      | .plain _ => b.appendAll next rest
      | .name _ => b.appendAll (next + 1) rest
    | .error e => .error e

/-- The buffer of a plain formula. -/
def ofFormula (t : Text) (known : List Variable) : Except TaggingError Buffer :=
  match empty.appendAll 1 (Piece.split (Variable.byLength known) [] t) with
  | .ok b => .ok { b with cursor := b.length }
  | .error e => .error e

end Buffer

end TagFormula

import TagFormula.Session.Key
import TagFormula.Proofs.Buffer.Operation

/-!
# An editor for rows of cells

The editor keeps the cells to the left of its cursor and the cells to the right of
it. It edits at the joint between them, one cell at a time, so that a variable is
put in, passed over and deleted as a whole. Offsets only matter to a click, which
parts the row where it falls, or behind the cell that it falls into.

Beside the cells there is what a key press depends on: the search term, whether
suggestions are shown, and the id that the next variable gets. This is what a
session is meant to be like; the editor knows neither a text nor anchored tags.
-/

namespace TagFormula

namespace Cell

/-- Parts a row at an offset, or behind the cell that the offset falls into. -/
def splitAfter : Nat → List Cell → List Cell × List Cell
  | 0, cells => ([], cells)
  | _ + 1, [] => ([], [])
  | p + 1, c :: cells =>
      let (l, r) := splitAfter (p + 1 - c.width) cells
      (c :: l, r)

@[simp] theorem splitAfter_zero (cells : List Cell) : splitAfter 0 cells = ([], cells) := by
  cases cells <;> rfl

theorem splitAfter_cons {p : Nat} (hp : 0 < p) (c : Cell) (cells : List Cell) :
    splitAfter p (c :: cells) =
      (c :: (splitAfter (p - c.width) cells).1, (splitAfter (p - c.width) cells).2) := by
  obtain ⟨q, rfl⟩ := Nat.exists_eq_add_one.2 hp
  rfl

theorem splitAfter_fst_append_snd (p : Nat) (cells : List Cell) :
    (splitAfter p cells).1 ++ (splitAfter p cells).2 = cells := by
  induction cells generalizing p with
  | nil => cases p <;> rfl
  | cons c cells ih =>
      cases p with
      | zero => rfl
      | succ p => rw [splitAfter_cons (Nat.succ_pos p), List.cons_append, ih]

/-- A row is parted behind the cell that has the offset inside or at its end. -/
theorem splitAfter_append {p : Nat} {l r : List Cell} {c : Cell} (h₀ : extent l < p)
    (h₁ : p ≤ extent l + c.width) : splitAfter p (l ++ c :: r) = (l ++ [c], r) := by
  induction l generalizing p with
  | nil =>
      rw [extent_nil] at h₀ h₁
      have hzero : p - c.width = 0 := by omega
      rw [List.nil_append, splitAfter_cons h₀, hzero, splitAfter_zero, List.nil_append]
  | cons d l ih =>
      rw [extent_cons] at h₀ h₁
      have ih' := ih (p := p - d.width) (by omega) (by omega)
      have hpos : 0 < p := by omega
      rw [List.cons_append, splitAfter_cons hpos, ih', List.cons_append]

/-- Every offset behind the start of a row lies inside a cell or at its end. -/
theorem exists_cell_of_le_extent {p : Nat} {cells : List Cell} (h₀ : 0 < p)
    (h₁ : p ≤ extent cells) :
    ∃ l c r, cells = l ++ c :: r ∧ extent l < p ∧ p ≤ extent l + c.width := by
  induction cells generalizing p with
  | nil =>
      rw [extent_nil] at h₁
      omega
  | cons c cells ih =>
      rw [extent_cons] at h₁
      by_cases hp : p ≤ c.width
      · exact ⟨[], c, cells, rfl, h₀, by rw [extent_nil]; omega⟩
      · obtain ⟨l, d, r, rfl, hlt, hle⟩ := ih (p := p - c.width) (by omega) (by omega)
        refine ⟨c :: l, d, r, rfl, ?_, ?_⟩ <;> rw [extent_cons] <;> omega

/-- The cells before and behind the variable with an id. -/
def around (id : Int) (cells : List Cell) : List Cell × List Cell :=
  (cells.takeWhile fun c => c.id? ≠ some id, (cells.dropWhile fun c => c.id? ≠ some id).tail)

theorem around_append {l r : List Cell} {s : Suggestion} (h : WellFormed (l ++ tag s :: r)) :
    around s.id (l ++ tag s :: r) = (l, r) := by
  have hnot : ∀ c ∈ l, decide (c.id? ≠ some s.id) = true := by
    intro c hc
    exact decide_eq_true fun heq => h.not_mem_ids.1 (List.mem_filterMap.2 ⟨c, hc, heq⟩)
  rw [around, List.takeWhile_append_of_pos hnot, List.dropWhile_append_of_pos hnot,
    List.takeWhile_cons_of_neg (by simp [id?]), List.dropWhile_cons_of_neg (by simp [id?]),
    List.append_nil, List.tail_cons]

end Cell

/-- A row of cells with a cursor in it. -/
structure Editor where
  /-- Where suggestions for a term come from. -/
  source : Text → List ValidSuggestion
  /-- How many suggestions are offered. -/
  limit : Int
  /-- The cells to the left of the cursor. -/
  left : List Cell := []
  /-- The cells to the right of the cursor. -/
  right : List Cell := []
  /-- The id of the active variable. -/
  active : Option Int := none
  /-- The term typed to look up a variable. -/
  searchTerm : Text := []
  /-- Whether suggestions are shown. -/
  showsSuggestions : Bool := false
  /-- The id that the next variable gets. -/
  nextId : Int := 1

namespace Editor

/-- The row of cells. -/
def cells (e : Editor) : List Cell :=
  e.left ++ e.right

/-- The suggestions on offer. -/
def suggestions (e : Editor) : List ValidSuggestion :=
  if !e.showsSuggestions || Text.isBlank e.searchTerm then []
  else Slice.before (e.source e.searchTerm) e.limit

/-! ## Cells -/

/-- Puts a character in to the left of the cursor. -/
def putChar (e : Editor) (c : Char) : Editor :=
  { e with left := e.left ++ [.char c] }

/-- Parts other cells by the cursor; a variable that is not among them is not active. -/
def withCells (e : Editor) (l r : List Cell) : Editor :=
  { e with left := l, right := r, active := e.active.filter fun id => id ∈ Cell.ids (l ++ r) }

/-- Takes the cell to the left of the cursor away. -/
def dropLast (e : Editor) : Editor :=
  e.withCells e.left.dropLast e.right

/-- Takes the active variable away and leaves the cursor in its place. -/
def removeActive (e : Editor) : Editor :=
  match e.active with
  | none => e
  | some id => e.withCells (Cell.around id e.cells).1 (Cell.around id e.cells).2

/-- Takes all cells away and begins a new search. -/
def reset (e : Editor) : Editor :=
  { e with left := [], right := [], active := none, searchTerm := [], showsSuggestions := false }

/-! ## The cursor -/

/-- Parts the same cells otherwise. -/
def splitAt (e : Editor) (parts : List Cell × List Cell) : Editor :=
  { e with left := parts.1, right := parts.2 }

/-- Moves the cell to the left of the cursor to its right. -/
def moveLeft (e : Editor) : Editor :=
  match e.left.getLast? with
  | none => e
  | some c => e.splitAt (e.left.dropLast, c :: e.right)

/-- Moves the cell to the right of the cursor to its left. -/
def moveRight (e : Editor) : Editor :=
  match e.right with
  | [] => e
  | c :: r => e.splitAt (e.left ++ [c], r)

def moveToStart (e : Editor) : Editor :=
  e.splitAt ([], e.cells)

def moveToEnd (e : Editor) : Editor :=
  e.splitAt (e.cells, [])

/-- Moves the cursor from the start of a row that is not empty to its end. -/
def focus (e : Editor) : Editor :=
  if e.left.isEmpty && !e.right.isEmpty then e.moveToEnd else e

/-- Parts the row at an offset that lies in it. -/
def click (e : Editor) (p : Int) : Editor :=
  if 0 ≤ p ∧ p ≤ Cell.extent e.cells then e.splitAt (Cell.splitAfter p.toNat e.cells) else e

/-! ## Searching -/

/-- Replaces the search term; suggestions are shown unless it is blank. -/
def search (e : Editor) (term : Text) : Editor :=
  { e with searchTerm := term, showsSuggestions := !Text.isBlank term }

/-- Puts a variable in to the left of the cursor, with an id of its own, and ends the
search. -/
def select (e : Editor) (choice : ValidSuggestion) : Editor :=
  { e with
    left := e.left ++ [.tag { choice.val with id := e.nextId }]
    nextId := e.nextId + 1
    searchTerm := []
    showsSuggestions := false }

/-- Shortens the search term; without one takes away the cell to the left. -/
def backspace (e : Editor) : Editor :=
  if e.searchTerm.isEmpty then e.dropLast else e.search e.searchTerm.dropLast

/-- Makes a variable active, or none if it is active already. -/
def toggle (e : Editor) (id : Int) : Editor :=
  if id ∈ Cell.ids e.cells then
    { e with active := if e.active = some id then none else some id }
  else e

/-! ## Keys -/

def press (e : Editor) : Key → Editor
  | .operator c => { e.putChar c with searchTerm := [], showsSuggestions := true }
  | .digit c => e.putChar c
  | .backspace => e.backspace
  | .left => e.moveLeft
  | .right => e.moveRight
  | .home => e.moveToStart
  | .toEnd => e.moveToEnd
  | .enter =>
      match e.suggestions with
      | [] => e
      | choice :: _ => e.select choice
  | .escape => { e with showsSuggestions := false }
  | .character c => e.search (e.searchTerm ++ [c])
  | .other => e

end Editor

end TagFormula

import TagFormula.Proofs.Buffer.Partition
import TagFormula.Proofs.Formula.Classification
import TagFormula.Proofs.Formula.Faults

/-!
# Numbers across the pieces of a formula

A formula with its tags replaced is written piece by piece: runs of plain text, and values.
The text is then divided into numbers and symbols anew, and a number may begin in one piece
and end in another. Where digits or points meet between two pieces it has to: were they
parts of two numbers, one would follow the other, and then the text would have no value
(`not_adjacent_of_derives`). Between other characters no number runs across.

So in a formula with a value, the numbers that run across a boundary between two pieces are
told from the characters on its sides, and every other number lies in one piece
(`numbers_across_pieces`).
-/

namespace TagFormula

open Formula Token

/-- A number stands in a text, and starts at an offset. -/
def NumberAt (t : Text) (p : Nat) (n : Text) : Prop :=
  ∃ ps, LexesFrom 0 t ps ∧ ⟨p, .number n⟩ ∈ ps

/-- A number of a text starts before an offset and ends behind it. -/
def RunsAcross (t : Text) (q : Nat) : Prop :=
  ∃ p n, NumberAt t p n ∧ p < q ∧ q < p + n.length

/-- A text that starts at an offset of a row of pieces lies in one of them. -/
def InOnePiece (pieces : List Text) (p : Nat) (n : Text) : Prop :=
  ∃ l piece r, pieces = l ++ piece :: r ∧ l.flatten.length ≤ p ∧
    p + n.length ≤ l.flatten.length + piece.length

/-- One piece of a row ends at an offset, where the next one starts. -/
def Boundary (pieces : List Text) (q : Nat) (piece next : Text) : Prop :=
  ∃ l r, pieces = l ++ piece :: next :: r ∧ q = (l ++ [piece]).flatten.length

/-- Among tokens with their offsets, a number starts before an offset and ends behind it. -/
def Spans (ps : List Positioned) (q : Nat) : Prop :=
  ∃ p n, ⟨p, .number n⟩ ∈ ps ∧ p < q ∧ q < p + n.length

/-- A number follows a number. -/
def Adjacent (ps : List Positioned) : Prop :=
  ∃ front n m back, ps.map (·.token) = front ++ .number n :: .number m :: back

theorem Spans.cons {ps : List Positioned} {q : Nat} (h : Spans ps q) (x : Positioned) :
    Spans (x :: ps) q := by
  obtain ⟨p, n, hmem, hspan⟩ := h
  exact ⟨p, n, List.mem_cons_of_mem x hmem, hspan⟩

theorem Adjacent.cons {ps : List Positioned} (h : Adjacent ps) (x : Positioned) :
    Adjacent (x :: ps) := by
  obtain ⟨front, n, m, back, heq⟩ := h
  exact ⟨x.token :: front, n, m, back, congrArg (x.token :: ·) heq⟩

/-! ## Joints -/

/-- A text parted in two ways: the longer first part goes on behind the shorter one. -/
theorem exists_append_of_length_le {u v a b : Text} (h : a ++ b = u ++ v)
    (hle : a.length ≤ u.length) : ∃ s, u = a ++ s ∧ b = s ++ v := by
  have hprefix : a <+: u ++ v := h ▸ List.prefix_append a b
  obtain ⟨s, rfl⟩ := List.prefix_of_prefix_length_le hprefix (List.prefix_append u v) hle
  rw [List.append_assoc] at h
  exact ⟨s, rfl, List.append_cancel_left h⟩

namespace Token

theorem Parted.append_left {u v : Text} (h : Parted u v) (hu : u ≠ []) (a : Text) :
    Parted (a ++ u) v := by
  obtain ⟨l, c, rfl⟩ := (List.eq_nil_or_concat' u).resolve_left hu
  intro l' c' d r hl hv
  rw [← List.append_assoc] at hl
  rw [← (List.append_singleton_inj.1 hl).2]
  exact h l c d r rfl hv

theorem Parted.append_right {u v : Text} (h : Parted u v) (hv : v ≠ []) (b : Text) :
    Parted u (v ++ b) := by
  obtain ⟨d, r, rfl⟩ := List.exists_cons_of_ne_nil hv
  intro l c d' r' hl hr
  rw [← (List.cons.inj hr).1]
  exact h l c d r hl rfl

theorem Parted.of_append_right {u v b : Text} (h : Parted u (v ++ b)) : Parted u v := by
  rintro l c d r hl rfl
  exact h l c d (r ++ b) hl rfl

/-- Whether texts are parted lies in the characters at their ends. -/
theorem parted_append_iff {u v : Text} (hu : u ≠ []) (hv : v ≠ []) (a b : Text) :
    Parted (a ++ u) (v ++ b) ↔ Parted u v :=
  ⟨fun h => h.of_append.of_append_right, fun h => (h.append_left hu a).append_right hv b⟩

theorem exists_ends_of_not_parted {u v : Text} (h : ¬ Parted u v) :
    ∃ l c d r, u = l ++ [c] ∧ v = d :: r ∧ IsNumeric c ∧ IsNumeric d := by
  simpa [Parted] using h

theorem not_isNumeric_of_space {c : Char} (h : c = ' ' ∨ c = '\t') : ¬ IsNumeric c := by
  intro hc
  rw [← isSpace_iff, isSpace_eq_false hc] at h
  exact Bool.false_ne_true h

theorem not_isNumeric_of_mem_symbols {c : Char} {token : Token} (h : (c, token) ∈ symbols) :
    ¬ IsNumeric c := by
  obtain ⟨-, hdigit, hpoint, -⟩ := of_mem_symbols h
  rintro (hc | hc)
  · exact Bool.false_ne_true (hdigit.symm.trans hc)
  · exact hpoint hc

/-- A character that numbers are not written with is on one side of a joint. -/
theorem exists_of_not_parted {c : Char} {t u v : Text} (hc : ¬ IsNumeric c) (h : ¬ Parted u v)
    (heq : c :: t = u ++ v) : ∃ u', u = c :: u' ∧ t = u' ++ v ∧ ¬ Parted u' v := by
  cases u with
  | nil => exact absurd (parted_nil_left v) h
  | cons d u =>
      obtain ⟨rfl, rfl⟩ := List.cons.inj heq
      refine ⟨u, rfl, rfl, fun hparted => h ?_⟩
      by_cases hu : u = []
      · rw [hu]
        exact parted_of_last hc [] v
      · exact hparted.append_left hu [c]

/-- Where a number goes on behind a joint, digits or points meet there. -/
theorem not_parted_of_numeral {n u v a b : Text} (hn : Numeral n) (heq : u ++ v = a ++ (n ++ b))
    (hstart : a.length < u.length) (hstop : u.length < a.length + n.length) : ¬ Parted u v := by
  obtain ⟨s, rfl, hs⟩ := exists_append_of_length_le heq.symm (Nat.le_of_lt hstart)
  rw [List.length_append] at hstart hstop
  have hne : s ≠ [] := by
    rintro rfl
    exact absurd hstart (Nat.lt_irrefl _)
  intro hparted
  obtain ⟨s', hs'⟩ := exists_append_of_numeral hparted.of_append hne hn hs.symm
  rw [hs', List.length_append] at hstop
  omega

end Token

/-! ## Numbers of a text -/

namespace LexesFrom

variable {p : Nat} {t : Text} {ps : List Positioned}

/-- Numbers of a text stand where they are said to. -/
theorem exists_of_number_mem (h : LexesFrom p t ps) {q : Nat} {n : Text}
    (hmem : ⟨q, .number n⟩ ∈ ps) :
    ∃ u v, t = u ++ (n ++ v) ∧ q = p + u.length ∧ Numeral n := by
  have hbehind {p : Nat} {s t : Text}
      (ih : ∃ u v, t = u ++ (n ++ v) ∧ q = p + s.length + u.length ∧ Numeral n) :
      ∃ u v, s ++ t = u ++ (n ++ v) ∧ q = p + u.length ∧ Numeral n := by
    obtain ⟨u, v, rfl, hq, hn⟩ := ih
    refine ⟨s ++ u, v, (List.append_assoc ..).symm, ?_, hn⟩
    rw [hq, List.length_append, Nat.add_assoc]
  induction h with
  | nil p => cases hmem
  | @space p c t ps hc h ih => exact hbehind (s := [c]) (ih hmem)
  | @symbol p c token t ps hc h ih =>
      rcases List.mem_cons.1 hmem with heq | hmem
      · obtain ⟨rfl, rfl⟩ := Positioned.mk.inj heq
        simp [symbols] at hc
      · exact hbehind (s := [c]) (ih hmem)
  | @number p m rest ps hm h ih =>
      rcases List.mem_cons.1 hmem with heq | hmem
      · obtain ⟨rfl, hnumber⟩ := Positioned.mk.inj heq
        obtain rfl := Token.number.inj hnumber
        exact ⟨[], rest, rfl, rfl, hm.1⟩
      · exact hbehind (ih hmem)
  | @foreign p c t ps hc h ih =>
      rcases List.mem_cons.1 hmem with heq | hmem
      · cases heq
      · exact hbehind (s := [c]) (ih hmem)

/-- A text that starts with a digit or a point starts with a number. -/
theorem exists_number_of_head (h : LexesFrom p t ps) (hforeign : ∀ q c, ⟨q, .foreign c⟩ ∉ ps)
    {d : Char} {r : Text} (ht : t = d :: r) (hd : IsNumeric d) :
    ∃ n ps', ps = ⟨p, .number n⟩ :: ps' := by
  cases h with
  | nil p => cases ht
  | space hc h =>
      obtain ⟨rfl, -⟩ := List.cons.inj ht
      exact absurd hd (not_isNumeric_of_space hc)
  | symbol hc h =>
      obtain ⟨rfl, -⟩ := List.cons.inj ht
      exact absurd hd (not_isNumeric_of_mem_symbols hc)
  | number hn h => exact ⟨_, _, rfl⟩
  | foreign hc h => exact absurd List.mem_cons_self (hforeign _ _)

/-- Where digits or points meet, a number runs across, or a number ends and another one
starts. -/
theorem spans_or_adjacent (h : LexesFrom p t ps) (hforeign : ∀ q c, ⟨q, .foreign c⟩ ∉ ps)
    {u v : Text} (ht : t = u ++ v) (hjoint : ¬ Parted u v) :
    Spans ps (p + u.length) ∨ Adjacent ps := by
  induction h generalizing u with
  | nil p =>
      obtain ⟨rfl, -⟩ := List.append_eq_nil_iff.1 ht.symm
      exact absurd (parted_nil_left v) hjoint
  | @space p c t ps hc h ih =>
      obtain ⟨u, rfl, rfl, hjoint⟩ := exists_of_not_parted (not_isNumeric_of_space hc) hjoint ht
      rw [List.length_cons, Nat.add_comm u.length, ← Nat.add_assoc]
      exact ih hforeign rfl hjoint
  | @symbol p c token t ps hc h ih =>
      obtain ⟨u, rfl, rfl, hjoint⟩ :=
        exists_of_not_parted (not_isNumeric_of_mem_symbols hc) hjoint ht
      have hrest : ∀ q d, ⟨q, .foreign d⟩ ∉ ps := fun q d hmem =>
        hforeign q d (List.mem_cons_of_mem _ hmem)
      rw [List.length_cons, Nat.add_comm u.length, ← Nat.add_assoc]
      exact (ih hrest rfl hjoint).imp (·.cons _) (·.cons _)
  | @number p n rest ps hn h ih =>
      have hrest : ∀ q c, ⟨q, .foreign c⟩ ∉ ps := fun q c hmem =>
        hforeign q c (List.mem_cons_of_mem _ hmem)
      obtain ⟨l, c, d, r, hu, rfl, hc, hd⟩ := exists_ends_of_not_parted hjoint
      have hpos : 0 < u.length := by simp [hu]
      rcases Nat.lt_trichotomy u.length n.length with hlt | heq | hlt
      · exact .inl ⟨p, n, List.mem_cons_self, by omega, by omega⟩
      · -- The number ends at the joint.
        obtain ⟨rfl, rfl⟩ := List.append_inj ht.symm heq
        obtain ⟨m, ps', rfl⟩ := h.exists_number_of_head hrest rfl hd
        exact .inr ⟨[], u, m, _, rfl⟩
      · obtain ⟨s, rfl, rfl⟩ := exists_append_of_length_le ht (Nat.le_of_lt hlt)
        rw [List.length_append, ← Nat.add_assoc]
        have hs : s ≠ [] := by
          rintro rfl
          simp at hlt
        have hlater := ih hrest rfl fun hparted => hjoint (hparted.append_left hs n)
        exact hlater.imp (·.cons _) (·.cons _)
  | foreign hc h ih => exact absurd List.mem_cons_self (hforeign _ _)

end LexesFrom

theorem NumberAt.ne_nil_and_le {t n : Text} {p : Nat} (h : NumberAt t p n) :
    n ≠ [] ∧ p + n.length ≤ t.length := by
  obtain ⟨ps, hps, hmem⟩ := h
  obtain ⟨u, v, rfl, rfl, hn⟩ := hps.exists_of_number_mem hmem
  refine ⟨hn.ne_nil, ?_⟩
  rw [List.length_append, List.length_append]
  omega

/-- In what derives from the grammar no number follows a number. -/
theorem not_adjacent_of_derives {ps : List Positioned} {e : Expr}
    (h : Derives .addition (ps.map (·.token)) e) : ¬ Adjacent ps := by
  rintro ⟨front, n, m, back, heq⟩
  have hsteps := derives_iff.1 ⟨e, h⟩
  rw [heq, List.foldlM_append] at hsteps
  obtain ⟨place, -, hsteps⟩ := Option.bind_eq_some_iff.1 hsteps
  cases place with
  | operand depth => cases hsteps
  | operator depth => cases hsteps

/-- In a formula a number runs across every joint where digits or points meet. -/
theorem runs_across_of_not_parted {u v : Text} {e : Expr} (h : HasTree (u ++ v) e)
    (hjoint : ¬ Parted u v) : RunsAcross (u ++ v) u.length := by
  obtain ⟨ts, hlexes, hderives⟩ := h
  rw [← hlexes.tokensFrom_eq 0] at hderives
  have hforeign : ∀ q c, ⟨q, .foreign c⟩ ∉ scanFrom 0 (u ++ v) := fun q c hmem =>
    hderives.foreign_not_mem c (List.mem_map_of_mem (f := (·.token)) hmem)
  have hscan := lexesFrom_scanFrom 0 (u ++ v)
  obtain ⟨p, n, hmem, hstart, hstop⟩ | hadjacent :=
    hscan.spans_or_adjacent hforeign rfl hjoint
  · rw [Nat.zero_add] at hstart hstop
    exact ⟨p, n, ⟨_, hscan, hmem⟩, hstart, hstop⟩
  · exact absurd hadjacent (not_adjacent_of_derives hderives)

/-! ## Pieces -/

section

variable {pieces : List Text} {piece next : Text} {p q : Nat} {n : Text}

theorem InOnePiece.cons (h : InOnePiece pieces p n) (a : Text) :
    InOnePiece (a :: pieces) (a.length + p) n := by
  obtain ⟨l, piece, r, rfl, hstart, hstop⟩ := h
  refine ⟨a :: l, piece, r, rfl, ?_, ?_⟩ <;> rw [List.flatten_cons, List.length_append] <;> omega

theorem Boundary.cons (h : Boundary pieces q piece next) (a : Text) :
    Boundary (a :: pieces) (a.length + q) piece next := by
  obtain ⟨l, r, rfl, rfl⟩ := h
  exact ⟨a :: l, r, rfl, by rw [List.cons_append, List.flatten_cons, List.length_append]⟩

/-- What lies in a row lies in one of its pieces or around a boundary. -/
theorem inOnePiece_or_boundary (hn : n ≠ []) (hle : p + n.length ≤ pieces.flatten.length) :
    InOnePiece pieces p n ∨
      ∃ q piece next, Boundary pieces q piece next ∧ p < q ∧ q < p + n.length := by
  have hpos := List.length_pos_iff.2 hn
  induction pieces generalizing p with
  | nil =>
      rw [List.flatten_nil, List.length_nil] at hle
      omega
  | cons a pieces ih =>
      rw [List.flatten_cons, List.length_append] at hle
      by_cases hbehind : a.length ≤ p
      · obtain ⟨p, rfl⟩ := Nat.exists_eq_add_of_le hbehind
        obtain hone | ⟨q, piece, next, hboundary, hstart, hstop⟩ := ih (p := p) (by omega)
        · exact .inl (hone.cons a)
        · exact .inr ⟨_, piece, next, hboundary.cons a, by omega, by omega⟩
      by_cases hinside : p + n.length ≤ a.length
      · exact .inl ⟨[], a, pieces, rfl, Nat.zero_le _, by simpa using hinside⟩
      · cases pieces with
        | nil =>
            rw [List.flatten_nil, List.length_nil] at hle
            omega
        | cons next pieces =>
            refine .inr ⟨a.length, a, next, ⟨[], pieces, rfl, by simp⟩, ?_, ?_⟩ <;> omega

/-- What goes on behind a boundary does not lie in one piece. -/
theorem Boundary.not_inOnePiece (h : Boundary pieces q piece next) (hstart : p < q)
    (hstop : q < p + n.length) : ¬ InOnePiece pieces p n := by
  obtain ⟨l, r, rfl, rfl⟩ := h
  rintro ⟨l', piece', r', heq, hstart', hstop'⟩
  have hprefix : l ++ [piece] <+: l ++ piece :: next :: r := ⟨next :: r, by simp⟩
  have hprefix' : l' ++ [piece'] <+: l ++ piece :: next :: r := heq ▸ ⟨r', by simp⟩
  have hlength : (l' ++ [piece']).flatten.length = l'.flatten.length + piece'.length := by
    rw [List.flatten_append, List.flatten_singleton, List.length_append]
  rcases Nat.lt_or_ge l.length l'.length with hlt | hle
  · -- The boundary is not behind the start of the piece.
    obtain ⟨m, rfl⟩ := List.prefix_of_prefix_length_le hprefix
      ((List.prefix_append l' [piece']).trans hprefix') (by simpa using Nat.succ_le_of_lt hlt)
    rw [List.flatten_append, List.length_append] at hstart'
    omega
  · -- The boundary is not before the end of the piece.
    obtain ⟨m, hm⟩ := List.prefix_of_prefix_length_le hprefix' hprefix (by simpa using hle)
    rw [← hm, List.flatten_append, List.length_append, hlength] at hstop
    omega

theorem not_inOnePiece_iff (hn : n ≠ []) (hle : p + n.length ≤ pieces.flatten.length) :
    ¬ InOnePiece pieces p n ↔
      ∃ q piece next, Boundary pieces q piece next ∧ p < q ∧ q < p + n.length :=
  ⟨(inOnePiece_or_boundary hn hle).resolve_left,
    fun ⟨_, _, _, hboundary, hstart, hstop⟩ => hboundary.not_inOnePiece hstart hstop⟩

/-- Pieces that are not empty are parted where the texts before and behind their boundary are. -/
theorem Boundary.exists_parted_iff (h : Boundary pieces q piece next) (hne : [] ∉ pieces) :
    ∃ u v, pieces.flatten = u ++ v ∧ q = u.length ∧ (Parted u v ↔ Parted piece next) := by
  obtain ⟨l, r, rfl, rfl⟩ := h
  have hpiece : piece ≠ [] := fun heq => hne (by simp [heq])
  have hnext : next ≠ [] := fun heq => hne (by simp [heq])
  refine ⟨(l ++ [piece]).flatten, (next :: r).flatten, by simp, rfl, ?_⟩
  rw [List.flatten_append, List.flatten_singleton, List.flatten_cons]
  exact parted_append_iff hpiece hnext _ _

end

namespace Formula

/-- Nothing that numbers are written with is dropped with a dangling operator. -/
theorem Undangled.exists_not_parted {u v x : Text} (h : Undangled (u ++ v) x)
    (hjoint : ¬ Parted u v) : ∃ m, x = u ++ m ∧ ¬ Parted u m := by
  cases h with
  | whole hno => exact ⟨v, rfl, hjoint⟩
  | @dropped _ op blanks heq hop hblanks =>
      obtain ⟨l, c, d, r, -, rfl, -, hd⟩ := exists_ends_of_not_parted hjoint
      obtain ⟨-, -, hblank, htrailing⟩ := solid_numeric hd
      have hkept : d ∉ op :: blanks := by
        intro hmem
        rcases List.mem_cons.1 hmem with rfl | hmem
        · exact Bool.false_ne_true (htrailing.symm.trans hop)
        · exact Bool.false_ne_true (hblank.symm.trans (List.all_eq_true.1 hblanks d hmem))
      rcases Nat.le_total u.length x.length with hle | hle
      · obtain ⟨m, rfl, hm⟩ := exists_append_of_length_le heq hle
        refine ⟨m, rfl, fun hparted => hjoint (hm ▸ hparted.append_right ?_ _)⟩
        rintro rfl
        exact hkept ((List.cons.inj hm).1 ▸ List.mem_cons_self)
      · obtain ⟨m, rfl, hm⟩ := exists_append_of_length_le heq.symm hle
        exact absurd (hm ▸ List.mem_append_right _ List.mem_cons_self) hkept

theorem Undangled.prefix {t x : Text} (h : Undangled t x) : x <+: t := by
  cases h with
  | whole hno => exact List.prefix_rfl
  | dropped heq hop hblanks => exact ⟨_, heq.symm⟩

/-- A formula without its dangling operator has a number across a joint just where digits or
points meet there. -/
theorem Undangled.runsAcross_iff {u v x : Text} {e : Expr} (h : Undangled (u ++ v) x)
    (htree : HasTree x e) : RunsAcross x u.length ↔ ¬ Parted u v := by
  constructor
  · rintro ⟨p, n, ⟨ps, hps, hmem⟩, hstart, hstop⟩
    obtain ⟨a, b, rfl, rfl, hn⟩ := hps.exists_of_number_mem hmem
    obtain ⟨w, hw⟩ := h.prefix
    rw [List.append_assoc, List.append_assoc] at hw
    rw [Nat.zero_add] at hstart hstop
    exact not_parted_of_numeral hn hw.symm hstart hstop
  · intro hjoint
    obtain ⟨m, rfl, hjoint⟩ := h.exists_not_parted hjoint
    exact runs_across_of_not_parted htree hjoint

theorem exists_tree_of_evaluateExpression {x : Text} {number : Number}
    (h : evaluateExpression x = .ok number) : ∃ e, HasTree x e := by
  rw [evaluateExpression] at h
  cases hparse : Expr.parse x with
  | ok e => exact ⟨e, Expr.parse_eq_ok_iff.1 hparse⟩
  | error err =>
      rw [hparse] at h
      cases h

/-- The arithmetic of a formula with a value is a formula. -/
theorem exists_tree_of_calculate {t x : Text} {tags : List Tag} {number : Number}
    (h : calculate t tags = .value number x) : ∃ e, HasTree x e := by
  rw [calculate_eq_conclude] at h
  generalize prepare t tags = prepared at h
  obtain err | _ | expression := prepared
  · cases h
  · cases h
  rw [conclude] at h
  cases hvalue : evaluateExpression expression with
  | error err =>
      rw [hvalue] at h
      cases h
  | ok number' =>
      rw [hvalue] at h
      obtain ⟨-, rfl⟩ := Evaluation.value.inj h
      exact exists_tree_of_evaluateExpression hvalue

end Formula

theorem Evaluation.exists_value {e : Evaluation} {x : Text} (hnumber : e.number?.isSome = true)
    (hexpression : e.expression? = some x) : ∃ number, e = .value number x := by
  cases e with
  | blank => cases hnumber
  | value number y => exact ⟨number, congrArg _ (Option.some.inj hexpression)⟩
  | failure err y => cases hnumber

namespace Buffer

variable {b : Buffer} {cells : List Cell}

/-- The text that is written for each segment of a buffer. -/
theorem Layout.mapM_plain?_render (h : b.Layout cells) :
    b.render.mapM Segment.plain? = some (b.render.map (Segment.written Suggestion.plain)) :=
  mapM_plain? fun _ ht => h.valid_of_mem_tags (mem_tags_of_mem_render ht)

/-- Something is written for every segment of a buffer. -/
theorem Layout.written_ne_nil (h : b.Layout cells) :
    [] ∉ b.render.map (Segment.written Suggestion.plain) := by
  intro hmem
  obtain ⟨g, hg, hwritten⟩ := List.mem_map.1 hmem
  cases g with
  | text start t => exact h.parts_render.text_ne_nil start t hg hwritten
  | tag t =>
      have hvalid := h.valid_of_mem_tags (mem_tags_of_mem_render hg)
      exact hvalid.solid_plain.ne_nil hwritten

/-- After every run of edits after which the formula has a value: each number of the arithmetic
that was evaluated lies in what is written for one segment, unless it runs across a boundary
where digits or points meet, and across every such boundary one does run. -/
theorem numbers_across_pieces (ops : List Operation) {number : Number} {x : Text}
    (h : Formula.calculate (after ops).text (after ops).tags = .value number x) :
    ∃ pieces, (after ops).render.mapM Segment.plain? = some pieces ∧ [] ∉ pieces ∧
      Undangled pieces.flatten x ∧
      (∀ p n, NumberAt x p n → (¬ InOnePiece pieces p n ↔
        ∃ q piece next, Boundary pieces q piece next ∧ ¬ Parted piece next ∧
          p < q ∧ q < p + n.length)) ∧
      ∀ q piece next, Boundary pieces q piece next →
        (RunsAcross x q ↔ ¬ Parted piece next) := by
  obtain ⟨cells, hlayout⟩ := layout_after ops
  have hundangled : Undangled ((after ops).filled Suggestion.plain) x := by
    obtain ⟨y, hy, harithmetic⟩ := hlayout.classified.expression (.inl ⟨number, by rw [h]; rfl⟩)
    rw [h] at hy
    exact Option.some.inj hy ▸ harithmetic.undangled
  obtain ⟨e, htree⟩ := exists_tree_of_calculate h
  rw [Buffer.filled, List.flatMap_def] at hundangled
  have hacross (q : Nat) (piece next : Text)
      (h : Boundary ((after ops).render.map (Segment.written Suggestion.plain)) q piece next) :
      RunsAcross x q ↔ ¬ Parted piece next := by
    obtain ⟨u, v, heq, rfl, hiff⟩ := h.exists_parted_iff hlayout.written_ne_nil
    rw [← hiff]
    exact (heq ▸ hundangled).runsAcross_iff htree
  refine ⟨_, hlayout.mapM_plain?_render, hlayout.written_ne_nil, hundangled, ?_, hacross⟩
  intro p n hnumber
  obtain ⟨hne, hle⟩ := hnumber.ne_nil_and_le
  rw [not_inOnePiece_iff hne (Nat.le_trans hle hundangled.prefix.length_le)]
  refine exists_congr fun q => exists_congr fun piece => exists_congr fun next =>
    and_congr_right fun hboundary => (and_iff_right_of_imp fun hspan => ?_).symm
  exact (hacross q piece next hboundary).1 ⟨p, n, hnumber, hspan⟩

/-- A value with two digits. -/
def twelve : ValidSuggestion :=
  ⟨⟨3, "B".toList, 12⟩, (Suggestion.faults_eq_nil_iff _).1 (by decide +kernel)⟩

theorem numbers_across_pieces_before_value :
    let b := after (single "1".toList twelve " + 4".toList)
    ∃ number, Formula.calculate b.text b.tags = .value number "112 + 4".toList ∧
      RunsAcross "112 + 4".toList 1 ∧ ¬ RunsAcross "112 + 4".toList 3 := by
  intro b
  obtain ⟨number, h⟩ : ∃ number,
      Formula.calculate b.text b.tags = .value number "112 + 4".toList :=
    Evaluation.exists_value (by decide +kernel) (by decide +kernel)
  obtain ⟨pieces, hpieces, -, -, -, hacross⟩ := numbers_across_pieces _ h
  have hrender : b.render.mapM Segment.plain? =
      some ["1".toList, "12".toList, " + 4".toList] := by decide +kernel
  obtain rfl := Option.some.inj (hpieces.symm.trans hrender)
  refine ⟨number, h, (hacross 1 _ _ ⟨[], [" + 4".toList], rfl, rfl⟩).2 ?_, ?_⟩
  · exact fun hparted => hparted [] '1' '1' ['2'] rfl rfl ⟨.inl (by decide), .inl (by decide)⟩
  · rw [hacross 3 "12".toList " + 4".toList ⟨["1".toList], [], rfl, rfl⟩, not_not]
    refine parted_of_head ?_ _ _
    rintro (h | h) <;> revert h <;> decide

/-- The formula has a value, and a number in it does not lie in what is written for one
segment. -/
def Fuses (b : Buffer) : Prop :=
  ∃ number x pieces p n, Formula.calculate b.text b.tags = .value number x ∧
    b.render.mapM Segment.plain? = some pieces ∧ NumberAt x p n ∧ ¬ InOnePiece pieces p n

/-- Two segments that are written as one number. -/
theorem fuses_of_number {ops : List Operation} (piece next : Text)
    (hne : piece ≠ [] ∧ next ≠ [])
    (hvalue : let e := Formula.calculate (after ops).text (after ops).tags
      e.number?.isSome = true ∧ e.expression? = some (piece ++ next))
    (hpieces : (after ops).render.mapM Segment.plain? = some [piece, next])
    (hscan : scan (piece ++ next) = [⟨0, .number (piece ++ next)⟩]) : Fuses (after ops) := by
  obtain ⟨number, hvalue⟩ := Evaluation.exists_value hvalue.1 hvalue.2
  have hat : NumberAt (piece ++ next) 0 (piece ++ next) :=
    ⟨_, lexesFrom_iff.2 hscan, List.mem_singleton_self _⟩
  have hboundary : Boundary [piece, next] piece.length piece next := ⟨[], [], rfl, by simp⟩
  refine ⟨number, _, _, 0, _, hvalue, hpieces, hat, hboundary.not_inOnePiece ?_ ?_⟩
  · exact List.length_pos_iff.2 hne.1
  · have hpos := List.length_pos_iff.2 hne.2
    rw [List.length_append]
    omega

/-- A value goes together with a digit or a point behind it, and with a digit before it. -/
theorem fuses_with_value :
    Fuses (after (single [] twelve "5".toList)) ∧ Fuses (after (single [] twelve ".5".toList)) ∧
      Fuses (after (single "5".toList twelve [])) :=
  ⟨fuses_of_number "12".toList "5".toList (by decide) (by decide +kernel) (by decide +kernel)
      (by decide +kernel),
    fuses_of_number "12".toList ".5".toList (by decide) (by decide +kernel) (by decide +kernel)
      (by decide +kernel),
    fuses_of_number "5".toList "12".toList (by decide) (by decide +kernel) (by decide +kernel)
      (by decide +kernel)⟩

end Buffer

end TagFormula

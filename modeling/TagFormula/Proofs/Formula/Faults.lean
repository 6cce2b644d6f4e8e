import TagFormula.Proofs.Formula.Offsets
import TagFormula.Proofs.Formula.Parsing

/-!
# The first fault of a text

A text that is no formula is refused at the first token with which no formula can go on,
or at its end if there is no such token. What can go on does not depend on the contexts
that are open, only on how many parentheses there are among them and on whether an
operand is expected (`Place`). So the parser is followed by an automaton with two states
and a counter (`map_place_step?`): it accepts what the grammar derives, and it is stuck
just where no formula begins with the tokens read so far (`begins_iff`).
-/

namespace TagFormula

open TagFormula.Expr

/-- A formula begins with these tokens. -/
def Begins (ts : List Token) : Prop :=
  ∃ us e, Derives .addition (ts ++ us) e

/-- A place between the tokens of a text, inside a number of open parentheses. -/
inductive Place where
  /-- An operand is expected. -/
  | operand (depth : Nat)
  /-- An operand has been completed. -/
  | operator (depth : Nat)
deriving DecidableEq

namespace Place

/-- Goes past a token, if it can stand at a place. -/
def step? : Place → Token → Option Place
  | operand depth, .number _ => some (operator depth)
  | operand depth, .plus => some (operand depth)
  | operand depth, .minus => some (operand depth)
  | operand depth, .opening => some (operand (depth + 1))
  | operator depth, .plus => some (operand depth)
  | operator depth, .minus => some (operand depth)
  | operator depth, .times => some (operand depth)
  | operator depth, .slash => some (operand depth)
  | operator depth, .caret => some (operand depth)
  | operator (depth + 1), .closing => some (operator depth)
  | _, _ => none

/-- The first fault of the tokens that follow a place, and where it is; `last` is the offset of
the token before the place. -/
def fault? (last : Nat) : Place → List Positioned → Option (SyntaxFault × Nat)
  | operator 0, [] => none
  | _, [] => some (.unexpectedEnd, last)
  | place, p :: rest =>
    match place.step? p.token with
    | some place => fault? p.position place rest
    | none => some (tokenFault p.token, p.position)

end Place

/-! ## The parser and the automaton -/

/-- The number of parentheses that are open. -/
def depth : List Frame → Nat
  | [] => 0
  | .group :: frames => depth frames + 1
  | .signed _ :: frames => depth frames
  | .binary _ _ :: frames => depth frames

/-- Where a text has been read to. -/
def Expr.Reading.place : Reading → Place
  | before frames => .operand (depth frames)
  | after frames _ => .operator (depth frames)

/-- Every context but a parenthesis is closed at the least level. -/
theorem Frame.one_le_level {f : Frame} (h : f ≠ .group) : 1 ≤ f.level := by
  cases f with
  | signed sign => simp [Frame.level]
  | binary op a => cases op <;> simp [Frame.level, Operator.level]
  | group => exact absurd rfl h

theorem depth_cons {f : Frame} (h : f ≠ .group) (frames : List Frame) :
    depth (f :: frames) = depth frames := by
  cases f with
  | signed sign => rfl
  | binary op a => rfl
  | group => exact absurd rfl h

/-- Closing contexts opens and closes no parenthesis. -/
theorem depth_close {n : Nat} (hn : 1 ≤ n) (frames : List Frame) (e : Expr) :
    depth (close n frames e).1 = depth frames := by
  induction frames generalizing e with
  | nil => rfl
  | cons f frames ih =>
      by_cases hle : n ≤ f.level
      · have hf : f ≠ .group := by
          rintro rfl
          exact absurd (Nat.le_trans hn hle) (by decide)
        rw [close_cons_of_le hle, ih, depth_cons hf]
      · rw [close_cons_of_lt (Nat.not_le.1 hle)]

/-- Where contexts are closed at the least level, none is left or a parenthesis is left first. -/
theorem close_one_cases (frames : List Frame) (e : Expr) :
    (∃ e', close 1 frames e = ([], e') ∧ depth frames = 0) ∨
      ∃ frames' e', close 1 frames e = (.group :: frames', e') ∧
        depth frames = depth frames' + 1 := by
  induction frames generalizing e with
  | nil => exact .inl ⟨e, rfl, rfl⟩
  | cons f frames ih =>
      by_cases hf : f = .group
      · subst hf
        exact .inr ⟨frames, e, close_cons_of_lt (by decide) frames e, rfl⟩
      · rw [close_cons_of_le (f.one_le_level hf), depth_cons hf]
        exact ih (f.fill e)

namespace Expr.Reading

theorem place_operator (frames : List Frame) (e : Expr) (op : Operator) :
    (step?.operator frames e op).place = .operand (depth frames) := by
  have hlevel : 1 ≤ op.level := by cases op <;> decide
  exact congrArg Place.operand (depth_close hlevel frames e)

/-- The automaton goes past a token where the parser reads it. -/
theorem map_place_step? (r : Reading) (token : Token) :
    (r.step? token).map place = r.place.step? token := by
  cases r with
  | before frames =>
      cases token with
      | number | plus | minus | times | slash | caret | opening | closing | foreign => rfl
  | after frames e =>
      cases token with
      | plus => exact congrArg some (place_operator frames e .add)
      | minus => exact congrArg some (place_operator frames e .sub)
      | times => exact congrArg some (place_operator frames e .mul)
      | slash => exact congrArg some (place_operator frames e .div)
      | caret => exact congrArg some (place_operator frames e .pow)
      | closing =>
          obtain ⟨e', hclose, hzero⟩ | ⟨frames', e', hclose, hsucc⟩ := close_one_cases frames e
          · simp only [step?, hclose, place, hzero]
            rfl
          · simp only [step?, hclose, place, hsucc]
            rfl
      | number | opening | foreign => rfl

/-- A text may end where no parenthesis is open behind an operand. -/
theorem finish?_isSome_iff (r : Reading) : (∃ e, r.finish? = some e) ↔ r.place = .operator 0 := by
  cases r with
  | before frames => exact iff_of_false (fun ⟨_, h⟩ => nomatch h) (fun h => nomatch h)
  | after frames e =>
      obtain ⟨e', hclose, hzero⟩ | ⟨frames', e', hclose, hsucc⟩ := close_one_cases frames e
      · refine iff_of_true ⟨e', ?_⟩ (congrArg Place.operator hzero)
        rw [finish?, hclose]
      · refine iff_of_false ?_ ?_
        · rintro ⟨e'', h⟩
          rw [finish?, hclose] at h
          cases h
        · intro h
          have hdepth := Place.operator.inj h
          omega

theorem map_place_steps (r : Reading) (ts : List Token) :
    (ts.foldlM step? r).map place = ts.foldlM Place.step? r.place := by
  induction ts generalizing r with
  | nil => rfl
  | cons token ts ih =>
      rw [List.foldlM_cons, List.foldlM_cons, ← map_place_step?]
      cases r.step? token with
      | none => rfl
      | some r' => exact ih r'

end Expr.Reading

/-- The automaton accepts the tokens that the grammar derives. -/
theorem derives_iff {ts : List Token} :
    (∃ e, Derives .addition ts e) ↔
      ts.foldlM Place.step? (.operand 0) = some (.operator 0) := by
  have hplace : Place.operand 0 = (Reading.before []).place := rfl
  rw [hplace, ← Reading.map_place_steps, Option.map_eq_some_iff]
  constructor
  · rintro ⟨e, h⟩
    have hstart : Settled 1 [] := fun f hf => nomatch hf
    obtain ⟨frames, e', hread, hclose⟩ := h.reads [] fun _ => hstart
    refine ⟨_, hread, (Reading.finish?_isSome_iff _).1 ⟨e, ?_⟩⟩
    rw [Reading.finish?, hclose 1 (Nat.le_refl 1), hstart.close_eq]
  · rintro ⟨r, hread, hplace⟩
    have hstart : Spells (.before []) [] := Opens.nil
    obtain ⟨e, hfinish⟩ := (Reading.finish?_isSome_iff r).2 hplace
    exact ⟨e, (hstart.steps hread).finish hfinish⟩

/-! ## Beginnings of formulas -/

namespace Place

/-- Open parentheses can be closed behind an operand. -/
theorem steps_closing (depth : Nat) :
    (List.replicate depth Token.closing).foldlM step? (operator depth) = some (operator 0) := by
  induction depth with
  | zero => rfl
  | succ depth ih => exact ih

/-- From every place the tokens can be completed to a formula. -/
theorem exists_completion (place : Place) :
    ∃ us : List Token, us.foldlM step? place = some (operator 0) := by
  cases place with
  | operand depth => exact ⟨.number ['0'] :: List.replicate depth .closing, steps_closing depth⟩
  | operator depth => exact ⟨List.replicate depth .closing, steps_closing depth⟩

end Place

/-- A formula begins with the tokens that the automaton goes past. -/
theorem begins_iff {ts : List Token} :
    Begins ts ↔ ∃ place, ts.foldlM Place.step? (.operand 0) = some place := by
  have hbegins : Begins ts ↔ ∃ us : List Token,
      (ts ++ us).foldlM Place.step? (.operand 0) = some (.operator 0) :=
    exists_congr fun us => derives_iff
  rw [hbegins]
  constructor
  · rintro ⟨us, h⟩
    rw [List.foldlM_append] at h
    obtain ⟨place, hplace, -⟩ := Option.bind_eq_some_iff.1 h
    exact ⟨place, hplace⟩
  · rintro ⟨place, hplace⟩
    obtain ⟨us, hus⟩ := place.exists_completion
    refine ⟨us, ?_⟩
    rw [List.foldlM_append, hplace]
    exact hus

theorem begins_concat_iff {ts : List Token} {place : Place} {token : Token}
    (h : ts.foldlM Place.step? (.operand 0) = some place) :
    Begins (ts ++ [token]) ↔ ∃ next, place.step? token = some next := by
  have hlast : (ts ++ [token]).foldlM Place.step? (.operand 0) = place.step? token := by
    rw [List.foldlM_append, h]
    exact bind_pure (place.step? token)
  rw [begins_iff, hlast]

/-! ## Faults -/

/-- What is wrong with a text that has these tokens, and where: the first token with which no
formula goes on, or the end of the text, which is reported where the last token starts. -/
inductive FirstFault (ps : List Positioned) : SyntaxFault → Nat → Prop
  | token {front back : List Positioned} {p : Positioned} (heq : ps = front ++ p :: back)
      (hfront : Begins (front.map (·.token)))
      (hp : ¬ Begins (front.map (·.token) ++ [p.token])) :
      FirstFault ps (tokenFault p.token) p.position
  | ending (hps : Begins (ps.map (·.token))) (hno : ¬ ∃ e, Derives .addition (ps.map (·.token)) e) :
      FirstFault ps .unexpectedEnd ((ps.getLast?.map (·.position)).getD 0)

namespace Place

variable {last : Nat} {place : Place} {ps : List Positioned}

theorem fault?_nil : place.fault? last [] =
    if place = operator 0 then none else some (.unexpectedEnd, last) := by
  rcases place with depth | (_ | depth) <;> rfl

/-- Tokens that the automaton goes past have no fault of their own. -/
theorem fault?_append (last : Nat) {front : List Positioned} {place' : Place}
    (h : (front.map (·.token)).foldlM step? place = some place') (back : List Positioned) :
    place.fault? last (front ++ back) =
      place'.fault? ((front.getLast?.map (·.position)).getD last) back := by
  induction front generalizing place last with
  | nil =>
      obtain rfl := Option.some.inj h
      rfl
  | cons p front ih =>
      rw [List.map_cons, List.foldlM_cons] at h
      obtain ⟨next, hnext, hrest⟩ := Option.bind_eq_some_iff.1 h
      rw [List.cons_append, fault?, hnext]
      dsimp only
      rw [ih p.position hrest]
      cases front with
      | nil => rfl
      | cons q front => rw [List.getLast?_cons_cons, List.getLast?_cons]; rfl

/-- The automaton goes past all tokens, or it goes past some and is stuck at the next one. -/
theorem steps_cases (place : Place) (ps : List Positioned) :
    (∃ place', (ps.map (·.token)).foldlM step? place = some place') ∨
      ∃ front p back place', ps = front ++ p :: back ∧
        (front.map (·.token)).foldlM step? place = some place' ∧ place'.step? p.token = none := by
  induction ps generalizing place with
  | nil => exact .inl ⟨place, rfl⟩
  | cons p ps ih =>
      cases hstep : place.step? p.token with
      | none => exact .inr ⟨[], p, ps, place, rfl, rfl, hstep⟩
      | some next =>
          rw [List.map_cons, List.foldlM_cons, hstep]
          obtain ⟨place', h⟩ | ⟨front, q, back, place', rfl, h, hq⟩ := ih next
          · exact .inl ⟨place', h⟩
          · refine .inr ⟨p :: front, q, back, place', rfl, ?_, hq⟩
            rw [List.map_cons, List.foldlM_cons, hstep]
            exact h

end Place

theorem FirstFault.fault?_eq {ps : List Positioned} {fault : SyntaxFault} {q : Nat}
    (h : FirstFault ps fault q) : (Place.operand 0).fault? 0 ps = some (fault, q) := by
  cases h with
  | @token front back p heq hfront hp =>
      obtain ⟨place, hsteps⟩ := begins_iff.1 hfront
      have hstuck : place.step? p.token = none :=
        Option.eq_none_iff_forall_ne_some.2 fun next hnext =>
          hp ((begins_concat_iff hsteps).2 ⟨next, hnext⟩)
      rw [heq, Place.fault?_append 0 hsteps, Place.fault?, hstuck]
  | ending hps hno =>
      obtain ⟨place, hsteps⟩ := begins_iff.1 hps
      have hplace : place ≠ .operator 0 := by
        rintro rfl
        exact hno (derives_iff.2 hsteps)
      have hfault := Place.fault?_append 0 hsteps []
      rw [List.append_nil, Place.fault?_nil, if_neg hplace] at hfault
      exact hfault

theorem fault?_of_derives {ps : List Positioned} {e : Expr}
    (h : Derives .addition (ps.map (·.token)) e) : (Place.operand 0).fault? 0 ps = none := by
  have hfault := Place.fault?_append 0 (derives_iff.1 ⟨e, h⟩) []
  rwa [List.append_nil, Place.fault?_nil, if_pos rfl] at hfault

/-- Tokens derive from the grammar, or they have a first fault. -/
theorem derives_or_firstFault (ps : List Positioned) :
    (∃ e, Derives .addition (ps.map (·.token)) e) ∨ ∃ fault q, FirstFault ps fault q := by
  obtain ⟨place, hsteps⟩ | ⟨front, p, back, place, rfl, hsteps, hstuck⟩ :=
    (Place.operand 0).steps_cases ps
  · by_cases hplace : place = .operator 0
    · exact .inl (derives_iff.2 (hplace ▸ hsteps))
    · refine .inr ⟨_, _, .ending (begins_iff.2 ⟨place, hsteps⟩) fun hderives => hplace ?_⟩
      exact Option.some.inj (hsteps.symm.trans (derives_iff.1 hderives))
  · refine .inr ⟨_, _, .token rfl (begins_iff.2 ⟨place, hsteps⟩) fun hbegins => ?_⟩
    obtain ⟨next, hnext⟩ := (begins_concat_iff hsteps).1 hbegins
    rw [hstuck] at hnext
    cases hnext

/-- The automaton finds the first fault. -/
theorem fault?_eq_some_iff {ps : List Positioned} {fault : SyntaxFault} {q : Nat} :
    (Place.operand 0).fault? 0 ps = some (fault, q) ↔ FirstFault ps fault q := by
  refine ⟨fun h => ?_, FirstFault.fault?_eq⟩
  obtain ⟨e, he⟩ | ⟨fault', q', hfirst⟩ := derives_or_firstFault ps
  · rw [fault?_of_derives he] at h
    cases h
  · obtain ⟨rfl, rfl⟩ := Prod.mk.inj (Option.some.inj (h.symm.trans hfirst.fault?_eq))
    exact hfirst

namespace Expr

theorem error_malformed_iff {fault : SyntaxFault} {q : Nat} {err : FormulaError} :
    (.error (.malformed fault (some q)) : Except FormulaError Expr) = .error err ↔
      ∃ fault' q', some (fault, q) = some (fault', q') ∧ err = .malformed fault' (some q') := by
  constructor
  · intro h
    exact ⟨fault, q, rfl, (Except.error.inj h).symm⟩
  · rintro ⟨fault', q', h, rfl⟩
    obtain ⟨rfl, rfl⟩ := Prod.mk.inj (Option.some.inj h)
    rfl

theorem parseFrom_eq_error_iff {last : Nat} {r : Reading} {ps : List Positioned}
    {err : FormulaError} :
    parseFrom last r ps = .error err ↔
      ∃ fault q, r.place.fault? last ps = some (fault, q) ∧ err = .malformed fault (some q) := by
  induction ps generalizing last r with
  | nil =>
      rw [parseFrom, Place.fault?_nil]
      cases hfinish : r.finish? with
      | some e =>
          rw [if_pos ((Reading.finish?_isSome_iff r).1 ⟨e, hfinish⟩)]
          constructor
          · intro h
            cases h
          · rintro ⟨fault, q, h, -⟩
            cases h
      | none =>
          have hplace : r.place ≠ .operator 0 := by
            intro hplace
            obtain ⟨e, he⟩ := (Reading.finish?_isSome_iff r).2 hplace
            rw [hfinish] at he
            cases he
          rw [if_neg hplace]
          exact error_malformed_iff
  | cons p ps ih =>
      have hplace := r.map_place_step? p.token
      rw [parseFrom, Place.fault?, ← hplace]
      cases r.step? p.token with
      | some next => exact ih
      | none => exact error_malformed_iff

/-- A text is refused with the first fault of its tokens, which are those of its only division
into tokens with their offsets. The automaton accepts the same texts and finds the same faults
in the same places. -/
theorem parse_first_fault (t : Text) :
    ∃ ps, (∀ ps', LexesFrom 0 t ps' ↔ ps' = ps) ∧
      (∀ err, parse t = .error err ↔
        ∃ fault q, FirstFault ps fault q ∧ err = .malformed fault (some q)) ∧
      ((∃ e, parse t = .ok e) ↔ (Place.operand 0).fault? 0 ps = none) ∧
      ∀ err, parse t = .error err ↔
        ∃ fault q, (Place.operand 0).fault? 0 ps = some (fault, q) ∧
          err = .malformed fault (some q) := by
  have herror (err : FormulaError) : parse t = .error err ↔
      ∃ fault q, (Place.operand 0).fault? 0 (Token.scan t) = some (fault, q) ∧
        err = .malformed fault (some q) := parseFrom_eq_error_iff
  refine ⟨Token.scan t, fun ps' => lexesFrom_iff.trans eq_comm, fun err => ?_, ?_, herror⟩
  · simp only [herror, fault?_eq_some_iff]
  · cases hparse : parse t with
    | ok e =>
        refine iff_of_true ⟨e, rfl⟩ (Option.eq_none_iff_forall_ne_some.2 fun fault hfault => ?_)
        have h := (herror _).2 ⟨fault.1, fault.2, hfault, rfl⟩
        rw [hparse] at h
        cases h
    | error err =>
        obtain ⟨fault, q, hfault, -⟩ := (herror err).1 hparse
        rw [hfault]
        exact iff_of_false nofun nofun

-- The sign may stand behind an operator, the product may not.
example : parse "1 + - * 2".toList =
    .error (.malformed (.unexpectedToken ['*']) (some 6)) := by cbv

end Expr

end TagFormula

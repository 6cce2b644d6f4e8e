import TagFormula.Proofs.Json.Numerals
import TagFormula.Proofs.Json.Strings

/-!
# JSON values read back

A value is `Readable` when nothing stands in the way of reading it: its doubles are
finite, its integers are not too long, no object has a key twice, and its lists and
objects do not stand in each other more often than is allowed. The text of such a value
on one line gives the value again (`parse_compact`).

The parser hands on the rest of the text, so this is proved with any rest behind the
value that does not prolong a number. The steps that the parser may take are bounded by
the length of the text. Items and members are read one after the other, and members are
put behind those read before, since their keys are new.
-/

namespace TagFormula.Json

/-- What can be written and read again, with lists and objects nested up to a depth. -/
inductive Readable : Nat → Json → Prop
  | null (depth : Nat) : Readable depth null
  | bool (depth : Nat) (b : Bool) : Readable depth (bool b)
  | integer (depth : Nat) {n : Int} (h : Literal.isLong n = false) : Readable depth (integer n)
  | double (depth : Nat) {x : Float} (h : Binary64.isFinite x = true) : Readable depth (double x)
  | string (depth : Nat) (s : JsonString) : Readable depth (string s)
  | array {depth : Nat} {xs : List Json} (h : ∀ j ∈ xs, Readable depth j) :
      Readable (depth + 1) (array xs)
  | object {depth : Nat} {ms : List (JsonString × Json)} (hkeys : (ms.map (·.1)).Nodup)
      (h : ∀ m ∈ ms, Readable depth m.2) : Readable (depth + 1) (object ms)

/-- The text of a value gives the value and the rest of the text. -/
def ReadsBack (depth : Nat) (j : Json) : Prop :=
  ∀ steps limit rest, (compact j).length ≤ steps → depth ≤ limit → EndsNumber rest →
    value steps limit (compact j ++ rest) = .ok (j, rest)

/-! ## The first character -/

/-- Scalars do not begin with white space, nor with a bracket or a quote. -/
theorem head_of_scalar {t : Text} {r : Json × Text} (h : scalar t = .ok r) :
    ∃ c t', t = c :: t' ∧ c ∉ [' ', '\t', '\n', '\r', ']', '"', '[', '\x7b'] := by
  cases t with
  | nil => exact nomatch h
  | cons c t =>
      refine ⟨c, t, rfl, fun hc => ?_⟩
      have hbad : scalar (c :: t) = .error .malformed := by
        simp only [List.mem_cons, List.not_mem_nil, or_false] at hc
        rcases hc with rfl | rfl | rfl | rfl | rfl | rfl | rfl | rfl <;> rfl
      rw [hbad] at h
      exact nomatch h

theorem value_of_scalar {t : Text} {r : Json × Text} (h : scalar t = .ok r) (steps limit : Nat) :
    value (steps + 1) limit t = .ok r := by
  obtain ⟨c, t, rfl, hc⟩ := head_of_scalar h
  simp only [List.mem_cons, List.not_mem_nil, or_false, not_or] at hc
  obtain ⟨-, -, -, -, -, hquote, hbracket, hbrace⟩ := hc
  unfold value
  split
  · next heq => exact absurd (List.cons.inj heq).1 hquote
  · next heq => exact absurd (List.cons.inj heq).1 hbracket
  · next heq => exact absurd (List.cons.inj heq).1 hbrace
  · exact h

theorem skip_cons {c : Char} (hc : isSpace c = false) (t : Text) : skip (c :: t) = c :: t := by
  simp [skip, hc]

/-- Whether a value is written without quotes, brackets and braces. -/
def IsScalar : Json → Prop
  | string _ => False
  | array _ => False
  | object _ => False
  | _ => True

theorem scalar_compact {depth : Nat} {j : Json} (h : Readable depth j) (hj : j.IsScalar)
    {rest : Text} (hrest : EndsNumber rest) : scalar (compact j ++ rest) = .ok (j, rest) := by
  cases h with
  | null => rfl
  | bool _ b => cases b <;> rfl
  | integer _ h => exact scalar_intText h hrest
  | double _ h => exact scalar_numberText h hrest
  | string _ s => exact hj.elim
  | array _ => exact hj.elim
  | object _ _ => exact hj.elim

theorem endsNumber_nil : EndsNumber [] :=
  fun _ hc => nomatch hc

theorem endsNumber_cons {c : Char} (hc : c.isDigit = false ∧ c ≠ '.' ∧ c ≠ 'e' ∧ c ≠ 'E')
    (t : Text) : EndsNumber (c :: t) :=
  fun _ hd => Option.some.inj hd ▸ hc

theorem head_scalar {depth : Nat} {j : Json} (h : Readable depth j) (hj : j.IsScalar) :
    ∃ c t, compact j = c :: t ∧ c ∉ [' ', '\t', '\n', '\r', ']', '"', '[', '\x7b'] := by
  have hread := scalar_compact h hj endsNumber_nil
  rw [List.append_nil] at hread
  exact head_of_scalar hread

/-- No value begins with white space or a closing bracket. -/
theorem head_compact {depth : Nat} {j : Json} (h : Readable depth j) :
    ∃ c t, compact j = c :: t ∧ isSpace c = false ∧ c ≠ ']' := by
  have hscalar (hj : j.IsScalar) : ∃ c t, compact j = c :: t ∧ isSpace c = false ∧ c ≠ ']' := by
    obtain ⟨c, t, heq, hc⟩ := head_scalar h hj
    simp only [List.mem_cons, List.not_mem_nil, or_false, not_or] at hc
    exact ⟨c, t, heq, by simp [isSpace, hc], hc.2.2.2.2.1⟩
  cases h with
  | string _ s => exact ⟨'"', _, rfl, rfl, by decide⟩
  | array _ => exact ⟨'[', _, rfl, rfl, by decide⟩
  | object _ _ => exact ⟨'\x7b', _, rfl, rfl, by decide⟩
  | null | bool | integer | double => exact hscalar trivial

theorem skip_compact {depth : Nat} {j : Json} (h : Readable depth j) (rest : Text) :
    skip (compact j ++ rest) = compact j ++ rest := by
  obtain ⟨c, t, heq, hc, -⟩ := head_compact h
  rw [heq]
  exact skip_cons hc (t ++ rest)

/-! ## Items -/

theorem compactItems_cons_cons (j k : Json) (rest : List Json) :
    compactItems (j :: k :: rest) = compact j ++ ',' :: ' ' :: compactItems (k :: rest) := rfl

theorem skip_compactItems {depth : Nat} {j : Json} (h : Readable depth j) (xs : List Json)
    (rest : Text) : skip (compactItems (j :: xs) ++ rest) = compactItems (j :: xs) ++ rest := by
  cases xs with
  | nil => exact skip_compact h rest
  | cons k xs =>
      rw [compactItems_cons_cons, List.append_assoc]
      exact skip_compact h _

theorem items_compactItems {depth : Nat} {xs : List Json} (hne : xs ≠ [])
    (hreadable : ∀ j ∈ xs, Readable depth j) (hxs : ∀ j ∈ xs, ReadsBack depth j)
    (limit : Nat) (hlimit : depth ≤ limit) (steps : Nat) (hsteps : (compactItems xs).length < steps)
    (seen : List Json) (rest : Text) :
    items steps limit seen (compactItems xs ++ ']' :: rest) =
      .ok (.array (seen.reverse ++ xs), rest) := by
  induction xs generalizing steps seen with
  | nil => exact absurd rfl hne
  | cons j xs ih =>
      obtain ⟨steps, rfl⟩ := Nat.exists_eq_succ_of_ne_zero (Nat.ne_zero_of_lt hsteps)
      have hj := hxs j (List.mem_cons_self ..) steps limit
      cases xs with
      | nil =>
          have hvalue := hj (']' :: rest) (Nat.lt_succ_iff.1 hsteps) hlimit
            (endsNumber_cons (by decide) rest)
          rw [compactItems, items, hvalue]
          simp [skip_cons, show isSpace ']' = false from rfl]
      | cons k xs =>
          let more := compactItems (k :: xs) ++ ']' :: rest
          have hreadable' : ∀ i ∈ k :: xs, Readable depth i :=
            fun i hi => hreadable i (List.mem_cons_of_mem _ hi)
          rw [compactItems_cons_cons] at hsteps ⊢
          simp only [List.length_append, List.length_cons] at hsteps
          have hvalue := hj (',' :: ' ' :: more) (by omega) hlimit (endsNumber_cons (by decide) _)
          have hskip : skip (' ' :: more) = more := by
            rw [skip, List.dropWhile_cons_of_pos rfl]
            exact skip_compactItems (hreadable' k (List.mem_cons_self ..)) xs _
          have hmore := ih (List.cons_ne_nil k xs) hreadable'
            (fun i hi => hxs i (List.mem_cons_of_mem _ hi)) steps (by omega) (j :: seen)
          have htext : compact j ++ ',' :: ' ' :: compactItems (k :: xs) ++ ']' :: rest =
              compact j ++ ',' :: ' ' :: more := by simp [more]
          rw [htext, items, hvalue]
          simp only [skip_cons (show isSpace ',' = false from rfl), hskip]
          rw [hmore]
          simp

/-! ## Members -/

theorem compactMembers_cons_cons (key : JsonString) (j : Json) (m : JsonString × Json)
    (rest : List (JsonString × Json)) :
    compactMembers ((key, j) :: m :: rest) =
      stringText key ++ ':' :: ' ' :: compact j ++ ',' :: ' ' :: compactMembers (m :: rest) := rfl

/-- A value is put behind all others if its key is new. -/
theorem put_of_notMem {ms : List (JsonString × Json)} {key : JsonString} (j : Json)
    (h : key ∉ ms.map (·.1)) : put ms key j = ms ++ [(key, j)] := by
  induction ms with
  | nil => rfl
  | cons m ms ih =>
      obtain ⟨k, v⟩ := m
      simp only [List.map_cons, List.mem_cons, not_or] at h
      rw [put, if_neg (Ne.symm h.1), ih h.2, List.cons_append]

theorem stringText_append (s : JsonString) (rest : Text) :
    stringText s ++ rest = '"' :: (s.points.flatMap escapePoint ++ '"' :: rest) := by
  simp [stringText]

theorem skip_compactMembers (m : JsonString × Json) (ms : List (JsonString × Json)) (rest : Text) :
    skip (compactMembers (m :: ms) ++ rest) = compactMembers (m :: ms) ++ rest := by
  obtain ⟨key, j⟩ := m
  cases ms with
  | nil => exact skip_cons rfl _
  | cons n ms => exact skip_cons rfl _

/-- A key and its value are read, and then what follows a value. -/
theorem members_cons {depth steps limit : Nat} {j : Json} (hj : ReadsBack depth j)
    (hreadable : Readable depth j) (hsteps : (compact j).length ≤ steps) (hlimit : depth ≤ limit)
    (key : JsonString) (seen : List (JsonString × Json)) (rest : Text) :
    members (steps + 1) limit seen (stringText key ++ ':' :: ' ' :: compact j ++ '\x7d' :: rest) =
        .ok (.object (put seen key j), rest) ∧
      members (steps + 1) limit seen (stringText key ++ ':' :: ' ' :: compact j ++ ',' :: rest) =
        members steps limit (put seen key j) (skip rest) := by
  have hskip (t : Text) : skip (' ' :: (compact j ++ t)) = compact j ++ t := by
    rw [skip, List.dropWhile_cons_of_pos rfl]
    exact skip_compact hreadable t
  have htext (t : Text) : stringText key ++ ':' :: ' ' :: compact j ++ t =
      '"' :: (key.points.flatMap escapePoint ++ '"' :: ':' :: ' ' :: (compact j ++ t)) := by
    simp [stringText]
  have hcolon : isSpace ':' = false := rfl
  have hbrace : isSpace '\x7d' = false := rfl
  have hcomma : isSpace ',' = false := rfl
  constructor
  · have hvalue := hj steps limit ('\x7d' :: rest) hsteps hlimit (endsNumber_cons (by decide) rest)
    rw [htext, members, string?_stringText]
    simp only [skip_cons hcolon, hskip, hvalue, skip_cons hbrace]
  · have hvalue := hj steps limit (',' :: rest) hsteps hlimit (endsNumber_cons (by decide) rest)
    rw [htext, members, string?_stringText]
    simp only [skip_cons hcolon, hskip, hvalue, skip_cons hcomma]

theorem members_compactMembers {depth : Nat} {ms : List (JsonString × Json)} (hne : ms ≠ [])
    (hreadable : ∀ m ∈ ms, Readable depth m.2) (hms : ∀ m ∈ ms, ReadsBack depth m.2)
    (limit : Nat) (hlimit : depth ≤ limit) (steps : Nat)
    (hsteps : (compactMembers ms).length < steps)
    (seen : List (JsonString × Json)) (hkeys : ((seen ++ ms).map (·.1)).Nodup) (rest : Text) :
    members steps limit seen (compactMembers ms ++ '\x7d' :: rest) =
      .ok (.object (seen ++ ms), rest) := by
  induction ms generalizing steps seen with
  | nil => exact absurd rfl hne
  | cons m ms ih =>
      obtain ⟨key, j⟩ := m
      obtain ⟨steps, rfl⟩ := Nat.exists_eq_succ_of_ne_zero (Nat.ne_zero_of_lt hsteps)
      have hj : ReadsBack depth j := hms (key, j) (List.mem_cons_self ..)
      have hjr : Readable depth j := hreadable (key, j) (List.mem_cons_self ..)
      have hnew : key ∉ seen.map (·.1) := by
        rw [List.map_append, List.map_cons, List.nodup_middle, List.nodup_cons] at hkeys
        exact fun hmem => hkeys.1 (List.mem_append_left _ hmem)
      have hput := put_of_notMem j hnew
      cases ms with
      | nil =>
          have hlength : (compact j).length ≤ steps := by
            simp only [compactMembers, List.length_append, List.length_cons] at hsteps
            omega
          rw [compactMembers, (members_cons hj hjr hlength hlimit key seen rest).1, hput]
      | cons n ms =>
          let more := compactMembers (n :: ms) ++ '\x7d' :: rest
          rw [compactMembers_cons_cons] at hsteps ⊢
          simp only [List.length_append, List.length_cons] at hsteps
          have htext : stringText key ++ ':' :: ' ' :: compact j ++
              ',' :: ' ' :: compactMembers (n :: ms) ++ '\x7d' :: rest =
              stringText key ++ ':' :: ' ' :: compact j ++ ',' :: ' ' :: more := by
            simp [more]
          have hskip : skip (' ' :: more) = more := by
            rw [skip, List.dropWhile_cons_of_pos rfl]
            exact skip_compactMembers n ms _
          have hkeys' : ((seen ++ [(key, j)] ++ n :: ms).map (·.1)).Nodup := by simpa using hkeys
          have hmore := ih (List.cons_ne_nil n ms)
            (fun i hi => hreadable i (List.mem_cons_of_mem _ hi))
            (fun i hi => hms i (List.mem_cons_of_mem _ hi)) steps (by omega)
            (seen ++ [(key, j)]) hkeys'
          have hlength : (compact j).length ≤ steps := by omega
          rw [htext, (members_cons hj hjr hlength hlimit key seen (' ' :: more)).2, hput, hskip,
            hmore, List.append_assoc, List.singleton_append]

/-! ## Values -/

theorem readsBack_scalar {depth : Nat} {j : Json} (h : Readable depth j) (hj : j.IsScalar) :
    ReadsBack depth j := by
  intro steps limit rest hsteps _ hrest
  obtain ⟨c, t, heq, -⟩ := head_scalar h hj
  obtain ⟨steps, rfl⟩ : ∃ n, steps = n + 1 := by
    rw [heq, List.length_cons] at hsteps
    exact ⟨steps - 1, by omega⟩
  exact value_of_scalar (scalar_compact h hj hrest) steps limit

theorem readsBack_string (depth : Nat) (s : JsonString) : ReadsBack depth (string s) := by
  intro steps limit rest hsteps _ _
  obtain ⟨steps, rfl⟩ : ∃ n, steps = n + 1 := by
    simp only [compact, scalarText, stringText, List.length_append, List.length_cons] at hsteps
    exact ⟨steps - 1, by omega⟩
  rw [compact, scalarText, stringText_append, value, string?_stringText]
  all_goals nofun

theorem readsBack_array {depth : Nat} {xs : List Json} (hreadable : ∀ j ∈ xs, Readable depth j)
    (hxs : ∀ j ∈ xs, ReadsBack depth j) : ReadsBack (depth + 1) (array xs) := by
  intro steps limit rest hsteps hlimit _
  rw [compact] at hsteps ⊢
  simp only [List.length_append, List.length_cons] at hsteps
  obtain ⟨steps, rfl⟩ : ∃ n, steps = n + 1 := ⟨steps - 1, by omega⟩
  have htext : '[' :: compactItems xs ++ [']'] ++ rest = '[' :: (compactItems xs ++ ']' :: rest) := by
    simp
  rw [htext, value, if_neg (by omega)]
  cases xs with
  | nil => rfl
  | cons j xs =>
      have hj := hreadable j (List.mem_cons_self ..)
      have hitems := items_compactItems (List.cons_ne_nil j xs) hreadable hxs
        (limit - 1) (by omega) steps (by omega) [] rest
      rw [skip_compactItems hj]
      split
      · next heq =>
          obtain ⟨c, t, hcompact, -, hc⟩ := head_compact hj
          cases xs with
          | nil =>
              rw [compactItems, hcompact] at heq
              exact absurd (List.cons.inj heq).1 hc
          | cons k xs =>
              rw [compactItems_cons_cons, hcompact] at heq
              exact absurd (List.cons.inj heq).1 hc
      · exact hitems

theorem readsBack_object {depth : Nat} {ms : List (JsonString × Json)}
    (hkeys : (ms.map (·.1)).Nodup) (hreadable : ∀ m ∈ ms, Readable depth m.2)
    (hms : ∀ m ∈ ms, ReadsBack depth m.2) : ReadsBack (depth + 1) (object ms) := by
  intro steps limit rest hsteps hlimit _
  rw [compact] at hsteps ⊢
  simp only [List.length_append, List.length_cons] at hsteps
  obtain ⟨steps, rfl⟩ : ∃ n, steps = n + 1 := ⟨steps - 1, by omega⟩
  have htext : '\x7b' :: compactMembers ms ++ ['\x7d'] ++ rest =
      '\x7b' :: (compactMembers ms ++ '\x7d' :: rest) := by
    simp
  rw [htext, value, if_neg (by omega)]
  cases ms with
  | nil => rfl
  | cons m ms =>
      have hmembers := members_compactMembers (List.cons_ne_nil m ms) hreadable hms
        (limit - 1) (by omega) steps (by omega) [] hkeys rest
      rw [skip_compactMembers]
      split
      · next heq =>
          obtain ⟨key, j⟩ := m
          cases ms with
          | nil => exact absurd (List.cons.inj heq).1 (by decide)
          | cons n ms => exact absurd (List.cons.inj heq).1 (by decide)
      · exact hmembers

theorem Readable.readsBack {depth : Nat} {j : Json} (h : Readable depth j) : ReadsBack depth j := by
  induction h with
  | null depth => exact readsBack_scalar (.null depth) trivial
  | bool depth b => exact readsBack_scalar (.bool depth b) trivial
  | integer depth h => exact readsBack_scalar (.integer depth h) trivial
  | double depth h => exact readsBack_scalar (.double depth h) trivial
  | string depth s => exact readsBack_string depth s
  | array h ih => exact readsBack_array h ih
  | object hkeys h ih => exact readsBack_object hkeys h ih

/-- A readable value is read from its text. -/
theorem parse_compact {nesting : Nat} {j : Json} (h : Readable nesting j) :
    parse nesting (compact j) = .ok j := by
  have hskip := skip_compact h []
  have hvalue := h.readsBack (2 * (compact j).length + 2) nesting [] (by omega) le_rfl
    endsNumber_nil
  rw [List.append_nil] at hskip hvalue
  rw [parse, hskip, hvalue]
  rfl

end TagFormula.Json

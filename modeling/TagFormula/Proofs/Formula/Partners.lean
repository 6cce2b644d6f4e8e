import TagFormula.Proofs.Formula.Nesting

/-!
# Partners

An opening parenthesis and a closing one behind it are partners when what stands between them is
well nested (`Partners`). No parenthesis has two partners (`Partners.right_eq`,
`Partners.left_eq`), and in a text that is well nested none is without one.

The check goes through a text once and only counts. Where the count is zero a closing parenthesis
has no partner, and where it is not, the last of those still open is the partner (`Opens`). So the
check tells more than whether the text is well nested: the position that it reports is that of
the first closing parenthesis without a partner, and when it reports none, only opening ones are
without (`checkParentheses_decides`).
-/

namespace TagFormula.Formula

/-- The parentheses at two offsets belong to each other. -/
structure Partners (t : Text) (i j : Nat) : Prop where
  /-- One opens. -/
  opening : t[i]? = some '('
  /-- The other closes. -/
  closing : t[j]? = some ')'
  /-- It comes later. -/
  lt : i < j
  /-- The text between them is well nested. -/
  between : WellNested ((t.take j).drop (i + 1))

/-- A closing parenthesis without a partner. -/
def ClosesAlone (t : Text) (p : Nat) : Prop :=
  t[p]? = some ')' ∧ ∀ i, ¬ Partners t i p

/-- An opening parenthesis without a partner. -/
def OpensAlone (t : Text) (p : Nat) : Prop :=
  t[p]? = some '(' ∧ ∀ j, ¬ Partners t p j

/-- A text that leaves as many parentheses open. -/
inductive Opens : Nat → Text → Prop where
  | nested {t : Text} (h : WellNested t) : Opens 0 t
  | opening {depth : Nat} {u s : Text} (hu : Opens depth u) (hs : WellNested s) :
    Opens (depth + 1) (u ++ '(' :: s)

variable {s t u v w : Text} {i j k p q : Nat}

/-! ## Where partners stand -/

theorem exists_parts {c : Char} (h : t[p]? = some c) : ∃ u v, t = u ++ c :: v ∧ u.length = p := by
  obtain ⟨hp, rfl⟩ := List.getElem?_eq_some_iff.1 h
  refine ⟨t.take p, t.drop (p + 1), ?_, List.length_take_of_le (Nat.le_of_lt hp)⟩
  rw [← List.drop_eq_getElem_cons, List.take_append_drop]

theorem partners_append (u v : Text) (h : WellNested s) :
    Partners (u ++ '(' :: (s ++ ')' :: v)) u.length (u.length + 1 + s.length) where
  opening := by simp
  closing := by
    rw [Nat.add_assoc, List.getElem?_append_right (Nat.le_add_right _ _)]
    simp [Nat.add_comm 1]
  lt := by omega
  between := by
    have htake : (u ++ '(' :: (s ++ ')' :: v)).take (u.length + 1 + s.length) = u ++ '(' :: s := by
      rw [Nat.add_assoc, List.take_length_add_append, Nat.add_comm 1, List.take_succ_cons,
        List.take_left]
    rw [htake, List.drop_length_add_append]
    exact h

theorem Partners.exists_parts (h : Partners t i j) :
    ∃ u s v, t = u ++ '(' :: (s ++ ')' :: v) ∧ WellNested s ∧ u.length = i ∧
      (u ++ '(' :: s).length = j := by
  obtain ⟨w, v, rfl, rfl⟩ := Formula.exists_parts h.closing
  have hopening := h.opening
  rw [List.getElem?_append_left h.lt] at hopening
  obtain ⟨u, s, rfl, rfl⟩ := Formula.exists_parts hopening
  have hbetween := h.between
  rw [List.take_left, List.drop_length_add_append] at hbetween
  exact ⟨u, s, v, by simp, hbetween, rfl, rfl⟩

/-- The partners of a closing parenthesis, by the text before it. -/
theorem partners_closing_iff :
    Partners (w ++ ')' :: v) i w.length ↔
      ∃ u s, w = u ++ '(' :: s ∧ WellNested s ∧ u.length = i := by
  constructor
  · intro h
    obtain ⟨u, s, v', heq, hs, hi, hw⟩ := h.exists_parts
    have heq' : w ++ ')' :: v = (u ++ '(' :: s) ++ ')' :: v' := by simpa using heq
    exact ⟨u, s, (List.append_inj heq' hw.symm).1, hs, hi⟩
  · rintro ⟨u, s, rfl, hs, rfl⟩
    have h := partners_append u v hs
    simpa [Nat.add_assoc, Nat.add_comm 1] using h

/-- The partners of an opening parenthesis, by the text behind it. -/
theorem partners_opening_iff :
    Partners (u ++ '(' :: w) u.length j ↔
      ∃ s v, w = s ++ ')' :: v ∧ WellNested s ∧ u.length + 1 + s.length = j := by
  constructor
  · intro h
    obtain ⟨u', s, v, heq, hs, hu, hj⟩ := h.exists_parts
    obtain ⟨rfl, htail⟩ := List.append_inj heq hu.symm
    refine ⟨s, v, (List.cons.inj htail).2, hs, ?_⟩
    rw [List.length_append, List.length_cons] at hj
    omega
  · rintro ⟨s, v, rfl, hs, rfl⟩
    exact partners_append u v hs

/-! ## Counting -/

/-- What is open before a well nested text is open behind it. -/
theorem WellNested.balance_left (h : WellNested s) (depth : Nat) (v : Text) :
    balance depth (s ++ v) = balance depth v := by
  rw [balance_append, h.balance_eq, Option.bind_some]

/-- A well nested text does not begin with a well nested part and a closing parenthesis. -/
theorem WellNested.ne_closing (h : WellNested w) (hs : WellNested s) : w ≠ s ++ ')' :: v := by
  rintro rfl
  have hbalance := h.balance_eq 0
  rw [hs.balance_left] at hbalance
  exact nomatch hbalance

/-- A text with nothing open does not end with an opening parenthesis and a well nested part. -/
theorem ne_opening (h : balance 0 w = some 0) (hs : WellNested s) : w ≠ u ++ '(' :: s := by
  rintro rfl
  rw [balance_append] at h
  obtain ⟨depth, -, hdepth⟩ := Option.bind_eq_some_iff.1 h
  rw [balance_opening, hs.balance_eq] at hdepth
  exact nomatch hdepth

/-- A closing parenthesis that passes the count finds one open. -/
theorem exists_open_of_balance (h : balance 0 (w ++ ')' :: v) = some k) :
    ∃ depth, balance 0 w = some (depth + 1) := by
  rw [balance_append] at h
  obtain ⟨depth, hw, hv⟩ := Option.bind_eq_some_iff.1 h
  cases depth with
  | zero => exact nomatch hv
  | succ depth => exact ⟨depth, hw⟩

theorem Opens.append_right {depth : Nat} (h : Opens depth u) (hs : WellNested s) :
    Opens depth (u ++ s) := by
  cases h with
  | nested hu => exact .nested (hu.append hs)
  | opening hu hs' =>
    rw [List.append_assoc, List.cons_append]
    exact .opening hu (hs'.append hs)

theorem opens_of_balance {depth : Nat} (h : balance 0 t = some depth) : Opens depth t := by
  induction t using List.reverseRecOn generalizing depth with
  | nil =>
    obtain rfl : 0 = depth := Option.some.inj h
    exact .nested .nil
  | append_singleton t c ih =>
    rw [balance_append] at h
    obtain ⟨depth', ht, hc⟩ := Option.bind_eq_some_iff.1 h
    by_cases ho : c = '('
    · subst ho
      obtain rfl : depth' + 1 = depth := Option.some.inj hc
      exact .opening (ih ht) .nil
    by_cases hcl : c = ')'
    · subst hcl
      cases depth' with
      | zero => exact nomatch hc
      | succ depth' =>
        obtain rfl : depth' = depth := Option.some.inj hc
        -- The parenthesis that is closed is the last of those open.
        cases ih ht with
        | @opening _ u s hu hs => simpa using hu.append_right (.group hs .nil)
    · rw [balance_other ho hcl] at hc
      obtain rfl : depth' = depth := Option.some.inj hc
      exact (ih ht).append_right (.other ho hcl .nil)

/-! ## One partner at most -/

theorem length_le_of_openings {u' s' : Text} (heq : u ++ '(' :: s = u' ++ '(' :: s')
    (hs : WellNested s) (hs' : WellNested s') : u'.length ≤ u.length := by
  obtain ⟨x, rfl, hx⟩ | ⟨x, rfl, -⟩ := List.append_eq_append_iff.1 heq
  · cases x with
    | nil => simp
    | cons c x => exact absurd (List.cons.inj hx).2 (ne_opening (hs.balance_eq 0) hs')
  · simp

theorem length_le_of_closings {s' v' : Text} (heq : s ++ ')' :: v = s' ++ ')' :: v')
    (hs : WellNested s) (hs' : WellNested s') : s'.length ≤ s.length := by
  obtain ⟨x, rfl, hx⟩ | ⟨x, rfl, -⟩ := List.append_eq_append_iff.1 heq
  · cases x with
    | nil => simp
    | cons c x =>
      obtain rfl : ')' = c := (List.cons.inj hx).1
      exact absurd rfl (hs'.ne_closing hs)
  · simp

/-- A closing parenthesis has at most one partner. -/
theorem Partners.left_eq (h : Partners t i k) (h' : Partners t j k) : i = j := by
  obtain ⟨w, v, rfl, rfl⟩ := Formula.exists_parts h.closing
  obtain ⟨u, s, rfl, hs, rfl⟩ := partners_closing_iff.1 h
  obtain ⟨u', s', heq, hs', rfl⟩ := partners_closing_iff.1 h'
  exact Nat.le_antisymm (length_le_of_openings heq.symm hs' hs) (length_le_of_openings heq hs hs')

/-- An opening parenthesis has at most one partner. -/
theorem Partners.right_eq (h : Partners t k i) (h' : Partners t k j) : i = j := by
  obtain ⟨u, w, rfl, rfl⟩ := Formula.exists_parts h.opening
  obtain ⟨s, v, rfl, hs, rfl⟩ := partners_opening_iff.1 h
  obtain ⟨s', v', heq, hs', rfl⟩ := partners_opening_iff.1 h'
  have hle := length_le_of_closings heq hs hs'
  have hge := length_le_of_closings heq.symm hs' hs
  rw [Nat.le_antisymm hle hge]

/-! ## Which parentheses are alone -/

/-- A closing parenthesis has a partner where something is open. -/
theorem exists_partner_of_balance (h : balance 0 (w ++ ')' :: t) = some k) (v : Text) :
    ∃ i, Partners (w ++ ')' :: v) i w.length := by
  obtain ⟨depth, hw⟩ := exists_open_of_balance h
  cases opens_of_balance hw with
  | @opening _ u s hu hs => exact ⟨u.length, partners_closing_iff.2 ⟨u, s, rfl, hs, rfl⟩⟩

theorem not_closesAlone_of_balance (h : balance 0 t = some k) (p : Nat) : ¬ ClosesAlone t p := by
  rintro ⟨hp, halone⟩
  obtain ⟨w, v, rfl, rfl⟩ := exists_parts hp
  obtain ⟨i, hi⟩ := exists_partner_of_balance h v
  exact halone i hi

/-- A closing parenthesis is alone where nothing is open, and those before it are not. -/
theorem closesAlone_first (h : balance 0 w = some 0) (v : Text) :
    ClosesAlone (w ++ ')' :: v) w.length ∧ ∀ q < w.length, ¬ ClosesAlone (w ++ ')' :: v) q := by
  refine ⟨⟨by simp, fun i hi => ?_⟩, ?_⟩
  · obtain ⟨u, s, hw, hs, -⟩ := partners_closing_iff.1 hi
    exact ne_opening h hs hw
  · rintro q hq ⟨hclosing, halone⟩
    rw [List.getElem?_append_left hq] at hclosing
    obtain ⟨w', v', rfl, rfl⟩ := exists_parts hclosing
    obtain ⟨i, hi⟩ := exists_partner_of_balance h (v' ++ ')' :: v)
    refine halone i ?_
    rwa [List.append_assoc, List.cons_append]

theorem exists_opensAlone {depth : Nat} (h : balance 0 t = some (depth + 1)) :
    ∃ p, OpensAlone t p := by
  cases opens_of_balance h with
  | @opening _ u s hu hs =>
    refine ⟨u.length, by simp, fun j hj => ?_⟩
    obtain ⟨s', v, heq, hs', -⟩ := partners_opening_iff.1 hj
    exact hs.ne_closing hs' heq

theorem WellNested.not_opensAlone (h : WellNested t) (p : Nat) : ¬ OpensAlone t p := by
  rintro ⟨hp, halone⟩
  obtain ⟨u, w, rfl, rfl⟩ := exists_parts hp
  have hbalance := h.balance_eq 0
  rw [balance_append] at hbalance
  obtain ⟨depth, -, hdepth⟩ := Option.bind_eq_some_iff.1 hbalance
  rw [balance_opening] at hdepth
  cases closes_of_balance hdepth with
  | @closing _ s v hs hv => exact halone _ (partners_opening_iff.2 ⟨s, v, rfl, hs, rfl⟩)

/-! ## The check -/

/-- The count fails at a closing parenthesis before which nothing is open. -/
theorem parts_of_balanceFrom {start depth : Nat} (h : balanceFrom start depth t = .error p) :
    ∃ w v, t = w ++ ')' :: v ∧ balance depth w = some 0 ∧ start + w.length = p := by
  induction t generalizing start depth with
  | nil => exact nomatch h
  | cons c t ih =>
    by_cases ho : c = '('
    · subst ho
      have hcount : balanceFrom (start + 1) (depth + 1) t = .error p := h
      obtain ⟨w, v, rfl, hw, rfl⟩ := ih hcount
      exact ⟨'(' :: w, v, rfl, by rwa [balance_opening], by rw [List.length_cons]; omega⟩
    by_cases hc : c = ')'
    · subst hc
      cases depth with
      | zero => exact ⟨[], t, rfl, rfl, Except.error.inj h⟩
      | succ depth =>
        have hcount : balanceFrom (start + 1) depth t = .error p := h
        obtain ⟨w, v, rfl, hw, rfl⟩ := ih hcount
        exact ⟨')' :: w, v, rfl, by rwa [balance_closing], by rw [List.length_cons]; omega⟩
    · simp only [balanceFrom, if_neg ho, if_neg hc] at h
      obtain ⟨w, v, rfl, hw, rfl⟩ := ih h
      exact ⟨c :: w, v, rfl, by rwa [balance_other ho hc], by rw [List.length_cons]; omega⟩

/-- The outcomes of the check, by what is open. -/
theorem checkParentheses_cases (t : Text) :
    (checkParentheses t = .ok () ∧ balance 0 t = some 0) ∨
    (∃ w v, checkParentheses t = .error (.unbalanced (some w.length)) ∧ t = w ++ ')' :: v ∧
      balance 0 w = some 0) ∨
    ∃ depth, checkParentheses t = .error (.unbalanced none) ∧ balance 0 t = some (depth + 1) := by
  cases hcount : balanceFrom 0 0 t with
  | error p =>
    obtain ⟨w, v, rfl, hw, rfl⟩ := parts_of_balanceFrom hcount
    refine .inr (.inl ⟨w, v, ?_, rfl, hw⟩)
    rw [checkParentheses, hcount, Nat.zero_add]
  | ok depth =>
    have hbalance : balance 0 t = some depth := by
      rw [balance, hcount]
      rfl
    cases depth with
    | zero => exact .inl ⟨checkParentheses_eq_ok_iff.2 hbalance, hbalance⟩
    | succ depth =>
      refine .inr (.inr ⟨depth, ?_, hbalance⟩)
      simp only [checkParentheses, hcount]

/-- The check passes just the texts that are well nested. Otherwise it reports the first closing
parenthesis without a partner, and if there is none, that an opening one is without. -/
theorem checkParentheses_decides (t : Text) :
    (checkParentheses t = .ok () ↔ WellNested t) ∧
    (∀ p, checkParentheses t = .error (.unbalanced (some p)) ↔
      ClosesAlone t p ∧ ∀ q < p, ¬ ClosesAlone t q) ∧
    (checkParentheses t = .error (.unbalanced none) ↔
      (∀ q, ¬ ClosesAlone t q) ∧ ∃ p, OpensAlone t p) ∧
    ∀ e, checkParentheses t = .error e → ∃ position, e = .unbalanced position := by
  -- The three outcomes exclude each other, and so do the three conditions.
  obtain ⟨hcheck, hbalance⟩ | ⟨w, v, hcheck, rfl, hw⟩ | ⟨depth, hcheck, hbalance⟩ :=
    checkParentheses_cases t
  · have hnested := balance_eq_some_iff.1 hbalance
    have hclosing := not_closesAlone_of_balance hbalance
    refine ⟨by simp [hcheck, hnested], fun p => ?_, ?_, by simp [hcheck]⟩
    · simp [hcheck, hclosing p]
    · simp [hcheck, hnested.not_opensAlone]
  · obtain ⟨halone, hfirst⟩ := closesAlone_first hw v
    have hnested : ¬ WellNested (w ++ ')' :: v) := fun hnested =>
      not_closesAlone_of_balance (hnested.balance_eq 0) w.length halone
    refine ⟨by simp [hcheck, hnested], fun p => ?_, ?_, by simp [hcheck]⟩
    · rw [hcheck]
      constructor
      · intro h
        obtain rfl : w.length = p := by simpa using h
        exact ⟨halone, hfirst⟩
      · rintro ⟨hp, hp'⟩
        have hle : ¬ w.length < p := fun hlt => hp' w.length hlt halone
        have hge : ¬ p < w.length := fun hlt => hfirst p hlt hp
        rw [Nat.le_antisymm (Nat.not_lt.1 hge) (Nat.not_lt.1 hle)]
    · rw [hcheck]
      exact ⟨fun h => by simp at h, fun h => absurd halone (h.1 w.length)⟩
  · have hclosing := not_closesAlone_of_balance hbalance
    have hnested : ¬ WellNested t := fun hnested => by
      rw [hnested.balance_eq 0] at hbalance
      simp at hbalance
    refine ⟨by simp [hcheck, hnested], fun p => ?_, ?_, by simp [hcheck]⟩
    · simp [hcheck, hclosing p]
    · simp [hcheck, hclosing, exists_opensAlone hbalance]

end TagFormula.Formula

import TagFormula.Proofs.Session.Refinement

/-!
# Calls made of a few actions

All calls of a session come down to a few actions, which change the text or the tags, set the
cursor or replace the search. A property that passes from the parts of an action to the whole only
has to be shown of these few, and then it is there for every call (`Compositional`).

Selecting a variable takes an id, which not every such property allows. So it is asked for only
where a variable is selected.

Many a property is there already for what these actions are made of: edits of the buffer, other
changes of what the session shows, events and evaluations (`Elementary`).
-/

namespace TagFormula

theorem Key.ofChar_ne_enter (c : Char) : Key.ofChar c ≠ .enter := by
  unfold Key.ofChar
  split
  · exact nofun
  split
  · exact nofun
  split <;> exact nofun

namespace Session

/-! ## Calls -/

/-- What a call returns. -/
inductive Reply where
  | nothing
  | recognised (yes : Bool)
  | inserted (t : Tag)
  | opened (id : Option Int)
  | removed (t : Option Tag)

/-- The action of an operation together with what it returns. -/
def Operation.reply : Operation → Action Reply
  | press key => .recognised <$> Session.press (.ofName key)
  | typeSearch term => (fun _ => .nothing) <$> Session.typeSearch term
  | select choice => .inserted <$> Session.select choice.val
  | backspace => (fun _ => .nothing) <$> Session.backspace
  | moveLeft => (fun _ => .nothing) <$> Session.moveLeft
  | moveRight => (fun _ => .nothing) <$> Session.moveRight
  | click offset => (fun _ => .nothing) <$> Session.click offset
  | focus => (fun _ => .nothing) <$> Session.focus
  | toggleTag id => .opened <$> Session.toggleTag id
  | closeTag => (fun _ => .nothing) <$> Session.closeTag
  | removeActiveTag => .removed <$> Session.removeActiveTag
  | reset => (fun _ => .nothing) <$> Session.reset

/-- A call of an operation, or of several keys at once. -/
inductive Call where
  | operation (op : Operation)
  | typeKeys (keys : Text)

/-- The action of a call together with what it returns. -/
def Call.reply : Call → Action Reply
  | operation op => op.reply
  | typeKeys keys => (fun _ => .nothing) <$> Session.typeKeys keys

/-- The session after calls, whether they return or are refused. -/
def afterCalls (s : Session) (calls : List Call) : Session :=
  calls.foldl (fun s call => (s.apply call.reply).2) s

/-- What every call leaves true is true after any calls. -/
theorem afterCalls_induction {P : Session → Prop}
    (h : ∀ (s : Session) (call : Call), P s → P (s.apply call.reply).2) {s : Session} (hs : P s)
    (calls : List Call) : P (s.afterCalls calls) := by
  induction calls generalizing s with
  | nil => exact hs
  | cons call calls ih => exact ih (h s call hs)

/-! ## What holds of the parts -/

/-- The session with another outlet. -/
def withOutlet (s : Session) (o : Outlet) : Session :=
  { s with outlet := o }

/-- A property that passes from the parts of an action to the whole, and that the actions have
which all others but the selection of a variable are made of. -/
structure Compositional (K : {α : Type} → Action α → Prop) : Prop where
  pure : ∀ {α : Type} (x : α), K (Pure.pure x : Action α)
  bind : ∀ {α β : Type} {action : Action α} {next : α → Action β},
    K action → (∀ x, K (next x)) → K (action >>= next)
  /-- What is done may depend on the session, but not on its outlet. -/
  get_bind : ∀ {α : Type} {next : Session → Action α}, (∀ s, K (next s)) →
    (∀ s o, next (s.withOutlet o) = next s) → K (MonadState.get >>= next)
  typeSearch : ∀ term, K (Session.typeSearch term)
  openSearch : K Session.openSearch
  hideSuggestions : K Session.hideSuggestions
  setCursor : ∀ p, K (edit (Buffer.setCursor p))
  insertChar : ∀ c, K (Session.insertChar c)
  removeTag : ∀ id, K (Session.removeTag id)
  backspace : K Session.backspace
  toggleTag : ∀ id, K (Session.toggleTag id)
  closeTag : K Session.closeTag
  reset : K Session.reset

namespace Compositional

variable {K : {α : Type} → Action α → Prop}

theorem map (h : Compositional K) {α β : Type} {action : Action α} (haction : K action)
    (f : α → β) : K (f <$> action) := by
  rw [map_eq_pure_bind]
  exact h.bind haction fun x => h.pure (f x)

theorem moveLeft (h : Compositional K) : K Session.moveLeft := by
  refine h.get_bind (fun s => ?_) fun _ _ => rfl
  dsimp only
  split
  · exact h.pure ()
  · split <;> exact h.setCursor _

theorem moveRight (h : Compositional K) : K Session.moveRight := by
  refine h.get_bind (fun s => ?_) fun _ _ => rfl
  dsimp only
  split
  · exact h.pure ()
  · split <;> exact h.setCursor _

theorem moveToEnd (h : Compositional K) : K Session.moveToEnd :=
  h.get_bind (fun _ => h.setCursor _) fun _ _ => rfl

theorem click (h : Compositional K) (p : Int) : K (Session.click p) :=
  h.bind (h.setCursor p) fun _ => h.get_bind (fun _ => h.setCursor _) fun _ _ => rfl

theorem focus (h : Compositional K) : K Session.focus := by
  refine h.get_bind (fun s => ?_) fun _ _ => rfl
  dsimp only
  split
  · exact h.moveToEnd
  · exact h.pure ()

theorem removeActiveTag (h : Compositional K) : K Session.removeActiveTag := by
  refine h.get_bind (fun s => ?_) fun _ _ => rfl
  split
  · exact h.pure none
  · exact h.map (h.removeTag _) some

/-- Only the key that confirms may select a variable. -/
theorem press (h : Compositional K) {key : Key}
    (hselect : key = .enter → ∀ choice, K (select choice)) : K (Session.press key) := by
  cases key with
  | operator c => exact h.bind (h.insertChar c) fun _ => h.bind h.openSearch fun _ => h.pure true
  | digit c => exact h.bind (h.insertChar c) fun _ => h.pure true
  | backspace => exact h.bind h.backspace fun _ => h.pure true
  | left => exact h.bind h.moveLeft fun _ => h.pure true
  | right => exact h.bind h.moveRight fun _ => h.pure true
  | home => exact h.bind (h.setCursor 0) fun _ => h.pure true
  | toEnd => exact h.bind h.moveToEnd fun _ => h.pure true
  | enter =>
    refine h.get_bind (fun s => ?_) fun _ _ => rfl
    split
    · exact h.pure true
    · next choice _ _ => exact h.bind (hselect rfl choice) fun _ => h.pure true
  | escape => exact h.bind h.hideSuggestions fun _ => h.pure true
  | character c =>
    exact h.get_bind (fun s => h.bind (h.typeSearch _) fun _ => h.pure true) fun _ _ => rfl
  | other => exact h.pure false

/-- No character is the key that confirms. -/
theorem typeKeys (h : Compositional K) (keys : Text) : K (Session.typeKeys keys) := by
  induction keys with
  | nil => exact h.pure ()
  | cons c keys ih =>
    exact h.bind (h.press fun henter => absurd henter (Key.ofChar_ne_enter c)) fun _ => ih

theorem operation (h : Compositional K) {op : Operation}
    (hpress : ∀ key, op = .press key → Key.ofName key = .enter → ∀ choice, K (select choice))
    (hselect : ∀ choice, op = .select choice → K (select choice.val)) : K op.reply := by
  cases op with
  | press key => exact h.map (h.press (hpress key rfl)) _
  | typeSearch term => exact h.map (h.typeSearch term) _
  | select choice => exact h.map (hselect choice rfl) _
  | backspace => exact h.map h.backspace _
  | moveLeft => exact h.map h.moveLeft _
  | moveRight => exact h.map h.moveRight _
  | click offset => exact h.map (h.click offset) _
  | focus => exact h.map h.focus _
  | toggleTag id => exact h.map (h.toggleTag id) _
  | closeTag => exact h.map h.closeTag _
  | removeActiveTag => exact h.map h.removeActiveTag _
  | reset => exact h.map h.reset _

/-- A property that also the selection of a variable has is there for every call. -/
theorem call (h : Compositional K) (hselect : ∀ choice, K (select choice)) (call : Call) :
    K call.reply := by
  cases call with
  | operation op => exact h.operation (fun _ _ _ => hselect) fun choice _ => hselect choice.val
  | typeKeys keys => exact h.map (h.typeKeys keys) _

end Compositional

/-! ## What holds of the elements -/

/-- A property that passes from the parts of an action to the whole, and that is there for edits, as
far as they keep a laid out buffer laid out, and for everything else that actions do but take an
id. -/
structure Elementary (K : {α : Type} → Action α → Prop) : Prop where
  pure : ∀ {α : Type} (x : α), K (Pure.pure x : Action α)
  bind : ∀ {α β : Type} {action : Action α} {next : α → Action β},
    K action → (∀ x, K (next x)) → K (action >>= next)
  get_bind : ∀ {α : Type} {next : Session → Action α}, (∀ s, K (next s)) →
    (∀ s o, next (s.withOutlet o) = next s) → K (MonadState.get >>= next)
  edit : ∀ {α : Type} {change : Buffer.Edit α},
    (∀ (b : Buffer) cells, b.Layout cells → Buffer.KeepsLayout change b) →
      K (Session.edit change)
  typeSearch : ∀ term, K (Session.typeSearch term)
  openSearch : K Session.openSearch
  hideSuggestions : K Session.hideSuggestions
  log : ∀ kind message extra, K (Session.log kind message extra)
  refresh : K Session.refresh

namespace Elementary

variable {K : {α : Type} → Action α → Prop}

theorem setCursor (h : Elementary K) (p : Int) : K (Session.edit (Buffer.setCursor p)) :=
  h.edit fun _ _ hlayout => hlayout.keepsLayout_setCursor p

theorem insertChar (h : Elementary K) (c : Char) : K (Session.insertChar c) := by
  refine h.get_bind (fun s => ?_) fun _ _ => rfl
  have hinsert : K (Session.edit (Buffer.insertText s.insertionPoint [c])) :=
    h.edit fun _ _ hlayout => hlayout.keepsLayout_insertText _ _
  exact h.bind hinsert fun _ => h.bind (h.setCursor _) fun _ => h.refresh

theorem removeTag (h : Elementary K) (id : Int) : K (Session.removeTag id) := by
  have hremove : K (Session.edit (Buffer.removeTag id)) :=
    h.edit fun _ _ hlayout => hlayout.keepsLayout_removeTag id
  exact h.bind hremove fun t => h.bind (h.log _ _ _) fun _ => h.bind h.refresh fun _ => h.pure t

theorem backspace (h : Elementary K) : K Session.backspace := by
  refine h.get_bind (fun s => ?_) fun _ _ => rfl
  dsimp only
  split
  · exact h.typeSearch _
  split
  · exact h.pure ()
  split
  · next t _ => exact h.bind (h.removeTag t.id) fun _ => h.pure ()
  · have hdelete : K (Session.edit (Buffer.deleteRange (s.buffer.cursor - 1) s.buffer.cursor)) :=
      h.edit fun _ _ hlayout => hlayout.keepsLayout_deleteRange _ _
    exact h.bind hdelete fun _ => h.bind (h.setCursor _) fun _ => h.refresh

theorem reset (h : Elementary K) : K Session.reset := by
  have hreset : K (Session.edit Buffer.reset) :=
    h.edit fun b cells hlayout => hlayout.keepsLayout_edit .reset
  exact h.bind hreset fun _ => h.bind (h.typeSearch []) fun _ =>
    h.bind (h.log _ _ _) fun _ => h.refresh

theorem compositional (h : Elementary K) : Compositional K where
  pure := h.pure
  bind := h.bind
  get_bind := h.get_bind
  typeSearch := h.typeSearch
  openSearch := h.openSearch
  hideSuggestions := h.hideSuggestions
  setCursor := h.setCursor
  insertChar := h.insertChar
  removeTag := h.removeTag
  backspace := h.backspace
  toggleTag id := h.edit fun _ _ hlayout => hlayout.keepsLayout_toggleActive id
  closeTag := h.edit fun _ _ hlayout => hlayout.keepsLayout_setActive none
  reset := h.reset

/-- Where an id may be taken a variable may be selected. -/
theorem select (h : Elementary K) (htake : K takeId) (choice : Suggestion) :
    K (Session.select choice) := by
  refine h.bind htake fun id => h.get_bind (fun s => ?_) fun _ _ => rfl
  have hinsert : K (Session.edit (Buffer.insertTag { choice with id } s.insertionPoint)) :=
    h.edit fun _ _ hlayout => hlayout.keepsLayout_insertTag _ _
  exact h.bind hinsert fun t => h.bind (h.typeSearch []) fun _ => h.bind (h.log _ _ _) fun _ =>
    h.bind h.refresh fun _ => h.pure t

end Elementary

end Session

end TagFormula

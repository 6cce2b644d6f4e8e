import TagFormula.Proofs.Event.Filter
import TagFormula.Proofs.Event.Window
import TagFormula.Proofs.Slice

/-!
# What the log of all events may hold

Anybody can put bytes into the file of all events. Whatever they are, they are read as text and
split into lines, and a line that is not JSON is passed over. Reading copes with a line
(`EventLog.IsTolerable`) if it is passed over or holds an object, the context of which has to be
an object as well, if there is one. If it copes with all lines of the window, every filter and
every limit is answered, with objects only, and if it does not, some filter is not
(`EventLog.read_tolerates`).

So there are three kinds of lines with which it does not cope: those that are refused for their
size, values that are no objects, and objects with a context that is none. No object is missed
on the way: what is answered are the objects of all lines, less those that are not wanted.
-/

namespace TagFormula

namespace EventFilter

/-- The members of the context of an object; none if the context is no object or is missing. -/
def contextOf (ms : List (JsonString × Json)) : List (JsonString × Json) :=
  match Json.lookup? ms "context" with
  | some (.object ns) => ns
  | _ => []

/-- An object is wanted: it has the level, the kind and in its context the session that are asked
for. -/
def Accepts (f : EventFilter) (ms : List (JsonString × Json)) : Prop :=
  (f.level ≠ [] → Json.lookup? ms "level" = some (.ofText f.level)) ∧
    (f.kind ≠ [] → Json.lookup? ms "event_type" = some (.ofText f.kind)) ∧
    (f.session ≠ [] → Json.lookup? (contextOf ms) "session_id" = some (.ofText f.session))

instance (f : EventFilter) : DecidablePred f.Accepts :=
  fun _ => inferInstanceAs (Decidable (_ ∧ _ ∧ _))

/-- The context is an object, if there is one. -/
def HasContext (ms : List (JsonString × Json)) : Prop :=
  ∀ j, Json.lookup? ms "context" = some j → ∃ ns, j = .object ns

/-- The test for a session answers for objects with a context, and for no other values. -/
theorem testSession_eq_ok {id : Text} {j : Json} {answer : Bool} (h : testSession id j = .ok answer) :
    ∃ ms, j = .object ms ∧ HasContext ms := by
  cases j with
  | object ms =>
      refine ⟨ms, rfl, fun context hcontext => ?_⟩
      rw [testSession, hcontext] at h
      cases context with
      | object ns => exact ⟨ns, rfl⟩
      | _ => cases h
  | _ => cases h

theorem testSession_object {ms : List (JsonString × Json)} (h : HasContext ms) (id : Text) :
    testSession id (.object ms) =
      .ok (decide (Json.lookup? (contextOf ms) "session_id" = some (.ofText id))) := by
  rw [testSession, contextOf]
  cases hcontext : Json.lookup? ms "context" with
  | none => rfl
  | some context =>
      obtain ⟨ns, rfl⟩ := h context hcontext
      exact congrArg _ (holds_eq "session_id" id ns)

/-- Of objects with a context those that are wanted are kept. -/
theorem select_objects (f : EventFilter) {objects : List (List (JsonString × Json))}
    (h : ∀ ms ∈ objects, HasContext ms) :
    f.select (objects.map .object) = .ok ((objects.filter f.Accepts).map .object) :=
  select_map f (fun ms _ => congrArg _ (holds_eq "level" f.level ms))
    (fun ms _ => congrArg _ (holds_eq "event_type" f.kind ms))
    fun ms hms => testSession_object (h ms hms) f.session

theorem keep_eq_ok {test : Json → Except ReadError Bool} {values kept : List Json}
    (h : keep test values = .ok kept) : ∀ j ∈ values, ∃ answer, test j = .ok answer := by
  induction values generalizing kept with
  | nil => exact List.forall_mem_nil _
  | cons j values ih =>
      rw [keep] at h
      cases htest : test j with
      | error e =>
          rw [htest] at h
          cases h
      | ok answer =>
          rw [htest] at h
          cases hlater : keep test values with
          | error e =>
              simp only [hlater] at h
              cases h
          | ok kept' => exact List.forall_mem_cons.2 ⟨⟨answer, htest⟩, ih hlater⟩

/-- Who asks for a session is answered only if all values are objects with a context. -/
theorem select_session_eq_ok {id : Text} (hid : id ≠ []) {values kept : List Json}
    (h : select ⟨[], [], id⟩ values = .ok kept) :
    ∀ j ∈ values, ∃ ms, j = .object ms ∧ HasContext ms := by
  have hkeep : keep (testSession id) values = .ok kept := by
    cases id with
    | nil => exact absurd rfl hid
    | cons c id => exact h
  intro j hj
  obtain ⟨answer, hanswer⟩ := keep_eq_ok hkeep j hj
  exact testSession_eq_ok hanswer

end EventFilter

namespace EventLog

/-! ## Lines -/

/-- The members of the object that a line holds, if it holds one. -/
def objectOf? (nesting : Nat) (t : Text) : Option (List (JsonString × Json)) :=
  match Json.parse nesting (Text.strip t) with
  | .ok (.object ms) => some ms
  | _ => none

/-- Reading copes with a line: it is blank or not JSON, or it holds an object, the context of which is
an object if there is one. -/
def IsTolerable (nesting : Nat) (t : Text) : Prop :=
  Json.parse nesting (Text.strip t) = .error .malformed ∨
    ∃ ms, Json.parse nesting (Text.strip t) = .ok (.object ms) ∧ EventFilter.HasContext ms

variable {nesting : Nat}

/-- The values of tolerable lines are the objects that they hold. -/
theorem valuesOf_tolerable {ts : List Text} (h : ∀ t ∈ ts, IsTolerable nesting t) :
    valuesOf nesting ts = .ok ((ts.filterMap (objectOf? nesting)).map .object) := by
  induction ts with
  | nil => rfl
  | cons t ts ih =>
      obtain ⟨ht, hts⟩ := List.forall_mem_cons.1 h
      rw [List.filterMap_cons, objectOf?]
      rcases ht with hparse | ⟨ms, hparse, -⟩
      · rw [valuesOf_cons_of_malformed hparse, hparse]
        exact ih hts
      · rw [valuesOf_cons_of_parse hparse, hparse, ih hts]
        rfl

theorem hasContext_of_mem {ts : List Text} (h : ∀ t ∈ ts, IsTolerable nesting t) :
    ∀ ms ∈ ts.filterMap (objectOf? nesting), EventFilter.HasContext ms := by
  intro ms hms
  obtain ⟨t, ht, hobject⟩ := List.mem_filterMap.1 hms
  rw [objectOf?] at hobject
  rcases h t ht with hparse | ⟨ms', hparse, hcontext⟩
  · rw [hparse] at hobject
    cases hobject
  · rw [hparse] at hobject
    exact Option.some.inj hobject ▸ hcontext

/-- Every line that is read is passed over or has its value among those read. -/
theorem mem_of_valuesOf {ts : List Text} {values : List Json}
    (h : valuesOf nesting ts = .ok values) :
    ∀ t ∈ ts, Json.parse nesting (Text.strip t) = .error .malformed ∨
      ∃ j ∈ values, Json.parse nesting (Text.strip t) = .ok j := by
  induction ts generalizing values with
  | nil => exact List.forall_mem_nil _
  | cons t ts ih =>
      rcases valuesOf_cons_eq_ok h with ⟨hparse, h⟩ | ⟨j, later, hparse, hlater, rfl⟩
      · exact List.forall_mem_cons.2 ⟨.inl hparse, ih h⟩
      · refine List.forall_mem_cons.2 ⟨.inr ⟨j, List.mem_cons_self .., hparse⟩, fun u hu => ?_⟩
        refine (ih hlater u hu).imp_right ?_
        rintro ⟨k, hk, hparse⟩
        exact ⟨k, List.mem_cons_of_mem _ hk, hparse⟩

/-! ## Reading -/

/-- Every filter and every limit is answered, with objects only. -/
def Answers (log : EventLog) (fs : Files) : Prop :=
  ∀ (f : EventFilter) (limit : Int), ∃ objects : List (List (JsonString × Json)),
    log.read fs f limit = .ok (objects.map .object)

section Reading

variable {log : EventLog} {fs : Files} {data : List UInt8}

theorem read_of_tolerable (hread : log.readFile fs globalFile = valuesIn nesting data)
    (h : ∀ t ∈ Text.lines (Text.utf8Decode data), IsTolerable nesting t) (f : EventFilter)
    (limit : Int) :
    log.read fs f limit =
      .ok ((Slice.before (((Text.lines (Text.utf8Decode data)).filterMap (objectOf? nesting)).filter
        f.Accepts).reverse (min limit maxLimit)).map .object) := by
  rw [read, hread, valuesIn, valuesOf_tolerable h]
  simp only [EventFilter.select_objects f (hasContext_of_mem h)]
  rw [← List.map_reverse, Slice.before_map]

theorem tolerable_of_read (hread : log.readFile fs globalFile = valuesIn nesting data) {id : Text}
    (hid : id ≠ []) {limit : Int} {answer : List Json}
    (h : log.read fs ⟨[], [], id⟩ limit = .ok answer) :
    ∀ t ∈ Text.lines (Text.utf8Decode data), IsTolerable nesting t := by
  rw [read, hread] at h
  cases hvalues : valuesIn nesting data with
  | error e =>
      rw [hvalues] at h
      cases h
  | ok values =>
      rw [hvalues] at h
      cases hselect : EventFilter.select ⟨[], [], id⟩ values with
      | error e =>
          simp only [hselect] at h
          cases h
      | ok kept =>
          have hobjects := EventFilter.select_session_eq_ok hid hselect
          intro t ht
          refine (mem_of_valuesOf hvalues t ht).imp_right ?_
          rintro ⟨j, hj, hparse⟩
          obtain ⟨ms, rfl, hcontext⟩ := hobjects j hj
          exact ⟨ms, hparse, hcontext⟩

/-- A project with nothing but the file of all events. -/
def holding (data : List UInt8) : Files :=
  ⟨[], [(globalFile, .file (.bytes data))]⟩

theorem lookup?_holding (data : List UInt8) :
    (holding data).lookup? globalFile = some (.file (.bytes data)) := rfl

theorem bytesAt_holding (data : List UInt8) : (holding data).bytesAt globalFile = data := rfl

/-- Whatever the file of all events holds, every filter and limit is answered with objects if and only
if reading copes with each line of the window. The answer then are the objects of these lines,
the last one first, less those that are not wanted, up to the limit. -/
theorem read_tolerates (hfolder : fs.lookup? globalFile ≠ some .folder) (htail : 0 ≤ log.tailBytes)
    (hsize : ((fs.bytesAt globalFile).length : Int) ≤ maxOffset) :
    ∃ data, log.tail (fs.bytesAt globalFile) = .ok data ∧
      let ts := Text.lines (Text.utf8Decode data)
      (log.Answers fs ↔ ∀ t ∈ ts, IsTolerable log.host.nesting t) ∧
      ((∀ t ∈ ts, IsTolerable log.host.nesting t) → ∀ (f : EventFilter) (limit : Int),
        log.read fs f limit =
          .ok ((Slice.before ((ts.filterMap (objectOf? log.host.nesting)).filter f.Accepts).reverse
            (min limit maxLimit)).map .object)) := by
  have hread := readFile_window globalFile_nameable hfolder htail hsize
  refine ⟨_, tail_eq htail hsize, ⟨fun h => ?_, fun h f limit => ⟨_, read_of_tolerable hread h f limit⟩⟩,
    read_of_tolerable hread⟩
  obtain ⟨objects, hanswer⟩ := h ⟨[], [], ['s']⟩ 0
  exact tolerable_of_read hread (List.cons_ne_nil _ _) hanswer

/-- Every filter is answered if the file holds a byte that is no text and an object, but not if it holds
a list. -/
theorem read_tolerates_sample :
    default.Answers (holding (0xFF :: 10 :: Text.utf8Encode "\x7b\x7d\n".toList)) ∧
      ¬ default.Answers (holding (Text.utf8Encode "[]\n".toList)) := by
  have hread (data : List UInt8) (hlength : data.length ≤ 1000) :
      default.Answers (holding data) ↔
        ∀ t ∈ Text.lines (Text.utf8Decode data), IsTolerable default.host.nesting t := by
    have hfolder : (holding data).lookup? globalFile ≠ some .folder := by
      rw [lookup?_holding]
      intro h
      cases h
    have htail : 0 ≤ default.tailBytes := by decide
    have hfits : (data.length : Int) ≤ default.tailBytes :=
      (Int.ofNat_le.2 hlength).trans (by decide)
    have hsize : (data.length : Int) ≤ maxOffset := hfits.trans (by decide)
    have hchunk : data.length ≤ default.host.chunk := hlength.trans (by decide)
    obtain ⟨data', hdata, hiff, -⟩ := read_tolerates hfolder htail hsize
    rw [bytesAt_holding, tail_eq htail hsize, window, if_pos hfits,
      List.take_of_length_le hchunk] at hdata
    exact Except.ok.inj hdata ▸ hiff
  constructor
  · have hlines : Text.lines (Text.utf8Decode (0xFF :: 10 :: Text.utf8Encode "\x7b\x7d\n".toList)) =
        ["\uFFFD".toList, "\x7b\x7d".toList] := by decide +kernel
    rw [hread _ (by decide +kernel), hlines]
    refine List.forall_mem_cons.2 ⟨.inl rfl, List.forall_mem_singleton.2 (.inr ⟨[], rfl, ?_⟩)⟩
    intro j hj
    cases hj
  · have hlines : Text.lines (Text.utf8Decode (Text.utf8Encode "[]\n".toList)) = ["[]".toList] := by
      decide +kernel
    rw [hread _ (by decide +kernel), hlines, List.forall_mem_singleton]
    rintro (hparse | ⟨ms, hparse, -⟩)
    · cases hparse
    · cases hparse

end Reading

end EventLog

end TagFormula

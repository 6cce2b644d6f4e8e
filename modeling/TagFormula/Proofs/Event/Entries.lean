import TagFormula.Proofs.Event.Lines
import TagFormula.Proofs.Event.Writing

/-!
# Entries of a log

An entry is an event with the time at which it is written and the session to which it is
addressed. Writing it to an open log puts its line behind the file of all events and behind
the file of this session, if there is one, and leaves everything else as it was
(`files_cases` and its consequences). This holds also when the write fails: an entry that has
no line changes nothing, and one whose session has no file is in the file of all events.

What is read from lines of entries are their records, with the members in order.
-/

namespace TagFormula

/-- An event with the time at which it is written, addressed to a session or to none. -/
structure LogEntry where
  event : Event
  time : String
  session : Option Text

namespace LogEntry

/-- The event as it is written. -/
def record (w : LogEntry) : Json :=
  w.event.record w.time

def write (w : LogEntry) : EStateM WriteError Files Unit :=
  EventLog.write w.event w.time w.session

/-- The files after the event is written, or the write has failed. -/
def files (w : LogEntry) (fs : Files) : Files :=
  (fs.apply w.write).2

/-- There is a line for the event. -/
def HasLine (w : LogEntry) : Prop :=
  (EventLog.line w.event w.time).isOk = true

instance : DecidablePred HasLine :=
  fun _ => inferInstanceAs (Decidable (_ = true))

/-- The line of the event; nothing if there is none. -/
def bytes (w : LogEntry) : List UInt8 :=
  ((EventLog.line w.event w.time).toOption).getD []

theorem line_eq_bytes {w : LogEntry} (h : w.HasLine) :
    EventLog.line w.event w.time = .ok w.bytes := by
  unfold HasLine at h
  unfold bytes
  cases hline : EventLog.line w.event w.time with
  | ok data => rfl
  | error fault =>
      rw [hline] at h
      exact nomatch h

theorem bytes_eq_lineOf {w : LogEntry} (h : w.HasLine) : w.bytes = EventLog.lineOf w.record :=
  (EventLog.line_eq_ok (line_eq_bytes h)).1

theorem bytes_of_not_hasLine {w : LogEntry} (h : ¬ w.HasLine) : w.bytes = [] := by
  unfold HasLine at h
  unfold bytes
  cases hline : EventLog.line w.event w.time with
  | ok data => exact absurd (by rw [hline]; rfl) h
  | error fault => rfl

/-! ## Writing -/

theorem files_of_run {w : LogEntry} {fs fs' : Files} (h : w.write.run fs = .ok () fs') :
    w.files fs = fs' := by
  rw [EStateM.run] at h
  rw [files, Files.apply, h]

theorem files_of_run_error {w : LogEntry} {fs fs' : Files} {error : WriteError}
    (h : w.write.run fs = .error error fs') : w.files fs = fs' := by
  rw [EStateM.run] at h
  rw [files, Files.apply, h]

variable {fs : Files} {w : LogEntry}

theorem run_of_not_hasLine (hline : ¬ w.HasLine) (fs : Files) :
    ∃ fault, w.write.run fs = .error (.event fault) fs := by
  unfold HasLine at hline
  cases heq : EventLog.line w.event w.time with
  | ok data => exact absurd (by rw [heq]; rfl) hline
  | error fault => exact ⟨fault, EventLog.run_write_refused heq w.session fs⟩

theorem hasLine_of_run {fs' : Files} (h : w.write.run fs = .ok () fs') : w.HasLine := by
  by_contra hline
  obtain ⟨fault, hrun⟩ := run_of_not_hasLine hline fs
  rw [hrun] at h
  exact nomatch h

theorem files_of_not_hasLine (hline : ¬ w.HasLine) (fs : Files) : w.files fs = fs := by
  obtain ⟨fault, hrun⟩ := run_of_not_hasLine hline fs
  exact files_of_run_error hrun

theorem run_of_hasFile (h : EventLog.Opened fs) (hline : w.HasLine) {id : Text}
    (hid : w.session = some id) (hfile : EventLog.HasFile id) :
    w.write.run fs = .ok () ((fs.appended EventLog.globalFile w.bytes).appended
      (EventLog.sessionFile id) w.bytes) := by
  rw [write, hid]
  exact EventLog.run_write_session h (line_eq_bytes hline) hfile

/-- What an event with a line does to the files. -/
theorem files_cases (h : EventLog.Opened fs) (hline : w.HasLine) :
    (∀ id, w.session = some id → ¬ EventLog.HasFile id) ∧
        w.files fs = fs.appended EventLog.globalFile w.bytes ∨
      ∃ id, w.session = some id ∧ EventLog.HasFile id ∧
        w.files fs = (fs.appended EventLog.globalFile w.bytes).appended
          (EventLog.sessionFile id) w.bytes := by
  have hbytes := line_eq_bytes hline
  by_cases hsafe : ∀ id ∈ w.session, EventLog.isFileSafe id = false
  · refine .inl ⟨fun id hid hfile => ?_, files_of_run (EventLog.run_write_global h hbytes hsafe)⟩
    exact Bool.false_ne_true ((hsafe id hid).symm.trans hfile.1)
  · simp only [not_forall, Bool.not_eq_false] at hsafe
    obtain ⟨id, hid, hsafe⟩ := hsafe
    replace hid : w.session = some id := hid
    -- With too long a name the write fails, but only when the file of all events is done.
    by_cases hname : Files.isTooLong (id ++ ".ndjson".toList) = true
    · refine .inl ⟨fun id' hid' hfile => ?_, ?_⟩
      · obtain rfl : id = id' := Option.some.inj (hid.symm.trans hid')
        exact Bool.false_ne_true (hfile.2.symm.trans hname)
      · obtain ⟨error, hrun⟩ := EventLog.run_write_session_refused h hbytes hsafe hname
        rw [← hid] at hrun
        exact files_of_run_error hrun
    · have hfile : EventLog.HasFile id := ⟨hsafe, eq_false_of_ne_true hname⟩
      exact .inr ⟨id, hid, hfile, files_of_run (run_of_hasFile h hline hid hfile)⟩

theorem opened_files (h : EventLog.Opened fs) (w : LogEntry) : EventLog.Opened (w.files fs) := by
  by_cases hline : w.HasLine
  · rcases files_cases h hline with ⟨-, heq⟩ | ⟨id, -, -, heq⟩
    · rw [heq]
      exact h.appended_global w.bytes
    · rw [heq]
      exact (h.appended_global w.bytes).appended_session id w.bytes
  · rwa [files_of_not_hasLine hline]

theorem bytesAt_globalFile (h : EventLog.Opened fs) (hline : w.HasLine) :
    (w.files fs).bytesAt EventLog.globalFile = fs.bytesAt EventLog.globalFile ++ w.bytes := by
  have happended := Files.bytesAt_appended_self fs EventLog.globalFile_ne_nil w.bytes
  rcases files_cases h hline with ⟨-, heq⟩ | ⟨id, -, -, heq⟩
  · rw [heq, happended]
  · rw [heq, Files.bytesAt_appended_of_ne _ (EventLog.sessionFile_ne_nil id)
      (EventLog.sessionFile_ne_globalFile id).symm, happended]

/-- A path that is changed is that of a file of the entry. -/
theorem eq_of_lookup?_files_ne (h : EventLog.Opened fs) {p : Path}
    (hp : (w.files fs).lookup? p ≠ fs.lookup? p) :
    p = EventLog.globalFile ∨
      ∃ id, w.session = some id ∧ EventLog.HasFile id ∧ p = EventLog.sessionFile id := by
  by_contra hother
  rw [not_or] at hother
  obtain ⟨hglobal, hsession⟩ := hother
  refine hp ?_
  by_cases hline : w.HasLine
  · rcases files_cases h hline with ⟨-, heq⟩ | ⟨id, hid, hfile, heq⟩
    · rw [heq, Files.lookup?_appended_of_ne _ EventLog.globalFile_ne_nil hglobal]
    · rw [heq, Files.lookup?_appended_of_ne _ (EventLog.sessionFile_ne_nil id)
        fun hp => hsession ⟨id, hid, hfile, hp⟩,
        Files.lookup?_appended_of_ne _ EventLog.globalFile_ne_nil hglobal]
  · rw [files_of_not_hasLine hline]

theorem bytesAt_sessionFile_self (h : EventLog.Opened fs) (hline : w.HasLine) {id : Text}
    (hid : w.session = some id) (hfile : EventLog.HasFile id) :
    (w.files fs).bytesAt (EventLog.sessionFile id) =
      fs.bytesAt (EventLog.sessionFile id) ++ w.bytes := by
  rcases files_cases h hline with ⟨hnone, -⟩ | ⟨id', hid', -, heq⟩
  · exact absurd hfile (hnone id hid)
  · obtain rfl : id = id' := Option.some.inj (hid.symm.trans hid')
    rw [heq, Files.bytesAt_appended_self _ (EventLog.sessionFile_ne_nil id),
      Files.bytesAt_appended_of_ne _ EventLog.globalFile_ne_nil
        (EventLog.sessionFile_ne_globalFile id)]

/-- The files to which the line of an entry is added. -/
def paths (w : LogEntry) : List Path :=
  EventLog.globalFile ::
    (w.session.toList.filter fun id => EventLog.HasFile id).map EventLog.sessionFile

theorem mem_paths {p : Path} :
    p ∈ w.paths ↔ p = EventLog.globalFile ∨
      ∃ id, w.session = some id ∧ EventLog.HasFile id ∧ p = EventLog.sessionFile id := by
  simp only [paths, List.mem_cons, List.mem_map, List.mem_filter, Option.mem_toList,
    decide_eq_true_eq, and_assoc, eq_comm (a := p)]

theorem sessionFile_mem_paths {id : Text} (hfile : EventLog.HasFile id) :
    EventLog.sessionFile id ∈ w.paths ↔ w.session = some id := by
  refine ⟨fun h => ?_, fun hid => mem_paths.2 (.inr ⟨id, hid, hfile, rfl⟩)⟩
  rcases mem_paths.1 h with hglobal | ⟨id', hid, -, heq⟩
  · exact absurd hglobal (EventLog.sessionFile_ne_globalFile id)
  · rw [EventLog.sessionFile_injective heq, hid]

/-- Each file gets the line, or it is left alone. -/
theorem bytesAt_files (h : EventLog.Opened fs) (w : LogEntry) (p : Path) :
    (w.files fs).bytesAt p =
      fs.bytesAt p ++ if w.HasLine ∧ p ∈ w.paths then w.bytes else [] := by
  by_cases hline : w.HasLine
  · by_cases hp : p ∈ w.paths
    · rw [if_pos ⟨hline, hp⟩]
      rcases mem_paths.1 hp with rfl | ⟨id, hid, hfile, rfl⟩
      · exact bytesAt_globalFile h hline
      · exact bytesAt_sessionFile_self h hline hid hfile
    · have hlookup : (w.files fs).lookup? p = fs.lookup? p := by
        by_contra hne
        exact hp (mem_paths.2 (eq_of_lookup?_files_ne h hne))
      rw [if_neg fun hw => hp hw.2, List.append_nil, Files.bytesAt, hlookup, Files.bytesAt]
  · rw [files_of_not_hasLine hline, if_neg fun hw => hline hw.1, List.append_nil]

/-! ## Reading -/

theorem isEnded_bytes (w : LogEntry) : EventLog.IsEnded w.bytes := by
  by_cases hline : w.HasLine
  · rw [bytes_eq_lineOf hline]
    exact EventLog.isEnded_lineOf _
  · exact .inl (bytes_of_not_hasLine hline)

theorem valuesIn_entries {nesting : Nat} (hroom : Event.maxDepth + 2 ≤ nesting)
    {ws : List LogEntry} (hlines : ∀ w ∈ ws, w.HasLine)
    (hkeys : ∀ w ∈ ws, w.event.HasDistinctKeys) :
    EventLog.valuesIn nesting (ws.flatMap bytes) = .ok (ws.map fun w => w.record.sorted) := by
  rw [List.map_eq_flatMap]
  exact EventLog.valuesIn_flatMap ws (fun w _ => isEnded_bytes w) fun w hw =>
    EventLog.valuesIn_line (hkeys w hw) hroom (line_eq_bytes (hlines w hw))

/-- The record of an event with its members in order is the same object. -/
theorem same_records {ws : List LogEntry} (hkeys : ∀ w ∈ ws, w.event.HasDistinctKeys) :
    List.Forall₂ Json.Same (ws.map fun w => w.record.sorted) (ws.map record) := by
  rw [List.forall₂_map_left_iff, List.forall₂_map_right_iff, List.forall₂_same]
  exact fun w hw => ((hkeys w hw).record w.time).same_sorted

/-! ## A sample -/

/-- A warning about the formula of a session, with a line separator in its message. -/
def sample : LogEntry where
  event :=
    { level := .warning
      kind := .formulaError
      context := [("session_id", .string "s"), ("formula", .string "1/0")]
      message := "one\u2028two".toList
      errorCode := some "division_by_zero" }
  time := "2024-01-02T03:04:05.678901Z"
  session := some "s".toList

theorem hasLine_sample : sample.HasLine := by
  decide +kernel

theorem hasDistinctKeys_sample : sample.event.HasDistinctKeys := by
  refine .object ?_ ?_
  · decide +kernel
  · simp only [sample, List.forall_mem_cons]
    exact ⟨.string _, .string _, nofun⟩

theorem length_bytes_sample : sample.bytes.length ≤ 300 := by
  rw [bytes_eq_lineOf hasLine_sample]
  cbv

end LogEntry

end TagFormula

import TagFormula.Event.Emission
import TagFormula.Proofs.Event.Calls
import TagFormula.Proofs.Event.History

/-!
# Events are found by their session

Steps are taken on a log, and those that fail are passed over: an event that has no line is
left out, and one whose session's file cannot be used is in the file of all events all the
same. So the file of all events holds the bytes of all steps in their order
(`LogStep.bytesAt_filesAll`), and what is read with a filter are the latest of the wanted
events (`EventLog.read_recorded`).

To emit an event into a log is to write it cut to length (`Emitter.files_emit`). The id of its
session survives the cut and a context that is added to it without another id, so the event is read when
its session is asked for, whatever is written before and after (`EventLog.session_attributed`).
Another id in what is added takes the place of the one that was given. The event does not
name its session then, and what is read of the session is the same as without the event
(`EventLog.read_session_of_other`). An id that is cut and a context that is too deep are the
other two ways to lose an event (`EventLog.session_not_found`).
-/

namespace TagFormula

namespace LogStep

/-- The files after a step is taken or has failed. -/
def files (step : LogStep) (fs : Files) : Files :=
  (fs.apply step.run).2

/-- The files after steps are taken one after the other; those that fail are passed over. -/
def filesAll (steps : List LogStep) (fs : Files) : Files :=
  steps.foldl (fun fs step => step.files fs) fs

/-- The events that get into the file of all events. -/
def recorded (steps : List LogStep) : List LogEntry :=
  (entries steps).filter fun w => w.HasLine

/-- Those of them that name a session. -/
def attributed (id : Text) (steps : List LogStep) : List LogEntry :=
  (recorded steps).filter fun w =>
    Json.lookup? w.event.context "session_id" = some (.ofText id)

theorem filesAll_append (steps steps' : List LogStep) (fs : Files) :
    filesAll (steps ++ steps') fs = filesAll steps' (filesAll steps fs) :=
  List.foldl_append

theorem entries_append (steps steps' : List LogStep) :
    entries (steps ++ steps') = entries steps ++ entries steps' :=
  List.filterMap_append

theorem recorded_append (steps steps' : List LogStep) :
    recorded (steps ++ steps') = recorded steps ++ recorded steps' := by
  rw [recorded, entries_append, List.filter_append, recorded, recorded]

theorem recorded_write {w : LogEntry} (hline : w.HasLine) : recorded [.write w] = [w] :=
  List.filter_eq_self.2 (List.forall_mem_singleton.2 (decide_eq_true hline))

theorem attributed_append (id : Text) (steps steps' : List LogStep) :
    attributed id (steps ++ steps') = attributed id steps ++ attributed id steps' := by
  rw [attributed, recorded_append, List.filter_append, attributed, attributed]

theorem attributed_write_cons {w : LogEntry} (hline : w.HasLine) {id : Text}
    (hname : Json.lookup? w.event.context "session_id" = some (.ofText id))
    (steps : List LogStep) :
    attributed id (.write w :: steps) = w :: attributed id steps := by
  have hsplit : LogStep.write w :: steps = [.write w] ++ steps := rfl
  rw [hsplit, attributed_append, attributed, recorded_write hline, List.filter_singleton,
    decide_eq_true hname]
  rfl

theorem attributed_write_other {w : LogEntry} {id : Text}
    (hname : Json.lookup? w.event.context "session_id" ≠ some (.ofText id))
    (steps : List LogStep) : attributed id (.write w :: steps) = attributed id steps := by
  have hsplit : LogStep.write w :: steps = [.write w] ++ steps := rfl
  have hnone : attributed id [.write w] = [] := by
    refine List.filter_eq_nil_iff.2 fun w' hw' => ?_
    obtain rfl : w' = w := List.mem_singleton.1 (List.mem_of_mem_filter hw')
    exact fun h => hname (of_decide_eq_true h)
  rw [hsplit, attributed_append, hnone, List.nil_append]

theorem mem_entries_of_mem_recorded {steps : List LogStep} {w : LogEntry} (h : w ∈ recorded steps) :
    w ∈ entries steps :=
  List.mem_of_mem_filter h

/-! ## One step -/

section Step

variable {fs : Files}

theorem files_foreign (h : EventLog.Opened fs) (data : List UInt8) :
    (foreign data).files fs = fs.appended EventLog.globalFile data := by
  have hrun := run_foreign h data
  rw [EStateM.run] at hrun
  rw [files, Files.apply, hrun]

/-- A step leaves the log open, whether or not it fails. -/
theorem opened_files (h : EventLog.Opened fs) (step : LogStep) : EventLog.Opened (step.files fs) := by
  cases step with
  | write w => exact w.opened_files h
  | foreign data =>
      rw [files_foreign h]
      exact h.appended_global data

/-- A step puts its bytes behind the others, whether or not it fails. -/
theorem bytesAt_files (h : EventLog.Opened fs) (step : LogStep) :
    (step.files fs).bytesAt EventLog.globalFile =
      fs.bytesAt EventLog.globalFile ++ step.bytes := by
  cases step with
  | write w =>
      change (w.files fs).bytesAt EventLog.globalFile = fs.bytesAt EventLog.globalFile ++ w.bytes
      by_cases hline : w.HasLine
      · exact LogEntry.bytesAt_globalFile h hline
      · rw [LogEntry.files_of_not_hasLine hline, LogEntry.bytes_of_not_hasLine hline,
          List.append_nil]
  | foreign data =>
      rw [files_foreign h, Files.bytesAt_appended_self fs EventLog.globalFile_ne_nil, bytes]

/-- Of a step the record of its event is read, if it has one that is not left out. -/
theorem valuesIn_bytes {nesting : Nat} (hroom : Event.maxDepth + 2 ≤ nesting) {step : LogStep}
    (hquiet : step.IsQuiet nesting) (hkeys : ∀ w ∈ step.written?, w.event.HasDistinctKeys) :
    EventLog.valuesIn nesting step.bytes =
      .ok ((recorded [step]).map fun w => w.record.sorted) := by
  cases step with
  | write w =>
      rw [bytes]
      by_cases hline : w.HasLine
      · rw [recorded_write hline]
        exact EventLog.valuesIn_line (hkeys w rfl) hroom (LogEntry.line_eq_bytes hline)
      · have hnone : recorded [.write w] = [] :=
          List.filter_eq_nil_iff.2 (List.forall_mem_singleton.2 (by simpa using hline))
        rw [hnone, LogEntry.bytes_of_not_hasLine hline]
        exact EventLog.valuesIn_nil
  | foreign data => exact hquiet.valuesIn

theorem isEnded_bytes {nesting : Nat} {step : LogStep} (hquiet : step.IsQuiet nesting) :
    EventLog.IsEnded step.bytes := by
  cases step with
  | write w => exact w.isEnded_bytes
  | foreign data => exact hquiet.ended

end Step

/-! ## All steps -/

section Steps

variable {fs : Files}

theorem opened_filesAll (h : EventLog.Opened fs) (steps : List LogStep) :
    EventLog.Opened (filesAll steps fs) := by
  induction steps generalizing fs with
  | nil => exact h
  | cons step steps ih => exact ih (opened_files h step)

/-- The file of all events gets the bytes of all steps. -/
theorem bytesAt_filesAll (h : EventLog.Opened fs) (steps : List LogStep) :
    (filesAll steps fs).bytesAt EventLog.globalFile =
      fs.bytesAt EventLog.globalFile ++ steps.flatMap bytes := by
  induction steps generalizing fs with
  | nil => exact (List.append_nil _).symm
  | cons step steps ih =>
      rw [filesAll, List.foldl_cons, ← filesAll, ih (opened_files h step), bytesAt_files h,
        List.flatMap_cons, List.append_assoc]

theorem valuesIn_recorded {nesting : Nat} (hroom : Event.maxDepth + 2 ≤ nesting)
    {steps : List LogStep} (hquiet : ∀ step ∈ steps, step.IsQuiet nesting)
    (hkeys : ∀ w ∈ entries steps, w.event.HasDistinctKeys) :
    EventLog.valuesIn nesting (steps.flatMap bytes) =
      .ok ((recorded steps).map fun w => w.record.sorted) := by
  induction steps with
  | nil => exact EventLog.valuesIn_nil
  | cons step steps ih =>
      obtain ⟨hstep, hsteps⟩ := List.forall_mem_cons.1 hquiet
      have hsplit : step :: steps = [step] ++ steps := rfl
      have hfirst : ∀ w ∈ step.written?, w.event.HasDistinctKeys := fun w hw =>
        hkeys w (List.mem_filterMap.2 ⟨step, List.mem_cons_self .., hw⟩)
      have hlater : ∀ w ∈ entries steps, w.event.HasDistinctKeys := fun w hw =>
        hkeys w (mem_entries.2 (List.mem_cons_of_mem _ (mem_entries.1 hw)))
      rw [List.flatMap_cons, hsplit, recorded_append, List.map_append]
      exact (isEnded_bytes hstep).valuesIn_append (valuesIn_bytes hroom hstep hfirst)
        (ih hsteps hlater)

end Steps

end LogStep

/-! ## Emitting -/

/-- An event is cut to length if there is room, and if there is none it is too deep to be written
anyway. -/
theorem Event.truncated?_eq (e : Event) (host : Host) :
    e.truncated? host.stack = some e.truncated ∨
      e.truncated? host.stack = none ∧ maxDepth < Json.membersDepth e.truncated.context := by
  have hroom := host.maxDepth_lt_room
  rw [truncated?, Truncation.context?_eq]
  by_cases hcalls : host.stack.calls e.context ≤ host.stack.room
  · rw [if_pos hcalls]
    exact .inl rfl
  · have hdepth := host.stack.calls_le e.truncated.context
    have hsame : host.stack.calls e.truncated.context = host.stack.calls e.context :=
      host.stack.calls_members e.context
    rw [if_neg hcalls]
    exact .inr ⟨rfl, by omega⟩

/-- What comes of a delivery that is caught. -/
theorem Emitter.files_emit_eq (em : Emitter) (now : Nat) (e : Event) (time : String)
    (session : Option Text) (fs : Files) :
    (em.emit now e time session fs).2.2 = (fs.apply (deliver em.sink e time session)).2 := by
  rw [emit]
  split
  · next heq => rw [heq]
  · next heq =>
      rw [heq]
      split <;> rfl

/-- An event without a line is not written. -/
theorem LogEntry.not_hasLine_of_depth {w : LogEntry}
    (h : Event.maxDepth < Json.membersDepth w.event.context) : ¬ w.HasLine := fun hline =>
  Nat.not_lt.2 (EventLog.line_eq_ok (line_eq_bytes hline)).2.1 h

/-- What is delivered to a log is what is written of the event cut to length. -/
theorem Emitter.run_deliver (log : EventLog) (e : Event) (time : String) (session : Option Text)
    (fs : Files) :
    ∃ f : WriteError → DeliveryError, (deliver (.log log) e time session).run fs =
      ((EventLog.write e.truncated time session).adaptExcept f).run fs := by
  rcases e.truncated?_eq log.host with hcut | ⟨hcut, hdeep⟩
  · exact ⟨.write, by simp only [deliver, hcut]⟩
  · obtain ⟨fault, hrun⟩ := LogEntry.run_of_not_hasLine
      (LogEntry.not_hasLine_of_depth (w := ⟨e.truncated, time, session⟩) hdeep) fs
    have hwrite : EventLog.write e.truncated time session fs = .error (.event fault) fs := hrun
    refine ⟨fun _ => .noRoom, ?_⟩
    simp only [deliver, hcut, EStateM.run, EStateM.adaptExcept, hwrite]
    rfl

/-- To emit an event into a log is to write it cut to length. -/
theorem Emitter.files_emit {em : Emitter} {log : EventLog} (hsink : em.sink = .log log) (now : Nat)
    (e : Event) (time : String) (session : Option Text) (fs : Files) :
    (em.emit now e time session fs).2.2 =
      (LogStep.write ⟨e.truncated, time, session⟩).files fs := by
  obtain ⟨f, hdeliver⟩ := run_deliver log e time session fs
  rw [EStateM.run, EStateM.run, EStateM.adaptExcept] at hdeliver
  change _ = (fs.apply (EventLog.write e.truncated time session)).2
  rw [files_emit_eq, hsink, Files.apply, Files.apply, hdeliver]
  cases EventLog.write e.truncated time session fs <;> rfl

/-- An emission is one more step. -/
theorem Emitter.filesAll_emit {em : Emitter} {log : EventLog} (hsink : em.sink = .log log) (now : Nat)
    (e : Event) (time : String) (session : Option Text) (before later : List LogStep) (fs : Files) :
    LogStep.filesAll later (em.emit now e time session (LogStep.filesAll before fs)).2.2 =
      LogStep.filesAll (before ++ .write ⟨e.truncated, time, session⟩ :: later) fs := by
  rw [files_emit hsink, LogStep.filesAll_append]
  rfl

/-- An event that is written is emitted without a warning. -/
theorem Emitter.emit_of_run {em : Emitter} {log : EventLog} (hsink : em.sink = .log log) (now : Nat)
    {e : Event} {time : String} {session : Option Text} {fs fs' : Files}
    (hrun : (EventLog.write e.truncated time session).run fs = .ok () fs') :
    em.emit now e time session fs = (false, em, fs') := by
  obtain ⟨f, hdeliver⟩ := run_deliver log e time session fs
  rw [EStateM.run] at hrun
  rw [EStateM.run, EStateM.run, EStateM.adaptExcept, hrun] at hdeliver
  rw [emit, hsink, Files.apply, hdeliver]

/-- The first event that cannot be written is answered with a warning. -/
theorem Emitter.emit_of_run_error {em : Emitter} {log : EventLog} (hsink : em.sink = .log log)
    (hfirst : em.lastWarning = none) (now : Nat) {e : Event} {time : String}
    {session : Option Text} {fs fs' : Files} {error : WriteError}
    (hrun : (EventLog.write e.truncated time session).run fs = .error error fs') :
    em.emit now e time session fs = (true, { em with lastWarning := some now }, fs') := by
  obtain ⟨f, hdeliver⟩ := run_deliver log e time session fs
  rw [EStateM.run] at hrun
  rw [EStateM.run, EStateM.run, EStateM.adaptExcept, hrun] at hdeliver
  rw [emit, hsink, Files.apply, hdeliver, mayWarn, hfirst]
  rfl

namespace EventLog

/-! ## Reading -/

/-- After any steps on an empty log the latest of the wanted events are read, the last one first. -/
theorem read_recorded {fs : Files} (hopened : Opened fs) (hempty : fs.bytesAt globalFile = [])
    {log : EventLog} {steps : List LogStep}
    (hquiet : ∀ step ∈ steps, step.IsQuiet log.host.nesting)
    (hkeys : ∀ w ∈ LogStep.entries steps, w.event.HasDistinctKeys)
    (hfits : log.Fits (LogStep.filesAll steps fs) globalFile) (f : EventFilter) {limit : Int}
    (hlimit : 0 ≤ limit) :
    log.read (LogStep.filesAll steps fs) f limit =
      .ok ((((LogStep.recorded steps).filter fun w => f.Matches w.event).reverse.take
        (min limit maxLimit).toNat).map fun w => w.record.sorted) := by
  have hfile : log.readFile (LogStep.filesAll steps fs) globalFile =
      .ok ((LogStep.recorded steps).map fun w => w.record.sorted) := by
    rw [readFile_eq globalFile_nameable (LogStep.opened_filesAll hopened steps).globalFile hfits,
      LogStep.bytesAt_filesAll hopened, hempty, List.nil_append]
    exact LogStep.valuesIn_recorded log.host.maxDepth_lt_nesting hquiet hkeys
  have hselect := EventFilter.select_records f (LogStep.recorded steps) fun w hw =>
    hkeys w (LogStep.mem_entries_of_mem_recorded hw)
  rw [read, hfile]
  simp only [hselect]
  rw [Slice.before_of_nonneg _ (le_min hlimit (by decide)), ← List.map_reverse, List.map_take]

theorem fits_filesAll {fs : Files} (hopened : Opened fs) (hempty : fs.bytesAt globalFile = [])
    {steps : List LogStep} (h : (steps.flatMap LogStep.bytes).length ≤ 1000) :
    default.Fits (LogStep.filesAll steps fs) globalFile := by
  refine fits_default ?_
  rwa [LogStep.bytesAt_filesAll hopened, hempty, List.nil_append]

/-- To ask for a session alone is to ask for the events that name it. -/
theorem filter_matches_session {id : Text} (hid : id ≠ []) (steps : List LogStep) :
    ((LogStep.recorded steps).filter fun w => EventFilter.Matches ⟨[], [], id⟩ w.event) =
      LogStep.attributed id steps := by
  refine List.filter_congr fun w _ => decide_eq_decide.2 ?_
  simp [EventFilter.Matches, hid]

/-- An event that is written and names a session is read when the session is asked for, behind as
many events as are written for the session later. -/
theorem read_session_of_write {fs : Files} (hopened : Opened fs)
    (hempty : fs.bytesAt globalFile = []) {log : EventLog} {before later : List LogStep}
    {w : LogEntry} (hquiet : ∀ step ∈ before ++ .write w :: later, step.IsQuiet log.host.nesting)
    (hkeys : ∀ w' ∈ LogStep.entries (before ++ .write w :: later), w'.event.HasDistinctKeys)
    (hline : w.HasLine) {id : Text} (hid : id ≠ [])
    (hname : Json.lookup? w.event.context "session_id" = some (.ofText id))
    (hfits : log.Fits (LogStep.filesAll (before ++ .write w :: later) fs) globalFile) {limit : Int}
    (hlimit : (LogStep.attributed id later).length < min limit maxLimit) :
    ∃ values, log.read (LogStep.filesAll (before ++ .write w :: later) fs) ⟨[], [], id⟩ limit =
        .ok values ∧
      values[(LogStep.attributed id later).length]? = some w.record.sorted := by
  have hpositive : 0 ≤ limit := by omega
  have hread := read_recorded hopened hempty hquiet hkeys hfits ⟨[], [], id⟩ hpositive
  have hwanted : LogStep.attributed id (before ++ .write w :: later) =
      LogStep.attributed id before ++ w :: LogStep.attributed id later := by
    rw [LogStep.attributed_append, LogStep.attributed_write_cons hline hname]
  rw [filter_matches_session hid, hwanted] at hread
  refine ⟨_, hread, ?_⟩
  have hplace : (LogStep.attributed id later).length < (min limit maxLimit).toNat := by omega
  rw [List.getElem?_map, List.getElem?_take_of_lt hplace, List.reverse_append, List.reverse_cons,
    List.append_assoc, List.getElem?_append_right (List.length_reverse ..).le]
  simp

/-- An event that does not name a session changes nothing in what is read when the session is asked
for. -/
theorem read_session_of_other {fs : Files} (hopened : Opened fs)
    (hempty : fs.bytesAt globalFile = []) {log : EventLog} {before later : List LogStep}
    {w : LogEntry} (hquiet : ∀ step ∈ before ++ .write w :: later, step.IsQuiet log.host.nesting)
    (hkeys : ∀ w' ∈ LogStep.entries (before ++ .write w :: later), w'.event.HasDistinctKeys)
    {id : Text} (hid : id ≠ [])
    (hname : Json.lookup? w.event.context "session_id" ≠ some (.ofText id))
    (hfits : log.Fits (LogStep.filesAll (before ++ .write w :: later) fs) globalFile) {limit : Int}
    (hlimit : 0 ≤ limit) :
    log.read (LogStep.filesAll (before ++ .write w :: later) fs) ⟨[], [], id⟩ limit =
      .ok (((LogStep.attributed id (before ++ later)).reverse.take
        (min limit maxLimit).toNat).map fun w' => w'.record.sorted) := by
  have hwanted : LogStep.attributed id (before ++ .write w :: later) =
      LogStep.attributed id (before ++ later) := by
    rw [LogStep.attributed_append, LogStep.attributed_write_other hname, LogStep.attributed_append]
  rw [read_recorded hopened hempty hquiet hkeys hfits _ hlimit, filter_matches_session hid, hwanted]

/-- An event that is emitted for a session is read when the session is asked for, behind as many
events as are written for the session later. The id must not be so long that it is cut, what is
added to the context can be written and has no other id, and the limit leaves room for the
later events. -/
theorem session_attributed {fs₀ fs₁ : Files} (hnew : IsNew fs₀)
    (hprepare : prepare.run fs₀ = .ok () fs₁) {log : EventLog} {before later : List LogStep}
    (hquiet : ∀ step ∈ before ++ later, step.IsQuiet log.host.nesting)
    (hkeys : ∀ w ∈ LogStep.entries (before ++ later), w.event.HasDistinctKeys)
    {em : Emitter} {target : EventLog} (hsink : em.sink = .log target)
    (kind : EventKind) (level : EventLevel) (message : Text) {id : Text} (hid : id ≠ [])
    (hlength : id.length ≤ Truncation.maxLength) (formula : Option Text) (errorCode : Option String)
    {extra : List (JsonString × Json)}
    (hextra : Json.Writable (Event.maxDepth + 1) (.object extra))
    (hown : ∀ m ∈ extra, m.1 = "session_id" → m.2 = .ofText id)
    (now : Nat) (time : String) (session : Option Text) {limit : Int}
    (hlimit : (LogStep.attributed id later).length < min limit maxLimit) :
    let e := Event.ofSession kind level message id formula errorCode extra
    let fs₂ := LogStep.filesAll later
      (em.emit now e time session (LogStep.filesAll before fs₁)).2.2
    log.Fits fs₂ globalFile →
      ∃ values j, log.read fs₂ ⟨[], [], id⟩ limit = .ok values ∧
        values[(LogStep.attributed id later).length]? = some j ∧
        Json.Same j (e.truncated.record time) := by
  intro e fs₂ hfits
  obtain ⟨hopened, hempty, -⟩ := opened_of_prepare hnew hprepare
  let w : LogEntry := ⟨e.truncated, time, session⟩
  have hcontext : Json.Writable (Event.maxDepth + 1) (.object w.event.context) :=
    (Event.writable_sessionContext id formula hextra).truncated.1
  have hname : Json.lookup? w.event.context "session_id" = some (.ofText id) :=
    Event.lookup?_session_truncated (Event.lookup?_sessionContext hown) hlength
  have hfiles : fs₂ = LogStep.filesAll (before ++ .write w :: later) fs₁ :=
    Emitter.filesAll_emit hsink now e time session before later fs₁
  have hquiet' : ∀ step ∈ before ++ .write w :: later, step.IsQuiet log.host.nesting := by
    obtain ⟨hbefore, hlater⟩ := List.forall_mem_append.1 hquiet
    exact List.forall_mem_append.2 ⟨hbefore, List.forall_mem_cons.2 ⟨trivial, hlater⟩⟩
  have hkeys' : ∀ w' ∈ LogStep.entries (before ++ .write w :: later), w'.event.HasDistinctKeys := by
    rw [LogStep.entries_append] at hkeys ⊢
    obtain ⟨hbefore, hlater⟩ := List.forall_mem_append.1 hkeys
    exact List.forall_mem_append.2
      ⟨hbefore, List.forall_mem_cons.2 ⟨hcontext.distinctKeys, hlater⟩⟩
  rw [hfiles] at hfits ⊢
  obtain ⟨values, hread, hplace⟩ := read_session_of_write hopened hempty hquiet' hkeys'
    (LogEntry.hasLine_of_writable hcontext) hid hname hfits hlimit
  exact ⟨values, _, hread, hplace,
    (Event.HasDistinctKeys.record hcontext.distinctKeys time).same_sorted⟩

/-- What is added to the context when a tag is put in; it names the session once more. -/
def insertionContext : List (JsonString × Json) :=
  [("tag_id", .integer 3), ("session_id", .string "s")]

theorem writable_insertionContext :
    Json.Writable (Event.maxDepth + 1) (.object insertionContext) := by
  have hshort : Literal.isLong 3 = false := by decide +kernel
  refine .object (by decide +kernel) (List.forall_mem_cons.2 ⟨.integer _ hshort, ?_⟩)
  exact List.forall_mem_singleton.2 (.string _ _)

/-- A tag is put in. -/
def insertion : LogEntry where
  event := (Event.ofSession .tagInserted .info [] "s".toList (some "1+".toList) none
    insertionContext).truncated
  time := "2024-01-02T03:04:05.678901Z"
  session := none

theorem length_bytes_insertion : insertion.bytes.length ≤ 300 := by
  rw [LogEntry.bytes_eq_lineOf (by decide +kernel)]
  cbv

/-- A tag that is put in is found behind a later event of its session. -/
theorem session_attributed_sample : ∃ fs₁, prepare.run (Files.empty []) = .ok () fs₁ ∧
    let e := Event.ofSession .tagInserted .info [] "s".toList (some "1+".toList) none
      insertionContext
    let fs₂ := LogStep.filesAll [.write LogEntry.sample]
      ((Emitter.ofSink (.log default)).emit 0 e insertion.time none (LogStep.filesAll [] fs₁)).2.2
    ∃ values j, default.read fs₂ ⟨[], [], "s".toList⟩ 2 = .ok values ∧ values[1]? = some j ∧
      Json.Same j (e.truncated.record insertion.time) := by
  obtain ⟨fs₁, hprepare⟩ := run_prepare_empty
  obtain ⟨hopened, hempty, -⟩ := opened_of_prepare isNew_empty hprepare
  have hquiet : ∀ step ∈ [] ++ [LogStep.write LogEntry.sample], step.IsQuiet default.host.nesting :=
    List.forall_mem_singleton.2 trivial
  have hsink : (Emitter.ofSink (.log default)).sink = .log default := rfl
  have hid : "s".toList ≠ [] := by decide
  have hown : ∀ m ∈ insertionContext, m.1 = "session_id" → m.2 = .ofText "s".toList :=
    List.forall_mem_cons.2 ⟨fun h => absurd h (by decide +kernel),
      List.forall_mem_singleton.2 fun _ => rfl⟩
  have hlater : LogStep.attributed "s".toList [.write LogEntry.sample] = [LogEntry.sample] :=
    LogStep.attributed_write_cons LogEntry.hasLine_sample (by decide +kernel) []
  have hlimit : ((LogStep.attributed "s".toList [.write LogEntry.sample]).length : Int) <
      min 2 maxLimit := by
    rw [hlater]
    decide
  have hlength : (insertion.bytes ++ LogEntry.sample.bytes).length ≤ 600 := by
    have hinsertion := length_bytes_insertion
    have hsample := LogEntry.length_bytes_sample
    rw [List.length_append]
    omega
  have hfits : default.Fits (LogStep.filesAll
      ([] ++ .write insertion :: [.write LogEntry.sample]) fs₁) globalFile := by
    refine fits_filesAll hopened hempty ?_
    rw [List.nil_append, List.flatMap_cons, List.flatMap_singleton]
    exact hlength.trans (by decide)
  have hemitted := Emitter.filesAll_emit hsink 0 (Event.ofSession .tagInserted .info [] "s".toList
    (some "1+".toList) none insertionContext) insertion.time none [] [.write LogEntry.sample] fs₁
  have hfound := session_attributed isNew_empty hprepare hquiet
    (List.forall_mem_singleton.2 LogEntry.hasDistinctKeys_sample) hsink .tagInserted .info [] hid
    (by decide) (some "1+".toList) none writable_insertionContext hown 0 insertion.time none hlimit
    (hemitted.symm ▸ hfits)
  rw [hlater, List.length_singleton] at hfound
  exact ⟨fs₁, hprepare, hfound⟩

/-- An event is emitted into an empty log and written, but not read when a session is asked for. -/
def Misses (fs : Files) (e : Event) (id : Text) : Prop :=
  ∃ fs', (Emitter.ofSink (.log default)).emit 0 e "t" none fs =
      (false, Emitter.ofSink (.log default), fs') ∧
    default.Fits fs' globalFile ∧ default.read fs' ⟨[], [], id⟩ maxLimit = .ok []

theorem misses_of_lookup? {fs : Files} (hopened : Opened fs) (hempty : fs.bytesAt globalFile = [])
    {e : Event} {id : Text} (hid : id ≠ []) {w : LogEntry} (hw : w = ⟨e.truncated, "t", none⟩)
    (hline : w.HasLine) (hlength : w.bytes.length ≤ 1000) (hkeys : w.event.HasDistinctKeys)
    (hname : Json.lookup? w.event.context "session_id" ≠ some (.ofText id)) :
    Misses fs e id := by
  have hfits : default.Fits (LogStep.filesAll [.write w] fs) globalFile := by
    refine fits_filesAll hopened hempty ?_
    rwa [List.flatMap_singleton]
  have hquiet : ∀ step ∈ [LogStep.write w], step.IsQuiet default.host.nesting :=
    List.forall_mem_singleton.2 trivial
  refine ⟨LogStep.filesAll [.write w] fs, ?_, hfits, ?_⟩
  · have hsink : (Emitter.ofSink (.log default)).sink = .log default := rfl
    have hnone : ∀ id ∈ w.session, isFileSafe id = false := by
      rw [hw]
      nofun
    have hrun := run_write_global hopened (LogEntry.line_eq_bytes hline) hnone
    have hfiles := LogEntry.files_of_run hrun
    rw [hw] at hrun hfiles ⊢
    rw [Emitter.emit_of_run hsink 0 hrun, ← hfiles]
    rfl
  · have hkeys' : ∀ w' ∈ LogStep.entries ([] ++ [.write w]), w'.event.HasDistinctKeys :=
      List.forall_mem_singleton.2 hkeys
    exact read_session_of_other hopened hempty hquiet hkeys' hid hname hfits (by decide)

/-- An event that is written of a session, but puts another id into its context. -/
def renamed : LogEntry where
  event := (Event.ofSession .tagInserted .info [] "s".toList none none
    [("session_id", .string "s2")]).truncated
  time := "t"
  session := none

/-- An event is written of a session with an id of three hundred letters. -/
def longNamed : LogEntry where
  event := (Event.ofSession .tagInserted .info [] (List.replicate 300 'i') none none []).truncated
  time := "t"
  session := none

/-- An event of a session with a list in a list and so on, too deep to be written. -/
def deepEvent : Event :=
  Event.ofSession .tagInserted .info [] "s".toList none none
    [("x", Nat.repeat (fun j => .array [j]) (Event.maxDepth + 1) .null)]

theorem hasLine_renamed : renamed.HasLine := by
  decide +kernel

theorem hasLine_longNamed : longNamed.HasLine := by
  decide +kernel

theorem length_bytes_renamed : renamed.bytes.length ≤ 600 := by
  rw [LogEntry.bytes_eq_lineOf hasLine_renamed]
  cbv

set_option maxRecDepth 8000 in
theorem length_bytes_longNamed : longNamed.bytes.length ≤ 600 := by
  rw [LogEntry.bytes_eq_lineOf hasLine_longNamed]
  cbv

/-- An event with another id in what is added to its context, and one whose id is cut, are written
but not found. One with too deep a context is not written, for which there is a warning. -/
theorem session_not_found : ∃ fs₁, prepare.run (Files.empty []) = .ok () fs₁ ∧
    Misses fs₁ (Event.ofSession .tagInserted .info [] "s".toList none none
      [("session_id", .string "s2")]) "s".toList ∧
    Misses fs₁ (Event.ofSession .tagInserted .info [] (List.replicate 300 'i') none none [])
      (List.replicate 300 'i') ∧
    (Emitter.ofSink (.log default)).emit 0 deepEvent "t" none fs₁ =
        (true, ⟨.log default, some 0⟩, fs₁) ∧
      default.read fs₁ ⟨[], [], "s".toList⟩ maxLimit = .ok [] := by
  obtain ⟨fs₁, hprepare⟩ := run_prepare_empty
  obtain ⟨hopened, hempty, -⟩ := opened_of_prepare isNew_empty hprepare
  have hsink : (Emitter.ofSink (.log default)).sink = .log default := rfl
  refine ⟨fs₁, hprepare, ?_, ?_, ?_, ?_⟩
  · have hkeys : renamed.event.HasDistinctKeys :=
      .object (by decide +kernel) (List.forall_mem_singleton.2 (.string _))
    have hother : Json.lookup? renamed.event.context "session_id" ≠ some (.ofText "s".toList) := by
      decide +kernel
    exact misses_of_lookup? hopened hempty (by decide) rfl hasLine_renamed
      (length_bytes_renamed.trans (by decide)) hkeys hother
  · have hkeys : longNamed.event.HasDistinctKeys :=
      .object (by decide +kernel) (List.forall_mem_singleton.2 (.string _))
    have hother : Json.lookup? longNamed.event.context "session_id" ≠
        some (.ofText (List.replicate 300 'i')) := by decide +kernel
    exact misses_of_lookup? hopened hempty (by decide) rfl hasLine_longNamed
      (length_bytes_longNamed.trans (by decide)) hkeys hother
  · have hdeep : ¬ LogEntry.HasLine ⟨deepEvent.truncated, "t", none⟩ := by decide +kernel
    obtain ⟨fault, hrun⟩ := LogEntry.run_of_not_hasLine hdeep fs₁
    exact Emitter.emit_of_run_error hsink rfl 0 hrun
  · have hfits : default.Fits (LogStep.filesAll [] fs₁) globalFile :=
      fits_filesAll hopened hempty (by decide)
    exact read_recorded hopened hempty (List.forall_mem_nil _) (List.forall_mem_nil _) hfits
      ⟨[], [], "s".toList⟩ (by decide)

end EventLog

end TagFormula

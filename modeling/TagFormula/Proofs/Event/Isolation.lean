import TagFormula.Proofs.Event.Entries

/-!
# The logs of sessions are isolated

Entries are written to a log one after the other, addressed to any sessions in any order, and
a write that fails is passed over. No more than the file of all events and the files of the
sessions addressed are changed, whatever their ids (`eq_of_lookup?_filesAll_ne`), and the file
of a session holds the lines of what is addressed to it, in the order in which it is written
(`bytesAt_sessionFile_filesAll`). So what is read of a session are the records of its own
events (`sessions_isolated`).
-/

namespace TagFormula

namespace LogEntry

/-- The files after entries are written one after the other; writes that fail are passed over. -/
def filesAll (ws : List LogEntry) (fs : Files) : Files :=
  ws.foldl (fun fs w => w.files fs) fs

/-- The entries that are addressed to a session, those without a line left out. -/
def addressed (id : Text) (ws : List LogEntry) : List LogEntry :=
  ws.filter fun w => w.session = some id ∧ w.HasLine

theorem addressed_cons (id : Text) (w : LogEntry) (ws : List LogEntry) :
    addressed id (w :: ws) =
      if w.session = some id ∧ w.HasLine then w :: addressed id ws else addressed id ws := by
  simp only [addressed, List.filter_cons, decide_eq_true_iff]

theorem filesAll_cons (w : LogEntry) (ws : List LogEntry) (fs : Files) :
    filesAll (w :: ws) fs = filesAll ws (w.files fs) := rfl

variable {fs : Files}

theorem opened_filesAll (h : EventLog.Opened fs) (ws : List LogEntry) :
    EventLog.Opened (filesAll ws fs) := by
  induction ws generalizing fs with
  | nil => exact h
  | cons w ws ih => exact ih (w.opened_files h)

/-- A path that is changed is that of the file of all events or of a session that is addressed. -/
theorem eq_of_lookup?_filesAll_ne (h : EventLog.Opened fs) {ws : List LogEntry} {p : Path}
    (hp : (filesAll ws fs).lookup? p ≠ fs.lookup? p) :
    p = EventLog.globalFile ∨
      ∃ id, (∃ w ∈ ws, w.session = some id) ∧ EventLog.HasFile id ∧
        p = EventLog.sessionFile id := by
  induction ws generalizing fs with
  | nil => exact absurd rfl hp
  | cons w ws ih =>
      by_cases hfirst : (w.files fs).lookup? p = fs.lookup? p
      · rw [filesAll_cons, ← hfirst] at hp
        rcases ih (w.opened_files h) hp with hglobal | ⟨id, ⟨w', hw', hid⟩, hsession⟩
        · exact .inl hglobal
        · exact .inr ⟨id, ⟨w', List.mem_cons_of_mem _ hw', hid⟩, hsession⟩
      · rcases eq_of_lookup?_files_ne h hfirst with hglobal | ⟨id, hid, hsession⟩
        · exact .inl hglobal
        · exact .inr ⟨id, ⟨w, List.mem_cons_self .., hid⟩, hsession⟩

/-- The entries whose lines are added to a file. -/
def writtenTo (p : Path) (ws : List LogEntry) : List LogEntry :=
  ws.filter fun w => w.HasLine ∧ p ∈ w.paths

theorem writtenTo_cons (p : Path) (w : LogEntry) (ws : List LogEntry) :
    writtenTo p (w :: ws) =
      if w.HasLine ∧ p ∈ w.paths then w :: writtenTo p ws else writtenTo p ws := by
  simp only [writtenTo, List.filter_cons, decide_eq_true_iff]

/-- A file gets the lines of its entries, in the order in which they are written. -/
theorem bytesAt_filesAll (h : EventLog.Opened fs) (p : Path) (ws : List LogEntry) :
    (filesAll ws fs).bytesAt p = fs.bytesAt p ++ (writtenTo p ws).flatMap bytes := by
  induction ws generalizing fs with
  | nil => exact (List.append_nil _).symm
  | cons w ws ih =>
      rw [filesAll_cons, ih (w.opened_files h), bytesAt_files h w p, List.append_assoc,
        writtenTo_cons]
      split
      · rw [List.flatMap_cons]
      · rw [List.nil_append]

theorem writtenTo_sessionFile {id : Text} (hfile : EventLog.HasFile id) (ws : List LogEntry) :
    writtenTo (EventLog.sessionFile id) ws = addressed id ws :=
  List.filter_congr fun _ _ =>
    decide_eq_decide.2 (by rw [sessionFile_mem_paths hfile, and_comm])

theorem bytesAt_sessionFile_filesAll (h : EventLog.Opened fs) {id : Text}
    (hfile : EventLog.HasFile id) (ws : List LogEntry) :
    (filesAll ws fs).bytesAt (EventLog.sessionFile id) =
      fs.bytesAt (EventLog.sessionFile id) ++ (addressed id ws).flatMap bytes := by
  rw [bytesAt_filesAll h, writtenTo_sessionFile hfile]

end LogEntry

namespace EventLog

/-- The name of a file or a folder in a folder: it leads neither further down nor back up. -/
structure IsName (name : Text) : Prop where
  nonempty : name ≠ []
  slash : '/' ∉ name
  nul : '\x00' ∉ name
  here : name ≠ ['.']
  up : name ≠ ['.', '.']

theorem isName_of_isFileSafe {id : Text} (h : isFileSafe id = true) :
    IsName (id ++ ".ndjson".toList) := by
  obtain ⟨hslash, hnul⟩ := notMem_of_isFileSafe h
  have hlength (short : Text) (hshort : short.length ≤ 2) : id ++ ".ndjson".toList ≠ short := by
    intro heq
    have := congrArg List.length heq
    simp at this
    omega
  refine ⟨hlength [] (by decide), ?_, ?_, hlength _ (by decide), hlength _ (by decide)⟩
  · exact fun hmem => (List.mem_append.1 hmem).elim hslash (by decide)
  · exact fun hmem => (List.mem_append.1 hmem).elim hnul (by decide)

/-- What is read of a session are the records of its own events. -/
theorem readSession_filesAll {fs : Files} (h : Opened fs) {id : Text} (hfile : HasFile id)
    (hempty : fs.bytesAt (sessionFile id) = []) {ws : List LogEntry}
    (hkeys : ∀ w ∈ ws, w.event.HasDistinctKeys) {log : EventLog}
    (hfits : log.Fits (LogEntry.filesAll ws fs) (sessionFile id)) :
    ∃ values, log.readSession (LogEntry.filesAll ws fs) id = .ok values ∧
      List.Forall₂ Json.Same values ((LogEntry.addressed id ws).map LogEntry.record) := by
  have hmem {w : LogEntry} (hw : w ∈ LogEntry.addressed id ws) : w ∈ ws ∧ w.HasLine := by
    obtain ⟨hw, hp⟩ := List.mem_filter.1 hw
    exact ⟨hw, (of_decide_eq_true hp).2⟩
  have hread : log.readSession (LogEntry.filesAll ws fs) id =
      .ok ((LogEntry.addressed id ws).map fun w => w.record.sorted) := by
    rw [readSession, if_pos hfile.1, readFile_eq ((sessionFile_nameable id).trans hfile.2)
      ((LogEntry.opened_filesAll h ws).sessionFiles id) hfits,
      LogEntry.bytesAt_sessionFile_filesAll h hfile, hempty, List.nil_append]
    exact LogEntry.valuesIn_entries log.host.maxDepth_lt_nesting (fun w hw => (hmem hw).2)
      fun w hw => hkeys w (hmem hw).1
  exact ⟨_, hread, LogEntry.same_records fun w hw => hkeys w (hmem hw).1⟩

/-- Too long a name is refused, though nothing can have been written under it. -/
theorem readSession_of_not_hasFile (log : EventLog) (fs : Files) {id : Text}
    (hsafe : isFileSafe id = true) (hlong : ¬ HasFile id) :
    log.readSession fs id = .error (.file (fs.errorAt .nameTooLong (sessionFile id))) := by
  have hname : (sessionFile id).any Files.isTooLong = true := by
    rw [sessionFile_nameable]
    exact eq_true_of_ne_false fun hname => hlong ⟨hsafe, hname⟩
  rw [readSession, if_pos hsafe, readFile, Files.find?, if_pos hname]

/-- An id of three hundred letters can stand in a file name but has no file, and asking for its events
is an error. -/
theorem readSession_long_id : ∃ fs, prepare.run (Files.empty []) = .ok () fs ∧
    ¬ HasFile (List.replicate 300 'i') ∧
    default.readSession fs (List.replicate 300 'i') ≠ .ok [] := by
  obtain ⟨fs, hprepare⟩ := run_prepare_empty
  have hlong : ¬ HasFile (List.replicate 300 'i') := by decide +kernel
  refine ⟨fs, hprepare, hlong, ?_⟩
  rw [readSession_of_not_hasFile default fs (by decide +kernel) hlong]
  nofun

/-- Sessions do not touch each other's files, nor anything but files of the log, and of each session
with a file its own events are read. An id that cannot stand in a file name has no events, and
too long a name is an error. -/
theorem sessions_isolated {fs₀ fs₁ : Files} (hnew : IsNew fs₀)
    (hprepare : prepare.run fs₀ = .ok () fs₁) {ws : List LogEntry}
    (hkeys : ∀ w ∈ ws, w.event.HasDistinctKeys) (log : EventLog) :
    let fs₂ := LogEntry.filesAll ws fs₁
    (∀ p, fs₂.lookup? p ≠ fs₁.lookup? p → p = globalFile ∨
      ∃ id, (∃ w ∈ ws, w.session = some id) ∧ isFileSafe id = true ∧
        IsName (id ++ ".ndjson".toList) ∧ p = sessionFolder ++ [id ++ ".ndjson".toList]) ∧
    (∀ id id', sessionFile id = sessionFile id' → id = id') ∧
    (∀ id, sessionFile id ≠ globalFile) ∧
    (∀ id, HasFile id → log.Fits fs₂ (sessionFile id) →
      ∃ values, log.readSession fs₂ id = .ok values ∧
        List.Forall₂ Json.Same values ((LogEntry.addressed id ws).map LogEntry.record)) ∧
    (∀ id, isFileSafe id = false → log.readSession fs₂ id = .ok []) ∧
    ∀ id, isFileSafe id = true → ¬ HasFile id → log.readSession fs₂ id =
      .error (.file (fs₂.errorAt .nameTooLong (sessionFile id))) := by
  obtain ⟨hopened, -, hempty⟩ := opened_of_prepare hnew hprepare
  intro fs₂
  refine ⟨fun p hp => ?_, fun id id' => sessionFile_injective, sessionFile_ne_globalFile,
    fun id hfile hfits => ?_, fun id hunsafe => ?_, fun id hsafe hlong => ?_⟩
  · rcases LogEntry.eq_of_lookup?_filesAll_ne hopened hp with hglobal | ⟨id, hid, hfile, rfl⟩
    · exact .inl hglobal
    · exact .inr ⟨id, hid, hfile.1, isName_of_isFileSafe hfile.1, rfl⟩
  · exact readSession_filesAll hopened hfile (hempty id) hkeys hfits
  · rw [readSession, hunsafe]
    rfl
  · exact readSession_of_not_hasFile log fs₂ hsafe hlong

/-- A session is read that was written next to an id which leads out of the folder. -/
theorem sessions_isolated_sample : ∃ fs₁, prepare.run (Files.empty []) = .ok () fs₁ ∧
    let fs₂ := LogEntry.filesAll
      [LogEntry.sample, { LogEntry.sample with session := some "../up".toList }] fs₁
    (∃ values, default.readSession fs₂ "s".toList = .ok values ∧
      List.Forall₂ Json.Same values [LogEntry.sample.record]) ∧
    default.readSession fs₂ "../up".toList = .ok [] := by
  obtain ⟨fs₁, hprepare⟩ := run_prepare_empty
  obtain ⟨hopened, -, hempty⟩ := opened_of_prepare isNew_empty hprepare
  let ws : List LogEntry := [LogEntry.sample, { LogEntry.sample with session := some "../up".toList }]
  have hkeys : ∀ w ∈ ws, w.event.HasDistinctKeys := List.forall_mem_cons.2
    ⟨LogEntry.hasDistinctKeys_sample,
      List.forall_mem_singleton.2 LogEntry.hasDistinctKeys_sample⟩
  have hfile : HasFile "s".toList := by decide +kernel
  have haddressed : LogEntry.addressed "s".toList ws = [LogEntry.sample] := by
    rw [LogEntry.addressed_cons, if_pos ⟨rfl, LogEntry.hasLine_sample⟩, LogEntry.addressed_cons,
      if_neg (by decide +kernel)]
    rfl
  obtain ⟨-, -, -, hread, hunsafe, -⟩ := sessions_isolated isNew_empty hprepare hkeys default
  have hfits : default.Fits (LogEntry.filesAll ws fs₁) (sessionFile "s".toList) := by
    refine fits_default ?_
    rw [LogEntry.bytesAt_sessionFile_filesAll hopened hfile, hempty, haddressed,
      List.nil_append, List.flatMap_singleton]
    exact LogEntry.length_bytes_sample.trans (by decide)
  have hvalues := hread _ hfile hfits
  rw [haddressed] at hvalues
  exact ⟨fs₁, hprepare, hvalues, hunsafe _ (by decide +kernel)⟩

end EventLog

end TagFormula

import TagFormula.Event.Log
import TagFormula.Proofs.Project.Files

/-!
# What a write does to the files of a log

Once a log is open its folders are there (`Opened`), and a write changes no more than the
file of all events and, if it is addressed to a session with a file, this file
(`LogEntry.files_cases`).

An id that can stand in a file name holds neither a slash nor a null character, so the
file of a session lies in the folder of the sessions. Different ids have different files,
and none of these is the file of all events.
-/

namespace TagFormula.EventLog

/-! ## Paths -/

theorem globalFile_ne_nil : globalFile ≠ [] :=
  List.cons_ne_nil _ _

theorem sessionFile_ne_nil (id : Text) : sessionFile id ≠ [] :=
  List.cons_ne_nil _ _

theorem sessionFile_ne_globalFile (id : Text) : sessionFile id ≠ globalFile :=
  fun h => absurd (congrArg List.length h) (by simp [sessionFile, globalFile])

theorem sessionFile_injective {id id' : Text} (h : sessionFile id = sessionFile id') : id = id' := by
  simpa [sessionFile] using h

theorem globalFile_nameable : globalFile.any Files.isTooLong = false := by
  decide +kernel

theorem sessionFile_nameable (id : Text) :
    (sessionFile id).any Files.isTooLong = Files.isTooLong (id ++ ".ndjson".toList) := by
  have hfolder : Files.isTooLong "logs".toList = false := by decide +kernel
  have hsession : Files.isTooLong "sessions".toList = false := by decide +kernel
  rw [sessionFile, List.any_cons, List.any_cons, List.any_cons, hfolder, hsession, List.any_nil,
    Bool.or_false, Bool.false_or, Bool.false_or]

/-- The characters of an id that can stand in a file name. -/
theorem isIdChar_of_isFileSafe {id : Text} (h : isFileSafe id = true) {c : Char} (hc : c ∈ id) :
    isIdChar c = true ∨ c = '\n' := by
  unfold isFileSafe at h
  dsimp only at h
  split at h
  · next hlast =>
      obtain ⟨core, rfl⟩ := List.getLast?_eq_some_iff.1 hlast
      simp only [List.dropLast_concat, Bool.and_eq_true, List.all_eq_true] at h
      rcases List.mem_append.1 hc with hc | hc
      · exact .inl (h.2 c hc)
      · exact .inr (List.mem_singleton.1 hc)
  · simp only [Bool.and_eq_true, List.all_eq_true] at h
    exact .inl (h.2 c hc)

/-- The session has a file: its id can stand in a file name, and the name is not too long. -/
def HasFile (id : Text) : Prop :=
  isFileSafe id = true ∧ Files.isTooLong (id ++ ".ndjson".toList) = false

instance : DecidablePred HasFile :=
  fun _ => inferInstanceAs (Decidable (_ ∧ _))

theorem notMem_of_isFileSafe {id : Text} (h : isFileSafe id = true) : '/' ∉ id ∧ '\x00' ∉ id :=
  ⟨fun hc => absurd (isIdChar_of_isFileSafe h hc) (by decide),
    fun hc => absurd (isIdChar_of_isFileSafe h hc) (by decide)⟩

/-! ## Open logs -/

/-- The folders of the log are there, and no folder is in the place of a file. -/
structure Opened (fs : Files) : Prop where
  folder : fs.lookup? folder = some .folder
  sessionFolder : fs.lookup? sessionFolder = some .folder
  globalFile : fs.lookup? globalFile ≠ some .folder
  sessionFiles : ∀ id, fs.lookup? (sessionFile id) ≠ some .folder

/-- No event has been written: there are no files of the log. -/
structure IsNew (fs : Files) : Prop where
  globalFile : fs.lookup? globalFile = none
  sessionFiles : ∀ id, fs.lookup? (sessionFile id) = none

variable {fs : Files}

/-- Opening a log makes its two folders and changes nothing else. -/
theorem lookup?_of_prepare {fs' : Files} (h : prepare.run fs = .ok () fs') (p : Path) :
    fs'.lookup? p =
      if p = folder ∨ p = sessionFolder then some .folder else fs.lookup? p := by
  rw [prepare, EStateM.run_bind] at h
  cases hfirst : (Files.makeFolder folder).run fs with
  | error e fs₁ =>
      rw [hfirst] at h
      cases h
  | ok x fs₁ =>
      rw [hfirst] at h
      rw [Files.lookup?_of_run_makeFolder (List.cons_ne_nil _ _) h,
        Files.lookup?_of_run_makeFolder (List.cons_ne_nil _ _) hfirst, ← ite_or]
      exact if_congr or_comm rfl rfl

/-- A new log is open, and its files are empty. -/
theorem opened_of_prepare {fs' : Files} (hnew : IsNew fs) (hprepare : prepare.run fs = .ok () fs') :
    Opened fs' ∧ fs'.bytesAt globalFile = [] ∧ ∀ id, fs'.bytesAt (sessionFile id) = [] := by
  have hlookup := lookup?_of_prepare hprepare
  have hglobal : fs'.lookup? globalFile = none := by
    rw [hlookup, if_neg (by simp [globalFile, folder, sessionFolder]), hnew.globalFile]
  have hsession (id : Text) : fs'.lookup? (sessionFile id) = none := by
    rw [hlookup, if_neg (by simp [sessionFile, folder, sessionFolder]), hnew.sessionFiles]
  have hempty {p : Path} (h : fs'.lookup? p = none) : fs'.bytesAt p = [] := by
    rw [Files.bytesAt, h]
  refine ⟨⟨?_, ?_, ?_, fun id => ?_⟩, hempty hglobal, fun id => hempty (hsession id)⟩
  · rw [hlookup, if_pos (.inl rfl)]
  · rw [hlookup, if_pos (.inr rfl)]
  · rw [hglobal]
    exact (Option.some_ne_none _).symm
  · rw [hsession]
    exact (Option.some_ne_none _).symm

theorem isNew_empty : IsNew (Files.empty []) :=
  ⟨rfl, fun _ => rfl⟩

theorem run_prepare_empty : ∃ fs, prepare.run (Files.empty []) = .ok () fs :=
  ⟨_, rfl⟩

namespace Opened

theorem run_folders_global (h : Opened fs) :
    (Files.makeFolders [] EventLog.globalFile.dropLast).run fs = .ok () fs := by
  have hfirst : (Files.makeFolder ([] ++ ["logs".toList])).run fs = .ok () fs :=
    Files.run_makeFolder_of_there h.folder
  simp only [EventLog.globalFile, List.dropLast, Files.makeFolders, EStateM.run_bind, hfirst,
    EStateM.run_pure]

theorem run_folders_session (h : Opened fs) (id : Text) :
    (Files.makeFolders [] (sessionFile id).dropLast).run fs = .ok () fs := by
  have hfirst : (Files.makeFolder ([] ++ ["logs".toList])).run fs = .ok () fs :=
    Files.run_makeFolder_of_there h.folder
  have hsecond : (Files.makeFolder ([] ++ ["logs".toList] ++ ["sessions".toList])).run fs =
      .ok () fs := Files.run_makeFolder_of_there h.sessionFolder
  simp only [sessionFile, List.dropLast, Files.makeFolders, EStateM.run_bind, hfirst, hsecond,
    EStateM.run_pure]

theorem appended (h : Opened fs) {p : Path} (hp : p ≠ []) (hfolder : p ≠ EventLog.folder)
    (hsession : p ≠ EventLog.sessionFolder) (data : List UInt8) :
    Opened (fs.appended p data) := by
  have hfile {q : Path} (hq : fs.lookup? q ≠ some .folder) :
      (fs.appended p data).lookup? q ≠ some .folder := by
    by_cases hsame : q = p
    · rw [hsame, Files.lookup?_appended_self fs hp]
      nofun
    · rwa [Files.lookup?_appended_of_ne fs hp hsame]
  refine ⟨?_, ?_, hfile h.globalFile, fun id => hfile (h.sessionFiles id)⟩
  · rw [Files.lookup?_appended_of_ne fs hp hfolder.symm]
    exact h.folder
  · rw [Files.lookup?_appended_of_ne fs hp hsession.symm]
    exact h.sessionFolder

theorem appended_global (h : Opened fs) (data : List UInt8) :
    Opened (fs.appended EventLog.globalFile data) :=
  h.appended globalFile_ne_nil (by simp [EventLog.globalFile, EventLog.folder])
    (by simp [EventLog.globalFile, EventLog.sessionFolder]) data

theorem appended_session (h : Opened fs) (id : Text) (data : List UInt8) :
    Opened (fs.appended (sessionFile id) data) :=
  h.appended (sessionFile_ne_nil id) (by simp [sessionFile, EventLog.folder])
    (by simp [sessionFile, EventLog.sessionFolder]) data

end Opened

/-! ## Writes -/

theorem run_write_refused {e : Event} {time : String} {fault : EventFault}
    (hline : line e time = .error fault) (session : Option Text) (fs : Files) :
    (write e time session).run fs = .error (.event fault) fs := by
  rw [write, hline]
  rfl

section Lines

variable {e : Event} {time : String} {data : List UInt8}

theorem run_append_global (h : Opened fs) (data : List UInt8) :
    (Files.append globalFile data).run fs = .ok () (fs.appended globalFile data) :=
  Files.run_append h.run_folders_global globalFile_nameable h.globalFile data

theorem run_write (hline : line e time = .ok data) (session : Option Text) (fs : Files) :
    (write e time session).run fs = ((addLine data session).adaptExcept .file).run fs := by
  rw [write, hline]

theorem run_write_ok (hline : line e time = .ok data) {session : Option Text} {fs' : Files}
    (hadd : (addLine data session).run fs = .ok () fs') :
    (write e time session).run fs = .ok () fs' := by
  rw [EStateM.run] at hadd
  rw [run_write hline, EStateM.run, EStateM.adaptExcept, hadd]

theorem run_write_error (hline : line e time = .ok data) {session : Option Text} {fs' : Files}
    {error : FileError} (hadd : (addLine data session).run fs = .error error fs') :
    (write e time session).run fs = .error (.file error) fs' := by
  rw [EStateM.run] at hadd
  rw [run_write hline, EStateM.run, EStateM.adaptExcept, hadd]

/-- What is not addressed to a session goes to the file of all events. -/
theorem run_write_global (h : Opened fs) (hline : line e time = .ok data) {session : Option Text}
    (hsession : ∀ id ∈ session, isFileSafe id = false) :
    (write e time session).run fs = .ok () (fs.appended globalFile data) := by
  have hadd : (addLine data session).run fs = .ok () (fs.appended globalFile data) := by
    cases session with
    | none => simp only [addLine, EStateM.run_bind, run_append_global h, EStateM.run_pure]
    | some id => simp [addLine, run_append_global h, hsession id rfl]
  exact run_write_ok hline hadd

theorem run_addLine_session (h : Opened fs) {id : Text} (hsafe : isFileSafe id = true) :
    (addLine data (some id)).run fs =
      (Files.append (sessionFile id) data).run (fs.appended globalFile data) := by
  simp only [addLine, EStateM.run_bind, run_append_global h, if_pos hsafe]

/-- What is addressed to a session goes to its file as well. -/
theorem run_write_session (h : Opened fs) (hline : line e time = .ok data) {id : Text}
    (hfile : HasFile id) :
    (write e time (some id)).run fs =
      .ok () ((fs.appended globalFile data).appended (sessionFile id) data) := by
  have hadd : (addLine data (some id)).run fs =
      .ok () ((fs.appended globalFile data).appended (sessionFile id) data) := by
    rw [run_addLine_session h hfile.1]
    exact Files.run_append ((h.appended_global data).run_folders_session id)
      ((sessionFile_nameable id).trans hfile.2) ((h.appended_global data).sessionFiles id) data
  exact run_write_ok hline hadd

/-- A file with too long a name is left out. -/
theorem run_write_session_refused (h : Opened fs) (hline : line e time = .ok data) {id : Text}
    (hsafe : isFileSafe id = true) (hname : Files.isTooLong (id ++ ".ndjson".toList) = true) :
    ∃ error, (write e time (some id)).run fs = .error error (fs.appended globalFile data) := by
  obtain ⟨error, hadd⟩ := Files.run_append_refused
    ((h.appended_global data).run_folders_session id)
    ((sessionFile_nameable id).trans hname) data
  rw [← run_addLine_session h hsafe] at hadd
  exact ⟨.file error, run_write_error hline hadd⟩

end Lines

end TagFormula.EventLog

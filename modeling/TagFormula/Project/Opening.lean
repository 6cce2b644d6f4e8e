import TagFormula.Project.Config
import TagFormula.Session.Editing

/-!
# Sessions in a project

To open a session in a project the log is made ready, then the configuration is
read, then the catalog, then the number of suggestions. Each of these may fail,
and what was done before stays. The session then sends its events into the files
of the project.
-/

namespace TagFormula.Session

/-- What a session needs from a project: a catalog and a number of suggestions. -/
def setting (fs : Files) : Except ProjectError (Catalog × Int) := do
  let config ← Config.load fs
  let catalog ← config.catalog fs
  let limit ← config.suggestionLimit
  return (catalog, limit)

/-- Opens a session in a project, `now` seconds into the run. -/
def ofProject (id : Text) (now : Nat) (time : String) :
    EStateM ProjectError Files Session := fun fs =>
  match fs.apply EventLog.openProject with
  | (.error e, fs) => .error (.file e) fs
  | (.ok log?, fs) =>
    match setting fs with
    | .error e => .error e fs
    | .ok (catalog, limit) =>
      let sink := match log? with
        | some log => Sink.log log
        | none => .nowhere
      let s := startWith (.into ⟨.ofSink sink, fs, now, time⟩) catalog.search id limit
      .ok s s.outlet.surroundings.files

end TagFormula.Session

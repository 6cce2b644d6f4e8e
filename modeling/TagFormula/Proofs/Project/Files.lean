import Mathlib.Data.List.Basic
import TagFormula.Project.Files

/-!
# What actions do to files

An entry that is put at a path is found there, and everything else is found as before
(`Files.lookup?_put`). Appending to a file whose folder is there changes that file alone
(`Files.run_append`), or nothing when it is refused.
-/

namespace TagFormula.Files

section Entries

variable {xs : List (Path × Entry)} {p : Path} (e : Entry) (q : Path)

/-- An entry takes the place of the one that is there. -/
theorem find?_replaced (hthere : (xs.find? (·.1 == p)).isSome) :
    ((xs.map fun x => if x.1 = p then (p, e) else x).find? (·.1 == q)).map (·.2) =
      if q = p then some e else (xs.find? (·.1 == q)).map (·.2) := by
  have hsame : ((fun x : Path × Entry => x.1 == q) ∘ fun x => if x.1 = p then (p, e) else x) =
      fun x => x.1 == q := by
    funext x
    by_cases hx : x.1 = p <;> simp [hx]
  rw [List.find?_map, hsame]
  cases hfind : xs.find? (·.1 == q) with
  | none =>
      have hne : q ≠ p := by
        rintro rfl
        simp [hfind] at hthere
      rw [if_neg hne]
      rfl
  | some x =>
      have hx : x.1 = q := by simpa using List.find?_some hfind
      by_cases hq : q = p <;> simp [hx, hq]

/-- An entry comes behind all others if there was none. -/
theorem find?_added (hnone : xs.find? (·.1 == p) = none) :
    ((xs ++ [(p, e)]).find? (·.1 == q)).map (·.2) =
      if q = p then some e else (xs.find? (·.1 == q)).map (·.2) := by
  rw [List.find?_append]
  by_cases hq : q = p
  · subst hq
    simp [hnone]
  · simp [hq, Ne.symm hq]

end Entries

theorem lookup?_put (fs : Files) {p : Path} (hp : p ≠ []) (e : Entry) (q : Path) :
    (fs.put p e).lookup? q = if q = p then some e else fs.lookup? q := by
  by_cases hq : q = []
  · subst hq
    rw [if_neg (Ne.symm hp)]
    rfl
  rw [lookup?_eq _ hq, put, lookup?_eq fs hq, lookup?_eq fs hp, Option.isSome_map]
  by_cases hthere : (fs.entries.find? (·.1 == p)).isSome
  · rw [if_pos hthere]
    exact find?_replaced e q hthere
  · rw [if_neg hthere]
    exact find?_added e q (Option.not_isSome_iff_eq_none.1 hthere)

/-! ## Folders -/

theorem run_makeFolder_of_there {fs : Files} {p : Path} (h : fs.lookup? p = some .folder) :
    (makeFolder p).run fs = .ok () fs := by
  simp only [makeFolder, EStateM.run_bind, EStateM.run_get, h, EStateM.run_pure]

/-- A folder is made unless it is there. -/
theorem lookup?_of_run_makeFolder {fs fs' : Files} {p : Path} (hp : p ≠ [])
    (h : (makeFolder p).run fs = .ok () fs') (q : Path) :
    fs'.lookup? q = if q = p then some .folder else fs.lookup? q := by
  simp only [makeFolder, EStateM.run_bind, EStateM.run_get] at h
  cases hlookup : fs.lookup? p with
  | none =>
      rw [hlookup] at h
      cases h
      exact lookup?_put fs hp .folder q
  | some e =>
      rw [hlookup] at h
      cases e with
      | file c => cases h
      | folder =>
          cases h
          split
          · next heq => rw [heq, hlookup]
          · rfl

/-! ## Appending -/

/-- The bytes of a file; none where there is no file. -/
def bytesAt (fs : Files) (p : Path) : List UInt8 :=
  match fs.lookup? p with
  | some (.file c) => c.toBytes
  | _ => []

/-- Files after bytes have been put behind those of one. -/
def appended (fs : Files) (p : Path) (data : List UInt8) : Files :=
  fs.put p (.file (.bytes (fs.bytesAt p ++ data)))

theorem lookup?_appended_self (fs : Files) {p : Path} (hp : p ≠ []) (data : List UInt8) :
    (fs.appended p data).lookup? p = some (.file (.bytes (fs.bytesAt p ++ data))) := by
  rw [appended, lookup?_put fs hp, if_pos rfl]

theorem lookup?_appended_of_ne (fs : Files) {p q : Path} (hp : p ≠ []) (hq : q ≠ p)
    (data : List UInt8) : (fs.appended p data).lookup? q = fs.lookup? q := by
  rw [appended, lookup?_put fs hp, if_neg hq]

theorem bytesAt_appended_self (fs : Files) {p : Path} (hp : p ≠ []) (data : List UInt8) :
    (fs.appended p data).bytesAt p = fs.bytesAt p ++ data := by
  rw [bytesAt, lookup?_appended_self fs hp]
  rfl

theorem bytesAt_appended_of_ne (fs : Files) {p q : Path} (hp : p ≠ []) (hq : q ≠ p)
    (data : List UInt8) : (fs.appended p data).bytesAt q = fs.bytesAt q := by
  rw [bytesAt, bytesAt, lookup?_appended_of_ne fs hp hq]

theorem run_append {fs : Files} {p : Path}
    (hfolders : (makeFolders [] p.dropLast).run fs = .ok () fs) (hname : p.any isTooLong = false)
    (hfolder : fs.lookup? p ≠ some .folder) (data : List UInt8) :
    (append p data).run fs = .ok () (fs.appended p data) := by
  simp only [append, EStateM.run_bind, hfolders, EStateM.run_get, hname]
  cases hlookup : fs.lookup? p with
  | none => simp [appended, bytesAt, hlookup]
  | some e =>
      cases e with
      | folder => exact absurd hlookup hfolder
      | file c => simp [appended, bytesAt, hlookup]

/-- An append to a file with too long a name changes nothing. -/
theorem run_append_refused {fs : Files} {p : Path}
    (hfolders : (makeFolders [] p.dropLast).run fs = .ok () fs) (hname : p.any isTooLong = true)
    (data : List UInt8) : ∃ e, (append p data).run fs = .error e fs := by
  refine ⟨fs.errorAt .nameTooLong p, ?_⟩
  simp [append, EStateM.run_bind, hfolders, hname]

end TagFormula.Files

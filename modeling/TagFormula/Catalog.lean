import TagFormula.Json.Conversion
import TagFormula.Tag
import TagFormula.Text.LowerCase

/-!
# Catalogs of variables

A catalog is a list of suggestions, no two with the same id, in the order in
which they are offered. A search finds the entries whose name contains the term
when both are in lower case; a blank term finds nothing.

A catalog can be read from records. A record has an id, a name and a value;
records without a name are passed over, and a missing value is zero. The records
are judged one after the other, each field in turn, and only then is it asked
whether an id occurs twice.
-/

namespace TagFormula

/-- Why entries or records give no catalog. -/
inductive CatalogError where
  /-- Two entries have this id. -/
  | duplicateId (id : Int)
  /-- A record has no id. -/
  | missingId
  /-- A field of a record is no number. -/
  | field (error : ConversionError)
  /-- A record makes no suggestion. -/
  | invalid (faults : List FieldFault)
deriving DecidableEq, Repr

/-- Variables on offer. -/
structure Catalog where
  /-- The variables, in the order in which they are offered. -/
  entries : List Suggestion
  /-- No two have the same id. -/
  nodup_ids : (entries.map (·.id)).Nodup

namespace Catalog

/-- The first id that occurs twice among entries behind those with the ids
`seen`. -/
def repeatedId? (seen : List Int) : List Suggestion → Option Int
  | [] => none
  | s :: rest => if s.id ∈ seen then some s.id else repeatedId? (s.id :: seen) rest

theorem nodup_of_repeatedId? (seen : List Int) (entries : List Suggestion)
    (h : repeatedId? seen entries = none) :
    (entries.map (·.id)).Nodup ∧ ∀ s ∈ entries, s.id ∉ seen := by
  induction entries generalizing seen with
  | nil => simp
  | cons s rest ih =>
    by_cases hs : s.id ∈ seen
    · simp [repeatedId?, hs] at h
    · simp only [repeatedId?, hs, if_false] at h
      obtain ⟨hn, hr⟩ := ih _ h
      refine ⟨List.nodup_cons.2 ⟨?_, hn⟩, ?_⟩
      · intro hm
        obtain ⟨t, ht, he⟩ := List.mem_map.1 hm
        exact hr t ht (by simp [he])
      · intro t ht
        rcases List.mem_cons.1 ht with rfl | ht
        · exact hs
        · exact fun hm => hr t ht (List.mem_cons_of_mem _ hm)

/-- The catalog with the given entries. -/
def ofEntries (entries : List Suggestion) : Except CatalogError Catalog :=
  match h : repeatedId? [] entries with
  | some id => .error (.duplicateId id)
  | none => .ok ⟨entries, (nodup_of_repeatedId? [] entries h).1⟩

/-- The financial variables that are there from the start. -/
def builtInEntries : List Suggestion :=
  [⟨1, "Revenue".toList, 1000⟩, ⟨2, "Expenses".toList, 500⟩, ⟨3, "Profit".toList, 500⟩,
   ⟨4, "GrowthRate".toList, 0.1⟩, ⟨5, "TaxRate".toList, 0.2⟩, ⟨6, "Employees".toList, 50⟩,
   ⟨7, "RevenuePerEmployee".toList, 20⟩, ⟨8, "MarketingBudget".toList, 200⟩,
   ⟨9, "SalesForecast".toList, 1500⟩, ⟨10, "OperatingCosts".toList, 300⟩,
   ⟨11, "CustomerAcquisitionCost".toList, 50⟩, ⟨12, "AverageOrderValue".toList, 75⟩,
   ⟨13, "ConversionRate".toList, 0.03⟩, ⟨14, "ChurnRate".toList, 0.05⟩,
   ⟨15, "LifetimeValue".toList, 500⟩]

/-- The catalog that is there from the start. -/
def builtIn : Catalog :=
  ⟨builtInEntries, by decide⟩

/-- The number of variables. -/
def size (c : Catalog) : Nat :=
  c.entries.length

/-- Whether the name of a suggestion contains a term, in lower case. -/
def isHit (term : Text) (s : Suggestion) : Bool :=
  Text.occursIn (Text.lower term) (Text.lower s.name)

/-- The variables whose name contains a term. -/
def search (c : Catalog) (term : Text) : List Suggestion :=
  if Text.isBlank term then [] else c.entries.filter (isHit term)

/-- The first variable with a name. -/
def named? (c : Catalog) (name : Text) : Option Suggestion :=
  c.entries.find? (·.name == name)

/-! ## Records -/

/-- A field of a record, and `null` when it is missing. -/
def member (members : List (JsonString × Json)) (key : JsonString) : Json :=
  (Json.lookup? members key).getD .null

/-- The suggestion of a record with a name. -/
def suggestionOf (members : List (JsonString × Json)) : Except CatalogError Suggestion :=
  match Json.lookup? members "id" with
  | none => .error .missingId
  | some j =>
    match j.toInteger with
    | .error e => .error (.field e)
    | .ok id =>
      let value := member members "value"
      match if value.isTrue then value.toDouble else .ok 0 with
      | .error e => .error (.field e)
      | .ok value =>
        let s : Suggestion := ⟨id, (member members "name").text, value⟩
        if s.faults.isEmpty then .ok s else .error (.invalid s.faults)

/-- The suggestions of records. -/
def suggestionsOf : List Json → Except CatalogError (List Suggestion)
  | [] => .ok []
  | .object members :: rest =>
    if (member members "name").isTrue then
      match suggestionOf members with
      | .error e => .error e
      | .ok s => (suggestionsOf rest).map (s :: ·)
    else suggestionsOf rest
  | _ :: rest => suggestionsOf rest

/-- The catalog that records describe. -/
def ofRecords (records : List Json) : Except CatalogError Catalog :=
  match suggestionsOf records with
  | .error e => .error e
  | .ok entries => ofEntries entries

/-! ## Searching -/

theorem mem_search {c : Catalog} {term : Text} {s : Suggestion} :
    s ∈ c.search term ↔ Text.isBlank term = false ∧ s ∈ c.entries ∧ isHit term s = true := by
  unfold search
  split <;> simp_all [List.mem_filter]

end Catalog

namespace CatalogError

/-- The message of an error; that of faults is their list. An id with too many digits to be written
is complained of instead. -/
def message : CatalogError → String
  | duplicateId id =>
    if Literal.isLong id then Literal.limitWording ""
    else "Duplicate suggestion id: " ++ String.ofList (intText id)
  | missingId => String.ofList (Text.quoted "id".toList)
  | field error => error.message
  | invalid faults => FieldFault.describeAll faults

end CatalogError

end TagFormula

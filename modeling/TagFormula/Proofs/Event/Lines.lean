import TagFormula.Event.Log
import TagFormula.Proofs.Json.Characters
import TagFormula.Proofs.Json.Sorting
import TagFormula.Proofs.Project.Files
import TagFormula.Proofs.Text.Lines

/-!
# What is read from the lines of a log

The values in the bytes of a log are those of its parts, when every part ends with a line
feed (`IsEnded.valuesIn_append`). The line of an event holds one value, the record of the event
with its members in order (`valuesIn_line`). The context of an event is an object, so no
key comes twice in it; this is all that is assumed of an event that could be written.

Other bytes may be noise: no piece of them is JSON, nor is it so big that it is refused
for its size (`IsNoise`). Nothing is read from noise.
-/

namespace TagFormula

/-! ## Records -/

namespace Event

/-- No object in the context has a key twice. -/
def HasDistinctKeys (e : Event) : Prop :=
  Json.DistinctKeys (.object e.context)

variable {e : Event}

def recordMembers (e : Event) (time : String) : List (JsonString × Json) :=
  match e.record time with
  | .object ms => ms
  | _ => []

theorem record_eq (e : Event) (time : String) : e.record time = .object (e.recordMembers time) := rfl

theorem nodup_recordMembers (e : Event) (time : String) :
    ((e.recordMembers time).map (·.1)).Nodup := by
  simp [recordMembers, record, JsonString.ofText_inj]

/-- Apart from the context the members of a record are scalars and strings. -/
theorem forall_mem_recordMembers {P : Json → Prop} {e : Event} (time : String) (hnull : P .null)
    (hinteger : P (.integer schemaVersion)) (hstring : ∀ s, P (.string s))
    (hcontext : P (Json.object e.context).strict) : ∀ m ∈ e.recordMembers time, P m.2 := by
  simp only [recordMembers, record, List.forall_mem_cons]
  refine ⟨hinteger, hstring _, hstring _, hstring _, hcontext, hstring _, ?_, List.forall_mem_nil _⟩
  cases e.errorCode with
  | none => exact hnull
  | some code => exact hstring _

theorem HasDistinctKeys.record (h : e.HasDistinctKeys) (time : String) :
    Json.DistinctKeys (e.record time) := by
  rw [record_eq]
  exact .object (nodup_recordMembers e time)
    (forall_mem_recordMembers time .null (.integer _) .string h.strict)

/-- The record of an event can be read if its context is not too deep and its integers are not too
long. -/
theorem HasDistinctKeys.readable_record (h : e.HasDistinctKeys) {time : String}
    (hdepth : Json.membersDepth e.context ≤ maxDepth)
    (hlong : (e.record time).hasLongInteger = false) :
    Json.Readable (maxDepth + 2) (e.record time) := by
  rw [record_eq, Json.hasLongInteger, Json.membersHaveLong_eq, List.any_eq_false] at hlong
  have hversion : (Json.integer schemaVersion).hasLongInteger = false :=
    eq_false_of_ne_true (hlong ("schema_version", _) (.head _))
  rw [Json.hasLongInteger] at hversion
  have hcontext : Json.hasLongInteger (Json.object e.context).strict = false :=
    eq_false_of_ne_true (hlong ("context", _) (.tail _ (.tail _ (.tail _ (.tail _ (.head _))))))
  have hreadable : Json.Readable (maxDepth + 1) (Json.object e.context).strict := h.readable_strict
    (by rw [Json.depth, Nat.add_comm]; exact Nat.succ_le_succ hdepth) hcontext
  have hmembers := forall_mem_recordMembers (e := e) time (Json.Readable.null (maxDepth + 1))
    (.integer _ hversion) (.string _) hreadable
  rw [record_eq]
  exact .object (nodup_recordMembers e time) hmembers

end Event

namespace EventLog

/-! ## Values in bytes -/

/-- The values in the bytes of a file. -/
def valuesIn (nesting : Nat) (data : List UInt8) : Except ReadError (List Json) :=
  valuesOf nesting (Text.lines (Text.utf8Decode data))

variable {nesting : Nat}

theorem valuesOf_cons_of_malformed {t : Text}
    (h : Json.parse nesting (Text.strip t) = .error .malformed) (ts : List Text) :
    valuesOf nesting (t :: ts) = valuesOf nesting ts := by
  rw [valuesOf, h, ite_self]

theorem valuesOf_cons_of_parse {t : Text} {j : Json}
    (h : Json.parse nesting (Text.strip t) = .ok j) (ts : List Text) :
    valuesOf nesting (t :: ts) = (valuesOf nesting ts).map (j :: ·) := by
  have hsome : ¬ (Text.strip t).isEmpty = true := by
    intro hempty
    rw [List.isEmpty_iff.1 hempty] at h
    cases h
  rw [valuesOf, if_neg hsome, h]

/-- If lines are read, the first is passed over or holds a value, and the others are read. -/
theorem valuesOf_cons_eq_ok {t : Text} {ts : List Text} {values : List Json}
    (h : valuesOf nesting (t :: ts) = .ok values) :
    (Json.parse nesting (Text.strip t) = .error .malformed ∧ valuesOf nesting ts = .ok values) ∨
      ∃ j later, Json.parse nesting (Text.strip t) = .ok j ∧ valuesOf nesting ts = .ok later ∧
        values = j :: later := by
  rw [valuesOf] at h
  split at h
  · next hblank =>
      rw [List.isEmpty_iff.1 hblank]
      exact .inl ⟨rfl, h⟩
  · cases hparse : Json.parse nesting (Text.strip t) with
    | ok j =>
        rw [hparse] at h
        cases hlater : valuesOf nesting ts with
        | error e =>
            rw [hlater] at h
            cases h
        | ok later =>
            rw [hlater] at h
            exact .inr ⟨j, later, rfl, rfl, (Except.ok.inj h).symm⟩
    | error e =>
        rw [hparse] at h
        cases e with
        | malformed => exact .inl ⟨rfl, h⟩
        | integerTooLong _ => cases h
        | tooDeep _ => cases h

theorem valuesOf_append {ts us : List Text} {a b : List Json} (ha : valuesOf nesting ts = .ok a)
    (hb : valuesOf nesting us = .ok b) : valuesOf nesting (ts ++ us) = .ok (a ++ b) := by
  induction ts generalizing a with
  | nil =>
      obtain rfl : [] = a := Except.ok.inj ha
      exact hb
  | cons t ts ih =>
      rw [List.cons_append]
      rcases valuesOf_cons_eq_ok ha with ⟨hparse, ha⟩ | ⟨j, more, hparse, hmore, rfl⟩
      · rw [valuesOf_cons_of_malformed hparse]
        exact ih ha
      · rw [valuesOf_cons_of_parse hparse, ih hmore]
        rfl

theorem valuesIn_nil : valuesIn nesting [] = .ok [] := rfl

/-- Bytes that end with a line feed, or no bytes. -/
def IsEnded (data : List UInt8) : Prop :=
  data = [] ∨ data.getLast? = some 10

/-- Bytes that end with a line feed are read on their own. -/
theorem IsEnded.valuesIn_append {data more : List UInt8} {a b : List Json} (hended : IsEnded data)
    (ha : valuesIn nesting data = .ok a) (hb : valuesIn nesting more = .ok b) :
    valuesIn nesting (data ++ more) = .ok (a ++ b) := by
  rcases hended with rfl | hlast
  · obtain rfl : [] = a := Except.ok.inj ha
    exact hb
  · obtain ⟨xs, rfl⟩ := List.getLast?_eq_some_iff.1 hlast
    obtain ⟨t, ht⟩ := Text.utf8Decode_lineFeed xs
    rw [valuesIn, ht, Text.utf8Decode_nil] at ha
    rw [valuesIn, List.append_assoc, List.singleton_append, ht, Text.lines_lineFeed]
    exact valuesOf_append ha hb

theorem valuesIn_flatMap {α : Type} {g : α → List UInt8} {v : α → List Json} (xs : List α)
    (hended : ∀ x ∈ xs, IsEnded (g x)) (h : ∀ x ∈ xs, valuesIn nesting (g x) = .ok (v x)) :
    valuesIn nesting (xs.flatMap g) = .ok (xs.flatMap v) := by
  induction xs with
  | nil => exact valuesIn_nil
  | cons x xs ih =>
      obtain ⟨hfirst, hlater⟩ := List.forall_mem_cons.1 hended
      obtain ⟨hx, hxs⟩ := List.forall_mem_cons.1 h
      exact hfirst.valuesIn_append hx (ih hlater hxs)

/-! ## Noise -/

/-- Bytes that end with a line feed and no line of which is read: each is blank or not JSON, and none
is refused for its depth or for the length of an integer. -/
structure IsNoise (nesting : Nat) (data : List UInt8) : Prop where
  ended : IsEnded data
  malformed : ∀ t ∈ Text.lines (Text.utf8Decode data),
    Json.parse nesting (Text.strip t) = .error .malformed

theorem IsNoise.valuesIn {data : List UInt8} (h : IsNoise nesting data) :
    valuesIn nesting data = .ok [] := by
  have hvalues (ts : List Text)
      (hts : ∀ t ∈ ts, Json.parse nesting (Text.strip t) = .error .malformed) :
      valuesOf nesting ts = .ok [] := by
    induction ts with
    | nil => rfl
    | cons t ts ih =>
        obtain ⟨ht, hts⟩ := List.forall_mem_cons.1 hts
        rw [valuesOf_cons_of_malformed ht, ih hts]
  exact hvalues _ h.malformed

/-! ## Lines of events -/

theorem line_eq_ok {e : Event} {time : String} {data : List UInt8} (h : line e time = .ok data) :
    data = lineOf (e.record time) ∧ Json.membersDepth e.context ≤ Event.maxDepth ∧
      (e.record time).hasLongInteger = false := by
  unfold line Event.toJson at h
  split at h
  · exact nomatch h
  · next j hj =>
      split at hj
      · exact nomatch hj
      · next hdepth =>
          obtain rfl := Except.ok.inj hj
          split at h
          · exact nomatch h
          · next hlong =>
              exact ⟨(Except.ok.inj h).symm, Nat.not_lt.1 hdepth, eq_false_of_ne_true hlong⟩

theorem isEnded_lineOf (j : Json) : IsEnded (lineOf j) := by
  have hfeed : Text.utf8Encode ['\n'] = [10] := rfl
  refine .inr ?_
  rw [lineOf, Text.utf8Encode_append, hfeed, List.getLast?_concat]

/-- A readable object is read from its line with its members in order. -/
theorem valuesIn_lineOf {ms : List (JsonString × Json)}
    (h : Json.Readable nesting (.object ms)) :
    valuesIn nesting (lineOf (.object ms)) = .ok [(Json.object ms).sorted] := by
  have hsorted := h.sorted
  have hgraphic := Json.graphic_compact hsorted
  let t := (Json.object ms).sorted.compact
  have hascii : ∀ c ∈ t ++ ['\n'], c.toNat < 0x80 := by
    intro c hc
    rcases List.mem_append.1 hc with hc | hc
    · exact Nat.lt_of_le_of_lt (hgraphic c hc).2 (by decide)
    · rw [List.mem_singleton.1 hc]
      decide
  have hdecode : Text.utf8Decode (lineOf (.object ms)) = t ++ ['\n'] := by
    have h := Text.utf8Decode_utf8Encode_ascii hascii []
    rwa [List.append_nil, Text.utf8Decode_nil, List.append_nil] at h
  have hunbroken : ∀ c ∈ t, Text.endsLine c = false := by
    intro c hc
    obtain ⟨h₀, h₁⟩ := hgraphic c hc
    simp only [Text.endsLine, Text.inRanges, Text.lineEndRanges, List.any_cons, List.any_nil,
      Bool.or_false, Bool.or_eq_false_iff, Bool.and_eq_false_iff, decide_eq_false_iff_not]
    omega
  have hstrip : Text.strip t = t :=
    Text.strip_of_ends (c := '\x7b') (d := '\x7d')
      (t := Json.compactMembers (Json.sortMembers (Json.sortedMembers ms))) rfl rfl
  have hne : t.isEmpty = false := rfl
  rw [valuesIn, hdecode, Text.lines_unbroken hunbroken, valuesOf, hstrip, hne,
    Json.parse_compact hsorted]
  rfl

theorem valuesIn_line {e : Event} {time : String} {data : List UInt8} (hkeys : e.HasDistinctKeys)
    (hroom : Event.maxDepth + 2 ≤ nesting) (h : line e time = .ok data) :
    valuesIn nesting data = .ok [(e.record time).sorted] := by
  obtain ⟨rfl, hdepth, hlong⟩ := line_eq_ok h
  exact valuesIn_lineOf ((hkeys.readable_record hdepth hlong).mono hroom)

/-! ## Files -/

/-- A file is no longer than what is read of it, and one read gives all of it. -/
def Fits (log : EventLog) (fs : Files) (p : Path) : Prop :=
  ∀ c, fs.lookup? p = some (.file c) →
    (c.toBytes.length : Int) ≤ log.tailBytes ∧ c.toBytes.length ≤ log.host.chunk

theorem fits_of_length_bytesAt {log : EventLog} {fs : Files} {p : Path}
    (htail : ((fs.bytesAt p).length : Int) ≤ log.tailBytes)
    (hchunk : (fs.bytesAt p).length ≤ log.host.chunk) : log.Fits fs p := by
  intro c hc
  rw [Files.bytesAt, hc] at htail hchunk
  exact ⟨htail, hchunk⟩

/-- A small file fits the log as it is if nothing else is said. -/
theorem fits_default {fs : Files} {p : Path} (h : (fs.bytesAt p).length ≤ 1000) :
    default.Fits fs p :=
  fits_of_length_bytesAt ((Int.ofNat_le.2 h).trans (by decide)) (h.trans (by decide))

theorem readFile_of_tail {log : EventLog} {fs : Files} {p : Path}
    (hname : p.any Files.isTooLong = false) (hfolder : fs.lookup? p ≠ some .folder)
    {data : List UInt8}
    (htail : ∀ c, fs.lookup? p = some (.file c) → log.tail c.toBytes = .ok data)
    (hnone : fs.lookup? p = none → data = []) :
    log.readFile fs p = valuesIn log.host.nesting data := by
  have hfind : fs.find? p = .ok (fs.lookup? p) := by
    rw [Files.find?, hname]
    rfl
  rw [readFile, hfind]
  cases hlookup : fs.lookup? p with
  | none =>
      rw [hnone hlookup]
      rfl
  | some entry =>
      cases entry with
      | folder => exact absurd hlookup hfolder
      | file c =>
          simp only [htail c hlookup]
          rfl

theorem readFile_eq {log : EventLog} {fs : Files} {p : Path} (hname : p.any Files.isTooLong = false)
    (hfolder : fs.lookup? p ≠ some .folder) (hfits : log.Fits fs p) :
    log.readFile fs p = valuesIn log.host.nesting (fs.bytesAt p) := by
  refine readFile_of_tail hname hfolder (fun c hc => ?_) fun hnone => ?_
  · obtain ⟨htail, hchunk⟩ := hfits c hc
    simp [Files.bytesAt, hc, tail, readSize, htail, List.take_of_length_le hchunk]
  · rw [Files.bytesAt, hnone]

end EventLog

end TagFormula

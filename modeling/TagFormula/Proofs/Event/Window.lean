import TagFormula.Proofs.Event.Isolation

/-!
# The window at the end of a log

A file of a log that is longer than what is read of it is read through a window, the last so
many bytes. The first line in the window is dropped, since it may be cut. So of the entries in
the file those are read whose lines begin behind the first byte of the window
(`EventLog.within`): they are the last that were written, without a gap, and a wider window
shows no fewer of them (`EventLog.window_shows_suffix`). The window is asked for in one read, and
where the system gives less than the window the latest entries are missing, so this is said of
systems that give all of it (`EventLog.ReadsAtOnce`).

The byte in front of the window is not looked at, so the first line is dropped also when it is
whole. Any other line that lies in the window is read, but one that begins where the window
begins is lost, and this can be the line of the latest event
(`EventLog.window_shows_whole_lines`).
-/

namespace TagFormula

namespace EventLog

/-! ## Lines of bytes -/

/-- Bytes with a line feed at their end and nowhere else. -/
def IsLine (data : List UInt8) : Prop :=
  ∃ front, data = front ++ [10] ∧ 10 ∉ front

theorem IsLine.length_pos {data : List UInt8} (h : IsLine data) : 0 < data.length := by
  obtain ⟨front, rfl, -⟩ := h
  rw [List.length_append]
  exact Nat.succ_pos _

/-- What is left of a line is a line. -/
theorem IsLine.drop {data : List UInt8} (h : IsLine data) {n : Nat} (hn : n < data.length) :
    IsLine (data.drop n) := by
  obtain ⟨front, rfl, hfeed⟩ := h
  rw [List.length_append, List.length_singleton, Nat.lt_succ_iff] at hn
  refine ⟨front.drop n, List.drop_append_of_le_length hn, fun hmem => hfeed ?_⟩
  exact List.mem_of_mem_drop hmem

theorem isLine_lineOf {nesting : Nat} {ms : List (JsonString × Json)}
    (h : Json.Readable nesting (.object ms)) : IsLine (lineOf (.object ms)) := by
  have hgraphic := Json.graphic_compact h.sorted
  refine ⟨_, Text.utf8Encode_append .., fun hmem => ?_⟩
  obtain ⟨c, hc, hbyte⟩ := List.mem_flatMap.1 hmem
  obtain ⟨h₀, h₁⟩ := hgraphic c hc
  rw [Text.utf8EncodeChar_ascii (by omega), List.mem_singleton] at hbyte
  have hten := congrArg UInt8.toNat hbyte
  rw [UInt8.toNat_ofNat'] at hten
  change 10 = c.toNat % 2 ^ 8 at hten
  omega

theorem afterFirstLine_append {front : List UInt8} (h : 10 ∉ front) (rest : List UInt8) :
    afterFirstLine (front ++ 10 :: rest) = rest := by
  have hfront : ∀ b ∈ front, decide (b ≠ 10) = true := fun b hb =>
    decide_eq_true fun heq => h (heq ▸ hb)
  have hfeed : (front ++ 10 :: rest).contains 10 = true :=
    List.contains_iff_mem.2 (List.mem_append_right _ (List.mem_cons_self ..))
  rw [afterFirstLine, if_pos hfeed, List.dropWhile_append_of_pos hfront,
    List.dropWhile_cons_of_neg (by decide), List.drop_one, List.tail_cons]

end EventLog

namespace LogEntry

theorem isLine_bytes {w : LogEntry} (hline : w.HasLine) (hkeys : w.event.HasDistinctKeys) :
    EventLog.IsLine w.bytes := by
  obtain ⟨hbytes, hdepth, hlong⟩ := EventLog.line_eq_ok (line_eq_bytes hline)
  rw [hbytes]
  exact EventLog.isLine_lineOf (hkeys.readable_record hdepth hlong)

/-! ## Entries behind an offset -/

/-- The entries whose lines begin behind an offset. -/
def behind (start : Nat) : List LogEntry → List LogEntry
  | [] => []
  | w :: ws => if start < w.bytes.length then ws else behind (start - w.bytes.length) ws

theorem behind_suffix (start : Nat) (ws : List LogEntry) : behind start ws <:+ ws := by
  induction ws generalizing start with
  | nil => exact List.suffix_rfl
  | cons w ws ih =>
      rw [behind]
      split
      · exact List.suffix_cons ..
      · exact (ih _).trans (List.suffix_cons ..)

/-- Entries are left out whose lines lie in front of the offset. -/
theorem behind_append (before later : List LogEntry) (start : Nat) :
    behind ((before.flatMap bytes).length + start) (before ++ later) = behind start later := by
  induction before with
  | nil => rw [List.flatMap_nil, List.length_nil, Nat.zero_add, List.nil_append]
  | cons w before ih =>
      rw [List.flatMap_cons, List.length_append, List.cons_append, behind, if_neg (by omega), ← ih]
      congr 1
      omega

/-- Entries are kept whose lines begin behind the offset. -/
theorem suffix_behind_append {before : List LogEntry} {start : Nat}
    (h : start < (before.flatMap bytes).length) (later : List LogEntry) :
    later <:+ behind start (before ++ later) := by
  induction before generalizing start with
  | nil => exact absurd h (Nat.not_lt_zero _)
  | cons w before ih =>
      rw [List.flatMap_cons, List.length_append] at h
      rw [List.cons_append, behind]
      split
      · exact List.suffix_append ..
      · exact ih (by omega)

/-- Of lines from any byte on those are left, the first dropped, that begin behind this byte. -/
theorem afterFirstLine_drop {ws : List LogEntry} (hlines : ∀ w ∈ ws, EventLog.IsLine w.bytes)
    (start : Nat) :
    EventLog.afterFirstLine ((ws.flatMap bytes).drop start) = (behind start ws).flatMap bytes := by
  -- By induction on the lines; the one that holds the byte is cut and dropped.
  induction ws generalizing start with
  | nil => rw [List.flatMap_nil, List.drop_nil, behind]; rfl
  | cons w ws ih =>
      obtain ⟨hw, hws⟩ := List.forall_mem_cons.1 hlines
      rw [List.flatMap_cons, behind]
      split
      · next hstart =>
          obtain ⟨front, hfront, hfeed⟩ := hw.drop hstart
          rw [List.drop_append_of_le_length hstart.le, hfront, List.append_assoc,
            List.singleton_append, EventLog.afterFirstLine_append hfeed]
      · next hstart =>
          rw [List.drop_append, List.drop_eq_nil_of_le (Nat.not_lt.1 hstart), List.nil_append,
            ih hws]

end LogEntry

namespace EventLog

/-! ## The entries that are read -/

/-- The entries of a file that are read: all if they fit, or else those whose lines begin behind the
first byte of the window. -/
def within (log : EventLog) (ws : List LogEntry) : List LogEntry :=
  let size := (ws.flatMap LogEntry.bytes).length
  if (size : Int) ≤ log.tailBytes then ws else LogEntry.behind (size - log.tailBytes.toNat) ws

theorem within_suffix (log : EventLog) (ws : List LogEntry) : log.within ws <:+ ws := by
  rw [within]
  split
  · exact List.suffix_rfl
  · exact LogEntry.behind_suffix ..

variable {log : EventLog}

/-- Whatever lies behind the first byte of the window is read. -/
theorem suffix_within {before later : List LogEntry}
    (h : before = [] ∨ ((later.flatMap LogEntry.bytes).length : Int) < log.tailBytes)
    (hlater : ((later.flatMap LogEntry.bytes).length : Int) ≤ log.tailBytes) :
    later <:+ log.within (before ++ later) := by
  rw [within]
  split
  · exact List.suffix_append ..
  · next hlong =>
      rw [List.flatMap_append, List.length_append] at hlong ⊢
      refine LogEntry.suffix_behind_append ?_ later
      rcases h with rfl | h
      · exact absurd hlater (by simpa using hlong)
      · omega

/-- A line that begins where the window begins is not read. -/
theorem within_of_begins {before later : List LogEntry} {w : LogEntry}
    (hbefore : 0 < (before.flatMap LogEntry.bytes).length) (hw : 0 < w.bytes.length)
    (h : (((w :: later).flatMap LogEntry.bytes).length : Int) = log.tailBytes) :
    log.within (before ++ w :: later) = later := by
  have hstart : ((before ++ w :: later).flatMap LogEntry.bytes).length - log.tailBytes.toNat =
      (before.flatMap LogEntry.bytes).length + 0 := by
    rw [List.flatMap_append, List.length_append]
    omega
  have hlong : ¬ (((before ++ w :: later).flatMap LogEntry.bytes).length : Int) ≤
      log.tailBytes := by
    rw [List.flatMap_append, List.length_append]
    omega
  rw [within, if_neg hlong, hstart, LogEntry.behind_append, LogEntry.behind, if_pos hw]

/-! ## Reading files -/

/-- The bytes that are read of a file. -/
def window (log : EventLog) (data : List UInt8) : List UInt8 :=
  if (data.length : Int) ≤ log.tailBytes then data.take log.host.chunk
  else afterFirstLine ((data.drop (data.length - log.tailBytes.toNat)).take log.host.chunk)

/-- One read gives all that is asked for in a file of some size. -/
def ReadsAtOnce (log : EventLog) (size : Nat) : Prop :=
  min (size : Int) log.tailBytes ≤ log.host.chunk

theorem window_of_readsAtOnce {data : List UInt8} (h : log.ReadsAtOnce data.length) :
    log.window data =
      if (data.length : Int) ≤ log.tailBytes then data
      else afterFirstLine (data.drop (data.length - log.tailBytes.toNat)) := by
  rw [ReadsAtOnce] at h
  rw [window]
  split
  · next hfits =>
      rw [List.take_of_length_le (by omega)]
  · next hlong =>
      rw [List.take_of_length_le (by rw [List.length_drop]; omega)]

theorem tail_eq (htail : 0 ≤ log.tailBytes) {data : List UInt8}
    (hsize : (data.length : Int) ≤ maxOffset) : log.tail data = .ok (log.window data) := by
  by_cases hfits : (data.length : Int) ≤ log.tailBytes
  · simp [tail, readSize, window, hfits]
  · have hread : log.readSize data.length = .ok log.tailBytes.toNat := by
      rw [readSize, if_neg hfits, if_neg (by omega), if_neg (by omega)]
    have hlong : log.tailBytes.toNat < data.length := by omega
    rw [tail, hread, window, if_neg hfits]
    simp only [if_pos hlong]

theorem readFile_window {fs : Files} {p : Path} (hname : p.any Files.isTooLong = false)
    (hfolder : fs.lookup? p ≠ some .folder) (htail : 0 ≤ log.tailBytes)
    (hsize : ((fs.bytesAt p).length : Int) ≤ maxOffset) :
    log.readFile fs p = valuesIn log.host.nesting (log.window (fs.bytesAt p)) := by
  rw [Files.bytesAt] at hsize ⊢
  refine readFile_of_tail hname hfolder (fun c hc => ?_) fun hnone => ?_
  · rw [hc] at hsize ⊢
    exact tail_eq htail hsize
  · rw [hnone]
    exact (if_pos htail).trans List.take_nil

theorem readFile_within {fs : Files} {p : Path} (hname : p.any Files.isTooLong = false)
    (hfolder : fs.lookup? p ≠ some .folder) {ws : List LogEntry}
    (hbytes : fs.bytesAt p = ws.flatMap LogEntry.bytes) (hlines : ∀ w ∈ ws, w.HasLine)
    (hkeys : ∀ w ∈ ws, w.event.HasDistinctKeys) (htail : 0 ≤ log.tailBytes)
    (hsize : ((fs.bytesAt p).length : Int) ≤ maxOffset)
    (hread : log.ReadsAtOnce (fs.bytesAt p).length) :
    log.readFile fs p = .ok ((log.within ws).map fun w => w.record.sorted) := by
  have hwindow : log.window (fs.bytesAt p) = (log.within ws).flatMap LogEntry.bytes := by
    rw [window_of_readsAtOnce hread, hbytes, within]
    split
    · rfl
    · exact LogEntry.afterFirstLine_drop
        (fun w hw => LogEntry.isLine_bytes (hlines w hw) (hkeys w hw)) _
  have hmem {w : LogEntry} (hw : w ∈ log.within ws) : w ∈ ws := (within_suffix log ws).mem hw
  rw [readFile_window hname hfolder htail hsize, hwindow]
  exact LogEntry.valuesIn_entries log.host.maxDepth_lt_nesting (fun w hw => hlines w (hmem hw))
    fun w hw => hkeys w (hmem hw)

/-! ## The files of a log -/

/-- A file of a log: that of all events, or that of a session. -/
def IsFile (p : Path) : Prop :=
  p = globalFile ∨ ∃ id, HasFile id ∧ p = sessionFile id

theorem IsFile.nameable {p : Path} (h : IsFile p) : p.any Files.isTooLong = false := by
  rcases h with rfl | ⟨id, hfile, rfl⟩
  · exact globalFile_nameable
  · rw [sessionFile_nameable, hfile.2]

theorem IsFile.not_folder {p : Path} (h : IsFile p) {fs : Files} (hopened : Opened fs) :
    fs.lookup? p ≠ some .folder := by
  rcases h with rfl | ⟨id, -, rfl⟩
  · exact hopened.globalFile
  · exact hopened.sessionFiles id

/-- What is read of a file, the oldest first, are the records of entries. -/
def Reads (log : EventLog) (fs : Files) (p : Path) (ws : List LogEntry) : Prop :=
  ∃ values, log.readFile fs p = .ok values ∧
    List.Forall₂ Json.Same values (ws.map LogEntry.record)

section Written

variable {fs₀ fs₁ : Files} {ws : List LogEntry} {p : Path}

theorem bytesAt_written (hnew : IsNew fs₀) (hprepare : prepare.run fs₀ = .ok () fs₁)
    (hp : IsFile p) (ws : List LogEntry) :
    (LogEntry.filesAll ws fs₁).bytesAt p =
      (LogEntry.writtenTo p ws).flatMap LogEntry.bytes := by
  obtain ⟨hopened, hglobal, hsession⟩ := opened_of_prepare hnew hprepare
  have hempty : fs₁.bytesAt p = [] := by
    rcases hp with rfl | ⟨id, -, rfl⟩
    · exact hglobal
    · exact hsession id
  rw [LogEntry.bytesAt_filesAll hopened, hempty, List.nil_append]

theorem reads_within (hnew : IsNew fs₀) (hprepare : prepare.run fs₀ = .ok () fs₁)
    (hkeys : ∀ w ∈ ws, w.event.HasDistinctKeys) (hp : IsFile p) (htail : 0 ≤ log.tailBytes)
    (hsize : (((LogEntry.filesAll ws fs₁).bytesAt p).length : Int) ≤ maxOffset)
    (hread : log.ReadsAtOnce ((LogEntry.filesAll ws fs₁).bytesAt p).length) :
    log.Reads (LogEntry.filesAll ws fs₁) p (log.within (LogEntry.writtenTo p ws)) := by
  obtain ⟨hopened, -, -⟩ := opened_of_prepare hnew hprepare
  have hopened' := LogEntry.opened_filesAll hopened ws
  have hmem {w : LogEntry} (hw : w ∈ LogEntry.writtenTo p ws) : w ∈ ws ∧ w.HasLine := by
    obtain ⟨hw, hline⟩ := List.mem_filter.1 hw
    exact ⟨hw, (of_decide_eq_true hline).1⟩
  have hwritten : ∀ w ∈ LogEntry.writtenTo p ws, w.event.HasDistinctKeys :=
    fun w hw => hkeys w (hmem hw).1
  refine ⟨_, readFile_within hp.nameable (hp.not_folder hopened')
    (bytesAt_written hnew hprepare hp ws) (fun w hw => (hmem hw).2) hwritten htail hsize hread, ?_⟩
  exact LogEntry.same_records fun w hw => hwritten w ((within_suffix log _).mem hw)

theorem writtenTo_globalFile (hlines : ∀ w ∈ ws, w.HasLine) :
    LogEntry.writtenTo globalFile ws = ws :=
  List.filter_eq_self.2 fun w hw =>
    decide_eq_true ⟨hlines w hw, LogEntry.mem_paths.2 (.inl rfl)⟩

/-- The same warning, written twice. -/
def twice : List LogEntry :=
  [LogEntry.sample, LogEntry.sample]

theorem forall_mem_twice {P : LogEntry → Prop} (h : P LogEntry.sample) : ∀ w ∈ twice, P w :=
  List.forall_mem_cons.2 ⟨h, List.forall_mem_singleton.2 h⟩

theorem writtenTo_twice : LogEntry.writtenTo globalFile twice = twice :=
  writtenTo_globalFile (forall_mem_twice LogEntry.hasLine_sample)

theorem length_bytesAt_twice_le (hnew : IsNew fs₀) (hprepare : prepare.run fs₀ = .ok () fs₁) :
    ((LogEntry.filesAll twice fs₁).bytesAt globalFile).length ≤ 600 := by
  have hsample := LogEntry.length_bytes_sample
  rw [bytesAt_written hnew hprepare (.inl rfl), writtenTo_twice, twice, List.flatMap_cons,
    List.flatMap_singleton, List.length_append]
  omega

/-- An entry whose whole line lies in the window is read, and so are all later ones, unless its line
begins where the window begins and there are entries before it; then only the later ones are
read. -/
theorem window_shows_whole_lines (hnew : IsNew fs₀) (hprepare : prepare.run fs₀ = .ok () fs₁)
    (hkeys : ∀ w ∈ ws, w.event.HasDistinctKeys) (hp : IsFile p)
    (hsize : (((LogEntry.filesAll ws fs₁).bytesAt p).length : Int) ≤ maxOffset)
    (log : EventLog) (hread : log.ReadsAtOnce ((LogEntry.filesAll ws fs₁).bytesAt p).length)
    {before later : List LogEntry} {w : LogEntry} (hwritten : LogEntry.writtenTo p ws = before ++ w :: later)
    (hinside : (((w :: later).flatMap LogEntry.bytes).length : Int) ≤ log.tailBytes) :
    let size := ((w :: later).flatMap LogEntry.bytes).length
    ∃ shown, log.Reads (LogEntry.filesAll ws fs₁) p shown ∧
      shown <:+ LogEntry.writtenTo p ws ∧
      (before = [] ∨ (size : Int) < log.tailBytes → w :: later <:+ shown) ∧
      (before ≠ [] → (size : Int) = log.tailBytes → shown = later) := by
  intro size
  have htail : 0 ≤ log.tailBytes := (Int.natCast_nonneg _).trans hinside
  have hpositive : ∀ w' ∈ before ++ w :: later, 0 < w'.bytes.length := by
    intro w' hw'
    rw [← hwritten] at hw'
    obtain ⟨hmem, hline⟩ := List.mem_filter.1 hw'
    exact (LogEntry.isLine_bytes (of_decide_eq_true hline).1 (hkeys w' hmem)).length_pos
  refine ⟨_, reads_within hnew hprepare hkeys hp htail hsize hread, within_suffix log _, ?_, ?_⟩
  · rw [hwritten]
    exact fun h => suffix_within h hinside
  · intro hbefore hbegins
    rw [hwritten]
    cases before with
    | nil => exact absurd rfl hbefore
    | cons w' before =>
        refine within_of_begins ?_ (hpositive w (by simp)) hbegins
        rw [List.flatMap_cons, List.length_append]
        exact Nat.add_pos_left (hpositive w' (List.mem_cons_self ..)) _

/-- Of two entries the later one is read through a window a byte longer than its line, and neither
through a window just as long. -/
theorem window_shows_whole_lines_sample : ∃ fs₁, prepare.run (Files.empty []) = .ok () fs₁ ∧
    let fs₂ := LogEntry.filesAll twice fs₁
    (∃ shown, [LogEntry.sample] <:+ shown ∧
      EventLog.Reads ⟨false, LogEntry.sample.bytes.length + 1, .usual⟩ fs₂ globalFile shown) ∧
    EventLog.Reads ⟨false, LogEntry.sample.bytes.length, .usual⟩ fs₂ globalFile [] := by
  obtain ⟨fs₁, hprepare⟩ := run_prepare_empty
  have hkeys : ∀ w ∈ twice, w.event.HasDistinctKeys :=
    forall_mem_twice LogEntry.hasDistinctKeys_sample
  have hlength := Int.ofNat_le.2 (length_bytesAt_twice_le isNew_empty hprepare)
  have hsize : (((LogEntry.filesAll twice fs₁).bytesAt globalFile).length : Int) ≤ maxOffset :=
    hlength.trans (by decide)
  have hread (tailBytes : Int) : ReadsAtOnce ⟨false, tailBytes, .usual⟩
      ((LogEntry.filesAll twice fs₁).bytesAt globalFile).length :=
    have hchunk : ((600 : Nat) : Int) ≤ Host.usual.chunk := by decide
    (min_le_left _ _).trans (hlength.trans hchunk)
  have hwritten : LogEntry.writtenTo globalFile twice =
      [LogEntry.sample] ++ LogEntry.sample :: [] := writtenTo_twice
  have hline : ([LogEntry.sample].flatMap LogEntry.bytes).length =
      LogEntry.sample.bytes.length := by
    rw [List.flatMap_singleton]
  have hwider : (([LogEntry.sample].flatMap LogEntry.bytes).length : Int) <
      LogEntry.sample.bytes.length + 1 := by omega
  obtain ⟨shown, hreads, -, hwhole, -⟩ := window_shows_whole_lines isNew_empty hprepare hkeys
    (.inl rfl) hsize ⟨false, LogEntry.sample.bytes.length + 1, .usual⟩ (hread _) hwritten hwider.le
  obtain ⟨shown', hreads', -, -, hlost⟩ := window_shows_whole_lines isNew_empty hprepare hkeys
    (.inl rfl) hsize ⟨false, LogEntry.sample.bytes.length, .usual⟩ (hread _) hwritten (by rw [hline])
  rw [hlost (List.cons_ne_nil _ _) (by rw [hline])] at hreads'
  exact ⟨fs₁, hprepare, ⟨shown, hwhole (.inr hwider), hreads⟩, hreads'⟩

end Written

end EventLog

end TagFormula

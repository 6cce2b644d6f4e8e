import TagFormula.Proofs.Event.Filter
import TagFormula.Proofs.Slice

/-!
# The log of all events tells its history

Events are written to a log one after the other, and in between others put bytes behind
them that are not JSON. The file of all events then holds the bytes of these steps in their
order (`run_history`), so its values are the records of the events that were written. A
filter keeps those of the wanted events, and what is read are the latest of them, the last
one first (`read_history`).

What is read is the record of an event as an object: its members come in another order.
-/

namespace TagFormula

/-- What happens to the file of all events: an event is written, or somebody else puts bytes behind
all others. -/
inductive LogStep where
  | write (w : LogEntry)
  | foreign (data : List UInt8)

namespace LogStep

def run : LogStep → EStateM WriteError Files Unit
  | .write w => w.write
  | .foreign data => (Files.append EventLog.globalFile data).adaptExcept .file

/-- Takes steps one after the other; the first that fails ends it. -/
def runAll : List LogStep → EStateM WriteError Files Unit
  | [] => pure ()
  | step :: rest => do
    step.run
    runAll rest

/-- The bytes that a step puts behind all others. -/
def bytes : LogStep → List UInt8
  | .write w => w.bytes
  | .foreign data => data

def written? : LogStep → Option LogEntry
  | .write w => some w
  | .foreign _ => none

/-- The events that are written in steps. -/
def entries (steps : List LogStep) : List LogEntry :=
  steps.filterMap written?

/-- The bytes of others are noise. -/
def IsQuiet (nesting : Nat) : LogStep → Prop
  | .write _ => True
  | .foreign data => EventLog.IsNoise nesting data

theorem mem_entries {steps : List LogStep} {w : LogEntry} :
    w ∈ entries steps ↔ .write w ∈ steps := by
  rw [entries, List.mem_filterMap]
  constructor
  · rintro ⟨step, hstep, hw⟩
    cases step with
    | write w' =>
        obtain rfl : w' = w := Option.some.inj hw
        exact hstep
    | foreign data => exact nomatch hw
  · exact fun h => ⟨.write w, h, rfl⟩

/-! ## One step -/

section Step

variable {fs fs' : Files}

theorem hasLine_of_run {step : LogStep} (hrun : step.run.run fs = .ok () fs') :
    ∀ w ∈ step.written?, w.HasLine := by
  rintro w hw
  cases step with
  | write w' =>
      obtain rfl : w' = w := Option.some.inj hw
      exact LogEntry.hasLine_of_run hrun
  | foreign data => exact nomatch hw

theorem run_foreign (h : EventLog.Opened fs) (data : List UInt8) :
    (foreign data).run.run fs = .ok () (fs.appended EventLog.globalFile data) := by
  have happend := EventLog.run_append_global h data
  rw [EStateM.run] at happend
  rw [run, EStateM.run, EStateM.adaptExcept, happend]

/-- A step leaves the log open and puts its bytes behind the others. -/
theorem run_step (h : EventLog.Opened fs) {step : LogStep}
    (hrun : step.run.run fs = .ok () fs') :
    EventLog.Opened fs' ∧
      fs'.bytesAt EventLog.globalFile = fs.bytesAt EventLog.globalFile ++ step.bytes := by
  cases step with
  | write w =>
      rw [← LogEntry.files_of_run hrun]
      exact ⟨w.opened_files h, LogEntry.bytesAt_globalFile h (LogEntry.hasLine_of_run hrun)⟩
  | foreign data =>
      rw [run_foreign h data] at hrun
      obtain rfl : fs.appended EventLog.globalFile data = fs' := by
        injection hrun
      exact ⟨h.appended_global data,
        Files.bytesAt_appended_self fs EventLog.globalFile_ne_nil data⟩

end Step

/-! ## All steps -/

/-- Steps leave the log open and put their bytes behind the others, and every event that is written
has a line. -/
theorem run_history {steps : List LogStep} {fs fs' : Files} (h : EventLog.Opened fs)
    (hrun : (runAll steps).run fs = .ok () fs') :
    EventLog.Opened fs' ∧
      fs'.bytesAt EventLog.globalFile =
        fs.bytesAt EventLog.globalFile ++ steps.flatMap bytes ∧
      ∀ w ∈ entries steps, w.HasLine := by
  -- By induction on the steps; each leaves the log open, so the next one finds its folders.
  induction steps generalizing fs with
  | nil =>
      obtain rfl : fs = fs' := by
        injection hrun
      exact ⟨h, (List.append_nil _).symm, nofun⟩
  | cons step steps ih =>
      rw [runAll, EStateM.run_bind] at hrun
      cases hfirst : step.run.run fs with
      | error e fs₁ =>
          rw [hfirst] at hrun
          exact nomatch hrun
      | ok x fs₁ =>
          rw [hfirst] at hrun
          obtain ⟨hopened, hbytes⟩ := run_step h hfirst
          obtain ⟨hopened', hbytes', hlines⟩ := ih hopened hrun
          refine ⟨hopened', ?_, fun w hw => ?_⟩
          · rw [hbytes', hbytes, List.append_assoc, List.flatMap_cons]
          · rw [mem_entries, List.mem_cons] at hw
            rcases hw with rfl | hw
            · exact hasLine_of_run hfirst w rfl
            · exact hlines w (mem_entries.2 hw)

theorem valuesIn_steps {nesting : Nat} (hroom : Event.maxDepth + 2 ≤ nesting)
    {steps : List LogStep} (hquiet : ∀ step ∈ steps, step.IsQuiet nesting)
    (hlines : ∀ w ∈ entries steps, w.HasLine)
    (hkeys : ∀ w ∈ entries steps, w.event.HasDistinctKeys) :
    EventLog.valuesIn nesting (steps.flatMap bytes) =
      .ok ((entries steps).map fun w => w.record.sorted) := by
  have hvalues : ∀ step ∈ steps, EventLog.valuesIn nesting step.bytes =
      .ok (step.written?.toList.map fun w => w.record.sorted) := by
    intro step hstep
    cases step with
    | write w =>
        have hw := mem_entries.2 hstep
        exact EventLog.valuesIn_line (hkeys w hw) hroom (LogEntry.line_eq_bytes (hlines w hw))
    | foreign data => exact (hquiet _ hstep).valuesIn
  have hended : ∀ step ∈ steps, EventLog.IsEnded step.bytes := by
    intro step hstep
    cases step with
    | write w => exact w.isEnded_bytes
    | foreign data => exact (hquiet _ hstep).ended
  rw [EventLog.valuesIn_flatMap steps hended hvalues, entries, List.filterMap_eq_flatMap_toList,
    List.map_flatMap]

end LogStep

namespace EventLog

/-- After any steps on a new log the latest of the wanted events are read, the last one first. -/
theorem read_history {fs₀ fs₁ fs₂ : Files} (hnew : IsNew fs₀) (hprepare : prepare.run fs₀ = .ok () fs₁)
    {steps : List LogStep} (hrun : (LogStep.runAll steps).run fs₁ = .ok () fs₂)
    (hkeys : ∀ w ∈ LogStep.entries steps, w.event.HasDistinctKeys)
    {log : EventLog} (hquiet : ∀ step ∈ steps, step.IsQuiet log.host.nesting)
    (hfits : log.Fits fs₂ globalFile) (f : EventFilter) {limit : Int} (hlimit : 0 ≤ limit) :
    ∃ values, log.read fs₂ f limit = .ok values ∧
      List.Forall₂ Json.Same values
        ((((LogStep.entries steps).filter fun w => f.Matches w.event).reverse.take
          (min limit maxLimit).toNat).map LogEntry.record) := by
  obtain ⟨hopened, hempty, -⟩ := opened_of_prepare hnew hprepare
  obtain ⟨hopened', hbytes, hlines⟩ := LogStep.run_history hopened hrun
  have hfile : log.readFile fs₂ globalFile =
      .ok ((LogStep.entries steps).map fun w => w.record.sorted) := by
    rw [readFile_eq globalFile_nameable hopened'.globalFile hfits, hbytes, hempty, List.nil_append]
    exact LogStep.valuesIn_steps log.host.maxDepth_lt_nesting hquiet hlines hkeys
  let wanted := (LogStep.entries steps).filter fun w => f.Matches w.event
  let latest := wanted.reverse.take (min limit maxLimit).toNat
  have hselect : f.select ((LogStep.entries steps).map fun w => w.record.sorted) =
      .ok (wanted.map fun w => w.record.sorted) := EventFilter.select_records f _ hkeys
  have hread : log.read fs₂ f limit = .ok (latest.map fun w => w.record.sorted) := by
    rw [read, hfile]
    simp only [hselect]
    rw [Slice.before_of_nonneg _ (le_min hlimit (by decide)), ← List.map_reverse, List.map_take]
  have hmem : ∀ w ∈ latest, w ∈ LogStep.entries steps := fun w hw =>
    List.mem_of_mem_filter (List.mem_reverse.1 (List.mem_of_mem_take hw))
  exact ⟨_, hread, LogEntry.same_records fun w hw => hkeys w (hmem w hw)⟩

theorem isNoise_notJson : IsNoise default.host.nesting (Text.utf8Encode "\x7bnot json\n".toList) := by
  refine ⟨.inr (by decide +kernel), ?_⟩
  have hlines : Text.lines (Text.utf8Decode (Text.utf8Encode "\x7bnot json\n".toList)) =
      ["\x7bnot json".toList] := by decide +kernel
  rw [hlines]
  exact List.forall_mem_singleton.2 rfl

/-- A warning is found behind a line that is not JSON. -/
theorem read_history_sample : ∃ fs₁ fs₂, prepare.run (Files.empty []) = .ok () fs₁ ∧
    (LogStep.runAll [.foreign (Text.utf8Encode "\x7bnot json\n".toList),
      .write LogEntry.sample]).run fs₁ = .ok () fs₂ ∧
    ∃ values, default.read fs₂ ⟨"warning".toList, [], "s".toList⟩ 1 = .ok values ∧
      List.Forall₂ Json.Same values [LogEntry.sample.record] := by
  let noise := Text.utf8Encode "\x7bnot json\n".toList
  let steps : List LogStep := [.foreign noise, .write LogEntry.sample]
  obtain ⟨fs₁, hprepare⟩ := run_prepare_empty
  obtain ⟨hopened, hempty, -⟩ := opened_of_prepare isNew_empty hprepare
  have hfile : HasFile "s".toList := by decide +kernel
  obtain ⟨fs₂, hwrite⟩ : ∃ fs₂, (LogStep.write LogEntry.sample).run.run
      (fs₁.appended globalFile noise) = .ok () fs₂ :=
    ⟨_, LogEntry.run_of_hasFile (hopened.appended_global noise) LogEntry.hasLine_sample rfl hfile⟩
  have hrun : (LogStep.runAll steps).run fs₁ = .ok () fs₂ := by
    simp only [steps, LogStep.runAll, EStateM.run_bind, LogStep.run_foreign hopened noise, hwrite,
      EStateM.run_pure]
  have hkeys : ∀ w ∈ LogStep.entries steps, w.event.HasDistinctKeys :=
    List.forall_mem_singleton.2 LogEntry.hasDistinctKeys_sample
  have hquiet : ∀ step ∈ steps, step.IsQuiet default.host.nesting :=
    List.forall_mem_cons.2 ⟨isNoise_notJson, List.forall_mem_singleton.2 trivial⟩
  have hfits : default.Fits fs₂ globalFile := by
    obtain ⟨-, hbytes, -⟩ := LogStep.run_history hopened hrun
    have hlength : (noise ++ LogEntry.sample.bytes).length ≤ 310 := by
      have hnoise : noise.length = 10 := by decide +kernel
      have hsample := LogEntry.length_bytes_sample
      rw [List.length_append]
      omega
    refine fits_default ?_
    rw [hbytes, hempty, List.nil_append, List.flatMap_cons, List.flatMap_singleton]
    exact hlength.trans (by decide)
  have hwanted : ((LogStep.entries steps).filter fun w =>
      EventFilter.Matches ⟨"warning".toList, [], "s".toList⟩ w.event) = [LogEntry.sample] := by
    refine List.filter_eq_self.2 (List.forall_mem_singleton.2 ?_)
    decide +kernel
  have hread := read_history isNew_empty hprepare hrun hkeys hquiet hfits
    ⟨"warning".toList, [], "s".toList⟩ Int.one_nonneg
  rw [hwanted] at hread
  exact ⟨fs₁, fs₂, hprepare, hrun, hread⟩

end EventLog

end TagFormula

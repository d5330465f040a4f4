import FileGuard.L4Controller.Consumer
import FileGuard.L4Controller.Resolver

/-!
# The console table

What `ConsoleSink::write` (`src/event_sink.cpp`) prints for a sequence of
events. A process chooses its `comm` and the paths of its files, and the
columns show these bytes as they are.

* `newline_mem_rowText`: a row holds a newline when one of its three texts
  shows one.
* `console_table_iff`: the table has its header and one line an event exactly
  when no event does that.
* `record_comm_shown`: `comm` of a kernel record is shown whole, so the
  process decides.
-/
namespace FileGuard

open Framing

/-! ## One row -/

/-- The row without its newline. -/
def ConsoleSink.rowText (e : SecurityEvent) : Str :=
  column kPidW (toStr e.pid.toNat) ++ column kUidW (toStr e.uid.toNat) ++
    column kCommW (truncate e.comm kCommW) ++ column kProcW (truncate e.processPath kProcW) ++
    column kFileW (truncate e.resourcePath kFileW) ++ column kOpW (operationName e.operation) ++
    column kActionW (actionName e.action) ++ column kReasonW (reasonName e.reason)

theorem ConsoleSink.row_eq (e : SecurityEvent) : row e = rowText e ++ [newline] := rfl

theorem ConsoleSink.map_row (evs : List SecurityEvent) :
    evs.map row = (evs.map rowText).map (· ++ [newline]) := by
  rw [List.map_map]
  exact List.map_congr_left fun e _ => row_eq e

/-- The two lines of the header. -/
def ConsoleSink.headerTexts : List Str := [
  column kPidW (str "PID") ++ column kUidW (str "UID") ++ column kCommW (str "COMM") ++
    column kProcW (str "PROCESS") ++ column kFileW (str "FILE") ++ column kOpW (str "OP") ++
    column kActionW (str "ACTION") ++ column kReasonW (str "REASON"),
  List.replicate (kPidW + kUidW + kCommW + kProcW + kFileW + kOpW + kActionW + kReasonW) 45]

theorem ConsoleSink.header_eq : header = (headerTexts.map (· ++ [newline])).flatten := by
  decide +kernel

theorem ConsoleSink.newline_not_mem_header : ∀ text ∈ headerTexts, newline ∉ text := by
  decide +kernel

/-- No text that the row shows has a newline in the part shown. -/
structure SecurityEvent.OneLine (e : SecurityEvent) : Prop where
  comm : newline ∉ truncate e.comm kCommW
  process : newline ∉ truncate e.processPath kProcW
  resource : newline ∉ truncate e.resourcePath kFileW

/-- Padding is blanks. -/
@[simp] theorem newline_mem_column {w : Nat} {s : Str} : newline ∈ column w s ↔ newline ∈ s := by
  have h : newline ∉ List.replicate (w - s.length) (32 : UInt8) := fun h =>
    absurd (List.eq_of_mem_replicate h) (by decide)
  rw [column, List.mem_append, or_iff_left h]

theorem newline_not_mem_toStr (n : Nat) : newline ∉ toStr n := fun h =>
  absurd (isDigit_toStr n newline h) (by decide)

theorem newline_not_mem_operationName (op : Operation) : newline ∉ operationName op := by
  unfold operationName
  split <;> decide +kernel

theorem newline_not_mem_actionName (a : Action) : newline ∉ actionName a := by
  unfold actionName
  split <;> decide +kernel

theorem newline_not_mem_reasonName (r : Reason) : newline ∉ reasonName r := by
  unfold reasonName
  split
  · decide +kernel
  split
  · decide +kernel
  split
  · decide +kernel
  split <;> decide +kernel

/-- Only the three texts can break the row. -/
theorem newline_mem_rowText (e : SecurityEvent) :
    newline ∉ ConsoleSink.rowText e ↔ e.OneLine := by
  simp only [ConsoleSink.rowText, List.mem_append, newline_mem_column, newline_not_mem_toStr,
    newline_not_mem_operationName, newline_not_mem_actionName, newline_not_mem_reasonName,
    or_false, false_or, not_or]
  exact ⟨fun ⟨⟨hcomm, hprocess⟩, hresource⟩ => ⟨hcomm, hprocess, hresource⟩,
    fun h => ⟨⟨h.comm, h.process⟩, h.resource⟩⟩

/-! ## The table -/

variable {lib : JsonLib}

/-- Behind the header each write appends its row. -/
theorem consoleSink_rows (lib : JsonLib) (evs : List SecurityEvent) : ∀ out : Str,
    evs.foldlM (fun sink e => Sink.write lib e sink) (.console true out) =
      .ok (.console true (out ++ (evs.map ConsoleSink.row).flatten)) := by
  induction evs with
  | nil => intro out; simp; rfl
  | cons e evs ih =>
    intro out
    rw [List.foldlM_cons]
    show evs.foldlM _ (Sink.console true (out ++ [] ++ ConsoleSink.row e)) = _
    rw [ih, List.map_cons, List.flatten_cons, List.append_nil, List.append_assoc]

/-- The header comes once, before the first row. -/
theorem consoleSink_table (lib : JsonLib) {evs : List SecurityEvent} (hne : evs ≠ []) :
    evs.foldlM (fun sink e => Sink.write lib e sink) (.console false []) =
      .ok (.console true (((ConsoleSink.headerTexts ++ evs.map ConsoleSink.rowText).map
        (· ++ [newline])).flatten)) := by
  cases evs with
  | nil => exact absurd rfl hne
  | cons e evs =>
    rw [List.foldlM_cons]
    show evs.foldlM _ (Sink.console true ([] ++ ConsoleSink.header ++ ConsoleSink.row e)) = _
    rw [consoleSink_rows, List.map_append, List.flatten_append, ← ConsoleSink.header_eq,
      ← ConsoleSink.map_row, List.map_cons, List.flatten_cons, List.nil_append, List.append_assoc]

/-- **The console table.** It is two header lines with one line for each event
behind them exactly when no event shows a newline; otherwise it does not even
have that many lines. -/
theorem console_table_iff (lib : JsonLib) (evs : List SecurityEvent) (hne : evs ≠ []) :
    ∃ out, evs.foldlM (fun sink e => Sink.write lib e sink) (.console false []) =
        .ok (.console true out) ∧
      (lines out = (ConsoleSink.headerTexts ++ evs.map ConsoleSink.rowText, []) ↔
        ∀ e ∈ evs, e.OneLine) ∧
      ((lines out).1.length = 2 + evs.length ↔ ∀ e ∈ evs, e.OneLine) := by
  have hmem : (∀ text ∈ ConsoleSink.headerTexts ++ evs.map ConsoleSink.rowText,
      newline ∉ text) ↔ ∀ e ∈ evs, e.OneLine := by
    rw [List.forall_mem_append, and_iff_right ConsoleSink.newline_not_mem_header,
      List.forall_mem_map]
    simp only [newline_mem_rowText]
  have hlength : (ConsoleSink.headerTexts ++ evs.map ConsoleSink.rowText).length =
      2 + evs.length := by
    rw [List.length_append, List.length_map]
    rfl
  refine ⟨_, consoleSink_table lib hne, ?_, ?_⟩
  · rw [lines_texts_iff, hmem]
  · rw [← hlength, lines_texts_length_iff, hmem]

/-! ## The event of a record -/

/-- `comm` of a record fits its column. -/
theorem record_comm_shown (clock : Clock) (resolver : Option PathResolver)
    (record : FileguardEvent) :
    truncate (emitEvent clock resolver (decodeRecord record)).comm kCommW =
      record.comm.toList.takeWhile (· ≠ 0) := by
  have hlen : (record.comm.toList.takeWhile (· ≠ 0)).length ≤ kCommW := by
    have hle := (List.takeWhile_sublist (l := record.comm.toList) (· ≠ 0)).length_le
    rwa [Vector.length_toList] at hle
  exact if_pos hlen

/-- So the row of a record with shown paths of one line is one line exactly
when the process has put no newline into its name. -/
theorem record_oneLine_iff (clock : Clock) (resolver : Option PathResolver)
    (record : FileguardEvent)
    (hprocess : newline ∉ truncate (emitEvent clock resolver (decodeRecord record)).processPath
      kProcW)
    (hresource : newline ∉ truncate (emitEvent clock resolver (decodeRecord record)).resourcePath
      kFileW) :
    (emitEvent clock resolver (decodeRecord record)).OneLine ↔
      newline ∉ record.comm.toList.takeWhile (· ≠ 0) := by
  rw [← record_comm_shown clock resolver record]
  exact ⟨fun h => h.comm, fun h => ⟨h, hprocess, hresource⟩⟩

/-- The event of a process called `a\nb`. -/
def brokenEvent : SecurityEvent :=
  emitEvent sampleClock none (decodeRecord (auditRecord (str "a\nb")))

theorem console_table_sample : ∃ out,
    [emitEvent sampleClock none (decodeRecord (auditRecord (str "cat")))].foldlM
        (fun sink e => Sink.write JsonText.textLib e sink) (.console false []) =
      .ok (.console true out) ∧ (lines out).1.length = 3 := by
  obtain ⟨out, hout, -, hlength⟩ := console_table_iff JsonText.textLib
    [emitEvent sampleClock none (decodeRecord (auditRecord (str "cat")))] (by decide)
  refine ⟨out, hout, hlength.mpr (List.forall_mem_singleton.mpr ⟨?_, ?_, ?_⟩)⟩
  · decide +kernel
  · decide +kernel
  · decide +kernel

/-- The row of that process takes two lines. -/
theorem forged_row : ¬ ∀ (lib : JsonLib) (evs : List SecurityEvent), evs ≠ [] →
    ∃ out, evs.foldlM (fun sink e => Sink.write lib e sink) (.console false []) =
        .ok (.console true out) ∧
      lines out = (ConsoleSink.headerTexts ++ evs.map ConsoleSink.rowText, []) := by
  intro h
  obtain ⟨out, hout, hlines⟩ := h JsonText.textLib [brokenEvent] (by decide)
  have htable := hout.symm.trans (consoleSink_table JsonText.textLib (by decide))
  simp only [Except.ok.injEq, Sink.console.injEq, true_and] at htable
  rw [htable, lines_texts_iff] at hlines
  exact absurd hlines (by decide +kernel)

end FileGuard

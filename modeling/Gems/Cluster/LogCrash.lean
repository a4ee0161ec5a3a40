import Gems.Cluster.Log

set_option autoImplicit false

namespace Gems.Cluster

open Lib

namespace ReplicationLog

inductive Event where
  -- `stop` is the number of writes before the append stops; `none` when it returns.
  | append (record : LogRecord) (stop : Option Nat)
  | reopen

-- `written` has every record whose bytes are all in the file, with whether its append returned.
structure History where
  file : LogFile
  written : List (LogRecord × Bool)

def History.start : History := { file := openFile none, written := [] }

def History.step (h : History) : Event → History
  | .append record none =>
    match (append record).run h.file with
    | (.ok (), file) => { file, written := h.written ++ [(record, true)] }
    | (.error _, file) => { h with file }
  | .append record (some writes) =>
    match (append record).runFor writes h.file with
    | (.ok (), file) => { file, written := h.written ++ [(record, true)] }
    | (.error _, file) =>
      if record.encode.length ≤ writes then { file, written := h.written ++ [(record, false)] }
      else { h with file }
  | .reopen => { h with file := openFile (some h.file) }

def History.exec (events : List Event) : History := events.foldl step start

def History.records (h : History) : List LogRecord := h.written.map Prod.fst

/-- Both readers find the written records, in order: those whose append returned, and those written
whole by one that did not. -/
def History.Survives (h : History) : Prop :=
  ∃ offset, readFrom h.file 0 = .ok (h.records, offset) ∧
    readRawFrom h.file 0 = .ok (h.records.flatMap LogRecord.encode, offset)

def Event.Torn : Event → Prop
  | .append record (some writes) => 0 < writes ∧ writes < record.encode.length
  | _ => False

-- The record comes back from its own bytes.
def Representable (record : LogRecord) : Prop :=
  record.stored = record ∧ record.payload.length ≤ maxFrameLen

/-- Every record comes back from its bytes, and no append writes a byte after a part of a record. -/
def Clean : List Event → Prop
  | [] => True
  | event :: rest =>
    (∀ record stop, event = .append record stop → stop = some 0 ∨ Representable record) ∧
    (event.Torn → ∀ record stop, Event.append record stop ∈ rest → stop = some 0) ∧ Clean rest

section Runs

variable {h : History} {event : Event} {events rest : List Event} {record : LogRecord}

/-- The written records, then what is left of a torn append; no byte may follow that. -/
structure Intact (h : History) (rest : List Event) : Prop where
  file : ∃ tail, h.file = h.records.flatMap LogRecord.encode ++ tail ∧
    LogRecord.decode tail = .ok none ∧
    (tail = [] ∨ ∀ record stop, Event.append record stop ∈ rest → stop = some 0)
  records : ∀ record ∈ h.records, Representable record

theorem decode_nil : LogRecord.decode [] = .ok none := rfl

theorem Intact.survives (intact : Intact h rest) : h.Survives := by
  obtain ⟨tail, file, stop, -⟩ := intact.file
  have fits : ∀ r ∈ h.records, r.payload.length ≤ maxFrameLen := fun r mem => (intact.records r mem).2
  have same : h.records.map LogRecord.stored = h.records :=
    (List.map_congr_left fun r mem => (intact.records r mem).1).trans (List.map_id _)
  have read : readFrom ([] ++ _) [].length = _ := readFrom_records fits stop
  have raw : readRawFrom ([] ++ _) [].length = _ := readRawFrom_records fits stop
  rw [List.nil_append, same] at read
  rw [List.nil_append] at raw
  exact ⟨_, file ▸ read, file ▸ raw⟩

theorem Intact.add (intact : Intact h (event :: rest))
    (writes : ∃ record stop, event = .append record stop ∧ stop ≠ some 0) (good : Representable record)
    (returned : Bool) :
    Intact { file := h.file ++ record.encode, written := h.written ++ [(record, returned)] } rest := by
  obtain ⟨tail, file, -, unused⟩ := intact.file
  have empty : tail = [] := by
    rcases unused with empty | no
    · exact empty
    · obtain ⟨record', stop, rfl, some⟩ := writes
      exact absurd (no record' stop List.mem_cons_self) some
  have records : History.records
      { file := h.file ++ record.encode, written := h.written ++ [(record, returned)] } =
      h.records ++ [record] := by simp [History.records]
  refine ⟨⟨[], ?_, decode_nil, .inl rfl⟩, ?_⟩
  · rw [records, file, empty]
    simp
  · intro r mem
    rw [records] at mem
    rcases List.mem_append.mp mem with old | new
    · exact intact.records r old
    · rw [List.mem_singleton.mp new]
      exact good

theorem Intact.later (intact : Intact h (event :: rest)) : Intact h rest := by
  obtain ⟨tail, file, stop, unused⟩ := intact.file
  refine ⟨⟨tail, file, stop, ?_⟩, intact.records⟩
  exact unused.imp_right fun no record stop mem => no record stop (List.mem_cons_of_mem _ mem)

theorem Intact.step (intact : Intact h (event :: rest)) (clean : Clean (event :: rest)) :
    Intact (h.step event) rest := by
  obtain ⟨good, last, -⟩ := clean
  cases event with
  | reopen => exact intact.later
  | append record stop =>
    cases stop with
    | none =>
      have whole : Representable record := (good record none rfl).resolve_left (by simp)
      rw [History.step, append_run]
      exact intact.add ⟨record, none, rfl, by simp⟩ whole true
    | some writes =>
      rw [History.step, append_runFor]
      by_cases returned : record.encode.length < writes
      · have whole := (good record (some writes) rfl).resolve_left (by simp; omega)
        rw [if_pos returned]
        exact intact.add ⟨record, some writes, rfl, by simp; omega⟩ whole true
      rw [if_neg returned]
      dsimp only
      by_cases all : record.encode.length ≤ writes
      · have positive : 0 < record.encode.length := by
          rw [LogRecord.encode, List.length_append, length_littleEndian]
          omega
        have whole := (good record (some writes) rfl).resolve_left (by simp; omega)
        rw [if_pos all, List.take_of_length_le (by omega)]
        exact intact.add ⟨record, some writes, rfl, by simp; omega⟩ whole false
      rw [if_neg all]
      by_cases nothing : writes = 0
      · rw [nothing, List.take_zero, List.append_nil]
        exact intact.later
      -- The record is torn: its part stays behind the records, and the run appends no more.
      have whole := (good record (some writes) rfl).resolve_left (by simp; omega)
      obtain ⟨tail, file, -, unused⟩ := intact.file
      have empty : tail = [] := unused.resolve_right fun no =>
        nothing (Option.some.inj (no record (some writes) List.mem_cons_self))
      refine ⟨⟨record.encode.take writes, ?_, LogRecord.decode_partial whole.2 (by omega),
        .inr (last ⟨by omega, by omega⟩)⟩, intact.records⟩
      change h.file ++ _ = _
      rw [file, empty, List.append_nil]
      rfl

theorem Intact.run (intact : Intact h events) (clean : Clean events) (n : Nat) :
    ∃ rest, Intact ((events.take n).foldl History.step h) rest := by
  induction events generalizing h n with
  | nil => exact ⟨[], by simpa using intact⟩
  | cons event rest ih =>
    cases n with
    | zero => exact ⟨_, intact⟩
    | succ n => exact ih (intact.step clean) clean.2.2 n

end Runs

/-- A torn append is harmless as long as nothing is appended after it. -/
theorem log_survives (events : List Event) (clean : Clean events) (n : Nat) :
    (History.exec (events.take n)).Survives := by
  have start : Intact History.start events :=
    ⟨⟨[], rfl, decode_nil, .inl rfl⟩, fun _ none => absurd none List.not_mem_nil⟩
  obtain ⟨rest, intact⟩ := start.run clean n
  exact intact.survives

theorem representable_delete (id : Tuid) : Representable (.delete id) := by
  refine ⟨rfl, ?_⟩
  rw [LogRecord.payload, List.length_append, id.length_eq]
  decide

-- The second append is torn, and then the log is opened again.
theorem log_survives_torn :
    (History.exec [.append (.delete .nil) none, .append (.delete .nil) (some 7), .reopen]).Survives := by
  refine log_survives [.append (.delete .nil) none, .append (.delete .nil) (some 7), .reopen] ?_ 3
  have good (record : LogRecord) (stop stop' : Option Nat)
      (same : Event.append (.delete .nil) stop' = .append record stop) :
      stop = some 0 ∨ Representable record := by
    cases same
    exact .inr (representable_delete .nil)
  refine ⟨fun record stop => good record stop none, False.elim,
    fun record stop => good record stop (some 7), ?_, ?_⟩
  · intro _ record stop mem
    simp at mem
  · exact ⟨fun _ _ same => (by cases same), False.elim, trivial⟩

/-- Four bytes of a record are left behind, and a whole record is appended after them. -/
theorem torn_append_hides_records :
    ¬ (History.exec [.append (.delete .nil) (some 4), .append (.delete .nil) none]).Survives := by
  have short : ¬ (LogRecord.delete .nil).encode.length ≤ 4 := by decide
  have file : (History.exec [.append (.delete .nil) (some 4), .append (.delete .nil) none]).file =
      (LogRecord.delete .nil).encode.take 4 ++ (LogRecord.delete .nil).encode := by
    have torn : (append (.delete .nil)).runFor 4 (openFile none) = _ := append_runFor
    rw [if_neg (by omega)] at torn
    simp only [History.exec, List.foldl_cons, List.foldl_nil, History.step, History.start, torn, if_neg short,
      append_run]
    rfl
  have read : readFrom ((LogRecord.delete .nil).encode.take 4 ++ (LogRecord.delete .nil).encode) 0 =
      .error (invalid "unknown log record type") := by rfl
  rintro ⟨offset, found, -⟩
  rw [file, read] at found
  cases found

end ReplicationLog

end Gems.Cluster

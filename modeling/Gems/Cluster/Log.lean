import Gems.Cluster.Record

set_option autoImplicit false

namespace Gems.Cluster

open Lib

abbrev LogFile := List UInt8

namespace ReplicationLog

-- Creates an empty file when there is none.
def openFile : Option LogFile → LogFile
  | none => []
  | some file => file

-- The bytes in order, then the sync: a stop or an error may come before any of them.
def append (record : LogRecord) : Prog LogFile Unit := do
  record.encode.forM fun b => Prog.write fun file => file ++ [b]
  Prog.write id

def readLoop : Nat → List UInt8 → Except Fault (List LogRecord × Nat)
  | 0, _ => .error .unfinished
  | fuel + 1, buf => do
    match ← LogRecord.decode buf with
    | none => return ([], 0)
    | some (record, consumed) =>
      let (records, pos) ← readLoop fuel (buf.drop consumed)
      return (record :: records, consumed + pos)

-- Every record takes four bytes or more, so the bound is never met.
def readFrom (file : LogFile) (from_ : Nat) : Except Fault (List LogRecord × Nat) := do
  let buf := file.drop from_
  let (records, pos) ← readLoop (buf.length + 1) buf
  return (records, from_ + pos)

def readRawFrom (file : LogFile) (from_ : Nat) : Except Fault (List UInt8 × Nat) := do
  let buf := file.drop from_
  let (_, pos) ← readLoop (buf.length + 1) buf
  return (buf.take pos, from_ + pos)

section Reading

variable {records : List LogRecord} {record : LogRecord} {buf tail : List UInt8} {fuel : Nat}

theorem readLoop_records (fits : ∀ r ∈ records, r.payload.length ≤ maxFrameLen)
    (stop : LogRecord.decode tail = .ok none) (enough : records.length < fuel) :
    readLoop fuel (records.flatMap LogRecord.encode ++ tail) =
      .ok (records.map LogRecord.stored, (records.flatMap LogRecord.encode).length) := by
  induction records generalizing fuel with
  | nil =>
    obtain ⟨fuel, rfl⟩ := Nat.exists_eq_add_one_of_ne_zero (Nat.ne_of_gt enough)
    rw [List.flatMap_nil, List.nil_append, readLoop, stop]
    rfl
  | cons r rest ih =>
    rw [List.length_cons] at enough
    obtain ⟨fuel, rfl⟩ := Nat.exists_eq_add_one_of_ne_zero (Nat.ne_of_gt (Nat.zero_lt_of_lt enough))
    have later := ih (fun r' mem => fits r' (List.mem_cons_of_mem _ mem)) (Nat.lt_of_succ_lt_succ enough)
    rw [List.flatMap_cons, List.append_assoc, readLoop,
      LogRecord.decode_encode (fits r List.mem_cons_self)]
    simp only [bind, Except.bind, List.drop_left, later, List.length_append, List.map_cons]
    rfl

theorem records_le_length : records.length ≤ (records.flatMap LogRecord.encode).length := by
  induction records with
  | nil => exact Nat.zero_le _
  | cons r rest ih =>
    rw [List.flatMap_cons, List.length_append, List.length_cons]
    have size : r.encode.length = 4 + r.payload.length := by simp [LogRecord.encode]
    omega

theorem readFrom_records {before : List UInt8} (fits : ∀ r ∈ records, r.payload.length ≤ maxFrameLen)
    (stop : LogRecord.decode tail = .ok none) :
    readFrom (before ++ (records.flatMap LogRecord.encode ++ tail)) before.length =
      .ok (records.map LogRecord.stored, before.length + (records.flatMap LogRecord.encode).length) := by
  have few : records.length < (records.flatMap LogRecord.encode ++ tail).length + 1 := by
    rw [List.length_append]
    exact Nat.lt_succ_of_le (Nat.le_trans records_le_length (Nat.le_add_right _ _))
  rw [readFrom, List.drop_left, readLoop_records fits stop few]
  rfl

theorem readRawFrom_records {before : List UInt8}
    (fits : ∀ r ∈ records, r.payload.length ≤ maxFrameLen)
    (stop : LogRecord.decode tail = .ok none) :
    readRawFrom (before ++ (records.flatMap LogRecord.encode ++ tail)) before.length =
      .ok (records.flatMap LogRecord.encode,
        before.length + (records.flatMap LogRecord.encode).length) := by
  have few : records.length < (records.flatMap LogRecord.encode ++ tail).length + 1 := by
    rw [List.length_append]
    exact Nat.lt_succ_of_le (Nat.le_trans records_le_length (Nat.le_add_right _ _))
  rw [readRawFrom, List.drop_left, readLoop_records fits stop few]
  simp only [bind, Except.bind, List.take_left]
  rfl

end Reading

section Writing

variable {record : LogRecord} {file : LogFile} {bytes : List UInt8} {writes : Nat}

theorem run_writes : (bytes.forM fun b => (Prog.write fun file => file ++ [b] : Prog LogFile Unit))
    ⟨file, .none⟩ = .ok () ⟨file ++ bytes, .none⟩ := by
  induction bytes generalizing file with
  | nil => rw [List.append_nil]; rfl
  | cons b rest ih =>
    rw [List.append_cons]
    exact ih

theorem runFor_writes : (bytes.forM fun b => (Prog.write fun file => file ++ [b] : Prog LogFile Unit))
    ⟨file, .stop writes⟩ =
      if bytes.length ≤ writes then .ok () ⟨file ++ bytes, .stop (writes - bytes.length)⟩
      else .error .stopped ⟨file ++ bytes.take writes, .stop 0⟩ := by
  induction bytes generalizing file writes with
  | nil => rw [List.append_nil]; rfl
  | cons b rest ih =>
    cases writes with
    | zero =>
      rw [List.take_zero, List.append_nil]
      rfl
    | succ left =>
      simp only [List.length_cons, Nat.add_le_add_iff_right, Nat.add_sub_add_right, List.take_succ_cons]
      rw [List.append_cons file b rest, List.append_cons file b (rest.take left)]
      exact ih

theorem append_run : (append record).run file = (.ok (), file ++ record.encode) := by
  unfold Prog.run Prog.runWith append
  simp only [bind, EStateM.bind, run_writes]
  rfl

theorem append_runFor : (append record).runFor writes file =
    if record.encode.length < writes then (.ok (), file ++ record.encode)
    else (.error .stopped, file ++ record.encode.take writes) := by
  unfold Prog.runFor Prog.runWith append
  simp only [bind, EStateM.bind, runFor_writes]
  by_cases written : record.encode.length ≤ writes
  · rw [if_pos written]
    cases left : writes - record.encode.length with
    | zero =>
      rw [if_neg (by omega), List.take_of_length_le (by omega)]
      rfl
    | succ left =>
      rw [if_pos (by omega)]
      rfl
  · rw [if_neg written, if_neg (by omega)]

end Writing

end ReplicationLog

end Gems.Cluster

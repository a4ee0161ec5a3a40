import Gems.Codec.Gbv
import Mathlib.Data.Finset.Card
import Mathlib.Data.List.Induction

set_option autoImplicit false

namespace Gems.Codec

open Lib

-- One call of push.
structure Field where
  keyId : UInt32
  tag : TypeTag
  value : List UInt8

def Field.key (f : Field) : Nat := f.keyId.toNat

def pushAll (fields : List Field) : GbvBuilder :=
  fields.foldl (fun b f => b.push f.keyId f.tag f.value) .new

def build (fields : List Field) : List UInt8 := (pushAll fields).finish

-- The bytes of all values together.
def valueBytes (fields : List Field) : Nat := (fields.flatMap Field.value).length

structure Raw where
  keyId : UInt32
  typeTag : UInt8
  bytes : List UInt8

def Field.raw (f : Field) : Raw := ⟨f.keyId, f.tag.toU8, f.value⟩

def DirEntry.raw (values : List UInt8) (e : DirEntry) : Raw :=
  ⟨e.keyId, e.typeTag, (values.drop e.offset.toNat).take e.len.toNat⟩

structure Pushed (b : GbvBuilder) (fields : List Field) : Prop where
  values : b.values = fields.flatMap Field.value
  entries : b.entries.map (DirEntry.raw b.values) = fields.map Field.raw
  inside : ∀ e ∈ b.entries, e.offset.toNat + e.len.toNat ≤ b.values.length

variable {b : GbvBuilder} {fields fields' : List Field} {f : Field} {r : GbvReader} {e : DirEntry} {i : Nat}
  {k : UInt32}

theorem valueBytes_append (fields fields' : List Field) :
    valueBytes (fields ++ fields') = valueBytes fields + valueBytes fields' := by
  simp [valueBytes]

theorem valueBytes_sublist (part : fields.Sublist fields') : valueBytes fields ≤ valueBytes fields' := by
  induction part with
  | slnil => exact le_rfl
  | cons f part ih =>
    rw [← List.singleton_append, valueBytes_append]
    exact ih.trans (Nat.le_add_left _ _)
  | @cons_cons before after f part ih =>
    have front (rest : List Field) : valueBytes (f :: rest) = valueBytes [f] + valueBytes rest :=
      valueBytes_append [f] rest
    rw [front before, front after]
    exact Nat.add_le_add_left ih _

theorem Pushed.push (pushed : Pushed b fields) (small : valueBytes (fields ++ [f]) < 2 ^ 32) :
    Pushed (b.push f.keyId f.tag f.value) (fields ++ [f]) := by
  have size : b.values.length = valueBytes fields := by rw [pushed.values, valueBytes]
  have room : b.values.length + f.value.length < 2 ^ 32 := by
    rw [valueBytes_append] at small
    simpa [valueBytes, size] using small
  have offset : (UInt32.ofNat b.values.length).toNat = b.values.length := Nat.mod_eq_of_lt (by omega)
  have len : (UInt32.ofNat f.value.length).toNat = f.value.length := Nat.mod_eq_of_lt (by omega)
  constructor
  · simp [GbvBuilder.push, pushed.values]
  · simp only [GbvBuilder.push, List.map_append, List.map_cons, List.map_nil, DirEntry.raw, Field.raw,
      offset, len, List.drop_left, List.take_length]
    congr 1
    refine Eq.trans (List.map_congr_left fun e mem => ?_) pushed.entries
    have within := pushed.inside e mem
    have room' : e.len.toNat ≤ (b.values.drop e.offset.toNat).length := by
      rw [List.length_drop]
      omega
    rw [DirEntry.raw, List.drop_append_of_le_length (by omega), List.take_append_of_le_length room']
    rfl
  · intro e mem
    simp only [GbvBuilder.push, List.length_append]
    rcases List.mem_append.mp mem with old | last
    · have := pushed.inside e old
      omega
    · obtain rfl := List.mem_singleton.mp last
      dsimp only
      omega

theorem pushAll_snoc (fields : List Field) (f : Field) :
    pushAll (fields ++ [f]) = (pushAll fields).push f.keyId f.tag f.value := by
  rw [pushAll, List.foldl_append]
  rfl

theorem pushed_all (small : valueBytes fields < 2 ^ 32) : Pushed (pushAll fields) fields := by
  induction fields using List.reverseRecOn with
  | nil => exact ⟨rfl, rfl, fun e mem => by cases mem⟩
  | append_singleton fields f ih =>
    rw [pushAll_snoc]
    refine (ih ?_).push small
    rw [valueBytes_append] at small
    omega

section Reading

theorem length_encode (e : DirEntry) : e.encode.length = directoryEntryLen := by
  simp [DirEntry.encode, directoryEntryLen]

theorem ofLittleEndian_u32 (v : UInt32) : UInt32.ofNat (ofLittleEndian (littleEndian 4 v.toNat)) = v := by
  rw [ofLittleEndian_littleEndian v.toNat_lt]
  exact UInt32.ofNat_toNat

theorem entryAt_eq {front rest : List UInt8} (place : front.length = 2 + i * directoryEntryLen)
    (buf : r.buf = front ++ (e.encode ++ rest)) : r.entryAt i = e := by
  have at_ (n : Nat) : r.buf.drop (2 + i * directoryEntryLen + n) = (e.encode ++ rest).drop n := by
    rw [← List.drop_drop, buf, List.drop_left' place]
  have key : GbvReader.u32At r.buf (2 + i * directoryEntryLen) = e.keyId := by
    rw [GbvReader.u32At, ← Nat.add_zero (2 + i * directoryEntryLen), at_, List.drop_zero, DirEntry.encode,
      List.append_assoc, List.take_left' (length_littleEndian 4 _), ofLittleEndian_u32]
  have tag : r.buf.getD (2 + i * directoryEntryLen + 4) 0 = e.typeTag := by
    have split : (e.encode ++ rest).drop 4 = e.typeTag :: ((littleEndian 4 e.offset.toNat ++
        littleEndian 4 e.len.toNat) ++ rest) := by
      rw [DirEntry.encode, List.append_assoc, List.drop_left' (length_littleEndian 4 _)]
      rfl
    have here : (r.buf.drop (2 + i * directoryEntryLen + 4))[0]? = some e.typeTag := by
      rw [at_, split]
      rfl
    rw [List.getElem?_drop, Nat.add_zero] at here
    rw [List.getD_eq_getElem?_getD, here]
    rfl
  have offset : GbvReader.u32At r.buf (2 + i * directoryEntryLen + 5) = e.offset := by
    have split : (e.encode ++ rest).drop 5 =
        littleEndian 4 e.offset.toNat ++ (littleEndian 4 e.len.toNat ++ rest) := by
      rw [DirEntry.encode, ← List.append_assoc, List.append_assoc,
        List.drop_left' (by simp), List.append_assoc]
    rw [GbvReader.u32At, at_, split, List.take_left' (length_littleEndian 4 _), ofLittleEndian_u32]
  have len : GbvReader.u32At r.buf (2 + i * directoryEntryLen + 9) = e.len := by
    have split : (e.encode ++ rest).drop 9 = littleEndian 4 e.len.toNat ++ rest := by
      rw [DirEntry.encode, ← List.append_assoc, ← List.append_assoc, List.append_assoc,
        List.drop_left' (by simp)]
    rw [GbvReader.u32At, at_, split, List.take_left' (length_littleEndian 4 _), ofLittleEndian_u32]
  simp only [GbvReader.entryAt, key, tag, offset, len]

/-- The reader's view of a buffer that holds `fields`, in the order of the directory. -/
structure Reading (r : GbvReader) (fields : List Field) : Prop where
  count : r.fieldCount = fields.length
  entry : ∀ i f, fields[i]? = some f → (r.entryAt i).keyId = f.keyId ∧
    TypeTag.fromU8 (r.entryAt i).typeTag = .ok f.tag ∧ r.fieldBytes (r.entryAt i) = some f.value

theorem sorted_raw (pushed : Pushed b fields) :
    (sortByKey (fun e : DirEntry => e.keyId.toNat) b.entries).map (DirEntry.raw b.values) =
      (sortByKey Field.key fields).map Field.raw := by
  calc (sortByKey (fun e : DirEntry => e.keyId.toNat) b.entries).map (DirEntry.raw b.values)
      = sortByKey (fun raw => raw.keyId.toNat) (b.entries.map (DirEntry.raw b.values)) :=
        map_sortByKey _ fun _ _ => rfl
    _ = sortByKey (fun raw => raw.keyId.toNat) (fields.map Field.raw) := by rw [pushed.entries]
    _ = (sortByKey Field.key fields).map Field.raw := (map_sortByKey _ fun _ _ => rfl).symm

structure Finished (b : GbvBuilder) (entries : List DirEntry) (r : GbvReader) : Prop where
  count : r.fieldCount = entries.length
  size : r.buf.length = r.valuesStart + b.values.length
  entry : ∀ i e, entries[i]? = some e → r.entryAt i = e
  values : r.buf.drop r.valuesStart = b.values

theorem finish_reads (few : b.entries.length ≤ 65535) : ∃ r, GbvReader.new b.finish = .ok r ∧
    Finished b (sortByKey (fun e : DirEntry => e.keyId.toNat) b.entries) r := by
  have count : (sortByKey (fun e : DirEntry => e.keyId.toNat) b.entries).length ≤ 65535 := by
    rwa [length_sortByKey]
  rw [GbvBuilder.finish]
  generalize sortByKey (fun e : DirEntry => e.keyId.toNat) b.entries = entries at *
  have directory : (entries.flatMap DirEntry.encode).length = entries.length * directoryEntryLen :=
    length_records fun e _ => length_encode e
  have total : (littleEndian 2 entries.length ++ (entries.flatMap DirEntry.encode ++ b.values)).length =
      2 + entries.length * directoryEntryLen + b.values.length := by
    rw [List.length_append, List.length_append, length_littleEndian, directory, Nat.add_assoc]
  have header : ofLittleEndian ((littleEndian 2 entries.length ++
      (entries.flatMap DirEntry.encode ++ b.values)).take 2) = entries.length := by
    rw [List.take_left' (length_littleEndian 2 _)]
    exact ofLittleEndian_littleEndian (by omega)
  refine ⟨⟨littleEndian 2 entries.length ++ (entries.flatMap DirEntry.encode ++ b.values), entries.length,
    2 + entries.length * directoryEntryLen⟩, ?_, rfl, total, ?_, ?_⟩
  · rw [GbvReader.new, if_neg (by omega)]
    simp only [header, total]
    rw [if_neg (by omega)]
  · intro i e here
    obtain ⟨bound, rfl⟩ := List.getElem?_eq_some_iff.mp here
    have split : entries = entries.take i ++ entries[i] :: entries.drop (i + 1) := by
      rw [← List.drop_eq_getElem_cons bound, List.take_append_drop]
    have place : (littleEndian 2 entries.length ++ (entries.take i).flatMap DirEntry.encode).length =
        2 + i * directoryEntryLen := by
      rw [List.length_append, length_littleEndian, length_records fun e _ => length_encode e,
        List.length_take, Nat.min_eq_left (by omega)]
    have buf : littleEndian 2 entries.length ++ (entries.flatMap DirEntry.encode ++ b.values) =
        (littleEndian 2 entries.length ++ (entries.take i).flatMap DirEntry.encode) ++
          (entries[i].encode ++ ((entries.drop (i + 1)).flatMap DirEntry.encode ++ b.values)) := by
      have whole := congrArg (List.flatMap DirEntry.encode) split
      rw [List.flatMap_append, List.flatMap_cons] at whole
      rw [whole]
      simp only [List.append_assoc]
    exact entryAt_eq place buf
  · rw [← List.append_assoc, List.drop_left' (by simp [directory])]

theorem build_reads (few : fields.length ≤ 65535) (small : valueBytes fields < 2 ^ 32) :
    ∃ r, GbvReader.new (build fields) = .ok r ∧ Reading r (sortByKey Field.key fields) := by
  have pushed := pushed_all small
  have same := sorted_raw pushed
  have inside : ∀ e ∈ sortByKey (fun e : DirEntry => e.keyId.toNat) (pushAll fields).entries,
      e.offset.toNat + e.len.toNat ≤ (pushAll fields).values.length :=
    fun e mem => pushed.inside e (mem_sortByKey.mp mem)
  have many := congrArg List.length pushed.entries
  rw [List.length_map, List.length_map] at many
  obtain ⟨r, opened, finished⟩ := finish_reads (many.trans_le few)
  generalize sortByKey (fun e : DirEntry => e.keyId.toNat) (pushAll fields).entries = entries at *
  have count := congrArg List.length same
  rw [List.length_map, List.length_map] at count
  refine ⟨r, opened, finished.count.trans count, fun i f here => ?_⟩
  have at_ : (entries.map (DirEntry.raw (pushAll fields).values))[i]? = some f.raw := by
    rw [same, List.getElem?_map, here]
    rfl
  rw [List.getElem?_map, Option.map_eq_some_iff] at at_
  obtain ⟨e, found, raw⟩ := at_
  have within := inside e (List.mem_of_getElem? found)
  have size := finished.size
  rw [finished.entry i e found]
  refine ⟨congrArg Raw.keyId raw, ?_, ?_⟩
  · rw [show e.typeTag = f.tag.toU8 from congrArg Raw.typeTag raw]
    exact TypeTag.fromU8_toU8 f.tag
  · rw [GbvReader.fieldBytes, if_neg (by omega), ← List.drop_drop, finished.values]
    exact congrArg (fun raw => some (Raw.bytes raw)) raw

theorem Reading.keyIds (reading : Reading r fields) : r.keyIds = fields.map Field.keyId := by
  apply List.ext_getElem?
  intro i
  rw [GbvReader.keyIds, reading.count, List.getElem?_map, List.getElem?_map]
  cases here : fields[i]? with
  | none =>
    have out := List.getElem?_eq_none_iff.mp here
    rw [List.getElem?_eq_none (by simpa using out)]
    rfl
  | some f =>
    obtain ⟨inside, -⟩ := List.getElem?_eq_some_iff.mp here
    rw [List.getElem?_range inside, Option.map_some, Option.map_some, (reading.entry i f here).1]

-- The loop of get finds a key that stands once in its range.
theorem Reading.search_found (reading : Reading r fields) (sorted : fields.Pairwise (keyLe Field.key))
    {j : Nat} (here : fields[j]? = some f) (once : ∀ i g, fields[i]? = some g → g.keyId = f.keyId → i = j)
    {turns lo hi : Nat} (after : lo ≤ j) (before : j < hi) (within : hi ≤ fields.length)
    (enough : hi - lo < turns) : r.search f.keyId turns lo hi = some (f.tag, f.value) := by
  induction turns generalizing lo hi with
  | zero => omega
  | succ turns ih =>
    have inside : lo + (hi - lo) / 2 < fields.length := by omega
    obtain ⟨key, tag, bytes⟩ := reading.entry _ _ (List.getElem?_eq_getElem inside)
    obtain ⟨bound, known⟩ := List.getElem?_eq_some_iff.mp here
    rw [GbvReader.search, if_pos (by omega)]
    simp only [key]
    by_cases same : fields[lo + (hi - lo) / 2].keyId = f.keyId
    · obtain rfl := once _ _ (List.getElem?_eq_getElem inside) same
      rw [if_pos same, tag, bytes, known]
      rfl
    · rw [if_neg same]
      have order (a b : Nat) (ha : a < fields.length) (hb : b < fields.length) (less : a < b) :
          fields[a].keyId.toNat ≤ fields[b].keyId.toNat :=
        List.pairwise_iff_getElem.mp sorted a b ha hb less
      by_cases low : fields[lo + (hi - lo) / 2].keyId < f.keyId
      · rw [if_pos low]
        refine ih ?_ before within (by omega)
        by_contra not_after
        rcases Nat.lt_or_eq_of_le (show j ≤ lo + (hi - lo) / 2 by omega) with less | rfl
        · have := order _ _ bound inside less
          have := UInt32.lt_iff_toNat_lt.mp low
          rw [known] at *
          omega
        · exact same (by rw [known])
      · rw [if_neg low]
        refine ih after ?_ (by omega) (by omega)
        by_contra not_before
        rcases Nat.lt_or_eq_of_le (show lo + (hi - lo) / 2 ≤ j by omega) with less | eq
        · have := order _ _ inside bound less
          rw [known] at this
          have strict : fields[lo + (hi - lo) / 2].keyId.toNat ≠ f.keyId.toNat :=
            fun eq => same (UInt32.toNat_inj.mp eq)
          exact low (UInt32.lt_iff_toNat_lt.mpr (by omega))
        · subst eq
          exact same (by rw [known])

theorem Reading.search_missing (reading : Reading r fields) (missing : ∀ f ∈ fields, f.keyId ≠ k)
    {turns lo hi : Nat} (within : hi ≤ fields.length) : r.search k turns lo hi = none := by
  induction turns generalizing lo hi with
  | zero => rfl
  | succ turns ih =>
    rw [GbvReader.search]
    split
    next more =>
      have inside : lo + (hi - lo) / 2 < fields.length := by omega
      obtain ⟨key, -, -⟩ := reading.entry _ _ (List.getElem?_eq_getElem inside)
      simp only [key]
      rw [if_neg (missing _ (List.getElem_mem inside))]
      split
      · exact ih within
      · exact ih (by omega)
    next => rfl

theorem Reading.get_found (reading : Reading r fields) (sorted : fields.Pairwise (keyLe Field.key))
    {j : Nat} (here : fields[j]? = some f) (once : ∀ i g, fields[i]? = some g → g.keyId = f.keyId → i = j) :
    r.get f.keyId = some (f.tag, f.value) := by
  obtain ⟨inside, -⟩ := List.getElem?_eq_some_iff.mp here
  rw [GbvReader.get]
  exact reading.search_found sorted here once (Nat.zero_le j) (by rw [reading.count]; exact inside)
    reading.count.le (by omega)

theorem Reading.get_missing (reading : Reading r fields) (missing : ∀ f ∈ fields, f.keyId ≠ k) :
    r.get k = none :=
  reading.search_missing missing reading.count.le

-- The loop of redact pushes the fields that are kept, in the order of the directory.
theorem Reading.redact (reading : Reading r fields) (exclude : List UInt32) :
    r.redact exclude = build (fields.filter fun f => f.keyId ∉ exclude) := by
  have loop (n : Nat) (within : n ≤ fields.length) :
      (List.range n).foldl (r.redactStep exclude) .new =
        pushAll ((fields.take n).filter fun f => f.keyId ∉ exclude) := by
    induction n with
    | zero => rfl
    | succ n ih =>
      have inside : n < fields.length := within
      obtain ⟨key, tag, bytes⟩ := reading.entry n fields[n] (List.getElem?_eq_getElem inside)
      rw [List.range_succ, List.foldl_append, ih (by omega), List.foldl_cons, List.foldl_nil,
        List.take_succ_eq_append_getElem inside, List.filter_append, GbvReader.redactStep]
      simp only [key, tag, bytes]
      by_cases excluded : fields[n].keyId ∈ exclude
      · rw [if_pos excluded, List.filter_cons_of_neg (by simpa using excluded), List.filter_nil,
          List.append_nil]
      · rw [if_neg excluded, List.filter_cons_of_pos (by simpa using excluded), List.filter_nil, pushAll_snoc]
  rw [GbvReader.redact, reading.count, loop _ le_rfl, List.take_length, build]

theorem fieldCount_le {buf : List UInt8} (opened : GbvReader.new buf = .ok r) : r.fieldCount ≤ 65535 := by
  rw [GbvReader.new] at opened
  split at opened
  next => cases opened
  next enough =>
    dsimp only at opened
    split at opened
    next => cases opened
    next =>
      obtain rfl := Except.ok.inj opened
      have small := ofLittleEndian_lt (buf.take 2)
      rw [List.length_take, Nat.min_eq_left (by omega)] at small
      dsimp only
      omega

theorem redact_keyIds {buf : List UInt8} {r' : GbvReader} {exclude : List UInt32} (opened : GbvReader.new buf = .ok r)
    (opened' : GbvReader.new (r.redact exclude) = .ok r') : ∀ k ∈ exclude, k ∉ r'.keyIds := by
  have loop (n : Nat) : ((List.range n).foldl (r.redactStep exclude) .new).entries.length ≤ n ∧
      ∀ e ∈ ((List.range n).foldl (r.redactStep exclude) .new).entries, e.keyId ∉ exclude := by
    induction n with
    | zero => exact ⟨le_rfl, fun e none => absurd none List.not_mem_nil⟩
    | succ n ih =>
      rw [List.range_succ, List.foldl_append, List.foldl_cons, List.foldl_nil]
      generalize (List.range n).foldl (r.redactStep exclude) .new = b at ih
      have kept : b.entries.length ≤ n + 1 ∧ ∀ e ∈ b.entries, e.keyId ∉ exclude := ⟨Nat.le_succ_of_le ih.1, ih.2⟩
      simp only [GbvReader.redactStep]
      split
      next => exact kept
      next visible =>
        split
        next =>
          refine ⟨by simpa [GbvBuilder.push] using ih.1, fun e mem => ?_⟩
          rcases List.mem_append.mp mem with old | last
          next => exact ih.2 e old
          next =>
            obtain rfl := List.mem_singleton.mp last
            exact visible
        next => exact kept
  obtain ⟨few, visible⟩ := loop r.fieldCount
  obtain ⟨r'', again, finished⟩ := finish_reads (few.trans (fieldCount_le opened))
  obtain rfl : r'' = r' := Except.ok.inj (again.symm.trans opened')
  intro k hidden here
  rw [GbvReader.keyIds, finished.count] at here
  obtain ⟨i, inside, rfl⟩ := List.mem_map.mp here
  have found := List.getElem?_eq_getElem (List.mem_range.mp inside)
  rw [finished.entry i _ found] at hidden
  exact visible _ (mem_sortByKey.mp (List.getElem_mem _)) hidden

end Reading

section RoundTrip

/-- What is built reads back: every pushed field under its key, nothing else, the keys in ascending order. -/
def ReadsBack (fields : List Field) : Prop :=
  ∃ r, GbvReader.new (build fields) = .ok r ∧
    (∀ f ∈ fields, r.get f.keyId = some (f.tag, f.value)) ∧
    (∀ k, (∀ f ∈ fields, f.keyId ≠ k) → r.get k = none) ∧
    r.keyIds.Pairwise (fun a b => a < b) ∧ ∀ k, k ∈ r.keyIds ↔ ∃ f ∈ fields, f.keyId = k

theorem distinct_sorted (distinct : (fields.map Field.keyId).Nodup) :
    ((sortByKey Field.key fields).map Field.keyId).Nodup :=
  (perm_sortByKey.map Field.keyId).nodup_iff.mpr distinct

theorem readsBack_of_few (distinct : (fields.map Field.keyId).Nodup) (few : fields.length ≤ 65535)
    (small : valueBytes fields < 2 ^ 32) : ReadsBack fields := by
  obtain ⟨r, opened, reading⟩ := build_reads few small
  have sorted := sortByKey_sorted Field.key fields
  have nodup := distinct_sorted distinct
  have same (f : Field) : f ∈ sortByKey Field.key fields ↔ f ∈ fields := mem_sortByKey
  refine ⟨r, opened, fun f mem => ?_, fun k missing => ?_, ?_, fun k => ?_⟩
  · obtain ⟨j, here⟩ := List.mem_iff_getElem?.mp ((same f).mpr mem)
    refine reading.get_found sorted here fun i g found sameKey => ?_
    have index {i : Nat} {g : Field} (found : (sortByKey Field.key fields)[i]? = some g) :
        ((sortByKey Field.key fields).map Field.keyId)[i]? = some g.keyId := by
      rw [List.getElem?_map, found]
      rfl
    obtain ⟨inside, -⟩ := List.getElem?_eq_some_iff.mp (index found)
    exact (List.getElem?_inj inside nodup).mp ((index found).trans (by rw [index here, sameKey]))
  · exact reading.get_missing fun f mem => missing f ((same f).mp mem)
  · rw [reading.keyIds]
    refine List.pairwise_map.mpr ((sorted.and (List.pairwise_map.mp nodup)).imp ?_)
    rintro a b ⟨le, ne⟩
    have strict : a.keyId.toNat ≠ b.keyId.toNat := fun same => ne (UInt32.toNat_inj.mp same)
    exact UInt32.lt_iff_toNat_lt.mpr (lt_of_le_of_ne le strict)
  · rw [reading.keyIds, List.mem_map]
    simp only [same]

-- The count in the header is taken modulo 65536.
theorem not_readsBack_of_many (distinct : (fields.map Field.keyId).Nodup) (many : 65535 < fields.length) :
    ¬ ReadsBack fields := by
  rintro ⟨r, opened, -, -, ascending, keys⟩
  have count : r.fieldCount < 65536 := by
    rw [GbvReader.new] at opened
    split at opened
    · cases opened
    · dsimp only at opened
      split at opened
      · cases opened
      · obtain rfl := Except.ok.inj opened
        refine (ofLittleEndian_lt _).trans_le ?_
        exact Nat.pow_le_pow_right (by decide) (List.length_take_le 2 _)
  have read : r.keyIds.length = r.fieldCount := by simp [GbvReader.keyIds]
  have all : (fields.map Field.keyId).toFinset ⊆ r.keyIds.toFinset := by
    intro k mem
    obtain ⟨f, memF, rfl⟩ := List.mem_map.mp (List.mem_toFinset.mp mem)
    exact List.mem_toFinset.mpr ((keys _).mpr ⟨f, memF, rfl⟩)
  have fewer := (Finset.card_le_card all).trans (List.toFinset_card_le _)
  rw [List.toFinset_card_of_nodup distinct, List.length_map] at fewer
  omega

theorem reads_back_iff (distinct : (fields.map Field.keyId).Nodup) (small : valueBytes fields < 2 ^ 32) :
    ReadsBack fields ↔ fields.length ≤ 65535 := by
  constructor
  · intro reads
    by_contra many
    exact not_readsBack_of_many distinct (not_le.mp many) reads
  · exact fun few => readsBack_of_few distinct few small

theorem reads_back_unsorted : ReadsBack [⟨9, .str, [104, 105]⟩, ⟨2, .str, []⟩, ⟨5, .bool, [1]⟩] :=
  (reads_back_iff (by decide) (by decide)).mpr (by decide)

-- 65536 fields without a value: the reader sees none of them.
theorem many_fields_lost :
    ¬ ((((List.range 65536).map fun k => (⟨UInt32.ofNat k, .bool, []⟩ : Field)).map Field.keyId).Nodup →
      valueBytes ((List.range 65536).map fun k => (⟨UInt32.ofNat k, .bool, []⟩ : Field)) < 2 ^ 32 →
      ReadsBack ((List.range 65536).map fun k => (⟨UInt32.ofNat k, .bool, []⟩ : Field))) := by
  have distinct : (((List.range 65536).map fun k => (⟨UInt32.ofNat k, .bool, []⟩ : Field)).map
      Field.keyId).Nodup := by
    rw [List.map_map]
    refine List.Nodup.map_on (fun a memA b memB same => ?_) List.nodup_range
    have smallA := List.mem_range.mp memA
    have smallB := List.mem_range.mp memB
    have values := congrArg UInt32.toNat same
    change a % 2 ^ 32 = b % 2 ^ 32 at values
    omega
  have small : valueBytes ((List.range 65536).map fun k => (⟨UInt32.ofNat k, .bool, []⟩ : Field)) < 2 ^ 32 := by
    have none : ((List.range 65536).map fun k => (⟨UInt32.ofNat k, .bool, []⟩ : Field)).flatMap
        Field.value = [] := by
      rw [List.flatMap_map]
      exact List.flatMap_eq_nil_iff.mpr fun _ _ => rfl
    rw [valueBytes, none]
    decide
  intro reads
  refine not_readsBack_of_many distinct ?_ (reads distinct small)
  rw [List.length_map, List.length_range]
  decide

end RoundTrip

end Gems.Codec

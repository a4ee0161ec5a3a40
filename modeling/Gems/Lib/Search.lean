import Mathlib.Order.Lattice
import Mathlib.Data.List.Basic
import Mathlib.Data.List.TakeWhile
import Mathlib.Logic.Function.Basic

set_option autoImplicit false

namespace Gems.Lib

variable {A K V : Type}

-- The index of the first element that fails `p`, in a list whose failures come last.
def partitionPoint (p : A → Bool) (l : List A) : Nat := (l.takeWhile p).length

variable [LinearOrder K]

-- The index of the key, or the index where it would have to stand.
def binarySearch (entries : List (K × V)) (key : K) : Except Nat Nat :=
  let idx := partitionPoint (fun e => decide (e.1 < key)) entries
  match entries[idx]? with
  | some e => if e.1 = key then .ok idx else .error idx
  | none => .error idx

-- The value replaced where the key stands, or the binding put where it has to stand.
def upsert (entries : List (K × V)) (key : K) (value : V) : List (K × V) :=
  match binarySearch entries key with
  | .ok idx => entries.modify idx fun e => (e.1, value)
  | .error idx => entries.insertIdx idx (key, value)

abbrev Sorted (entries : List (K × V)) : Prop := entries.Pairwise fun a b => a.1 < b.1

section Bindings

structure Lists (entries : List (K × V)) (m : K → Option V) : Prop where
  sorted : Sorted entries
  mem_iff : ∀ k v, (k, v) ∈ entries ↔ m k = some v

def Upserted (key : K) (value : V) (entries entries' : List (K × V)) : Prop :=
  ∀ e, e ∈ entries' ↔ e = (key, value) ∨ e.1 ≠ key ∧ e ∈ entries

def Removed (key : K) (entries entries' : List (K × V)) : Prop :=
  ∀ e, e ∈ entries' ↔ e.1 ≠ key ∧ e ∈ entries

variable {key : K} {value : V} {entries entries' before after : List (K × V)} {m : K → Option V}

theorem Lists.upsert (lists : Lists entries m) (sorted : Sorted entries')
    (upserted : Upserted key value entries entries') :
    Lists entries' (Function.update m key (some value)) where
  sorted := sorted
  mem_iff := by
    intro k v
    rw [upserted]
    by_cases same : k = key
    · subst same
      simp [eq_comm]
    · simp [same, lists.mem_iff]

theorem Lists.remove (lists : Lists entries m) (sorted : Sorted entries')
    (removed : Removed key entries entries') : Lists entries' (Function.update m key none) where
  sorted := sorted
  mem_iff := by
    intro k v
    rw [removed]
    by_cases same : k = key
    · subst same
      simp
    · simp [same, lists.mem_iff]

theorem Lists.lookup (lists : Lists entries m) {found : Option V}
    (finds : ∀ v, found = some v ↔ (key, v) ∈ entries) : found = m key := by
  apply Option.ext
  intro v
  rw [finds, lists.mem_iff]

theorem Upserted.inside (h : Upserted key value entries entries') (left : ∀ e ∈ before, e.1 < key)
    (right : ∀ e ∈ after, key < e.1) :
    Upserted key value (before ++ entries ++ after) (before ++ entries' ++ after) := by
  intro e
  have low : e ∈ before → e.1 ≠ key := fun mem => (left e mem).ne
  have high : e ∈ after → e.1 ≠ key := fun mem => (right e mem).ne'
  simp only [List.mem_append, h e]
  tauto

theorem Removed.inside (h : Removed key entries entries') (left : ∀ e ∈ before, e.1 < key)
    (right : ∀ e ∈ after, key < e.1) :
    Removed key (before ++ entries ++ after) (before ++ entries' ++ after) := by
  intro e
  have low : e ∈ before → e.1 ≠ key := fun mem => (left e mem).ne
  have high : e ∈ after → e.1 ≠ key := fun mem => (right e mem).ne'
  simp only [List.mem_append, h e]
  tauto

-- What stands before and after the position of a key says whether the key is there.
theorem finds_inside {found : Option V} (finds : ∀ v, found = some v ↔ (key, v) ∈ entries)
    (left : ∀ e ∈ before, e.1 < key) (right : ∀ e ∈ after, key < e.1) (v : V) :
    found = some v ↔ (key, v) ∈ before ++ entries ++ after := by
  have low : (key, v) ∉ before := fun mem => (left _ mem).false
  have high : (key, v) ∉ after := fun mem => (right _ mem).false
  simp [finds, low, high]

end Bindings

section Searching

variable {key : K} {entries : List (K × V)} {idx : Nat}

theorem Sorted.dropWhile (sorted : Sorted entries) :
    ∀ e ∈ entries.dropWhile (fun e => decide (e.1 < key)), key ≤ e.1 := by
  induction entries with
  | nil => simp
  | cons a rest ih =>
    obtain ⟨first, later⟩ := List.pairwise_cons.mp sorted
    intro e mem
    by_cases below : a.1 < key
    · rw [List.dropWhile_cons_of_pos (by simpa using below)] at mem
      exact ih later e mem
    · rw [List.dropWhile_cons_of_neg (by simpa using below)] at mem
      rcases List.mem_cons.mp mem with rfl | inside
      · exact not_lt.mp below
      · exact (not_lt.mp below).trans (first e inside).le

theorem takeWhile_below : ∀ e ∈ entries.takeWhile (fun e => decide (e.1 < key)), e.1 < key := by
  intro e mem
  simpa using List.mem_takeWhile_imp mem

theorem search_split (key : K) (sorted : Sorted entries) :
    ∃ below above, entries = below ++ above ∧
      partitionPoint (fun e => decide (e.1 < key)) entries = below.length ∧
      (∀ e ∈ below, e.1 < key) ∧ ∀ e ∈ above, key ≤ e.1 :=
  ⟨_, _, List.takeWhile_append_dropWhile.symm, rfl, takeWhile_below, sorted.dropWhile⟩

theorem search_ok (sorted : Sorted entries) (h : binarySearch entries key = .ok idx) :
    ∃ below value above, entries = below ++ (key, value) :: above ∧ below.length = idx ∧
      (∀ e ∈ below, e.1 < key) ∧ ∀ e ∈ above, key < e.1 := by
  obtain ⟨below, above, rfl, point, low, -⟩ := search_split key sorted
  simp only [binarySearch, point, List.getElem?_append_right le_rfl, Nat.sub_self] at h
  cases above with
  | nil => simp at h
  | cons e above =>
    simp only [List.getElem?_cons_zero] at h
    split at h
    next same =>
      obtain ⟨k, v⟩ := e
      obtain rfl : k = key := same
      obtain rfl := Except.ok.inj h
      exact ⟨below, v, above, rfl, rfl, low,
        (List.pairwise_cons.mp (List.pairwise_append.mp sorted).2.1).1⟩
    next => cases h

theorem search_error (sorted : Sorted entries) (h : binarySearch entries key = .error idx) :
    ∃ below above, entries = below ++ above ∧ below.length = idx ∧
      (∀ e ∈ below, e.1 < key) ∧ ∀ e ∈ above, key < e.1 := by
  obtain ⟨below, above, rfl, point, low, high⟩ := search_split key sorted
  simp only [binarySearch, point, List.getElem?_append_right le_rfl, Nat.sub_self] at h
  refine ⟨below, above, rfl, ?_, low, ?_⟩
  · cases above with
    | nil => simpa using h
    | cons e above =>
      simp only [List.getElem?_cons_zero] at h
      split at h
      next => cases h
      next => exact Except.error.inj h
  cases above with
  | nil => simp
  | cons e above =>
    simp only [List.getElem?_cons_zero] at h
    split at h
    next => cases h
    next other =>
      have first : key < e.1 := lt_of_le_of_ne (high e List.mem_cons_self) (Ne.symm other)
      intro e' mem
      rcases List.mem_cons.mp mem with rfl | inside
      · exact first
      · exact first.trans
          ((List.pairwise_cons.mp (List.pairwise_append.mp sorted).2.1).1 e' inside)

theorem insertIdx_append {below above : List A} (a : A) :
    (below ++ above).insertIdx below.length a = below ++ a :: above := by
  induction below with
  | nil => rfl
  | cons b below ih => rw [List.cons_append, List.length_cons, List.insertIdx_succ_cons, ih]; rfl

theorem upsert_eq (sorted : Sorted entries) (key : K) (value : V) :
    ∃ below rest above, entries = below ++ rest ++ above ∧
      upsert entries key value = below ++ (key, value) :: above ∧ (∀ e ∈ below, e.1 < key) ∧
      (∀ e ∈ above, key < e.1) ∧ ∀ e ∈ rest, e.1 = key := by
  unfold upsert
  cases search : binarySearch entries key with
  | ok idx =>
    obtain ⟨below, old, above, rfl, rfl, low, high⟩ := search_ok sorted search
    refine ⟨below, [(key, old)], above, by simp, ?_, low, high, by simp⟩
    simp [List.modify_eq_set_getElem?]
  | error idx =>
    obtain ⟨below, above, rfl, rfl, low, high⟩ := search_error sorted search
    exact ⟨below, [], above, by simp, insertIdx_append _, low, high, by simp⟩

theorem upsert_spec (sorted : Sorted entries) (key : K) (value : V) :
    Sorted (upsert entries key value) ∧ Upserted key value entries (upsert entries key value) ∧
      (upsert entries key value).length ≤ entries.length + 1 := by
  obtain ⟨below, rest, above, rfl, eq, low, high, same⟩ := upsert_eq sorted key value
  rw [eq]
  refine ⟨?_, ?_, ?_⟩
  · obtain ⟨first, last, -⟩ := List.pairwise_append.mp sorted
    refine List.pairwise_append.mpr ⟨(List.pairwise_append.mp first).1,
      List.pairwise_cons.mpr ⟨high, last⟩, fun a left b right => ?_⟩
    rcases List.mem_cons.mp right with rfl | inside
    · exact low a left
    · exact (low a left).trans (high b inside)
  · intro e
    have left : e ∈ below → e.1 ≠ key := fun mem => (low e mem).ne
    have right : e ∈ above → e.1 ≠ key := fun mem => (high e mem).ne'
    have middle : e ∈ rest → e.1 = key := same e
    simp only [List.mem_append, List.mem_cons]
    tauto
  · simp only [List.length_append, List.length_cons]
    omega

theorem erase_spec (sorted : Sorted entries) (h : binarySearch entries key = .ok idx) :
    Sorted (entries.eraseIdx idx) ∧ Removed key entries (entries.eraseIdx idx) ∧
      ∃ value, entries[idx]? = some (key, value) ∧ (key, value) ∈ entries := by
  obtain ⟨below, value, above, rfl, rfl, low, high⟩ := search_ok sorted h
  have erased : (below ++ (key, value) :: above).eraseIdx below.length = below ++ above := by
    rw [List.eraseIdx_append_of_length_le le_rfl, Nat.sub_self, List.eraseIdx_cons_zero]
  rw [erased]
  refine ⟨?_, ?_, value, by simp, by simp⟩
  · exact sorted.sublist ((List.Sublist.refl below).append (List.sublist_cons_self _ _))
  · intro e
    have left : e ∈ below → e.1 ≠ key := fun mem => (low e mem).ne
    have right : e ∈ above → e.1 ≠ key := fun mem => (high e mem).ne'
    simp only [List.mem_append, List.mem_cons]
    constructor
    · rintro (mem | mem)
      · exact ⟨left mem, .inl mem⟩
      · exact ⟨right mem, .inr (.inr mem)⟩
    · rintro ⟨other, mem | rfl | mem⟩
      · exact .inl mem
      · exact absurd rfl other
      · exact .inr mem

theorem halve_spec (mid : Nat) (sorted : Sorted entries) (positive : 0 < mid)
    (inside : mid < entries.length) :
    ∃ first sep value right, entries.take mid ≠ [] ∧ first ∈ entries ∧ first.1 < sep ∧
      entries.drop mid = (sep, value) :: right ∧ (sep, value) ∈ entries ∧
      Sorted (entries.take mid) ∧ Sorted (entries.drop mid) ∧
      (∀ e ∈ entries.take mid, e.1 < sep) ∧ ∀ e ∈ entries.drop mid, sep ≤ e.1 := by
  have whole := List.take_append_drop mid entries
  rw [← whole] at sorted
  obtain ⟨left, right, apart⟩ := List.pairwise_append.mp sorted
  cases cut : entries.drop mid with
  | nil =>
    have := List.drop_eq_nil_iff.mp cut
    omega
  | cons e rest =>
    cases front : entries.take mid with
    | nil =>
      have := congrArg List.length front
      rw [List.length_take, List.length_nil] at this
      omega
    | cons first left' =>
      rw [cut] at right apart
      rw [front] at left apart
      have here : first ∈ entries.take mid := front ▸ List.mem_cons_self
      have sep : e ∈ entries.drop mid := cut ▸ List.mem_cons_self
      refine ⟨first, e.1, e.2, rest, by simp, List.mem_of_mem_take here, ?_, rfl,
        List.mem_of_mem_drop sep, left, right, fun a mem => apart a mem e List.mem_cons_self, ?_⟩
      · exact apart first List.mem_cons_self e List.mem_cons_self
      · intro a mem
        rcases List.mem_cons.mp mem with rfl | later
        · exact le_rfl
        · exact ((List.pairwise_cons.mp right).1 a later).le

end Searching

end Gems.Lib

import Gems.Lib.Search

set_option autoImplicit false

namespace Gems.Lib

-- A map as its bindings in ascending key order.
structure SortedMap (K V : Type) [LinearOrder K] where
  entries : List (K × V)
  sorted : Sorted entries

namespace SortedMap

variable {K V : Type} [LinearOrder K] {m : SortedMap K V} {key key' : K} {value : V}

def empty : SortedMap K V := ⟨[], .nil⟩

def keys (m : SortedMap K V) : List K := m.entries.map Prod.fst

def get (m : SortedMap K V) (key : K) : Option V :=
  (m.entries.find? fun e => e.1 = key).map Prod.snd

def insert (m : SortedMap K V) (key : K) (value : V) : SortedMap K V :=
  ⟨upsert m.entries key value, (upsert_spec m.sorted key value).1⟩

def erase (m : SortedMap K V) (key : K) : SortedMap K V :=
  ⟨m.entries.filter fun e => e.1 ≠ key, m.sorted.sublist List.filter_sublist⟩

def mapValues {W : Type} (m : SortedMap K V) (f : V → W) : SortedMap K W :=
  ⟨m.entries.map fun e => (e.1, f e.2), List.pairwise_map.mpr m.sorted⟩

theorem mem_entries : (key, value) ∈ m.entries ↔ m.get key = some value := by
  obtain ⟨entries, sorted⟩ := m
  simp only [get]
  induction entries with
  | nil => simp
  | cons e rest ih =>
    obtain ⟨first, later⟩ := List.pairwise_cons.mp sorted
    by_cases same : e.1 = key
    · have absent : (key, value) ∉ rest := fun mem => (first _ mem).ne same
      rw [List.find?_cons_of_pos (by simpa using same), List.mem_cons]
      obtain ⟨k, v⟩ := e
      obtain rfl : k = key := same
      simp [absent, eq_comm]
    · have other : (key, value) ≠ e := fun h => same (congrArg Prod.fst h).symm
      rw [List.find?_cons_of_neg (by simpa using same), List.mem_cons, ← ih later]
      simp [other]

theorem lists (m : SortedMap K V) : Lists m.entries m.get := ⟨m.sorted, fun _ _ => mem_entries⟩

theorem mem_keys : key ∈ m.keys ↔ m.get key ≠ none := by
  rw [keys, List.mem_map, Option.ne_none_iff_exists']
  constructor
  · rintro ⟨⟨k, v⟩, mem, rfl⟩
    exact ⟨v, mem_entries.mp mem⟩
  · rintro ⟨v, found⟩
    exact ⟨(key, v), mem_entries.mpr found, rfl⟩

theorem keys_sorted (m : SortedMap K V) : m.keys.Pairwise (· < ·) := List.pairwise_map.mpr m.sorted

@[simp] theorem get_empty : (empty : SortedMap K V).get key = none := rfl

theorem get_insert : (m.insert key value).get = Function.update m.get key (some value) := by
  have lists' := m.lists.upsert (upsert_spec m.sorted key value).1 (upsert_spec m.sorted key value).2.1
  funext k
  refine (lists'.lookup fun v => ?_)
  exact (mem_entries (m := m.insert key value)).symm

theorem get_erase : (m.erase key).get = Function.update m.get key none := by
  have removed : Removed key m.entries (m.erase key).entries := by
    intro e
    simp [erase, and_comm]
  have lists' := m.lists.remove (m.erase key).sorted removed
  funext k
  exact lists'.lookup fun v => mem_entries.symm

theorem get_mapValues {W : Type} (f : V → W) : (m.mapValues f).get key = (m.get key).map f := by
  simp only [get, mapValues, List.find?_map, Option.map_map]
  rfl

def ofKeys (keys : List K) (f : K → Option V) : SortedMap K V :=
  keys.foldl (fun out key =>
    match f key with
    | some value => out.insert key value
    | none => out) empty

theorem get_ofKeys (keys : List K) (f : K → Option V) :
    (ofKeys keys f).get key = if key ∈ keys then f key else none := by
  have loop (keys : List K) (out : SortedMap K V) (start : ∀ k, out.get k = none ∨ out.get k = f k) :
      (keys.foldl (fun out key =>
        match f key with
        | some value => out.insert key value
        | none => out) out).get key = if key ∈ keys then f key else out.get key := by
    induction keys generalizing out with
    | nil => simp
    | cons k rest ih =>
      have next (k' : K) : (match f k with
          | some value => out.insert k value
          | none => out).get k' = if k' = k ∧ f k ≠ none then f k else out.get k' := by
        cases made : f k with
        | none => simp
        | some value =>
          simp only [get_insert]
          by_cases same : k' = k
          · subst same
            simp
          · simp [same]
      rw [List.foldl_cons, ih]
      · rw [next]
        by_cases later : key ∈ rest
        · simp [later]
        · by_cases same : key = k
          · subst same
            by_cases none : f key = none
            · have := start key
              simp [later, none] at this ⊢
              exact this
            · simp [later, none]
          · simp [later, same]
      · intro k'
        rw [next]
        split
        next here => exact .inr (by rw [here.1])
        next => exact start k'
  rw [ofKeys, loop keys empty fun _ => .inl rfl, get_empty]

end SortedMap

end Gems.Lib

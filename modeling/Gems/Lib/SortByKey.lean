import Mathlib.Data.List.Sort
import Mathlib.Order.Lattice

set_option autoImplicit false

namespace Gems.Lib

variable {A B K : Type} [LinearOrder K]

def keyLe (key : A → K) (a b : A) : Prop := key a ≤ key b

instance (key : A → K) : DecidableRel (keyLe key) := fun a b => inferInstanceAs (Decidable (key a ≤ key b))

instance (key : A → K) : Std.Total (keyLe key) := ⟨fun a b => le_total (key a) (key b)⟩

instance (key : A → K) : IsTrans A (keyLe key) := ⟨fun _ _ _ => le_trans⟩

-- A stable sort: elements with one key stay in their order.
def sortByKey (key : A → K) (l : List A) : List A := l.insertionSort (keyLe key)

variable {key : A → K} {l : List A} {a : A}

theorem mem_sortByKey : a ∈ sortByKey key l ↔ a ∈ l := List.mem_insertionSort _

theorem length_sortByKey : (sortByKey key l).length = l.length := List.length_insertionSort _ l

theorem perm_sortByKey : (sortByKey key l).Perm l := List.perm_insertionSort _ l

theorem sortByKey_sorted (key : A → K) (l : List A) : (sortByKey key l).Pairwise (keyLe key) :=
  List.pairwise_insertionSort _ l

theorem sortByKey_perm {l' : List A} (injective : Function.Injective key) (perm : l.Perm l') :
    sortByKey key l = sortByKey key l' := by
  have sorted (l : List A) : (sortByKey key l).Perm l := perm_sortByKey
  have same := (sorted l).trans (perm.trans (sorted l').symm)
  refine same.eq_of_pairwise (fun a b _ _ below above => injective ?_)
    (sortByKey_sorted key l) (sortByKey_sorted key l')
  exact le_antisymm below above

theorem map_sortByKey (key' : B → K) {f : A → B} (same : ∀ a ∈ l, key' (f a) = key a) :
    (sortByKey key l).map f = sortByKey key' (l.map f) := by
  refine List.map_insertionSort (keyLe key) (keyLe key') f l fun a memA b memB => ?_
  rw [keyLe, keyLe, same a memA, same b memB]

theorem filter_orderedInsert (p : A → Bool) (sorted : l.Pairwise (keyLe key)) (a : A) :
    (l.orderedInsert (keyLe key) a).filter p =
      if p a then (l.filter p).orderedInsert (keyLe key) a else l.filter p := by
  induction l with
  | nil => cases here : p a <;> simp [here]
  | cons b rest ih =>
    obtain ⟨first, later⟩ := List.pairwise_cons.mp sorted
    by_cases before : keyLe key a b
    · rw [List.orderedInsert_cons_of_le _ _ before, List.filter_cons]
      split
      · have all : ∀ c ∈ (b :: rest).filter p, keyLe key a c := by
          intro c mem
          rcases List.mem_cons.mp (List.mem_of_mem_filter mem) with rfl | inside
          · exact before
          · exact before.trans (first c inside)
        cases front : (b :: rest).filter p with
        | nil => rfl
        | cons c tail =>
          rw [List.orderedInsert_cons_of_le]
          exact all c (by rw [front]; exact List.mem_cons_self)
      · rfl
    · have step : (b :: rest).orderedInsert (keyLe key) a = b :: rest.orderedInsert (keyLe key) a :=
        List.orderedInsert_of_not_le _ rest before
      rw [step, List.filter_cons, ih later, List.filter_cons]
      by_cases keptA : p a = true
      · rw [if_pos keptA, if_pos keptA]
        split
        next => rw [List.orderedInsert_of_not_le _ _ before]
        next => rfl
      · rw [if_neg keptA, if_neg keptA]

theorem filter_sortByKey (p : A → Bool) : (sortByKey key l).filter p = sortByKey key (l.filter p) := by
  induction l with
  | nil => rfl
  | cons a rest ih =>
    have step : sortByKey key (a :: rest) = (sortByKey key rest).orderedInsert (keyLe key) a :=
      List.insertionSort_cons _ a rest
    rw [step, filter_orderedInsert p (sortByKey_sorted key rest), ih, List.filter_cons]
    split
    · exact (List.insertionSort_cons _ a _).symm
    · rfl

end Gems.Lib

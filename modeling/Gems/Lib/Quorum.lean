import Mathlib.Data.Finset.Card
import Mathlib.Tactic.Linarith

set_option autoImplicit false

namespace Gems.Lib

variable {N : Type} [DecidableEq N]

structure Majority (members Q : Finset N) : Prop where
  subset : Q ⊆ members
  large : members.card < 2 * Q.card

theorem Majority.meet {members P Q : Finset N} (hP : Majority members P) (hQ : Majority members Q) :
    ∃ w, w ∈ P ∧ w ∈ Q := by
  by_contra none
  have disjoint : Disjoint P Q := by
    rw [Finset.disjoint_left]
    intro w inP inQ
    exact none ⟨w, inP, inQ⟩
  have union : (P ∪ Q).card ≤ members.card :=
    Finset.card_le_card (Finset.union_subset hP.subset hQ.subset)
  rw [Finset.card_union_of_disjoint disjoint] at union
  have := hP.large
  have := hQ.large
  omega

theorem Majority.agree {A : Type} {members P Q : Finset N} {f : N → Option A} {a b : A}
    (hP : Majority members P) (hQ : Majority members Q)
    (ha : ∀ w ∈ P, f w = some a) (hb : ∀ w ∈ Q, f w = some b) : a = b := by
  obtain ⟨w, inP, inQ⟩ := hP.meet hQ
  exact Option.some.inj ((ha w inP).symm.trans (hb w inQ))

end Gems.Lib

import Mathlib.Data.Fintype.Card
import Mathlib.Data.Set.Finite.Lattice
import Mathlib.Logic.Relation

set_option autoImplicit false

namespace Gems.Lib

open Relation

variable {A : Type} {calls : A → A → Prop} {fails : A → Prop} {within : Nat → A → Prop} {root a : A}

/-- No call made on behalf of `root` fails or comes back to itself. -/
def Grounded (calls : A → A → Prop) (fails : A → Prop) (root : A) : Prop :=
  ∀ a, ReflTransGen calls root a → ¬ fails a ∧ ¬ TransGen calls a a

theorem Grounded.callee (grounded : Grounded calls fails root) (call : calls root a) :
    Grounded calls fails a :=
  fun b reached => grounded b (.head call reached)

section Depth

/-- A recursion by its depth: a call returns within `n + 1` levels iff it does not fail and every
call it makes returns within `n`. -/
structure Levels (calls : A → A → Prop) (fails : A → Prop) (within : Nat → A → Prop) : Prop where
  zero : ∀ a, ¬ within 0 a
  succ : ∀ n a, within (n + 1) a ↔ ¬ fails a ∧ ∀ b, calls a b → within n b

theorem Levels.more (levels : Levels calls fails within) {n m : Nat} (le : n ≤ m) (returns : within n a) :
    within m a := by
  induction n generalizing m a with
  | zero => exact absurd returns (levels.zero a)
  | succ n ih =>
    obtain ⟨fine, callees⟩ := (levels.succ n a).mp returns
    obtain ⟨m, rfl⟩ : ∃ k, m = k + 1 := ⟨m - 1, by omega⟩
    exact (levels.succ m a).mpr ⟨fine, fun b call => ih (by omega) (callees b call)⟩

theorem Levels.reach (levels : Levels calls fails within) {n : Nat} (returns : within n root)
    (reached : ReflTransGen calls root a) : ∃ m, m ≤ n ∧ within m a := by
  induction reached with
  | refl => exact ⟨n, le_rfl, returns⟩
  | tail _ call ih =>
    obtain ⟨m, le, here⟩ := ih
    cases m with
    | zero => exact absurd here (levels.zero _)
    | succ m => exact ⟨m, by omega, ((levels.succ m _).mp here).2 _ call⟩

theorem Levels.acyclic (levels : Levels calls fails within) {n : Nat} (returns : within n a) :
    ¬ TransGen calls a a := by
  intro cycle
  -- one turn of the cycle would return at a smaller depth
  induction n using Nat.strong_induction_on with
  | _ n ih =>
    obtain ⟨b, call, rest⟩ := TransGen.head'_iff.mp cycle
    cases n with
    | zero => exact levels.zero a returns
    | succ n =>
      obtain ⟨m, le, here⟩ := levels.reach (((levels.succ n a).mp returns).2 b call) rest
      exact ih m (by omega) here

-- Finitely many callers without a cycle: the recursion from `root` is well-founded.
theorem Grounded.accessible (grounded : Grounded calls fails root) (finite : {a | ∃ b, calls a b}.Finite) :
    Acc (fun b a => calls a b) root := by
  let Caller := {a // (∃ b, calls a b) ∧ ReflTransGen calls root a}
  have : Finite Caller := (finite.subset fun a (h : (∃ b, calls a b) ∧ _) => h.1).to_subtype
  let below : Caller → Caller → Prop := fun b a => TransGen calls a.1 b.1
  have : IsTrans Caller below := ⟨fun _ _ _ first second => second.trans first⟩
  have : Std.Irrefl below := ⟨fun a => (grounded a.1 a.2.2).2⟩
  have founded : WellFounded below := Finite.wellFounded_of_trans_of_irrefl below
  have callers (a : Caller) : Acc (fun b a => calls a b) a.1 := by
    induction a using founded.induction with
    | _ a ih =>
      refine ⟨_, fun b call => ?_⟩
      by_cases more : ∃ c, calls b c
      · exact ih ⟨b, more, a.2.2.tail call⟩ (.single call)
      · exact ⟨_, fun c next => absurd ⟨c, next⟩ more⟩
  by_cases more : ∃ b, calls root b
  · exact callers ⟨root, more, .refl⟩
  · exact ⟨_, fun b call => absurd ⟨b, call⟩ more⟩

/-- The recursion returns at some depth exactly when it is grounded. -/
theorem Levels.returns_iff (levels : Levels calls fails within) (finite : {a | ∃ b, calls a b}.Finite)
    (branches : ∀ a, {b | calls a b}.Finite) : (∃ n, within n root) ↔ Grounded calls fails root := by
  constructor
  · rintro ⟨n, returns⟩ a reached
    obtain ⟨m, -, here⟩ := levels.reach returns reached
    refine ⟨?_, levels.acyclic here⟩
    cases m with
    | zero => exact absurd here (levels.zero a)
    | succ m => exact ((levels.succ m a).mp here).1
  · intro grounded
    have accessible := grounded.accessible finite
    induction accessible with
    | intro a _ ih =>
      have each : ∀ b ∈ {b | calls a b}, ∃ n, within n b := fun b call => ih b call (grounded.callee call)
      choose! depth returns using each
      obtain ⟨bound, above⟩ := ((branches a).image depth).bddAbove
      refine ⟨bound + 1, (levels.succ bound a).mpr ⟨(grounded a .refl).1, fun b call => ?_⟩⟩
      exact levels.more (above ⟨b, call, rfl⟩) (returns b call)

end Depth

end Gems.Lib

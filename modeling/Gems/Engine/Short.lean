import Gems.Engine.Settled
import Gems.Index.Growth

set_option autoImplicit false

namespace Gems.Engine

open Lib Prog Catalog Index Storage

variable {os : PageSize} {s t : Store} {calls : List Call} {fuel k : Nat} {id : Tuid} {header : EntityHeader}
  {body : List UInt8} {ord : Ordinal}

namespace Store

-- The counters of the indexes and the ordinals.
def used (s : Store) : Nat :=
  max (max s.primary.used s.ordinalById.used) (max s.idByOrdinal.used s.nextOrdinal.toNat)

section Parts

variable {A : Type}

theorem raises_onPrimary {m : Gems.Prog BTree A} (raises : Raises BTree.used k m) : Raises used k (onPrimary m) := by
  refine raises_focus raises fun s t le => ?_
  simp only [used]
  omega

theorem raises_onOrdinalById {m : Gems.Prog BTree A} (raises : Raises BTree.used k m) :
    Raises used k (onOrdinalById m) := by
  refine raises_focus raises fun s t le => ?_
  simp only [used]
  omega

theorem raises_onIdByOrdinal {m : Gems.Prog BTree A} (raises : Raises BTree.used k m) :
    Raises used k (onIdByOrdinal m) := by
  refine raises_focus raises fun s t le => ?_
  simp only [used]
  omega

theorem raises_onData {m : Gems.Prog ExtentManager A} : Raises used k (onData m) := raises_beside fun _ _ => rfl

end Parts

theorem raises_ordinalFor : Raises used (4 * fuel + 5) (ordinalFor os fuel id) := by
  refine raises_view_bind fun s => raises_still_bind raises_ofResult fun found => ?_
  split
  next => exact raises_pure
  next =>
    dsimp only
    split
    next => exact raises_fail
    next =>
      refine Raises.mono (k := 1 + (2 * fuel + 2 + (2 * fuel + 2 + 0))) (raises_bind (raises_update fun s => ?_)
        fun _ => raises_bind (raises_onOrdinalById BTree.raises_insert) fun _ =>
          raises_bind (raises_onIdByOrdinal BTree.raises_insert) fun _ => raises_pure) (by omega)
      have next : (s.nextOrdinal + 1).toNat ≤ s.nextOrdinal.toNat + 1 := by
        rw [UInt32.toNat_add]
        exact Nat.mod_le _ _
      simp only [used]
      omega

theorem raises_releaseOld : Raises used 0 (releaseOld fuel id ord) := by
  refine raises_view_bind fun s => raises_still_bind raises_ofResult fun found => ?_
  split
  next => exact raises_pure
  next =>
    refine raises_still_bind raises_ofResult fun old => ?_
    exact raises_still_bind (raises_update fun _ => le_rfl) fun _ => raises_onData

theorem raises_insert : Raises used (6 * fuel + 7) (insert os fuel header body) := by
  refine raises_still_bind raises_onData fun ptr => raises_still_bind raises_onData fun _ => ?_
  refine Raises.mono (k := 4 * fuel + 5 + (2 * fuel + 2)) (raises_bind raises_ordinalFor fun ord => ?_) (by omega)
  refine raises_still_bind raises_releaseOld fun _ => raises_still_bind (raises_update fun _ => le_rfl) fun _ => ?_
  exact raises_onPrimary BTree.raises_insert

theorem raises_retireOrdinal : Raises used (2 * fuel + 2) (retireOrdinal os fuel id header) := by
  refine Raises.mono (k := fuel + 1 + (fuel + 1 + 0)) (raises_bind (raises_onOrdinalById BTree.raises_delete)
    fun found => ?_) (by omega)
  split
  next => exact raises_pure
  next =>
    exact raises_bind (raises_onIdByOrdinal BTree.raises_delete) fun _ => raises_update fun _ => le_rfl

theorem raises_delete : Raises used (6 * fuel + 7) (delete os fuel id) := by
  refine Raises.mono (k := fuel + 1 + (2 * fuel + 2 + 0)) (raises_bind (raises_onPrimary BTree.raises_delete)
    fun found => ?_) (by omega)
  split
  next => exact raises_pure
  next =>
    refine raises_view_bind fun s => raises_still_bind raises_ofResult fun old => ?_
    refine raises_bind raises_retireOrdinal fun _ => raises_still_bind raises_onData fun _ => raises_pure

end Store

theorem used_create (created : Store.create os = .ok s) : s.used ≤ 1 := by
  rw [Store.create] at created
  cases madeP : BTree.create Tuid SlotPointer os defaultIndexPageSize.toNat with
  | error e =>
    rw [madeP] at created
    cases created
  | ok primary =>
    cases madeA : BTree.create Tuid Ordinal os defaultIndexPageSize.toNat with
    | error e =>
      rw [madeP, madeA] at created
      cases created
    | ok ordinalById =>
      cases madeB : BTree.create Ordinal Tuid os defaultIndexPageSize.toNat with
      | error e =>
        rw [madeP, madeA, madeB] at created
        cases created
      | ok idByOrdinal =>
        rw [madeP, madeA, madeB] at created
        cases created
        have primary := BTree.used_create madeP
        have ordinalById := BTree.used_create madeA
        have idByOrdinal := BTree.used_create madeB
        simp only [Store.used, UInt32.toNat_zero]
        omega

theorem Exhausted.used (exhausted : Exhausted s) : 2 ^ 32 ≤ s.used + 1 := by
  have counters {p : Pager} (full : Index.Full p) : 2 ^ 32 ≤ p.used + 1 := by
    rw [Pager.used]
    rcases full with pages | commits
    · exact pages.ge.trans (Nat.succ_le_succ (le_max_left _ _))
    · exact (show 2 ^ 32 ≤ 2 ^ 64 by decide).trans (commits.ge.trans (Nat.succ_le_succ (le_max_right _ _)))
  rcases exhausted with full | full | full | last
  · exact (counters full).trans (Nat.succ_le_succ (le_max_of_le_left (le_max_left _ _)))
  · exact (counters full).trans (Nat.succ_le_succ (le_max_of_le_left (le_max_right _ _)))
  · exact (counters full).trans (Nat.succ_le_succ (le_max_of_le_right (le_max_left _ _)))
  · exact last.ge.trans (Nat.succ_le_succ (le_max_of_le_right (le_max_right _ _)))

theorem Call.exec_used {call : Call} (stays : call ≠ .reopen) :
    (call.exec os fuel s).2.used ≤ s.used + (6 * fuel + 7) := by
  cases call with
  | insert header body =>
    rw [Call.exec]
    cases made : (Store.insert os fuel header body).run s with
    | mk result s' =>
      have ran := Store.raises_insert.run made
      cases result with
      | ok done => exact ran
      | error e => cases e <;> exact ran
  | delete id =>
    rw [Call.exec]
    cases made : (Store.delete os fuel id).run s with
    | mk result s' =>
      have ran := Store.raises_delete.run made
      cases result <;> exact ran
  | reopen => exact absurd rfl stays

theorem runCalls_used (stay : ∀ call ∈ calls, call ≠ .reopen) :
    (runCalls os fuel calls s).2.used ≤ s.used + calls.length * (6 * fuel + 7) := by
  induction calls generalizing s with
  | nil => exact Nat.le_add_right _ _
  | cons call rest ih =>
    have now : (call.exec os fuel s).2.used ≤ s.used + (6 * fuel + 7) :=
      Call.exec_used (stay call List.mem_cons_self)
    rw [runCalls, List.length_cons, Nat.succ_mul]
    cases made : call.exec os fuel s with
    | mk result s' =>
      rw [made] at now
      cases result with
      | error e => exact now.trans (by omega)
      | ok reply =>
        have later := ih (s := s') fun call mem => stay call (List.mem_cons_of_mem _ mem)
        dsimp only at now ⊢
        cases made' : runCalls os fuel rest s' with
        | mk result' s'' =>
          rw [made'] at later
          cases result' <;> exact later.trans (by omega)

/-- A short run from an empty store returns: no counter runs out in it. -/
theorem runCalls_returns (small : os.size ≤ 16384) (created : Store.create os = .ok s)
    (stay : ∀ call ∈ calls, call ≠ .reopen) (enough : calls.length ≤ fuel) (few : fuel ≤ 1000) :
    ∃ given t, runCalls os fuel calls s = (.ok given, t) := by
  obtain ⟨empty, created', start, none, -⟩ := create_sound os
  obtain rfl : s = empty := Except.ok.inj (created.symm.trans created')
  have start : Sound os s (fun _ => Option.none) (fun _ => Option.none) (fun _ => Option.none)
      (shown fun _ => Option.none) 0 := start
  have level : LeveledRun os fuel calls s :=
    leveled_of_within small start (by omega) (within_of_short small start (by omega) (by omega))
  have ran := runCalls_rested (create_settled created).rested (by omega) level
  have used : (runCalls os fuel calls s).2.used ≤ s.used + calls.length * (6 * fuel + 7) := runCalls_used stay
  have first := used_create created
  cases made : runCalls os fuel calls s with
  | mk result t =>
    cases result with
    | ok given => exact ⟨given, t, rfl⟩
    | error e =>
      rw [made] at ran used
      have full := ran.2.used
      have bound : calls.length * (6 * fuel + 7) ≤ 1000 * 6007 := Nat.mul_le_mul (by omega) (by omega)
      dsimp only at used
      omega

end Gems.Engine

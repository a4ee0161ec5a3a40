import Gems.Gossip.Core
import Gems.Lib.Latch
import Mathlib.Data.Prod.Lex

set_option autoImplicit false

namespace Gems.Gossip

open Lib

-- The order the merge rule follows: by incarnation, and by severity within one.
abbrev Rank := Nat ×ₗ Status

def Member.rank (m : Member) : Rank := toLex (m.incarnation, m.status)

def GossipItem.rank (item : GossipItem) : Rank := toLex (item.incarnation, item.status)

def Rank.Dead (r : Rank) : Prop := (ofLex r).2 = .dead

namespace SwimCore

def record (s : SwimCore) (m : NodeId) : WithBot Rank :=
  match s.members m with
  | none => ⊥
  | some r => (r.rank : Rank)

variable {s : SwimCore} {m : NodeId} {item : GossipItem}

@[simp] theorem queueGossip_members : (s.queueGossip item).members = s.members := rfl

@[simp] theorem suspectInsert_members : (s.suspectInsert m).members = s.members := rfl

@[simp] theorem suspectRemove_members : (s.suspectRemove m).members = s.members := rfl

@[simp] theorem insertMember_members {r : Member} :
    (s.insertMember m r).members = Function.update s.members m (some r) := rfl

theorem merge_id : (s.merge item).1.id = s.id := by
  simp only [merge, maybeRefuteSelf]
  split_ifs <;> rfl

theorem merge_members_self (other : item.member ≠ s.id) :
    (s.merge item).1.members item.member =
      if shouldApply (s.members item.member) item then some ⟨item.status, item.incarnation⟩
      else s.members item.member := by
  rw [merge, if_neg other]
  split_ifs <;> simp

theorem shouldApply_iff {r : Member} (alive : r.status ≠ .dead) :
    shouldApply (some r) item = true ↔ r.rank < item.rank := by
  rw [Member.rank, GossipItem.rank, Prod.Lex.toLex_lt_toLex, shouldApply, if_neg alive]
  rw [decide_eq_true_eq, gt_iff_lt, gt_iff_lt, eq_comm]

theorem record_eq_of_members {s' : SwimCore} (same : s'.members m = s.members m) :
    s'.record m = s.record m := by
  rw [record, record, same]

theorem record_some {r : Member} (here : s.members m = some r) : s.record m = (r.rank : Rank) := by
  rw [record, here]

theorem record_merge (other : item.member ≠ s.id) :
    (s.merge item).1.record item.member = offer Rank.Dead (s.record item.member) item.rank := by
  have after := merge_members_self other
  cases here : s.members item.member with
  | none =>
    have bottom : s.record item.member = ⊥ := by rw [record, here]
    have opened : ¬ Ends Rank.Dead (⊥ : WithBot Rank) := by
      rintro ⟨a, same, -⟩
      exact WithBot.bot_ne_coe same
    rw [here, shouldApply, if_pos rfl] at after
    rw [bottom, offer_open opened, raise, max_eq_right bot_le, record_some after]
    rfl
  | some r =>
    have now := record_some here
    rw [here] at after
    by_cases dead : r.status = .dead
    · rw [shouldApply, if_pos dead, if_neg Bool.false_ne_true] at after
      rw [record_some after, now, offer, if_pos ⟨r.rank, rfl, dead⟩]
    have opened : ¬ Ends Rank.Dead (r.rank : WithBot Rank) := by
      rintro ⟨a, same, final⟩
      rw [← WithBot.coe_inj.mp same] at final
      exact dead final
    rw [now, offer_open opened, raise]
    by_cases above : r.rank < item.rank
    · rw [if_pos ((shouldApply_iff dead).mpr above)] at after
      rw [record_some after, max_eq_right (WithBot.coe_le_coe.mpr above.le)]
      rfl
    · rw [if_neg (fun applies => above ((shouldApply_iff dead).mp applies))] at after
      rw [record_some after, max_eq_left (WithBot.coe_le_coe.mpr (not_lt.mp above))]

theorem record_mergeAll {facts : List GossipItem} (other : m ≠ s.id)
    (about : ∀ item ∈ facts, item.member = m) :
    (s.mergeAll facts).record m = offerAll Rank.Dead (s.record m) (facts.map GossipItem.rank) := by
  induction facts generalizing s with
  | nil => rfl
  | cons item rest ih =>
    obtain rfl := about item List.mem_cons_self
    have later := ih (s := (s.merge item).1) (by rwa [merge_id])
      fun item' mem => about item' (List.mem_cons_of_mem _ mem)
    rw [List.map_cons, offerAll_cons, ← record_merge other]
    exact later

theorem statusOf_of_record {s' : SwimCore} (same : s'.record m = s.record m) :
    s'.statusOf m = s.statusOf m := by
  unfold record at same
  rw [statusOf, statusOf]
  cases here : s.members m <;> cases there : s'.members m <;> simp only [here, there] at same
  · rfl
  · exact absurd same WithBot.coe_ne_bot
  · exact absurd same WithBot.bot_ne_coe
  · have rank := congrArg ofLex (WithBot.coe_inj.mp same)
    exact congrArg some (Prod.mk.inj rank).2

theorem ends_iff_dead : Ends Rank.Dead (s.record m) ↔ s.statusOf m = some .dead := by
  unfold record
  rw [statusOf]
  cases here : s.members m with
  | none =>
    simp only [Option.map_none, reduceCtorEq, iff_false]
    rintro ⟨a, same, -⟩
    exact WithBot.bot_ne_coe same
  | some r =>
    simp only [Option.map_some, Option.some.injEq]
    constructor
    · rintro ⟨a, same, final⟩
      rw [← WithBot.coe_inj.mp same] at final
      exact final
    · exact fun dead => ⟨r.rank, rfl, dead⟩

/-- The order of the facts cannot matter: the record is Dead, no Dead fact beats the record, or a Dead
fact has the greatest incarnation. -/
def Decided (s : SwimCore) (m : NodeId) (facts : List GossipItem) : Prop :=
  s.statusOf m = some .dead ∨
  (∀ item ∈ facts, item.status = .dead → shouldApply (s.members m) item = false) ∨
  ∃ item ∈ facts, item.status = .dead ∧ ∀ other ∈ facts, other.incarnation ≤ item.incarnation

theorem refused_iff (alive : s.statusOf m ≠ some .dead) :
    shouldApply (s.members m) item = false ↔ (item.rank : WithBot Rank) ≤ s.record m := by
  rw [statusOf] at alive
  unfold record
  cases here : s.members m with
  | none =>
    rw [shouldApply]
    simp [WithBot.coe_ne_bot]
  | some r =>
    have open_ : r.status ≠ .dead := fun dead => alive (by rw [here, Option.map_some, dead])
    rw [← Bool.not_eq_true, shouldApply_iff open_, not_lt]
    exact WithBot.coe_le_coe.symm

theorem le_dead {a d : GossipItem} (dead : d.status = .dead) :
    a.rank ≤ d.rank ↔ a.incarnation ≤ d.incarnation := by
  have top : a.status ≤ d.status := by
    rw [dead]
    cases a.status <;> decide
  rw [GossipItem.rank, GossipItem.rank, Prod.Lex.toLex_le_toLex]
  simp only [top, and_true]
  omega

theorem decided_iff {facts : List GossipItem} :
    s.Decided m facts ↔ Settled Rank.Dead (s.record m) (facts.map GossipItem.rank) := by
  rw [Decided, Settled, ends_iff_dead]
  by_cases dead : s.statusOf m = some .dead
  · simp [dead]
  have second : (∀ item ∈ facts, item.status = .dead → shouldApply (s.members m) item = false) ↔
      ∀ d ∈ facts.map GossipItem.rank, Rank.Dead d → (d : WithBot Rank) ≤ s.record m := by
    simp only [List.forall_mem_map, refused_iff dead]
    rfl
  have third : (∃ item ∈ facts, item.status = .dead ∧
      ∀ other ∈ facts, other.incarnation ≤ item.incarnation) ↔
      ∃ d ∈ facts.map GossipItem.rank, Rank.Dead d ∧ ∀ a ∈ facts.map GossipItem.rank, a ≤ d := by
    constructor
    · rintro ⟨item, mem, dead, greatest⟩
      exact ⟨item.rank, List.mem_map_of_mem mem, dead,
        List.forall_mem_map.mpr fun other inside => (le_dead dead).mpr (greatest other inside)⟩
    · rintro ⟨d, mem, dead, greatest⟩
      obtain ⟨item, inside, rfl⟩ := List.mem_map.mp mem
      exact ⟨item, inside, dead, fun other here =>
        (le_dead dead).mp (greatest _ (List.mem_map_of_mem here))⟩
  rw [second, third]

-- The fact about `m` with a given rank.
def ofRank (m : NodeId) (r : Rank) : GossipItem :=
  { member := m, status := (ofLex r).2, incarnation := (ofLex r).1 }

theorem perm_ofRank {facts : List GossipItem} {order : List Rank}
    (about : ∀ item ∈ facts, item.member = m) (perm : order.Perm (facts.map GossipItem.rank)) :
    (order.map (ofRank m)).Perm facts := by
  have back : (facts.map GossipItem.rank).map (ofRank m) = facts := by
    rw [List.map_map]
    refine (List.map_congr_left fun item mem => ?_).trans (List.map_id facts)
    rw [← about item mem]
    rfl
  rw [← back]
  exact perm.map _

theorem mergeAll_ofRank {order : List Rank} (other : m ≠ s.id) :
    (s.mergeAll (order.map (ofRank m))).record m = offerAll Rank.Dead (s.record m) order := by
  have about : ∀ item ∈ order.map (ofRank m), item.member = m :=
    List.forall_mem_map.mpr fun _ _ => rfl
  have ranks : (order.map (ofRank m)).map GossipItem.rank = order := by
    rw [List.map_map]
    exact List.map_id order
  rw [record_mergeAll other about, ranks]

end SwimCore

open SwimCore in
/-- Two nodes with the same record of `m` agree after the same facts, in whatever orders, exactly when
the order cannot matter: Dead is terminal, so a Dead fact counts only if it comes first or is greatest. -/
theorem merge_order_independent {s : SwimCore} {m : NodeId} {facts : List GossipItem}
    (other : m ≠ s.id) (about : ∀ item ∈ facts, item.member = m) :
    s.Decided m facts ↔ ∀ s' : SwimCore, m ≠ s'.id → s'.members m = s.members m →
      ∀ order, order.Perm facts → (s'.mergeAll order).statusOf m = (s.mergeAll facts).statusOf m := by
  rw [decided_iff]
  constructor
  · intro settled s' other' same order perm
    have about' : ∀ item ∈ order, item.member = m := fun item mem => about item (perm.mem_iff.mp mem)
    have agree := settled.agree (perm.map GossipItem.rank)
    rw [← record_mergeAll other about, ← record_eq_of_members same,
      ← record_mergeAll other' about', ends_iff_dead, ends_iff_dead] at agree
    rcases agree with equal | ⟨dead', dead⟩
    · exact statusOf_of_record equal
    · rw [dead', dead]
  · intro agree
    by_contra open_
    obtain ⟨ranks, ranks', perm, perm', ends, opens⟩ := exists_disagree open_
    rw [← mergeAll_ofRank other, ends_iff_dead] at ends opens
    apply opens
    rw [agree s other rfl _ (perm_ofRank about perm'), ← agree s other rfl _ (perm_ofRank about perm)]
    exact ends

theorem merge_order_independent_refuted :
    ((SwimCore.new 1 [2] 1 1 1).mergeAll [⟨2, .alive, 1⟩, ⟨2, .suspect, 0⟩]).statusOf 2 =
      ((SwimCore.new 1 [2] 1 1 1).mergeAll [⟨2, .suspect, 0⟩, ⟨2, .alive, 1⟩]).statusOf 2 :=
  (merge_order_independent (by decide) (by decide)).mp (.inr (.inl (by decide))) _ (by decide) rfl _
    (by decide)

-- A Dead report and a later refutation, in the two orders.
theorem merge_order_matters :
    let s := SwimCore.new 1 [2] 1 1 1
    let dead : GossipItem := { member := 2, status := .dead, incarnation := 0 }
    let alive : GossipItem := { member := 2, status := .alive, incarnation := 1 }
    (s.mergeAll [dead, alive]).statusOf 2 ≠ (s.mergeAll [alive, dead]).statusOf 2 := by
  decide

end Gems.Gossip

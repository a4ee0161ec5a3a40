import Gems.Lib.Ledger
import Mathlib.Logic.Function.Basic

set_option autoImplicit false

namespace Gems.Lib.Ledger

variable {N E : Type} [DecidableEq N]

-- `v` stands in term `T` with log `l`, and votes for itself.
def stand (g : Ledger N E) (T : Nat) (v : N) (l : List E) : Ledger N E :=
  { g with
    votes := fun U w => if U = T ∧ w = v then some v else g.votes U w
    ballot := fun U w => if U = T ∧ w = v then l else g.ballot U w }

def vote (g : Ledger N E) (T : Nat) (v c : N) : Ledger N E :=
  { g with votes := fun U w => if U = T ∧ w = v then some c else g.votes U w }

def ack (g : Ledger N E) (T : Nat) (v : N) (k : Nat) : Ledger N E :=
  { g with acked := fun w U => if w = v ∧ U = T then max (g.acked w U) k else g.acked w U }

-- The leader of `T` replaces its log by `l`, which it holds in full.
def write (g : Ledger N E) (T : Nat) (v : N) (l : List E) : Ledger N E :=
  { g.ack T v l.length with log := Function.update g.log T l }

def elect (g : Ledger N E) (T : Nat) (v : N) (Q : Finset N) (l : List E) : Ledger N E :=
  { g.write T v l with
    leader := Function.update g.leader T (some v)
    quorum := Function.update g.quorum T Q
    initial := Function.update g.initial T l }

def hold (g : Ledger N E) (v : N) (l : List E) : Ledger N E :=
  { g with
    held := Function.update g.held v
      (if (g.held v).length ≤ l.length then l else g.held v) }

variable {term : E → Nat} {members : Finset N} {g g' : Ledger N E} {T : Nat} {v : N}

section Votes

theorem stand_votes {l : List E} {U : Nat} {w c : N} (h : (g.stand T v l).votes U w = some c) :
    (U = T ∧ w = v ∧ c = v) ∨ g.votes U w = some c := by
  simp only [stand] at h
  split at h
  next new => exact .inl ⟨new.1, new.2, (Option.some.inj h).symm⟩
  · exact .inr h

theorem stand_ballot (l : List E) (U : Nat) (w : N) :
    (g.stand T v l).ballot U w = if U = T ∧ w = v then l else g.ballot U w := rfl

theorem stand_extends (l : List E) (fresh : g.votes T v = none) : g.Extends v (g.stand T v l) where
  toLe :=
    { Le.refl g with
      votes := by
        intro U w c voted
        have old : ¬ (U = T ∧ w = v) := by
          rintro ⟨rfl, rfl⟩
          simp [fresh] at voted
        simpa [stand, old] using voted
      ballot := by
        intro U w c voted
        have old : ¬ (U = T ∧ w = v) := by
          rintro ⟨rfl, rfl⟩
          simp [fresh] at voted
        simp [stand, old] }
  votes_other := by
    intro U w other
    simp [stand, other]
  leader_other := fun _ _ h _ => h
  log_other := fun _ _ _ _ => rfl
  acked_other := fun _ _ _ => rfl
  held_other := fun _ _ => rfl

theorem Valid.stand {l : List E} {b : Nat} (valid : Valid term members g) (fresh : g.votes T v = none)
    (member : v ∈ members) (below : b < T) (chained : Chained term g b l) :
    Valid term members (g.stand T v l) where
  elected := by
    intro U c led
    obtain ⟨inside, majority, votes⟩ := valid.elected U c led
    exact ⟨inside, majority, fun w hw => (stand_extends l fresh).votes U w c (votes w hw)⟩
  stood := by
    intro U w c voted
    rcases stand_votes voted with ⟨rfl, rfl, rfl⟩ | old
    · exact voted
    · exact (stand_extends l fresh).votes U c c (valid.stood U w c old)
  voter := by
    intro U w c voted
    rcases stand_votes voted with ⟨rfl, rfl, rfl⟩ | old
    · exact ⟨member, member⟩
    · exact valid.voter U w c old
  unled := valid.unled
  initial := valid.initial
  chained := valid.chained
  balloted := by
    intro U c voted
    rw [stand_ballot]
    split
    next new => exact ⟨b, new.1 ▸ below, chained⟩
    next old => exact valid.balloted U c (by simpa [Ledger.stand, old] using voted)

theorem Durable.stand {l : List E} (durable : Durable term g) (valid : Valid term members g)
    (fresh : g.votes T v = none)
    (kept : ∀ U k, U < T → k ≤ g.acked v U → Kept g U k T l) : Durable term (g.stand T v l) where
  acked := durable.acked
  ballots := by
    intro T' w c unled voted U k later stamped acked
    rcases stand_votes voted with ⟨rfl, rfl, rfl⟩ | old
    · rw [stand_ballot, if_pos ⟨rfl, rfl⟩]
      exact kept U k later acked
    · have same : (g.stand T v l).ballot T' c = g.ballot T' c :=
        (stand_extends l fresh).ballot T' c c (valid.stood T' w c old)
      rw [same]
      exact durable.ballots T' w c unled old U k later stamped acked
  elected := durable.elected

theorem vote_votes {d : N} {U : Nat} {w c : N} (h : (g.vote T v d).votes U w = some c) :
    (U = T ∧ w = v ∧ c = d) ∨ g.votes U w = some c := by
  simp only [vote] at h
  split at h
  next new => exact .inl ⟨new.1, new.2, (Option.some.inj h).symm⟩
  · exact .inr h

theorem vote_extends {d : N} (free : g.votes T v = none ∨ g.votes T v = some d) :
    g.Extends v (g.vote T v d) where
  toLe :=
    { Le.refl g with
      votes := by
        intro U w c voted
        by_cases new : U = T ∧ w = v
        · obtain ⟨rfl, rfl⟩ := new
          rcases free with none | same
          · simp [none] at voted
          · simpa [vote, same] using voted
        · simpa [vote, new] using voted }
  votes_other := by
    intro U w other
    simp [vote, other]
  leader_other := fun _ _ h _ => h
  log_other := fun _ _ _ _ => rfl
  acked_other := fun _ _ _ => rfl
  held_other := fun _ _ => rfl

theorem Valid.vote {d : N} (valid : Valid term members g)
    (free : g.votes T v = none ∨ g.votes T v = some d) (member : v ∈ members)
    (standing : g.votes T d = some d) : Valid term members (g.vote T v d) where
  elected := by
    intro U c led
    obtain ⟨inside, majority, votes⟩ := valid.elected U c led
    exact ⟨inside, majority, fun w hw => (vote_extends free).votes U w c (votes w hw)⟩
  stood := by
    intro U w c voted
    rcases vote_votes voted with ⟨rfl, rfl, rfl⟩ | old
    · exact (vote_extends free).votes U c c standing
    · exact (vote_extends free).votes U c c (valid.stood U w c old)
  voter := by
    intro U w c voted
    rcases vote_votes voted with ⟨rfl, rfl, rfl⟩ | old
    · exact ⟨member, (valid.voter U c c standing).2⟩
    · exact valid.voter U w c old
  unled := valid.unled
  initial := valid.initial
  chained := valid.chained
  balloted := by
    intro U c voted
    rcases vote_votes voted with ⟨rfl, rfl, rfl⟩ | old
    · exact valid.balloted U c standing
    · exact valid.balloted U c old

theorem Durable.vote {d : N} (durable : Durable term g)
    (kept : g.leader T = none → ∀ U k, U < T → Stamped term g U k → k ≤ g.acked v U →
      Kept g U k T (g.ballot T d)) : Durable term (g.vote T v d) where
  acked := durable.acked
  ballots := by
    intro T' w c unled voted U k later stamped acked
    rcases vote_votes voted with ⟨rfl, rfl, rfl⟩ | old
    · exact kept unled U k later stamped acked
    · exact durable.ballots T' w c unled old U k later stamped acked
  elected := durable.elected

end Votes

section Acks

theorem ack_acked (k : Nat) (w : N) (U : Nat) :
    (g.ack T v k).acked w U = if w = v ∧ U = T then max (g.acked w U) k else g.acked w U := rfl

theorem ack_le (k : Nat) (w : N) (U : Nat) : g.acked w U ≤ (g.ack T v k).acked w U := by
  rw [ack_acked]
  split
  · exact Nat.le_max_left _ _
  · exact le_rfl

theorem ack_here (k : Nat) : k ≤ (g.ack T v k).acked v T := by
  simp [ack_acked]

theorem ack_cases {k j : Nat} {w : N} {U : Nat} (h : j ≤ (g.ack T v k).acked w U) :
    j ≤ g.acked w U ∨ w = v ∧ U = T ∧ j ≤ k := by
  rw [ack_acked] at h
  split at h
  next here => exact (le_max_iff.mp h).imp_right fun le => ⟨here.1, here.2, le⟩
  · exact .inl h

theorem ack_extends (k : Nat) : g.Extends v (g.ack T v k) where
  toLe := { Le.refl g with acked := ack_le k }
  votes_other := fun _ _ _ => rfl
  leader_other := fun _ _ h _ => h
  log_other := fun _ _ _ _ => rfl
  acked_other := by
    intro w U other
    simp [ack_acked, other]
  held_other := fun _ _ => rfl

theorem Valid.ack (valid : Valid term members g) (k : Nat) : Valid term members (g.ack T v k) :=
  { valid with }

theorem Valid.hold (valid : Valid term members g) (l : List E) : Valid term members (g.hold v l) :=
  { valid with }

theorem Durable.hold (durable : Durable term g) (l : List E) : Durable term (g.hold v l) :=
  { durable with }

theorem hold_held (l : List E) :
    (g.hold v l).held v = if (g.held v).length ≤ l.length then l else g.held v := by
  simp [hold]

theorem hold_extends {l whole : List E} (old : g.held v <+: whole) (new : l <+: whole) :
    g.Extends v (g.hold v l) where
  toLe :=
    { Le.refl g with
      held := by
        intro w
        by_cases same : w = v
        · subst same
          rw [hold_held]
          split
          next le => exact List.prefix_of_prefix_length_le old new le
          · exact List.prefix_rfl
        · simp [hold, same] }
  votes_other := fun _ _ _ => rfl
  leader_other := fun _ _ h _ => h
  log_other := fun _ _ _ _ => rfl
  acked_other := fun _ _ _ => rfl
  held_other := by
    intro w other
    simp [hold, other]

-- Everything but the votes may move on; an acknowledgement in term `T` comes before any later vote.
omit [DecidableEq N] in
theorem Durable.grow (durable : Durable term g) (valid : Valid term members g) (grow : Le g g')
    (bounded : ∀ w U, g'.acked w U ≤ (g'.log U).length) (votes : g'.votes = g.votes)
    (leader : ∀ U c, g'.leader U = some c → g.leader U = some c ∨
      g.leader U = none ∧ g'.initial U = g.ballot U c ∧ ∀ w ∈ g'.quorum U, g.votes U w = some c)
    (acked : ∀ w U k, k ≤ g'.acked w U → k ≤ g.acked w U ∨ ∀ U', U < U' → g.votes U' w = none) :
    Durable term g' where
  acked := bounded
  ballots := by
    intro T' w c unled voted U k later stamped acks
    rw [votes] at voted
    have unled' : g.leader T' = none := by
      cases led : g.leader T' with
      | none => rfl
      | some d => simp [grow.leader T' d led] at unled
    rcases acked w U k acks with old | never
    · have inside := old.trans (durable.acked w U)
      rw [grow.ballot T' c c (valid.stood T' w c voted)]
      exact (durable.ballots T' w c unled' voted U k later (stamped.of_le grow inside) old).le
        grow inside
    · simp [never T' later] at voted
  elected := by
    intro T' c led w inQuorum U k later stamped acks
    have voted : g.votes T' w = some c := by
      rcases leader T' c led with old | ⟨-, -, new⟩
      · rw [grow.quorum T' c old] at inQuorum
        exact (valid.elected T' c old).2.2 w inQuorum
      · exact new w inQuorum
    rcases acked w U k acks with old | never
    · have inside := old.trans (durable.acked w U)
      have stamped' := stamped.of_le grow inside
      rcases leader T' c led with before | ⟨unled, start, -⟩
      · rw [grow.quorum T' c before] at inQuorum
        rw [grow.initial T' c before]
        exact (durable.elected T' c before w inQuorum U k later stamped' old).le grow inside
      · rw [start]
        exact (durable.ballots T' w c unled voted U k later stamped' old).le grow inside
    · simp [never T' later] at voted

end Acks

section Leaders

theorem write_log (l : List E) (U : Nat) :
    (g.write T v l).log U = if U = T then l else g.log U := by
  simp [write, Function.update_apply]

theorem write_extends {l : List E} (led : g.leader T = some v ∨ g.leader T = none)
    (pre : g.log T <+: l) : g.Extends v (g.write T v l) where
  toLe :=
    { Le.refl g with
      log := by
        intro U
        rw [write_log]
        split
        next same => rwa [same]
        · exact List.prefix_rfl
      acked := ack_le l.length }
  votes_other := fun _ _ _ => rfl
  leader_other := fun _ _ h _ => h
  log_other := by
    intro U c led' other
    rw [write_log, if_neg]
    rintro rfl
    rcases led with mine | none
    · exact other (Option.some.inj (led'.symm.trans mine))
    · simp [none] at led'
  acked_other := (ack_extends l.length).acked_other
  held_other := fun _ _ => rfl

theorem Valid.write {l : List E} (valid : Valid term members g) (led : g.leader T = some v)
    (pre : g.log T <+: l) (chained : Chained term (g.write T v l) T l) :
    Valid term members (g.write T v l) where
  elected := valid.elected
  stood := valid.stood
  voter := valid.voter
  unled := by
    intro U none
    rw [write_log, if_neg]
    · exact valid.unled U none
    · rintro rfl
      simp [Ledger.write, Ledger.ack, led] at none
  initial := fun U some => (valid.initial U some).trans ((write_extends (.inl led) pre).log U)
  chained := by
    intro U
    rw [write_log]
    split
    next same => rwa [same]
    · exact (valid.chained U).le (write_extends (.inl led) pre).toLe
  balloted := by
    intro U c voted
    obtain ⟨b, less, hb⟩ := valid.balloted U c voted
    exact ⟨b, less, hb.le (write_extends (.inl led) pre).toLe⟩

theorem elect_leader {l : List E} {Q : Finset N} {U : Nat} {c : N}
    (h : (g.elect T v Q l).leader U = some c) : (U = T ∧ c = v) ∨ g.leader U = some c := by
  simp only [elect, Function.update_apply] at h
  split at h
  next same => exact .inl ⟨same, (Option.some.inj h).symm⟩
  · exact .inr h

theorem elect_extends {l : List E} {Q : Finset N} (unled : g.leader T = none)
    (empty : g.log T = []) : g.Extends v (g.elect T v Q l) := by
  have ext := write_extends (g := g) (T := T) (v := v) (l := l) (.inr unled) (by simp [empty])
  have old {U : Nat} {c : N} (led : g.leader U = some c) : U ≠ T := by
    rintro rfl
    simp [unled] at led
  exact
    { votes := ext.votes
      ballot := ext.ballot
      leader := by
        intro U c led
        simp [elect, old led, led]
      quorum := by
        intro U c led
        simp [elect, old led]
      initial := by
        intro U c led
        simp [elect, old led]
      log := ext.log
      acked := ext.acked
      held := ext.held
      votes_other := ext.votes_other
      leader_other := by
        intro U c led other
        rcases elect_leader led with ⟨-, rfl⟩ | before
        · exact absurd rfl other
        · exact before
      log_other := ext.log_other
      acked_other := ext.acked_other
      held_other := ext.held_other }

theorem Valid.elect {l : List E} {Q : Finset N} {b : Nat} (valid : Valid term members g)
    (unled : g.leader T = none) (member : v ∈ members) (majority : Majority members Q)
    (votes : ∀ w ∈ Q, g.votes T w = some v) (below : b ≤ T) (chained : Chained term g b l) :
    Valid term members (g.elect T v Q l) := by
  have grow : Le g (g.elect T v Q l) := (elect_extends unled (valid.unled T unled)).toLe
  have log (U : Nat) : (g.elect T v Q l).log U = if U = T then l else g.log U :=
    write_log (v := v) l U
  exact
    { elected := by
        intro U c led
        rcases elect_leader led with ⟨rfl, rfl⟩ | before
        · have quorum : (g.elect U c Q l).quorum U = Q := by simp [Ledger.elect]
          rw [quorum]
          exact ⟨member, majority, votes⟩
        · obtain ⟨inside, major, votes⟩ := valid.elected U c before
          rw [grow.quorum U c before]
          exact ⟨inside, major, votes⟩
      stood := valid.stood
      voter := valid.voter
      unled := by
        intro U none
        by_cases same : U = T
        · subst same
          simp [Ledger.elect] at none
        · rw [log, if_neg same]
          exact valid.unled U (by simpa [Ledger.elect, same] using none)
      initial := by
        intro U some
        by_cases same : U = T
        · subst same
          simp [Ledger.elect, Ledger.write]
        · rw [log, if_neg same]
          simpa [Ledger.elect, same] using
            valid.initial U (by simpa [Ledger.elect, same] using some)
      chained := by
        intro U
        rw [log]
        split
        next same =>
          subst same
          exact (chained.mono below).le grow
        · exact (valid.chained U).le grow
      balloted := by
        intro U c voted
        obtain ⟨b', less, hb⟩ := valid.balloted U c voted
        exact ⟨b', less, hb.le grow⟩ }

end Leaders

end Gems.Lib.Ledger

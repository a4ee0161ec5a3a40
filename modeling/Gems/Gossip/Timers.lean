import Gems.Gossip.Local
import Mathlib.Data.List.Nodup

set_option autoImplicit false

namespace Gems.Gossip

-- What becomes of a record whose timer has run out.
def Member.expired (r : Member) : Member := if r.status = .suspect then { r with status := .dead } else r

namespace SwimCore

def watched (s : SwimCore) : List NodeId := s.suspectElapsed.map Prod.fst

/-- The timers are those of the suspects, one for each; the node itself is none of them. -/
structure Timed (s : SwimCore) : Prop where
  distinct : s.watched.Nodup
  suspects : ∀ m, m ∈ s.watched ↔ s.statusOf m = some .suspect
  self : s.statusOf s.id = some .alive

structure Untouched (s s' : SwimCore) (m : NodeId) : Prop where
  members : s'.members m = s.members m
  timer : ∀ n, (m, n) ∈ s'.suspectElapsed ↔ (m, n) ∈ s.suspectElapsed

structure Learned (s s' : SwimCore) (item : GossipItem) (m : NodeId) : Prop where
  other : m ≠ s.id
  about : item.member = m
  applied : shouldApply (s.members m) item = true
  members : s'.members m = some ⟨item.status, item.incarnation⟩
  timer : ∀ n, (m, n) ∈ s'.suspectElapsed ↔ item.status = .suspect ∧ n = 0

section Merge

variable {s s' : SwimCore} {item : GossipItem} {m : NodeId}

theorem mem_watched : m ∈ s.watched ↔ ∃ n, (m, n) ∈ s.suspectElapsed := by
  simp [watched]

theorem Untouched.refl (s : SwimCore) (m : NodeId) : Untouched s s m := ⟨rfl, fun _ => Iff.rfl⟩

theorem Untouched.trans {s'' : SwimCore} (first : Untouched s s' m) (second : Untouched s' s'' m) :
    Untouched s s'' m :=
  ⟨second.members.trans first.members, fun n => (second.timer n).trans (first.timer n)⟩

theorem Untouched.watched (same : Untouched s s' m) : m ∈ s'.watched ↔ m ∈ s.watched := by
  simp [mem_watched, same.timer]

theorem Untouched.statusOf (same : Untouched s s' m) : s'.statusOf m = s.statusOf m := by
  rw [SwimCore.statusOf, same.members, SwimCore.statusOf]

theorem merge_about (s : SwimCore) (item : GossipItem) (m : NodeId) :
    Untouched s (s.merge item).1 m ∨ Learned s (s.merge item).1 item m ∨
      (m = s.id ∧ (s.merge item).1.statusOf m = some .alive ∧
        (s.merge item).1.suspectElapsed = s.suspectElapsed) := by
  by_cases own : item.member = s.id
  next =>
    rw [merge, if_pos own, maybeRefuteSelf]
    split
    next => exact .inl (.refl s m)
    next =>
      by_cases self : m = s.id
      next =>
        subst self
        exact .inr (.inr ⟨rfl, by simp [statusOf], rfl⟩)
      next => exact .inl ⟨by simp [insertMember, queueGossip, self], fun _ => Iff.rfl⟩
  next =>
    rw [merge, if_neg own]
    by_cases about : item.member = m
    next =>
      subst about
      split
      next applied =>
        refine .inr (.inl ⟨own, rfl, applied, ?_, fun n => ?_⟩)
        next => split <;> simp
        next =>
          by_cases suspected : item.status = .suspect
          next => simp [suspected, queueGossip, suspectInsert, suspectRemove, insertMember]
          next => simp [suspected, queueGossip, suspectRemove, insertMember]
      next => exact .inl (.refl s _)
    next =>
      refine .inl ?_
      split
      next =>
        refine ⟨?_, fun n => ?_⟩
        next => split <;> simp [Function.update_of_ne (Ne.symm about)]
        next =>
          by_cases suspected : item.status = .suspect
          next => simp [suspected, queueGossip, suspectInsert, suspectRemove, insertMember, Ne.symm about]
          next => simp [suspected, queueGossip, suspectRemove, insertMember, Ne.symm about]
      next => exact .refl s m

theorem merge_distinct (distinct : s.watched.Nodup) : (s.merge item).1.watched.Nodup := by
  have fewer (id : NodeId) : (s.suspectRemove id).watched.Nodup :=
    distinct.sublist (List.filter_sublist.map _)
  have gone (id : NodeId) : id ∉ (s.suspectRemove id).watched := by
    simp [mem_watched, suspectRemove]
  rw [merge]
  split
  next =>
    rw [maybeRefuteSelf]
    split <;> exact distinct
  next =>
    split
    next =>
      dsimp only
      split
      next => exact List.nodup_cons.mpr ⟨gone item.member, fewer item.member⟩
      next => exact fewer item.member
    next => exact distinct

theorem Timed.merge (timed : s.Timed) : (s.merge item).1.Timed where
  distinct := merge_distinct timed.distinct
  suspects := by
    intro m
    rcases merge_about s item m with same | learned | ⟨rfl, alive, timers⟩
    next => rw [same.watched, same.statusOf, timed.suspects m]
    next => simp [mem_watched, learned.timer, statusOf, learned.members]
    next =>
      have silent := timed.suspects s.id
      rw [timed.self] at silent
      rw [alive, watched, timers]
      exact silent
  self := by
    rw [merge_id]
    rcases merge_about s item s.id with same | learned | ⟨-, alive, -⟩
    next => rw [same.statusOf, timed.self]
    next => exact absurd rfl learned.other
    next => exact alive

theorem Timed.mergeAll {facts : List GossipItem} (timed : s.Timed) : (s.mergeAll facts).Timed := by
  induction facts generalizing s with
  | nil => exact timed
  | cons item rest ih => exact ih timed.merge

end Merge

section Tick

variable {s s' : SwimCore} {m : NodeId} {n : Nat}

-- The pings and the gossip queue are nothing to the timers.
structure Quiet (s s' : SwimCore) : Prop where
  id : s'.id = s.id
  members : s'.members = s.members
  timers : s'.suspectElapsed = s.suspectElapsed
  timeout : s'.suspicionTimeout = s.suspicionTimeout

theorem Quiet.refl (s : SwimCore) : Quiet s s := ⟨rfl, rfl, rfl, rfl⟩

theorem Quiet.trans {s'' : SwimCore} (first : Quiet s s') (second : Quiet s' s'') : Quiet s s'' where
  id := second.id.trans first.id
  members := second.members.trans first.members
  timers := second.timers.trans first.timers
  timeout := second.timeout.trans first.timeout

theorem Quiet.untouched (quiet : Quiet s s') (m : NodeId) : Untouched s s' m :=
  ⟨congrFun quiet.members m, fun n => by rw [quiet.timers]⟩

theorem Quiet.timed (quiet : Quiet s s') (timed : s.Timed) : s'.Timed where
  distinct := by
    rw [watched, quiet.timers]
    exact timed.distinct
  suspects := fun m => by rw [(quiet.untouched m).watched, (quiet.untouched m).statusOf, timed.suspects]
  self := by rw [quiet.id, (quiet.untouched s.id).statusOf, timed.self]

theorem quiet_takeGossip (s : SwimCore) : Quiet s s.takeGossip.1 := ⟨rfl, rfl, rfl, rfl⟩

theorem quiet_findPingTarget (turns : Nat) (s : SwimCore) : Quiet s (findPingTarget turns s).1 := by
  induction turns generalizing s with
  | zero => exact .refl s
  | succ turns ih =>
    rw [findPingTarget]
    split
    next => exact .refl s
    next =>
      dsimp only
      split
      next => exact ⟨rfl, rfl, rfl, rfl⟩
      next =>
        have turned : Quiet s { s with nextPingIdx := (s.nextPingIdx + 1) % s.pingOrder.length } :=
          ⟨rfl, rfl, rfl, rfl⟩
        exact turned.trans (ih _)

theorem quiet_startPing (s : SwimCore) : Quiet s s.startPing.1 := by
  rw [startPing]
  dsimp only
  split
  next =>
    have due : Quiet s { s with periodElapsed := 0 } := ⟨rfl, rfl, rfl, rfl⟩
    have turned : Quiet s (nextPingTarget { s with periodElapsed := 0 }).1 :=
      due.trans (quiet_findPingTarget _ _)
    generalize nextPingTarget _ = found at turned ⊢
    obtain ⟨searched, target⟩ := found
    cases target with
    | none => exact turned
    | some target => exact turned.trans ⟨rfl, rfl, rfl, rfl⟩
  next => exact ⟨rfl, rfl, rfl, rfl⟩

theorem merge_timeout {item : GossipItem} : (s.merge item).1.suspicionTimeout = s.suspicionTimeout := by
  simp only [merge, maybeRefuteSelf]
  split_ifs <;> rfl

-- A missed ack is a suspicion of a member that is alive on record.
theorem agePing_cases (s : SwimCore) : Quiet s s.agePing ∨ ∃ start item r, Quiet s start ∧
    s.agePing = (start.merge item).1 ∧ start.members item.member = some r ∧ r.status = .alive ∧
    item = ⟨item.member, .suspect, r.incarnation⟩ := by
  rw [agePing]
  split
  next => exact .inl (.refl s)
  next awaiting _ =>
    dsimp only
    split
    next =>
      split
      next r here =>
        split
        next alive =>
          exact .inr ⟨{ s with awaitingAck := none }, ⟨awaiting.target, .suspect, r.incarnation⟩, r,
            ⟨rfl, rfl, rfl, rfl⟩, rfl, here, alive, rfl⟩
        next => exact .inl ⟨rfl, rfl, rfl, rfl⟩
      next => exact .inl ⟨rfl, rfl, rfl, rfl⟩
    next => exact .inl ⟨rfl, rfl, rfl, rfl⟩

theorem expire_members (s : SwimCore) (id m : NodeId) :
    (s.expire id).members m = if m = id then (s.members m).map Member.expired else s.members m := by
  rw [expire]
  split
  next r here =>
    rw [suspectRemove_members] at here
    by_cases same : m = id
    next =>
      subst same
      split
      next suspected => simp [here, Member.expired, suspected]
      next unsuspected => simp [here, Member.expired, unsuspected]
    next => split <;> simp [same]
  next none =>
    rw [suspectRemove_members] at none
    by_cases same : m = id
    next => simp [same, none]
    next => simp [same]

theorem expire_timers (s : SwimCore) (id : NodeId) :
    (s.expire id).suspectElapsed = s.suspectElapsed.filter fun e => e.1 ≠ id := by
  rw [expire]
  split
  next => split <;> rfl
  next => rfl

theorem expire_rest (s : SwimCore) (id : NodeId) :
    (s.expire id).id = s.id ∧ (s.expire id).suspicionTimeout = s.suspicionTimeout := by
  rw [expire]
  split
  next => split <;> exact ⟨rfl, rfl⟩
  next => exact ⟨rfl, rfl⟩

theorem expired_expired (r : Member) : r.expired.expired = r.expired := by
  rw [Member.expired, Member.expired]
  split_ifs with suspected again
  next => cases again
  next => rfl
  next => rfl

theorem expireAll_members (s : SwimCore) (ids : List NodeId) (m : NodeId) : (ids.foldl expire s).members m =
    if m ∈ ids then (s.members m).map Member.expired else s.members m := by
  induction ids generalizing s with
  | nil => rfl
  | cons id rest ih =>
    rw [List.foldl_cons, ih, expire_members]
    by_cases same : m = id <;> by_cases later : m ∈ rest <;>
      simp [same, later, Function.comp_def, expired_expired]

theorem expireAll_timers (s : SwimCore) (ids : List NodeId) :
    (ids.foldl expire s).suspectElapsed = s.suspectElapsed.filter fun e => e.1 ∉ ids := by
  induction ids generalizing s with
  | nil => simp
  | cons id rest ih =>
    rw [List.foldl_cons, ih, expire_timers, List.filter_filter]
    congr 1
    funext e
    simp [Bool.and_comm]

theorem expireAll_rest (s : SwimCore) (ids : List NodeId) :
    (ids.foldl expire s).id = s.id ∧ (ids.foldl expire s).suspicionTimeout = s.suspicionTimeout := by
  induction ids generalizing s with
  | nil => exact ⟨rfl, rfl⟩
  | cons id rest ih =>
    obtain ⟨own, timeout⟩ := ih (s.expire id)
    exact ⟨own.trans (expire_rest s id).1, timeout.trans (expire_rest s id).2⟩

theorem age_running (distinct : s.watched.Nodup) (running : (m, n) ∈ s.suspectElapsed) :
    if n + 1 < s.suspicionTimeout then
      s.ageSuspicions.members m = s.members m ∧ ∀ k, (m, k) ∈ s.ageSuspicions.suspectElapsed ↔ k = n + 1
    else
      s.ageSuspicions.members m = (s.members m).map Member.expired ∧ m ∉ s.ageSuspicions.watched := by
  have only (k : Nat) : (m, k) ∈ s.suspectElapsed ↔ k = n := by
    constructor
    next => exact fun other => congrArg Prod.snd (List.inj_on_of_nodup_map distinct other running rfl)
    next =>
      rintro rfl
      exact running
  have out : m ∈ ((s.suspectElapsed.map fun e => (e.1, e.2 + 1)).filter fun e =>
      e.2 ≥ s.suspicionTimeout).map Prod.fst ↔ ¬ n + 1 < s.suspicionTimeout := by
    simp [only]
  have timers (k : Nat) : (m, k) ∈ s.ageSuspicions.suspectElapsed ↔ k = n + 1 ∧ n + 1 < s.suspicionTimeout := by
    rw [ageSuspicions, expireAll_timers, List.mem_filter]
    simp only [decide_eq_true_eq, out, not_not]
    simp [only, eq_comm]
  split
  next early =>
    refine ⟨?_, fun k => by simp [timers, early]⟩
    rw [ageSuspicions, expireAll_members, if_neg (mt out.mp (not_not.mpr early))]
  next late =>
    refine ⟨?_, by simp [mem_watched, timers, late]⟩
    rw [ageSuspicions, expireAll_members, if_pos (out.mpr late)]

theorem age_idle (idle : m ∉ s.watched) :
    s.ageSuspicions.members m = s.members m ∧ m ∉ s.ageSuspicions.watched := by
  have none (k : Nat) : (m, k) ∉ s.suspectElapsed := fun mem => idle (mem_watched.mpr ⟨k, mem⟩)
  refine ⟨?_, ?_⟩
  next =>
    rw [ageSuspicions, expireAll_members, if_neg]
    simp [none]
  next =>
    simp [mem_watched, ageSuspicions, expireAll_timers, none]

theorem age_rest (s : SwimCore) :
    s.ageSuspicions.id = s.id ∧ s.ageSuspicions.suspicionTimeout = s.suspicionTimeout := expireAll_rest _ _

theorem Timed.age (timed : s.Timed) : s.ageSuspicions.Timed where
  distinct := by
    rw [watched, ageSuspicions, expireAll_timers]
    apply List.Nodup.sublist (List.filter_sublist.map _)
    rw [List.map_map]
    exact timed.distinct
  suspects := by
    intro m
    by_cases running : m ∈ s.watched
    next =>
      have suspected := (timed.suspects m).mp running
      obtain ⟨n, timer⟩ := mem_watched.mp running
      have aged := age_running timed.distinct timer
      split at aged
      next => simp [mem_watched, aged.2, statusOf, aged.1, ← suspected]
      next =>
        obtain ⟨r, here, status⟩ := Option.map_eq_some_iff.mp suspected
        simp [aged.2, statusOf, aged.1, here, Member.expired, status]
    next =>
      obtain ⟨members, idle⟩ := age_idle running
      rw [statusOf, members, ← statusOf, ← timed.suspects m]
      exact iff_of_false idle running
  self := by
    have idle : s.id ∉ s.watched := by
      rw [timed.suspects, timed.self]
      simp
    rw [(age_rest s).1, statusOf, (age_idle idle).1, ← statusOf, timed.self]

end Tick

-- A tick goes through the timers in some order.
inductive Event where
  | tick (order : List (NodeId × Nat))
  | receive (envelope : Envelope)

def Event.Possible (s : SwimCore) : Event → Prop
  | tick order => order.Perm s.suspectElapsed
  | receive _ => True

def Event.apply (s : SwimCore) : Event → SwimCore
  | tick order => { s with suspectElapsed := order }.tick.1
  | receive envelope => (s.receive envelope).1

/-- The event carries no fact that overrides the suspicion of `m` at `i`. -/
def Event.Spares (m : NodeId) (i : Nat) : Event → Prop
  | tick _ => True
  | receive envelope =>
    ∀ item ∈ envelope.facts, item.member = m → shouldApply (some ⟨.suspect, i⟩) item = false

def Event.isTick : Event → Bool
  | tick _ => true
  | receive _ => false

def run (s : SwimCore) (events : List Event) : SwimCore := events.foldl Event.apply s

def Possible : SwimCore → List Event → Prop
  | _, [] => True
  | s, event :: rest => event.Possible s ∧ Possible (event.apply s) rest

inductive Reachable (timeout : Nat) : SwimCore → Prop
  | new (id : NodeId) (peers : List NodeId) (protocolPeriod pingTimeout : Nat) :
      Reachable timeout (new id peers protocolPeriod pingTimeout timeout)
  | step {s : SwimCore} {event : Event} :
      Reachable timeout s → event.Possible s → Reachable timeout (event.apply s)

section Events

variable {s : SwimCore} {m : NodeId} {i n limit : Nat} {event : Event}

theorem timed_new (id : NodeId) (peers : List NodeId) (protocolPeriod pingTimeout : Nat) :
    (new id peers protocolPeriod pingTimeout limit).Timed where
  distinct := List.nodup_nil
  suspects := by
    intro m
    rw [statusOf, new]
    dsimp only
    split <;> simp [watched]
  self := by simp [statusOf, new]

theorem Timed.reordered (timed : s.Timed) {order : List (NodeId × Nat)} (permuted : order.Perm s.suspectElapsed) :
    { s with suspectElapsed := order }.Timed where
  distinct := (permuted.map Prod.fst).nodup_iff.mpr timed.distinct
  suspects := fun m => (permuted.map Prod.fst).mem_iff.trans (timed.suspects m)
  self := timed.self

theorem Timed.agePing (timed : s.Timed) : s.agePing.Timed := by
  rcases agePing_cases s with quiet | ⟨start, item, r, quiet, eq, -⟩
  next => exact quiet.timed timed
  next =>
    rw [eq]
    exact (quiet.timed timed).merge

theorem receive_quiet (s : SwimCore) (envelope : Envelope) :
    Quiet (s.mergeAll envelope.facts) (s.receive envelope).1 := by
  obtain ⟨sender, receiver, message⟩ := envelope
  cases message with
  | ping seq senderIncarnation gossip => exact quiet_takeGossip _
  | ack seq senderIncarnation gossip =>
    rw [receive]
    dsimp only
    split
    next => split <;> exact ⟨rfl, rfl, rfl, rfl⟩
    next => exact .refl _

theorem Timed.step (timed : s.Timed) (possible : event.Possible s) : (event.apply s).Timed := by
  cases event with
  | tick order => exact (quiet_startPing _).timed (timed.reordered possible).age.agePing
  | receive envelope => exact (receive_quiet s envelope).timed timed.mergeAll

theorem mergeAll_timeout {facts : List GossipItem} : (s.mergeAll facts).suspicionTimeout = s.suspicionTimeout := by
  induction facts generalizing s with
  | nil => rfl
  | cons item rest ih => exact ih.trans merge_timeout

theorem agePing_timeout : s.agePing.suspicionTimeout = s.suspicionTimeout := by
  rcases agePing_cases s with quiet | ⟨start, item, r, quiet, eq, -⟩
  next => exact quiet.timeout
  next => rw [eq, merge_timeout, quiet.timeout]

theorem apply_timeout : (event.apply s).suspicionTimeout = s.suspicionTimeout := by
  cases event with
  | tick order => exact (quiet_startPing _).timeout.trans (agePing_timeout.trans (age_rest _).2)
  | receive envelope => exact (receive_quiet s envelope).timeout.trans mergeAll_timeout

theorem Reachable.timed (reached : Reachable limit s) : s.Timed := by
  induction reached with
  | new id peers protocolPeriod pingTimeout => exact timed_new id peers protocolPeriod pingTimeout
  | step _ possible ih => exact ih.step possible

theorem Reachable.timeout (reached : Reachable limit s) : s.suspicionTimeout = limit := by
  induction reached with
  | new => rfl
  | step _ _ ih => exact apply_timeout.trans ih

structure Running (s : SwimCore) (m : NodeId) (i n : Nat) : Prop where
  members : s.members m = some ⟨.suspect, i⟩
  timer : (m, n) ∈ s.suspectElapsed

theorem Running.untouched {s' : SwimCore} (running : Running s m i n) (same : Untouched s s' m) : Running s' m i n :=
  ⟨same.members.trans running.members, (same.timer n).mpr running.timer⟩

theorem Timed.not_self (timed : s.Timed) {r : Member} (here : s.members m = some r) (sick : r.status ≠ .alive) :
    m ≠ s.id := by
  rintro rfl
  have alive := timed.self
  rw [statusOf, here] at alive
  exact sick (Option.some.inj alive)

theorem untouched_of_spared {r : Member} {item : GossipItem} (timed : s.Timed) (here : s.members m = some r)
    (sick : r.status ≠ .alive) (spared : item.member = m → shouldApply (some r) item = false) :
    Untouched s (s.merge item).1 m := by
  rcases merge_about s item m with same | learned | ⟨self, -⟩
  next => exact same
  next =>
    have applied := learned.applied
    rw [here, spared learned.about] at applied
    cases applied
  next => exact absurd self (timed.not_self here sick)

theorem untouched_of_all_spared {r : Member} {facts : List GossipItem} (timed : s.Timed)
    (here : s.members m = some r) (sick : r.status ≠ .alive)
    (spared : ∀ item ∈ facts, item.member = m → shouldApply (some r) item = false) :
    Untouched s (s.mergeAll facts) m := by
  induction facts generalizing s with
  | nil => exact .refl s m
  | cons item rest ih =>
    have first := untouched_of_spared timed here sick (spared item List.mem_cons_self)
    exact first.trans (ih timed.merge (first.members.trans here)
      fun other mem => spared other (List.mem_cons_of_mem _ mem))

theorem agePing_untouched {r : Member} (timed : s.Timed) (here : s.members m = some r) (sick : r.status ≠ .alive) :
    Untouched s s.agePing m := by
  rcases agePing_cases s with quiet | ⟨start, item, r', quiet, eq, there, alive, -⟩
  next => exact quiet.untouched m
  next =>
    have same := quiet.untouched m
    rw [eq]
    refine same.trans (untouched_of_spared (quiet.timed timed) (same.members.trans here) sick ?_)
    rintro rfl
    rw [same.members, here] at there
    obtain rfl := Option.some.inj there
    exact absurd alive sick

theorem tick_running (timed : s.Timed) (running : Running s m i n) {order : List (NodeId × Nat)}
    (permuted : order.Perm s.suspectElapsed) :
    if n + 1 < s.suspicionTimeout then Running (Event.apply s (.tick order)) m i (n + 1)
    else (Event.apply s (.tick order)).members m = some ⟨.dead, i⟩ := by
  have ordered := timed.reordered permuted
  have aged := age_running ordered.distinct (permuted.mem_iff.mpr running.timer)
  have pinged (r : Member) (here : { s with suspectElapsed := order }.ageSuspicions.members m = some r)
      (sick : r.status ≠ .alive) :
      Untouched { s with suspectElapsed := order }.ageSuspicions (Event.apply s (.tick order)) m :=
    (agePing_untouched ordered.age here sick).trans ((quiet_startPing _).untouched m)
  split
  next early =>
    rw [if_pos early] at aged
    have here := aged.1.trans running.members
    exact Running.untouched ⟨here, (aged.2 (n + 1)).mpr rfl⟩ (pinged _ here (by simp))
  next late =>
    rw [if_neg late] at aged
    have here : { s with suspectElapsed := order }.ageSuspicions.members m = some ⟨.dead, i⟩ := by
      rw [aged.1, running.members]
      rfl
    exact (pinged _ here (by simp)).members.trans here

theorem dead_step (timed : s.Timed) (dead : s.members m = some ⟨.dead, i⟩) (possible : event.Possible s) :
    (event.apply s).members m = some ⟨.dead, i⟩ := by
  cases event with
  | tick order =>
    have ordered := timed.reordered possible
    have idle : m ∉ { s with suspectElapsed := order }.watched := by
      rw [ordered.suspects, statusOf, dead]
      simp
    have here := (age_idle idle).1.trans dead
    have pinged := agePing_untouched ordered.age here (by simp)
    exact (pinged.trans ((quiet_startPing _).untouched m)).members.trans here
  | receive envelope =>
    have merged : Untouched s (s.mergeAll envelope.facts) m :=
      untouched_of_all_spared timed dead (by simp) (by simp [shouldApply])
    exact (merged.trans ((receive_quiet s envelope).untouched m)).members.trans dead

theorem dead_run {events : List Event} (timed : s.Timed) (dead : s.members m = some ⟨.dead, i⟩)
    (possible : Possible s events) : (run s events).members m = some ⟨.dead, i⟩ := by
  induction events generalizing s with
  | nil => exact dead
  | cons event rest ih => exact ih (timed.step possible.1) (dead_step timed dead possible.1) possible.2

theorem running_run {events : List Event} (timed : s.Timed) (running : Running s m i n) (young : n < s.suspicionTimeout)
    (possible : Possible s events) (spared : ∀ event ∈ events, event.Spares m i) :
    (run s events).members m =
      some ⟨if n + events.countP Event.isTick < s.suspicionTimeout then .suspect else .dead, i⟩ := by
  induction events generalizing s n with
  | nil => simp [run, running.members, young]
  | cons event rest ih =>
    have later := timed.step possible.1
    have spared' := fun other mem => spared other (List.mem_cons_of_mem _ mem)
    cases event with
    | tick order =>
      have ticked := tick_running timed running possible.1
      have count : n + (Event.tick order :: rest).countP Event.isTick = n + 1 + rest.countP Event.isTick := by
        rw [List.countP_cons_of_pos rfl]
        omega
      split at ticked
      next early =>
        have whole := ih later ticked (by rwa [apply_timeout]) possible.2 spared'
        rwa [apply_timeout, ← count] at whole
      next late =>
        rw [count, if_neg (by omega)]
        have whole := dead_run later ticked possible.2
        exact whole
    | receive envelope =>
      have same := (untouched_of_all_spared timed running.members (by simp)
        (spared _ List.mem_cons_self)).trans ((receive_quiet s envelope).untouched m)
      have whole := ih later (running.untouched same) (by rwa [apply_timeout]) possible.2 spared'
      rwa [apply_timeout] at whole

def Fresh (s : SwimCore) (m : NodeId) : Prop := ∀ i, s.members m = some ⟨.suspect, i⟩ → (m, 0) ∈ s.suspectElapsed

theorem Fresh.untouched {s' : SwimCore} (fresh : Fresh s m) (same : Untouched s s' m) : Fresh s' m :=
  fun i here => (same.timer 0).mpr (fresh i (same.members.symm.trans here))

theorem merge_fresh (s : SwimCore) (item : GossipItem) (m : NodeId) :
    Untouched s (s.merge item).1 m ∨ Fresh (s.merge item).1 m := by
  rcases merge_about s item m with same | learned | ⟨-, alive, -⟩
  next => exact .inl same
  next =>
    refine .inr fun i here => (learned.timer 0).mpr ⟨?_, rfl⟩
    rw [learned.members] at here
    exact congrArg Member.status (Option.some.inj here)
  next =>
    refine .inr fun i here => ?_
    rw [statusOf, here] at alive
    cases alive

theorem mergeAll_fresh (s : SwimCore) (facts : List GossipItem) (m : NodeId) :
    Untouched s (s.mergeAll facts) m ∨ Fresh (s.mergeAll facts) m := by
  induction facts generalizing s with
  | nil => exact .inl (.refl s m)
  | cons item rest ih =>
    rcases ih (s.merge item).1 with same | fresh
    next =>
      rcases merge_fresh s item m with first | fresh
      next => exact .inl (first.trans same)
      next => exact .inr (fresh.untouched same)
    next => exact .inr fresh

theorem running_of_start (timed : s.Timed) (possible : event.Possible s) (before : s.members m ≠ some ⟨.suspect, i⟩)
    (after : (event.apply s).members m = some ⟨.suspect, i⟩) : Running (event.apply s) m i 0 := by
  refine ⟨after, ?_⟩
  cases event with
  | tick order =>
    -- ageing begins no suspicion
    have unaged : { s with suspectElapsed := order }.ageSuspicions.members m ≠ some ⟨.suspect, i⟩ := by
      intro aged
      have ordered := timed.reordered possible
      have watch := (ordered.age.suspects m).mpr (by simp [statusOf, aged])
      by_cases running : m ∈ { s with suspectElapsed := order }.watched
      next =>
        obtain ⟨n, timer⟩ := mem_watched.mp running
        have kept := age_running ordered.distinct timer
        split at kept
        next => exact before (kept.1.symm.trans aged)
        next => exact kept.2 watch
      next => exact (age_idle running).2 watch
    have quiet := (quiet_startPing { s with suspectElapsed := order }.ageSuspicions.agePing).untouched m
    apply (quiet.timer 0).mpr
    have there := quiet.members.symm.trans after
    rcases agePing_cases { s with suspectElapsed := order }.ageSuspicions with same | ⟨start, item, r, same, eq, -⟩
    next => exact absurd ((same.untouched m).members.symm.trans there) unaged
    next =>
      rw [eq] at there ⊢
      rcases merge_fresh start item m with touched | fresh
      next => exact absurd (((same.untouched m).trans touched).members.symm.trans there) unaged
      next => exact fresh i there
  | receive envelope =>
    have quiet := (receive_quiet s envelope).untouched m
    apply (quiet.timer 0).mpr
    have there := quiet.members.symm.trans after
    rcases mergeAll_fresh s envelope.facts m with same | fresh
    next => exact absurd (same.members.symm.trans there) before
    next => exact fresh i there

/-- In every reachable state the timers are those of the suspects, and a suspicion that nothing
overrides ends in death on the tick its timeout names. -/
theorem suspicion_timers (reached : Reachable limit s) : s.Timed ∧
    (1 ≤ limit → ∀ (event : Event) (m : NodeId) (i : Nat), event.Possible s →
      s.members m ≠ some ⟨.suspect, i⟩ → (event.apply s).members m = some ⟨.suspect, i⟩ →
      ∀ later, Possible (event.apply s) later → (∀ other ∈ later, other.Spares m i) →
        (run (event.apply s) later).members m =
          some ⟨if later.countP Event.isTick < limit then .suspect else .dead, i⟩) := by
  have timed := reached.timed
  refine ⟨timed, fun positive event m i possible before after later possible' spared => ?_⟩
  have running := running_of_start timed possible before after
  have timeout := (reached.step possible).timeout
  have whole := running_run (timed.step possible) running (by omega) possible' spared
  rwa [Nat.zero_add, timeout] at whole

-- What node 3 tells node 1 about node 2.
def rumour : Envelope := ⟨3, 1, .ping 1 0 [⟨2, .suspect, 0⟩]⟩

theorem suspicion_timers_two :
    (run (Event.apply (new 1 [2] 5 5 2) (.receive rumour)) [.tick [(2, 0)], .tick [(2, 1)]]).members 2 =
      some ⟨.dead, 0⟩ := by
  have whole := (suspicion_timers (.new 1 [2] 5 5)).2 (by decide : 1 ≤ 2) (.receive rumour) 2 0 trivial
    (by decide) (by decide) [.tick [(2, 0)], .tick [(2, 1)]]
    ⟨List.Perm.of_eq (by decide), List.Perm.of_eq (by decide), trivial⟩
    (by simp [Event.Spares])
  exact whole

end Events

end SwimCore

end Gems.Gossip

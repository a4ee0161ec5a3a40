import Gems.Gossip.Merge

set_option autoImplicit false

namespace Gems.Gossip

-- How the record of a member may change: upwards, and not after Dead.
structure Later (r r' : Member) : Prop where
  rank : r.rank ≤ r'.rank
  dead : r.status = .dead → r' = r

theorem Later.refl (r : Member) : Later r r := ⟨le_rfl, fun _ => rfl⟩

theorem Later.trans {r r' r'' : Member} (first : Later r r') (second : Later r' r'') : Later r r'' where
  rank := first.rank.trans second.rank
  dead := by
    intro dead
    have same := first.dead dead
    rw [second.dead (by rw [same, dead]), same]

theorem Later.incarnation {r r' : Member} (later : Later r r') : r.incarnation ≤ r'.incarnation := by
  have rank := later.rank
  rw [Member.rank, Member.rank, Prod.Lex.toLex_le_toLex] at rank
  omega

theorem Later.cleared {i j : Nat} (later : Later ⟨.suspect, i⟩ ⟨.alive, j⟩) : i < j := by
  have rank := later.rank
  rw [Member.rank, Member.rank, Prod.Lex.toLex_le_toLex] at rank
  rcases rank with less | ⟨-, severity⟩
  · exact less
  · exact absurd (show Status.suspect ≤ Status.alive from severity) (by decide)

theorem later_of_shouldApply {r : Member} {item : GossipItem}
    (applies : SwimCore.shouldApply (some r) item = true) : Later r ⟨item.status, item.incarnation⟩ := by
  have alive : r.status ≠ .dead := by
    intro dead
    rw [SwimCore.shouldApply, if_pos dead] at applies
    cases applies
  exact ⟨((SwimCore.shouldApply_iff alive).mp applies).le, fun dead => absurd dead alive⟩

theorem later_of_death {i : Nat} : Later ⟨.suspect, i⟩ ⟨.dead, i⟩ where
  rank := by
    rw [Member.rank, Member.rank, Prod.Lex.toLex_le_toLex]
    exact .inr ⟨rfl, (by decide : Status.suspect ≤ Status.dead)⟩
  dead := fun no => by cases no

section

/-- A merge of `merged` at the old incarnation is where `c` got its incarnation. -/
def Refutes (merged : SwimCore → GossipItem → Prop) (before c : SwimCore) : Prop :=
  c.incarnation = before.incarnation + 1 ∧
    ∃ now item, merged now item ∧ item.member = now.id ∧ now.incarnation = before.incarnation ∧
      (now.maybeRefuteSelf item).2 = true ∧ (now.maybeRefuteSelf item).1.incarnation = c.incarnation

-- The highest incarnation that a fact seen by `c` may carry.
def SwimCore.limit (own : NodeId → Nat) (c : SwimCore) (m : NodeId) : Nat :=
  if m = c.id then c.incarnation else own m

/-- What one node does between `before` and `c`, when nobody else knows more than `own`. -/
structure Follows (own : NodeId → Nat) (merged : SwimCore → GossipItem → Prop)
    (before c : SwimCore) : Prop where
  id : c.id = before.id
  incarnation : c.incarnation = before.incarnation ∨ Refutes merged before c
  self : c.members c.id = some ⟨.alive, c.incarnation⟩
  members : ∀ m r, c.members m = some r → r.incarnation ≤ c.limit own m
  queue : ∀ g ∈ c.gossipQueue, g.item.incarnation ≤ c.limit own g.item.member
  later : ∀ m r, before.members m = some r → ∃ r', c.members m = some r' ∧ Later r r'

variable {own : NodeId → Nat} {merged : SwimCore → GossipItem → Prop}
  {before c c' : SwimCore} {item : GossipItem} {m : NodeId}

-- Nothing but the members, the incarnation and the queue matters.
theorem Follows.quiet (follows : Follows own merged before c) (id : c'.id = c.id)
    (incarnation : c'.incarnation = c.incarnation) (members : c'.members = c.members)
    (queue : ∀ g ∈ c'.gossipQueue, ∃ g' ∈ c.gossipQueue, g'.item = g.item) :
    Follows own merged before c' := by
  have limit (m : NodeId) : c'.limit own m = c.limit own m := by
    rw [SwimCore.limit, SwimCore.limit, id, incarnation]
  exact
    { id := id.trans follows.id
      incarnation := by
        rw [Refutes, incarnation]
        exact follows.incarnation
      self := by rw [members, id, incarnation, follows.self]
      members := by
        intro m r here
        rw [members] at here
        rw [limit]
        exact follows.members m r here
      queue := by
        intro g mem
        obtain ⟨g', mem', same⟩ := queue g mem
        rw [limit, ← same]
        exact follows.queue g' mem'
      later := by
        rw [members]
        exact follows.later }

theorem Follows.learn (follows : Follows own merged before c) (other : item.member ≠ c.id)
    (bound : item.incarnation ≤ own item.member)
    (later : ∀ r, c.members item.member = some r → Later r ⟨item.status, item.incarnation⟩)
    (id : c'.id = c.id) (incarnation : c'.incarnation = c.incarnation)
    (members : c'.members = Function.update c.members item.member
      (some ⟨item.status, item.incarnation⟩))
    (queue : ∀ g ∈ c'.gossipQueue, g ∈ c.gossipQueue ∨ g.item = item) :
    Follows own merged before c' := by
  have limit (m : NodeId) : c'.limit own m = c.limit own m := by
    rw [SwimCore.limit, SwimCore.limit, id, incarnation]
  have allowed : item.incarnation ≤ c.limit own item.member := by
    rw [SwimCore.limit, if_neg other]
    exact bound
  exact
    { id := id.trans follows.id
      incarnation := by
        rw [Refutes, incarnation]
        exact follows.incarnation
      self := by rw [members, id, incarnation, Function.update_of_ne other.symm, follows.self]
      members := by
        intro m r here
        rw [members] at here
        rw [limit]
        by_cases same : m = item.member
        · rw [same, Function.update_self, Option.some.injEq] at here
          rw [← here, same]
          exact allowed
        · rw [Function.update_of_ne same] at here
          exact follows.members m r here
      queue := by
        intro g mem
        rw [limit]
        rcases queue g mem with old | new
        · exact follows.queue g old
        · rw [new]
          exact allowed
      later := by
        intro m r here
        obtain ⟨r', there, upTo⟩ := follows.later m r here
        rw [members]
        by_cases same : m = item.member
        · rw [same] at there ⊢
          exact ⟨_, Function.update_self .., upTo.trans (later r' there)⟩
        · exact ⟨r', by rw [Function.update_of_ne same, there], upTo⟩ }

theorem mem_queueGossip {g : GossipQueueItem} (mem : g ∈ (c.queueGossip item).gossipQueue) :
    g ∈ c.gossipQueue ∨ g.item = item := by
  simp only [SwimCore.queueGossip, List.mem_append, List.mem_filter, List.mem_singleton] at mem
  rcases mem with ⟨old, -⟩ | rfl
  · exact .inl old
  · exact .inr rfl

theorem Follows.merge (follows : Follows own merged before c)
    (start : own before.id = before.incarnation) (happens : merged c item)
    (bound : item.incarnation ≤ own item.member) : Follows own merged before (c.merge item).1 := by
  rw [SwimCore.merge]
  by_cases aboutSelf : item.member = c.id
  · rw [if_pos aboutSelf]
    by_cases ignored : item.status = .alive ∨ item.incarnation < c.incarnation
    · rwa [SwimCore.maybeRefuteSelf, if_pos ignored]
    -- The fact is at most at the old incarnation, so this is the first refutation since `before`.
    rw [aboutSelf, follows.id, start] at bound
    have first : c.incarnation = before.incarnation := by
      rcases follows.incarnation with same | ⟨next, -⟩
      · exact same
      · omega
    have produced : (c.maybeRefuteSelf item).1.incarnation = item.incarnation + 1 := by
      rw [SwimCore.maybeRefuteSelf, if_neg ignored]
      rfl
    have changed : (c.maybeRefuteSelf item).2 = true := by
      rw [SwimCore.maybeRefuteSelf, if_neg ignored]
    have level : item.incarnation = c.incarnation := by omega
    have members : (c.maybeRefuteSelf item).1.members =
        Function.update c.members c.id (some ⟨.alive, item.incarnation + 1⟩) := by
      rw [SwimCore.maybeRefuteSelf, if_neg ignored]
      rfl
    have id : (c.maybeRefuteSelf item).1.id = c.id := by
      rw [SwimCore.maybeRefuteSelf, if_neg ignored]
      rfl
    have limit (m : NodeId) : c.limit own m ≤ (c.maybeRefuteSelf item).1.limit own m := by
      rw [SwimCore.limit, SwimCore.limit, id, produced]
      split <;> omega
    exact
      { id := id.trans follows.id
        incarnation := .inr ⟨by omega, c, item, happens, aboutSelf, first, changed, rfl⟩
        self := by rw [members, id, Function.update_self, produced]
        members := by
          intro m r here
          rw [members] at here
          by_cases same : m = c.id
          · rw [same, Function.update_self, Option.some.injEq] at here
            rw [SwimCore.limit, id, if_pos same, produced, ← here]
          · rw [Function.update_of_ne same] at here
            exact (follows.members m r here).trans (limit m)
        queue := by
          intro g mem
          rw [SwimCore.maybeRefuteSelf, if_neg ignored] at mem
          rcases mem_queueGossip mem with old | new
          · exact (follows.queue g old).trans (limit _)
          · rw [new, SwimCore.limit, id, produced]
            exact (if_pos (rfl : c.id = c.id)).ge
        later := by
          intro m r here
          obtain ⟨r', there, upTo⟩ := follows.later m r here
          rw [members]
          by_cases same : m = c.id
          · rw [same] at there ⊢
            rw [follows.self, Option.some.injEq] at there
            refine ⟨_, Function.update_self .., upTo.trans ?_⟩
            rw [← there]
            refine ⟨?_, fun no => by cases no⟩
            rw [Member.rank, Member.rank, Prod.Lex.toLex_le_toLex]
            exact .inl (by dsimp only; omega)
          · exact ⟨r', by rw [Function.update_of_ne same, there], upTo⟩ }
  rw [if_neg aboutSelf]
  by_cases applies : SwimCore.shouldApply (c.members item.member) item = true
  · rw [if_pos applies]
    have later : ∀ r, c.members item.member = some r → Later r ⟨item.status, item.incarnation⟩ :=
      fun r here => later_of_shouldApply (here ▸ applies)
    dsimp only
    split
    next => exact follows.learn aboutSelf bound later rfl rfl rfl fun g mem => mem_queueGossip mem
    next => exact follows.learn aboutSelf bound later rfl rfl rfl fun g mem => mem_queueGossip mem
  · rwa [if_neg applies]

theorem Follows.expire (follows : Follows own merged before c) : Follows own merged before (c.expire m) := by
  have forgotten : Follows own merged before (c.suspectRemove m) :=
    follows.quiet rfl rfl rfl fun g mem => ⟨g, mem, rfl⟩
  rw [SwimCore.expire]
  split
  next r here =>
    split
    next suspected =>
      have other : m ≠ c.id := by
        rintro rfl
        rw [SwimCore.suspectRemove_members, follows.self, Option.some.injEq] at here
        rw [← here] at suspected
        cases suspected
      have known := follows.members m r here
      rw [SwimCore.limit, if_neg other] at known
      have told (now : SwimCore) : ∀ g ∈ (now.queueGossip ⟨m, .dead, r.incarnation⟩).gossipQueue,
          g ∈ now.gossipQueue ∨ g.item = ⟨m, .dead, r.incarnation⟩ := fun g mem => mem_queueGossip mem
      refine forgotten.learn other known ?_ rfl rfl rfl (told _)
      intro r' there
      rw [show r' = r from Option.some.inj (there.symm.trans here)]
      have suspect : r = ⟨.suspect, r.incarnation⟩ := by rw [← suspected]
      rw [suspect]
      exact later_of_death
    next => exact forgotten
  next => exact forgotten

theorem Follows.expireAll (follows : Follows own merged before c) {timedOut : List NodeId} :
    Follows own merged before (timedOut.foldl SwimCore.expire c) := by
  induction timedOut generalizing c with
  | nil => exact follows
  | cons id rest ih => exact ih follows.expire

theorem SwimCore.expire_incarnation : (c.expire m).incarnation = c.incarnation := by
  simp only [SwimCore.expire]
  split
  next => split <;> rfl
  next => rfl

theorem SwimCore.expireAll_incarnation {timedOut : List NodeId} :
    (timedOut.foldl SwimCore.expire c).incarnation = c.incarnation := by
  induction timedOut generalizing c with
  | nil => rfl
  | cons id rest ih => exact ih.trans expire_incarnation

theorem Follows.ageSuspicions (follows : Follows own merged before c) :
    Follows own merged before c.ageSuspicions := by
  rw [SwimCore.ageSuspicions]
  refine Follows.expireAll ?_
  exact follows.quiet rfl rfl rfl fun g mem => ⟨g, mem, rfl⟩

theorem SwimCore.ageSuspicions_incarnation : c.ageSuspicions.incarnation = c.incarnation :=
  SwimCore.expireAll_incarnation

theorem Follows.agePing (follows : Follows own merged before c)
    (start : own before.id = before.incarnation)
    (happens : ∀ awaiting r, c.awaitingAck = some awaiting →
      c.pingTimeout ≤ awaiting.ticksWaited + 1 → c.members awaiting.target = some r →
      r.status = .alive →
      merged { c with awaitingAck := none } ⟨awaiting.target, .suspect, r.incarnation⟩)
    (first : c.incarnation = before.incarnation) : Follows own merged before c.agePing := by
  rw [SwimCore.agePing]
  split
  next => exact follows
  next awaiting waiting =>
    dsimp only
    split
    next late =>
      have given : Follows own merged before { c with awaitingAck := none } :=
        follows.quiet rfl rfl rfl fun g mem => ⟨g, mem, rfl⟩
      split
      next r here =>
        split
        next alive =>
          refine given.merge start (happens awaiting r waiting late here alive) ?_
          have known := follows.members awaiting.target r here
          rw [SwimCore.limit] at known
          split at known
          next self =>
            rw [self, follows.id, start, ← first]
            exact known
          next => exact known
        next => exact given
      next => exact given
    next => exact follows.quiet rfl rfl rfl fun g mem => ⟨g, mem, rfl⟩

theorem Follows.mergeAll (follows : Follows own merged before c)
    (start : own before.id = before.incarnation) {facts : List GossipItem}
    (happens : ∀ front item back, facts = front ++ item :: back → merged (c.mergeAll front) item)
    (bound : ∀ item ∈ facts, item.incarnation ≤ own item.member) :
    Follows own merged before (c.mergeAll facts) := by
  induction facts generalizing c with
  | nil => exact follows
  | cons item rest ih =>
    exact ih (follows.merge start (happens [] item rest rfl) (bound item List.mem_cons_self))
      (fun front item' back split => happens (item :: front) item' back (congrArg (item :: ·) split))
      fun item' mem => bound item' (List.mem_cons_of_mem _ mem)

theorem mem_takeGossip {g : GossipQueueItem} (mem : g ∈ c.takeGossip.1.gossipQueue) :
    ∃ g' ∈ c.gossipQueue, g'.item = g.item := by
  simp only [SwimCore.takeGossip, List.mem_append, List.mem_filter, List.mem_map] at mem
  rcases mem with ⟨⟨g', taken, rfl⟩, -⟩ | kept
  · exact ⟨g', List.mem_of_mem_take taken, rfl⟩
  · exact ⟨g, List.mem_of_mem_drop kept, rfl⟩

theorem Follows.takeGossip (follows : Follows own merged before c) : Follows own merged before c.takeGossip.1 :=
  follows.quiet rfl rfl rfl fun _ mem => mem_takeGossip mem

theorem Follows.taken (follows : Follows own merged before c) (mem : item ∈ c.takeGossip.2) :
    item.incarnation ≤ c.limit own item.member := by
  simp only [SwimCore.takeGossip, List.mem_map] at mem
  obtain ⟨g, taken, rfl⟩ := mem
  exact follows.queue g (List.mem_of_mem_take taken)

def SwimMessage.senderIncarnation : SwimMessage → Nat
  | .ping _ i _ => i
  | .ack _ i _ => i

def SwimMessage.gossip : SwimMessage → List GossipItem
  | .ping _ _ gossip => gossip
  | .ack _ _ gossip => gossip

-- Nothing that the envelope says is beyond `own`.
structure Envelope.Known (own : NodeId → Nat) (envelope : Envelope) : Prop where
  sender : envelope.message.senderIncarnation ≤ own envelope.from_
  gossip : ∀ item ∈ envelope.message.gossip, item.incarnation ≤ own item.member

theorem SwimCore.findPingTarget_quiet {turns : Nat} :
    (SwimCore.findPingTarget turns c).1.id = c.id ∧
      (SwimCore.findPingTarget turns c).1.incarnation = c.incarnation ∧
      (SwimCore.findPingTarget turns c).1.members = c.members ∧
      (SwimCore.findPingTarget turns c).1.gossipQueue = c.gossipQueue := by
  induction turns generalizing c with
  | zero => exact ⟨rfl, rfl, rfl, rfl⟩
  | succ turns ih =>
    rw [SwimCore.findPingTarget]
    split
    next => exact ⟨rfl, rfl, rfl, rfl⟩
    next =>
      dsimp only
      split
      next => exact ⟨rfl, rfl, rfl, rfl⟩
      next => exact ih

theorem Follows.nextPingTarget (follows : Follows own merged before c) :
    Follows own merged before c.nextPingTarget.1 := by
  obtain ⟨id, incarnation, members, queue⟩ : _ ∧ _ ∧ _ ∧ c.nextPingTarget.1.gossipQueue = _ :=
    SwimCore.findPingTarget_quiet
  exact follows.quiet id incarnation members fun g mem => ⟨g, queue ▸ mem, rfl⟩

theorem Follows.startPing (follows : Follows own merged before c) :
    Follows own merged before c.startPing.1 ∧
      ∀ envelope ∈ c.startPing.2, envelope.Known (c.startPing.1.limit own) := by
  rw [SwimCore.startPing]
  dsimp only
  split
  next =>
    have due : Follows own merged before { c with periodElapsed := 0 } :=
      follows.quiet rfl rfl rfl fun g mem => ⟨g, mem, rfl⟩
    have turned := due.nextPingTarget
    generalize SwimCore.nextPingTarget _ = found at turned ⊢
    obtain ⟨searched, target⟩ := found
    cases target with
    | none => exact ⟨turned, fun _ none => absurd none List.not_mem_nil⟩
    | some target =>
      have waiting : Follows own merged before { searched with
          nextSeq := searched.nextSeq + 1
          awaitingAck := some { target, seq := searched.nextSeq + 1, ticksWaited := 0 } } :=
        turned.quiet rfl rfl rfl fun g mem => ⟨g, mem, rfl⟩
      refine ⟨waiting.takeGossip, ?_⟩
      intro envelope mem
      rw [List.mem_singleton] at mem
      subst mem
      exact ⟨(if_pos rfl).ge, fun item mem => waiting.taken mem⟩
  next =>
    exact ⟨follows.quiet rfl rfl rfl fun g mem => ⟨g, mem, rfl⟩,
      fun _ none => absurd none List.not_mem_nil⟩

def Envelope.facts (envelope : Envelope) : List GossipItem :=
  { member := envelope.from_, status := .alive
    incarnation := envelope.message.senderIncarnation } :: envelope.message.gossip

theorem Envelope.Known.facts {envelope : Envelope} (known : envelope.Known own) :
    ∀ item ∈ envelope.facts, item.incarnation ≤ own item.member := by
  intro item mem
  rcases List.mem_cons.mp mem with rfl | gossip
  · exact known.sender
  · exact known.gossip item gossip

/-- The facts that a node merges on the way from `before` to its next state, in which state each. -/
inductive Merges (before : SwimCore) : SwimCore → SwimCore → GossipItem → Prop where
  | tick {start : SwimCore} {order : List (NodeId × Nat)} {awaiting : AwaitingAck} {r : Member} :
      order.Perm before.suspectElapsed → start = { before with suspectElapsed := order } →
      start.ageSuspicions.awaitingAck = some awaiting →
      start.ageSuspicions.pingTimeout ≤ awaiting.ticksWaited + 1 →
      start.ageSuspicions.members awaiting.target = some r → r.status = .alive →
      Merges before start.tick.1 { start.ageSuspicions with awaitingAck := none }
        ⟨awaiting.target, .suspect, r.incarnation⟩
  | receive {envelope : Envelope} {front back : List GossipItem} {item : GossipItem} :
      envelope.facts = front ++ item :: back →
      Merges before (before.receive envelope).1 (before.mergeAll front) item

theorem Follows.tick {order : List (NodeId × Nat)}
    (follows : Follows own (Merges before { before with suspectElapsed := order }.tick.1) before before)
    (start : own before.id = before.incarnation) (permuted : order.Perm before.suspectElapsed) :
    Follows own (Merges before { before with suspectElapsed := order }.tick.1) before
        { before with suspectElapsed := order }.tick.1 ∧
      ∀ envelope ∈ { before with suspectElapsed := order }.tick.2,
        envelope.Known ({ before with suspectElapsed := order }.tick.1.limit own) := by
  have ordered : Follows own (Merges before { before with suspectElapsed := order }.tick.1) before
      { before with suspectElapsed := order } :=
    follows.quiet rfl rfl rfl fun g mem => ⟨g, mem, rfl⟩
  have aged := ordered.ageSuspicions.agePing start
    (fun awaiting r waiting late here alive => .tick permuted rfl waiting late here alive)
    SwimCore.ageSuspicions_incarnation
  exact aged.startPing

theorem Follows.receive {envelope : Envelope}
    (follows : Follows own (Merges before (before.receive envelope).1) before before)
    (start : own before.id = before.incarnation) (known : envelope.Known own) :
    Follows own (Merges before (before.receive envelope).1) before (before.receive envelope).1 ∧
      ∀ sent ∈ (before.receive envelope).2, sent.Known ((before.receive envelope).1.limit own) := by
  have merged : Follows own _ before (before.mergeAll envelope.facts) :=
    follows.mergeAll start (fun front item back split => .receive split) known.facts
  generalize Merges before (before.receive envelope).1 = seen at merged ⊢
  obtain ⟨sender, receiver, message⟩ := envelope
  cases message with
  | ping seq senderIncarnation gossip =>
    refine ⟨merged.takeGossip, ?_⟩
    intro sent mem
    rw [SwimCore.receive] at mem
    obtain rfl := List.mem_singleton.mp mem
    exact ⟨(if_pos rfl).ge, fun item mem => merged.taken mem⟩
  | ack seq senderIncarnation gossip =>
    rw [SwimCore.receive]
    dsimp only
    split
    next =>
      split
      next =>
        exact ⟨merged.quiet rfl rfl rfl fun g mem => ⟨g, mem, rfl⟩,
          fun _ none => absurd none List.not_mem_nil⟩
      next => exact ⟨merged, fun _ none => absurd none List.not_mem_nil⟩
    next => exact ⟨merged, fun _ none => absurd none List.not_mem_nil⟩

end

end Gems.Gossip

import Gems.Lib.Quorum
import Mathlib.Data.List.Basic

set_option autoImplicit false

namespace Gems.Lib

/-- What every election and every leader has done so far, indexed by term. Nothing here is ever undone. -/
structure Ledger (N E : Type) where
  votes : Nat → N → Option N
  ballot : Nat → N → List E
  leader : Nat → Option N
  quorum : Nat → Finset N
  initial : Nat → List E
  log : Nat → List E
  acked : N → Nat → Nat
  held : N → List E

namespace Ledger

variable {N E : Type}

def empty : Ledger N E :=
  { votes := fun _ _ => none
    ballot := fun _ _ => []
    leader := fun _ => none
    quorum := fun _ => ∅
    initial := fun _ => []
    log := fun _ => []
    acked := fun _ _ => 0
    held := fun _ => [] }

/-- Every entry, with all that precedes it, is a prefix of the log its own term's leader wrote. -/
def Chained (term : E → Nat) (g : Ledger N E) (bound : Nat) (l : List E) : Prop :=
  ∀ i e, l[i]? = some e →
    term e ≤ bound ∧ (g.leader (term e)).isSome ∧ l.take (i + 1) <+: g.log (term e)

structure Le (g g' : Ledger N E) : Prop where
  votes : ∀ T w c, g.votes T w = some c → g'.votes T w = some c
  ballot : ∀ T w c, g.votes T w = some c → g'.ballot T w = g.ballot T w
  leader : ∀ T c, g.leader T = some c → g'.leader T = some c
  quorum : ∀ T c, g.leader T = some c → g'.quorum T = g.quorum T
  initial : ∀ T c, g.leader T = some c → g'.initial T = g.initial T
  log : ∀ T, g.log T <+: g'.log T
  acked : ∀ w T, g.acked w T ≤ g'.acked w T
  held : ∀ w, g.held w <+: g'.held w

theorem Le.refl (g : Ledger N E) : Le g g where
  votes := fun _ _ _ h => h
  ballot := fun _ _ _ _ => rfl
  leader := fun _ _ h => h
  quorum := fun _ _ _ => rfl
  initial := fun _ _ _ => rfl
  log := fun _ => List.prefix_rfl
  acked := fun _ _ => le_rfl
  held := fun _ => List.prefix_rfl

theorem Le.trans {g₁ g₂ g₃ : Ledger N E} (h : Le g₁ g₂) (h' : Le g₂ g₃) : Le g₁ g₃ where
  votes := fun T w c hv => h'.votes T w c (h.votes T w c hv)
  ballot := fun T w c hv => (h'.ballot T w c (h.votes T w c hv)).trans (h.ballot T w c hv)
  leader := fun T c hl => h'.leader T c (h.leader T c hl)
  quorum := fun T c hl => (h'.quorum T c (h.leader T c hl)).trans (h.quorum T c hl)
  initial := fun T c hl => (h'.initial T c (h.leader T c hl)).trans (h.initial T c hl)
  log := fun T => (h.log T).trans (h'.log T)
  acked := fun w T => (h.acked w T).trans (h'.acked w T)
  held := fun w => (h.held w).trans (h'.held w)

-- Only `v` acted between `g` and `g'`.
structure Extends (v : N) (g g' : Ledger N E) : Prop extends Le g g' where
  votes_other : ∀ T w, w ≠ v → g'.votes T w = g.votes T w
  leader_other : ∀ T c, g'.leader T = some c → c ≠ v → g.leader T = some c
  log_other : ∀ T c, g.leader T = some c → c ≠ v → g'.log T = g.log T
  acked_other : ∀ w T, w ≠ v → g'.acked w T = g.acked w T
  held_other : ∀ w, w ≠ v → g'.held w = g.held w

theorem Extends.refl (v : N) (g : Ledger N E) : Extends v g g where
  toLe := Le.refl g
  votes_other := fun _ _ _ => rfl
  leader_other := fun _ _ h _ => h
  log_other := fun _ _ _ _ => rfl
  acked_other := fun _ _ _ => rfl
  held_other := fun _ _ => rfl

theorem Extends.trans {v : N} {g₁ g₂ g₃ : Ledger N E} (h : Extends v g₁ g₂) (h' : Extends v g₂ g₃) :
    Extends v g₁ g₃ where
  toLe := h.toLe.trans h'.toLe
  votes_other := fun T w other => (h'.votes_other T w other).trans (h.votes_other T w other)
  leader_other := fun T c led other => h.leader_other T c (h'.leader_other T c led other) other
  log_other := fun T c led other =>
    (h'.log_other T c (h.leader T c led) other).trans (h.log_other T c led other)
  acked_other := fun w T other => (h'.acked_other w T other).trans (h.acked_other w T other)
  held_other := fun w other => (h'.held_other w other).trans (h.held_other w other)

section Chain

variable {term : E → Nat} {g g' : Ledger N E} {bound : Nat}

theorem chained_nil : Chained term g bound [] := by
  intro i e found
  simp at found

theorem Chained.mono {bound' : Nat} {l : List E} (h : Chained term g bound l)
    (le : bound ≤ bound') : Chained term g bound' l := by
  intro i e found
  obtain ⟨hle, hsome, hpre⟩ := h i e found
  exact ⟨hle.trans le, hsome, hpre⟩

theorem Chained.restrict {l l' : List E} (h : Chained term g bound l') (pre : l <+: l') :
    Chained term g bound l := by
  obtain ⟨rest, rfl⟩ := pre
  intro i e found
  have inside : i < l.length := (List.getElem?_eq_some_iff.mp found).1
  have found' : (l ++ rest)[i]? = some e := by rw [List.getElem?_append_left inside, found]
  obtain ⟨hle, hsome, hpre⟩ := h i e found'
  refine ⟨hle, hsome, ?_⟩
  rwa [List.take_append_of_le_length (by omega)] at hpre

theorem Chained.le {l : List E} (h : Chained term g bound l) (grow : Le g g') :
    Chained term g' bound l := by
  intro i e found
  obtain ⟨hle, hsome, hpre⟩ := h i e found
  obtain ⟨c, hc⟩ := Option.isSome_iff_exists.mp hsome
  exact ⟨hle, by rw [grow.leader _ c hc]; rfl, hpre.trans (grow.log _)⟩

-- Log matching: one index and one term fix the whole prefix.
theorem Chained.matching {bound' : Nat} {l l' : List E} {i : Nat} {e e' : E}
    (h : Chained term g bound l) (h' : Chained term g bound' l')
    (found : l[i]? = some e) (found' : l'[i]? = some e') (same : term e = term e') :
    l.take (i + 1) = l'.take (i + 1) := by
  have pre := (h i e found).2.2
  have pre' := (h' i e' found').2.2
  rw [← same] at pre'
  have inside : i < l.length := (List.getElem?_eq_some_iff.mp found).1
  have inside' : i < l'.length := (List.getElem?_eq_some_iff.mp found').1
  have lengths : (l.take (i + 1)).length = (l'.take (i + 1)).length := by
    simp only [List.length_take]
    omega
  exact (List.prefix_of_prefix_length_le pre pre' lengths.le).eq_of_length lengths

theorem Chained.whole {l : List E} {e : E} (h : Chained term g bound l)
    (last : l.getLast? = some e) : l <+: g.log (term e) := by
  rw [List.getLast?_eq_getElem?] at last
  have inside : l.length - 1 < l.length := (List.getElem?_eq_some_iff.mp last).1
  have pre := (h _ e last).2.2
  rwa [show l.length - 1 + 1 = l.length by omega, List.take_length] at pre

theorem Chained.append_one {l : List E} {e : E} (h : Chained term g bound l) (le : term e ≤ bound)
    (led : (g.leader (term e)).isSome) (pre : l ++ [e] <+: g.log (term e)) :
    Chained term g bound (l ++ [e]) := by
  intro i e' found
  rcases Nat.lt_trichotomy i l.length with inside | rfl | beyond
  · rw [List.getElem?_append_left inside] at found
    rw [List.take_append_of_le_length (by omega)]
    exact h i e' found
  · have : e' = e := by simpa using found.symm
    subst this
    refine ⟨le, led, ?_⟩
    rwa [List.take_of_length_le (by simp)]
  · have : l.length + 1 ≤ i := beyond
    rw [List.getElem?_eq_none (by simp; omega)] at found
    simp at found

end Chain

variable (term : E → Nat) (members : Finset N)

structure Valid (g : Ledger N E) : Prop where
  elected : ∀ T c, g.leader T = some c →
    c ∈ members ∧ Majority members (g.quorum T) ∧ ∀ w ∈ g.quorum T, g.votes T w = some c
  stood : ∀ T w c, g.votes T w = some c → g.votes T c = some c
  voter : ∀ T w c, g.votes T w = some c → w ∈ members ∧ c ∈ members
  unled : ∀ T, g.leader T = none → g.log T = []
  initial : ∀ T, (g.leader T).isSome → g.initial T <+: g.log T
  chained : ∀ T, Chained term g T (g.log T)
  balloted : ∀ T c, g.votes T c = some c → ∃ b, b < T ∧ Chained term g b (g.ballot T c)

variable {term members}

theorem Valid.leader_unique [DecidableEq N] {g : Ledger N E} (valid : Valid term members g) {T : Nat} {c d : N}
    {Q : Finset N} (led : g.leader T = some c) (hQ : Majority members Q)
    (votes : ∀ w ∈ Q, g.votes T w = some d) : c = d :=
  (valid.elected T c led).2.1.agree hQ (valid.elected T c led).2.2 votes

theorem Valid.sorted {g : Ledger N E} (valid : Valid term members g) {bound : Nat} {l : List E}
    (h : Chained term g bound l) {i j : Nat} {e e' : E} (le : j ≤ i)
    (found : l[i]? = some e) (found' : l[j]? = some e') : term e' ≤ term e := by
  have pre := (h i e found).2.2
  have onLog : (g.log (term e))[j]? = some e' := by
    obtain ⟨rest, eq⟩ := pre
    have inside := (List.getElem?_eq_some_iff.mp found).1
    rw [← eq, List.getElem?_append_left (by simp only [List.length_take]; omega),
      List.getElem?_take_of_lt (by omega), found']
  exact (valid.chained _ j e' onLog).1

theorem Chained.last_ge {g : Ledger N E} (valid : Valid term members g) {bound i : Nat} {l : List E}
    {e : E} (h : Chained term g bound l) (found : l[i]? = some e) :
    ∃ last, l.getLast? = some last ∧ term e ≤ term last := by
  have inside := (List.getElem?_eq_some_iff.mp found).1
  have last : l[l.length - 1]? = some l[l.length - 1] := List.getElem?_eq_getElem _
  refine ⟨_, by rw [List.getLast?_eq_getElem?]; exact last, ?_⟩
  exact valid.sorted h (by omega) last found

-- The first `k` entries of term `T`'s log end in an entry of term `T` itself.
def Stamped (term : E → Nat) (g : Ledger N E) (T k : Nat) : Prop :=
  0 < k ∧ ∃ e, (g.log T)[k - 1]? = some e ∧ term e = T

def Overtaken (g : Ledger N E) (T k bound : Nat) : Prop :=
  ∃ U, T < U ∧ U < bound ∧ (g.leader U).isSome ∧ ¬ (g.log T).take k <+: g.initial U

def Kept (g : Ledger N E) (T k bound : Nat) (l : List E) : Prop :=
  (g.log T).take k <+: l ∨ Overtaken g T k bound

def Committed (term : E → Nat) (members : Finset N) (g : Ledger N E) (T k : Nat) : Prop :=
  Stamped term g T k ∧ ∃ Q, Majority members Q ∧ ∀ w ∈ Q, k ≤ g.acked w T

def CommittedPrefix (term : E → Nat) (members : Finset N) (g : Ledger N E) (bound : Nat)
    (l : List E) : Prop :=
  l = [] ∨ ∃ T k, T ≤ bound ∧ Committed term members g T k ∧ l <+: (g.log T).take k

variable (term) in
structure Durable (g : Ledger N E) : Prop where
  acked : ∀ w T, g.acked w T ≤ (g.log T).length
  ballots : ∀ T' w c, g.leader T' = none → g.votes T' w = some c →
    ∀ T k, T < T' → Stamped term g T k → k ≤ g.acked w T → Kept g T k T' (g.ballot T' c)
  elected : ∀ T' c, g.leader T' = some c → ∀ w ∈ g.quorum T',
    ∀ T k, T < T' → Stamped term g T k → k ≤ g.acked w T → Kept g T k T' (g.initial T')

theorem Stamped.le_length {g : Ledger N E} {T k : Nat} (h : Stamped term g T k) :
    k ≤ (g.log T).length := by
  obtain ⟨positive, e, found, -⟩ := h
  have := (List.getElem?_eq_some_iff.mp found).1
  omega

theorem Le.take_log {g g' : Ledger N E} (grow : Le g g') {T k : Nat}
    (inside : k ≤ (g.log T).length) : (g'.log T).take k = (g.log T).take k := by
  obtain ⟨rest, eq⟩ := grow.log T
  rw [← eq, List.take_append_of_le_length inside]

theorem Stamped.le {g g' : Ledger N E} {T k : Nat} (h : Stamped term g T k) (grow : Le g g') :
    Stamped term g' T k := by
  obtain ⟨positive, e, found, same⟩ := h
  obtain ⟨rest, eq⟩ := grow.log T
  have inside := (List.getElem?_eq_some_iff.mp found).1
  exact ⟨positive, e, by rw [← eq, List.getElem?_append_left inside, found], same⟩

-- A term's log only grows at its end, so a stamp inside the old log is an old stamp.
theorem Stamped.of_le {g g' : Ledger N E} {T k : Nat} (h : Stamped term g' T k) (grow : Le g g')
    (inside : k ≤ (g.log T).length) : Stamped term g T k := by
  obtain ⟨positive, e, found, same⟩ := h
  obtain ⟨rest, eq⟩ := grow.log T
  rw [← eq, List.getElem?_append_left (by omega)] at found
  exact ⟨positive, e, found, same⟩

theorem Overtaken.le {g g' : Ledger N E} {T k bound : Nat} (h : Overtaken g T k bound)
    (grow : Le g g') (inside : k ≤ (g.log T).length) : Overtaken g' T k bound := by
  obtain ⟨U, after, before, led, missing⟩ := h
  obtain ⟨c, hc⟩ := Option.isSome_iff_exists.mp led
  refine ⟨U, after, before, by rw [grow.leader U c hc]; rfl, ?_⟩
  rwa [grow.take_log inside, grow.initial U c hc]

theorem Overtaken.mono {g : Ledger N E} {T k bound bound' : Nat} (h : Overtaken g T k bound)
    (le : bound ≤ bound') : Overtaken g T k bound' := by
  obtain ⟨U, after, before, rest⟩ := h
  exact ⟨U, after, by omega, rest⟩

theorem Kept.le {g g' : Ledger N E} {T k bound : Nat} {l : List E} (h : Kept g T k bound l)
    (grow : Le g g') (inside : k ≤ (g.log T).length) : Kept g' T k bound l := by
  rcases h with pre | lost
  · exact .inl (by rwa [grow.take_log inside])
  · exact .inr (lost.le grow inside)

theorem Kept.mono {g : Ledger N E} {T k bound bound' : Nat} {l l' : List E} (h : Kept g T k bound l)
    (le : bound ≤ bound') (pre : l <+: l') : Kept g T k bound' l' :=
  h.imp (fun h => h.trans pre) (fun h => h.mono le)

-- The election restriction: a candidate at least as up to date as a voter holds what the voter holds,
-- unless some leader in between already dropped it.
theorem Valid.up_to_date {g : Ledger N E} (valid : Valid term members g) {b b' T k T' : Nat}
    {voter candidate : List E} (hv : Chained term g b voter) (hc : Chained term g b' candidate)
    (below : b' < T') (stamped : Stamped term g T k) (held : (g.log T).take k <+: voter)
    (lastV lastC : Nat) (isV : (voter.getLast?.map term).getD 0 = lastV)
    (isC : (candidate.getLast?.map term).getD 0 = lastC)
    (fresh : lastC > lastV ∨ lastC = lastV ∧ candidate.length ≥ voter.length) :
    Kept g T k T' candidate := by
  obtain ⟨positive, e, found, same⟩ := id stamped
  have size := stamped.le_length
  have onVoter : voter[k - 1]? = some e := by
    obtain ⟨rest, eq⟩ := held
    rw [← eq, List.getElem?_append_left (by simp only [List.length_take]; omega),
      List.getElem?_take_of_lt (by omega), found]
  obtain ⟨x, hx, ge⟩ := hv.last_ge valid onVoter
  have termV : term x = lastV := by simpa [hx] using isV
  cases hy : candidate.getLast? with
  | none =>
    have empty : candidate = [] := by simpa using hy
    subst empty
    have zero : lastC = 0 := by simpa using isC.symm
    have inside := (List.getElem?_eq_some_iff.mp onVoter).1
    simp only [List.length_nil] at fresh
    omega
  | some y =>
    have termC : term y = lastC := by simpa [hy] using isC
    have preC := hc.whole hy
    rcases fresh with later | ⟨level, longer⟩
    · have lastIndex : candidate[candidate.length - 1]? = some y := by
        rwa [List.getLast?_eq_getElem?] at hy
      have led := (hc _ y lastIndex).2.1
      have small : term y ≤ b' := (hc _ y lastIndex).1
      by_cases kept : (g.log T).take k <+: g.initial (term y)
      · have preT := kept.trans (valid.initial _ led)
        by_cases fits : k ≤ candidate.length
        · exact .inl (List.prefix_of_prefix_length_le preT preC (by simp only [List.length_take]; omega))
        · -- otherwise the candidate's last entry would be one of term `T`'s own
          have short : candidate <+: (g.log T).take k :=
            List.prefix_of_prefix_length_le preC preT (by simp only [List.length_take]; omega)
          obtain ⟨rest, eq⟩ := short.trans (List.take_prefix k _)
          have old := (valid.chained T (candidate.length - 1) y (by
            rw [← eq, List.getElem?_append_left (List.getElem?_eq_some_iff.mp lastIndex).1, lastIndex])).1
          omega
      · exact .inr ⟨term y, by omega, by omega, led, kept⟩
    · have preV := hv.whole hx
      rw [show term x = term y by omega] at preV
      exact .inl (held.trans (List.prefix_of_prefix_length_le preV preC longer))

/-- Leader completeness, by strong induction on the later term. -/
theorem Durable.completeness [DecidableEq N] {g : Ledger N E} (durable : Durable term g)
    (valid : Valid term members g) {T k : Nat} (done : Committed term members g T k) :
    ∀ T', T < T' → (g.leader T').isSome → (g.log T).take k <+: g.initial T' := by
  intro T'
  induction T' using Nat.strong_induction_on with
  | _ T' ih =>
    intro later led
    obtain ⟨c, hc⟩ := Option.isSome_iff_exists.mp led
    obtain ⟨stamped, Q, majority, acks⟩ := done
    obtain ⟨w, inQ, inQ'⟩ := majority.meet (valid.elected T' c hc).2.1
    rcases durable.elected T' c hc w inQ' T k later stamped (acks w inQ) with kept | lost
    · exact kept
    · obtain ⟨U, after, before, ledU, missing⟩ := lost
      exact absurd (ih U before after ledU) missing

theorem Committed.le {g g' : Ledger N E} {T k : Nat} (h : Committed term members g T k)
    (grow : Le g g') : Committed term members g' T k := by
  obtain ⟨stamped, Q, majority, acks⟩ := h
  exact ⟨stamped.le grow, Q, majority, fun w inQ => (acks w inQ).trans (grow.acked w T)⟩

theorem CommittedPrefix.le {g g' : Ledger N E} {bound : Nat} {l : List E}
    (h : CommittedPrefix term members g bound l) (grow : Le g g') :
    CommittedPrefix term members g' bound l := by
  rcases h with rfl | ⟨T, k, le, done, pre⟩
  · exact .inl rfl
  · exact .inr ⟨T, k, le, done.le grow, by rwa [grow.take_log done.1.le_length]⟩

theorem CommittedPrefix.mono {g : Ledger N E} {bound bound' : Nat} {l : List E}
    (h : CommittedPrefix term members g bound l) (le : bound ≤ bound') :
    CommittedPrefix term members g bound' l := by
  rcases h with rfl | ⟨T, k, small, rest⟩
  · exact .inl rfl
  · exact .inr ⟨T, k, small.trans le, rest⟩

theorem CommittedPrefix.restrict {g : Ledger N E} {bound : Nat} {l l' : List E}
    (h : CommittedPrefix term members g bound l') (pre : l <+: l') :
    CommittedPrefix term members g bound l := by
  rcases h with rfl | ⟨T, k, le, done, pre'⟩
  · exact .inl (List.prefix_nil.mp pre)
  · exact .inr ⟨T, k, le, done, pre.trans pre'⟩

theorem CommittedPrefix.on_leader [DecidableEq N] {g : Ledger N E} (valid : Valid term members g)
    (durable : Durable term g) {bound T : Nat} {l : List E}
    (h : CommittedPrefix term members g bound l) (le : bound ≤ T) (led : (g.leader T).isSome) :
    l <+: g.log T := by
  rcases h with rfl | ⟨U, k, small, done, pre⟩
  · exact List.nil_prefix
  · rcases Nat.lt_or_eq_of_le (small.trans le) with earlier | rfl
    · exact (pre.trans (durable.completeness valid done T earlier led)).trans (valid.initial T led)
    · exact pre.trans (List.take_prefix k _)

theorem Committed.led {g : Ledger N E} (valid : Valid term members g) {T k : Nat}
    (h : Committed term members g T k) : (g.leader T).isSome := by
  obtain ⟨-, e, found, same⟩ := h.1
  have led := (valid.chained T _ e found).2.1
  rwa [same] at led

theorem CommittedPrefix.comparable [DecidableEq N] {g : Ledger N E} (valid : Valid term members g)
    (durable : Durable term g) {b b' : Nat} {l l' : List E}
    (h : CommittedPrefix term members g b l) (h' : CommittedPrefix term members g b' l') :
    l <+: l' ∨ l' <+: l := by
  rcases h with rfl | ⟨T, k, -, done, pre⟩
  · exact .inl List.nil_prefix
  rcases h' with rfl | ⟨T', k', -, done', pre'⟩
  · exact .inr List.nil_prefix
  have own : CommittedPrefix term members g T l := .inr ⟨T, k, le_rfl, done, pre⟩
  have own' : CommittedPrefix term members g T' l' := .inr ⟨T', k', le_rfl, done', pre'⟩
  rcases Nat.le_total T T' with le | le
  · exact List.prefix_or_prefix_of_prefix (own.on_leader valid durable le (done'.led valid))
      (own'.on_leader valid durable le_rfl (done'.led valid))
  · exact List.prefix_or_prefix_of_prefix (own.on_leader valid durable le_rfl (done.led valid))
      (own'.on_leader valid durable le (done.led valid))

end Ledger

end Gems.Lib

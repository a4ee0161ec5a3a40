import Gems.Raft.Rules

set_option autoImplicit false

namespace Gems.Raft

variable {Cmd : Type}

namespace RaftCore

theorem termAt_succ {log : List (LogEntry Cmd)} {i : Nat} {e : LogEntry Cmd}
    (found : log[i]? = some e) : termAt log (i + 1) = e.term := by
  simp [termAt, found]

theorem termAt_found {log : List (LogEntry Cmd)} {index : Nat} (positive : 0 < index)
    (inside : index ≤ log.length) :
    ∃ e, log[index - 1]? = some e ∧ termAt log index = e.term := by
  have found : log[index - 1]? = some log[index - 1] := List.getElem?_eq_getElem (by omega)
  refine ⟨_, found, ?_⟩
  have := termAt_succ found
  rwa [show index - 1 + 1 = index by omega] at this

theorem termAt_shorter {log log' : List (LogEntry Cmd)} (pre : log <+: log') {index : Nat}
    (inside : index ≤ log.length) : termAt log' index = termAt log index := by
  rcases Nat.eq_zero_or_pos index with rfl | positive
  · rfl
  · obtain ⟨e, found, here⟩ := termAt_found positive inside
    obtain ⟨rest, rfl⟩ := pre
    have found' : (log ++ rest)[index - 1]? = some e := by
      rw [List.getElem?_append_left (by omega), found]
    have := termAt_succ found'
    rw [show index - 1 + 1 = index by omega] at this
    rw [this, here]

end RaftCore

open RaftCore

/-- What an AppendEntries batch claims about the leader's log `L`. -/
structure Segment (L : List (LogEntry Cmd)) (prevLogIndex prevLogTerm : Nat)
    (entries : List (LogEntry Cmd)) : Prop where
  inside : prevLogIndex ≤ L.length
  batch : L.take prevLogIndex ++ entries <+: L
  prev : termAt L prevLogIndex = prevLogTerm

theorem Segment.extend {L L' : List (LogEntry Cmd)} {prevLogIndex prevLogTerm : Nat}
    {entries : List (LogEntry Cmd)} (h : Segment L prevLogIndex prevLogTerm entries)
    (pre : L <+: L') : Segment L' prevLogIndex prevLogTerm entries where
  inside := h.inside.trans pre.length_le
  batch := by
    have same : L'.take prevLogIndex = L.take prevLogIndex := by
      obtain ⟨rest, rfl⟩ := pre
      exact List.take_append_of_le_length h.inside
    rw [same]
    exact h.batch.trans pre
  prev := by rw [termAt_shorter pre h.inside, h.prev]

theorem Segment.whole_suffix (L : List (LogEntry Cmd)) {prevLogIndex : Nat}
    (inside : prevLogIndex ≤ L.length) :
    Segment L prevLogIndex (termAt L prevLogIndex) (L.drop prevLogIndex) where
  inside := inside
  batch := by rw [List.take_append_drop]
  prev := rfl

theorem mergeEntries_exact (log entries : List (LogEntry Cmd)) :
    mergeEntries log (log.length + 1) entries = log ++ entries := by
  induction entries generalizing log with
  | nil => simp [mergeEntries]
  | cons entry rest ih =>
    have past : ¬ log.length + 1 ≤ log.length := by omega
    have longer : log.length + 1 + 1 = (log ++ [entry]).length + 1 := by simp
    simp only [mergeEntries, past, if_false]
    rw [longer, ih]
    simp

-- Two logs for which one index and one term fix the whole prefix.
def Matching (F L : List (LogEntry Cmd)) : Prop :=
  ∀ i e e', F[i]? = some e → L[i]? = some e' → e.term = e'.term → F.take (i + 1) = L.take (i + 1)

theorem mergeEntries_cases {F L : List (LogEntry Cmd)} {p : Nat} {entries : List (LogEntry Cmd)}
    (fits : p ≤ F.length) (agree : F.take p = L.take p) (inside : p ≤ L.length)
    (batch : L.take p ++ entries <+: L) (matching : Matching F L) :
    (mergeEntries F (p + 1) entries = F ∧ L.take (p + entries.length) <+: F) ∨
      (mergeEntries F (p + 1) entries = L.take (p + entries.length) ∧
        ∀ K, K <+: F → K <+: L → K.length ≤ p + entries.length) := by
  induction entries generalizing p with
  | nil =>
    refine .inl ⟨rfl, ?_⟩
    rw [List.length_nil, Nat.add_zero, ← agree]
    exact List.take_prefix p F
  | cons entry rest ih =>
    have here : L[p]? = some entry := by
      obtain ⟨tail, eq⟩ := batch
      rw [← eq, List.append_assoc, List.getElem?_append_right (by simp)]
      simp [inside]
    have inside' : p + 1 ≤ L.length := (List.getElem?_eq_some_iff.mp here).1
    have next : L.take (p + 1) = L.take p ++ [entry] := by
      rw [List.take_add_one, here]
      rfl
    have batch' : L.take (p + 1) ++ rest <+: L := by
      rw [next, List.append_assoc]
      exact batch
    have rewritten : mergeEntries (L.take (p + 1)) (p + 1 + 1) rest =
        L.take (p + (rest.length + 1)) := by
      have size : p + 1 + 1 = (L.take (p + 1)).length + 1 := by
        simp only [List.length_take]
        omega
      rw [size, mergeEntries_exact, List.prefix_iff_eq_take.mp batch']
      congr 1
      simp only [List.length_append, List.length_take]
      omega
    by_cases present : p + 1 ≤ F.length
    · obtain ⟨f, found, term⟩ := termAt_found (by omega) present
      rw [Nat.add_sub_cancel] at found
      by_cases same : termAt F (p + 1) = entry.term
      · have agree' := matching p f entry found here (term.symm.trans same)
        simp only [mergeEntries, present, if_true, ne_eq, same, not_true, if_false, List.length_cons]
        rw [show p + (rest.length + 1) = p + 1 + rest.length by omega]
        exact ih present agree' inside' batch'
      · -- the conflict: everything from here on is replaced
        refine .inr ⟨?_, ?_⟩
        · simp only [mergeEntries, present, if_true, ne_eq, same, not_false_eq_true,
            Nat.add_sub_cancel, agree, ← next, List.length_cons]
          exact rewritten
        · intro K onF onL
          by_contra long
          have reach : p < K.length := by
            simp only [List.length_cons] at long
            omega
          obtain ⟨restF, rfl⟩ := onF
          obtain ⟨restL, rfl⟩ := onL
          rw [List.getElem?_append_left reach] at found here
          exact same (term.trans (congrArg _ (Option.some.inj (found.symm.trans here))))
    · have whole : F = L.take p := by rw [← agree, List.take_of_length_le (by omega)]
      refine .inr ⟨?_, ?_⟩
      · simp only [mergeEntries, present, if_false, List.length_cons]
        rw [whole, ← next]
        exact rewritten
      · intro K onF _
        have := onF.length_le
        simp only [List.length_cons]
        omega

theorem mergeEntries_keeps {F L K : List (LogEntry Cmd)} {p : Nat} {entries : List (LogEntry Cmd)}
    (fits : p ≤ F.length) (agree : F.take p = L.take p) (inside : p ≤ L.length)
    (batch : L.take p ++ entries <+: L) (matching : Matching F L) (onF : K <+: F) (onL : K <+: L) :
    K <+: mergeEntries F (p + 1) entries := by
  rcases mergeEntries_cases fits agree inside batch matching with ⟨eq, -⟩ | ⟨eq, bound⟩
  · rwa [eq]
  · rw [eq]
    refine List.prefix_of_prefix_length_le onL (List.take_prefix _ _) ?_
    have := bound K onF onL
    have := onL.length_le
    simp only [List.length_take]
    omega

theorem agrees_on_batch {F L : List (LogEntry Cmd)} {p : Nat} {entries : List (LogEntry Cmd)}
    (inside : p ≤ L.length) (batch : L.take p ++ entries <+: L)
    (pre : L.take (p + entries.length) <+: F) : agrees F p entries := by
  have whole := List.prefix_iff_eq_take.mp batch
  have size : (L.take p ++ entries).length = p + entries.length := by
    simp only [List.length_append, List.length_take]
    omega
  rw [size] at whole
  rw [← whole] at pre
  obtain ⟨rest, rfl⟩ := pre
  have start : (L.take p).length = p := by
    simp only [List.length_take]
    omega
  have drop : (L.take p ++ entries ++ rest).drop p = entries ++ rest := by
    rw [List.append_assoc, List.drop_append_of_le_length (by omega), List.drop_of_length_le (by omega)]
    rfl
  unfold agrees
  rw [drop, List.take_left]
  exact beq_self_eq_true _

end Gems.Raft

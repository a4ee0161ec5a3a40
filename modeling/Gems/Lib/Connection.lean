import Gems.Lib.Frame

set_option autoImplicit false

namespace Gems.Lib.Connection

variable {E A : Type} (decode : List UInt8 → Except E (Option (A × Nat)))

/-- Items that a connection has delivered, with the bytes that it has left or the error that has ended it. -/
abbrev State (E A : Type) := List A × Except E (List UInt8)

-- The items that the buffer holds. Every turn takes a byte, so one turn more than there are bytes is enough.
def drain : Nat → List UInt8 → State E A
  | 0, buf => ([], .ok buf)
  | turns + 1, buf =>
    match decode buf with
    | .error e => ([], .error e)
    | .ok none => ([], .ok buf)
    | .ok (some (a, consumed)) =>
      let later := drain turns (buf.drop consumed)
      (a :: later.1, later.2)

def drainAll (buf : List UInt8) : State E A := drain decode (buf.length + 1) buf

-- An error ends the connection.
def andThen (s : State E A) (next : List UInt8 → State E A) : State E A :=
  match s with
  | (items, .error e) => (items, .error e)
  | (items, .ok left) => (items ++ (next left).1, (next left).2)

-- The chunks arrive one after the other, behind what the buffer holds.
def feed (buf : List UInt8) : List (List UInt8) → State E A
  | [] => ([], .ok buf)
  | chunk :: chunks => andThen (drainAll decode (buf ++ chunk)) fun left => feed left chunks

/-- What a decoder has decided stands, whatever follows, and it waits on less than `limit` bytes. -/
structure Incremental (limit : Nat) : Prop where
  item : ∀ {buf a n}, decode buf = .ok (some (a, n)) →
    0 < n ∧ n ≤ buf.length ∧ ∀ more, decode (buf ++ more) = .ok (some (a, n))
  error : ∀ {buf e}, decode buf = .error e → ∀ more, decode (buf ++ more) = .error e
  idle : ∀ {buf}, decode buf = .ok none → buf.length < limit

/-- The items stand one after the other in the bytes, before what is left. -/
inductive Holds : List UInt8 → List A → List UInt8 → Prop where
  | nil {left : List UInt8} : Holds left [] left
  | cons {buf left : List UInt8} {a : A} {n : Nat} {items : List A} (read : decode buf = .ok (some (a, n)))
      (rest : Holds (buf.drop n) items left) : Holds buf (a :: items) left

section Rules

variable {decode} {limit turns turns' : Nat} {buf more left : List UInt8} {a : A} {n : Nat} {e : E} {items : List A}
  {chunks : List (List UInt8)}

theorem drainAll_idle (idle : decode buf = .ok none) : drainAll decode buf = ([], .ok buf) := by
  rw [drainAll, drain, idle]

theorem drainAll_error (failed : decode buf = .error e) : drainAll decode buf = ([], .error e) := by
  rw [drainAll, drain, failed]

variable (incremental : Incremental decode limit)
include incremental

theorem drain_turns (enough : buf.length < turns) (enough' : buf.length < turns') :
    drain decode turns buf = drain decode turns' buf := by
  induction turns generalizing buf turns' with
  | zero => exact absurd enough (Nat.not_lt_zero _)
  | succ turns ih =>
    obtain ⟨left, rfl⟩ : ∃ left, turns' = left + 1 := ⟨turns' - 1, by omega⟩
    rw [drain, drain]
    cases read : decode buf with
    | error e => rfl
    | ok found =>
      cases found with
      | none => rfl
      | some result =>
        obtain ⟨taken, within, -⟩ := incremental.item read
        have shorter : (buf.drop result.2).length < buf.length := by
          rw [List.length_drop]
          omega
        dsimp only
        rw [ih (show _ < turns by omega) (show _ < left by omega)]

theorem drainAll_item (read : decode buf = .ok (some (a, n))) :
    drainAll decode buf = (a :: (drainAll decode (buf.drop n)).1, (drainAll decode (buf.drop n)).2) := by
  obtain ⟨taken, within, -⟩ := incremental.item read
  have shorter : (buf.drop n).length < buf.length := by
    rw [List.length_drop]
    omega
  rw [drainAll, drain, read]
  dsimp only
  rw [drain_turns incremental shorter (Nat.lt_succ_self _)]
  rfl

theorem drainAll_append (buf more : List UInt8) : drainAll decode (buf ++ more) =
    andThen (drainAll decode buf) fun left => drainAll decode (left ++ more) := by
  induction size : buf.length using Nat.strongRecOn generalizing buf with
  | ind length ih =>
    cases read : decode buf with
    | error e =>
      rw [drainAll_error read, drainAll_error (incremental.error read more)]
      rfl
    | ok found =>
      cases found with
      | none =>
        rw [drainAll_idle read]
        rfl
      | some result =>
        obtain ⟨a, n⟩ := result
        obtain ⟨taken, within, stands⟩ := incremental.item read
        have shorter : (buf.drop n).length < length := by
          rw [List.length_drop]
          omega
        have rest := ih _ shorter (buf.drop n) rfl
        rw [drainAll_item incremental read, drainAll_item incremental (stands more),
          List.drop_append_of_le_length within, rest]
        rcases drainAll decode (buf.drop n) with ⟨items, e | left⟩
        · rfl
        · rfl

theorem drainAll_left (drained : drainAll decode buf = (items, .ok left)) : decode left = .ok none := by
  induction size : buf.length using Nat.strongRecOn generalizing buf items with
  | ind length ih =>
    cases read : decode buf with
    | error e =>
      rw [drainAll_error read] at drained
      cases drained
    | ok found =>
      cases found with
      | none =>
        rw [drainAll_idle read] at drained
        cases drained
        exact read
      | some result =>
        obtain ⟨a, n⟩ := result
        obtain ⟨taken, within, -⟩ := incremental.item read
        have shorter : (buf.drop n).length < length := by
          rw [List.length_drop]
          omega
        rw [drainAll_item incremental read] at drained
        obtain ⟨-, rest⟩ := Prod.mk.inj drained
        exact ih _ shorter (Prod.ext rfl rest) rfl

theorem feed_flatten (idle : decode buf = .ok none) :
    feed decode buf chunks = drainAll decode (buf ++ chunks.flatten) := by
  induction chunks generalizing buf with
  | nil => rw [feed, List.flatten_nil, List.append_nil, drainAll_idle idle]
  | cons chunk chunks ih =>
    rw [feed, List.flatten_cons, ← List.append_assoc, drainAll_append incremental (buf ++ chunk)]
    rcases drained : drainAll decode (buf ++ chunk) with ⟨items, e | left⟩
    · rfl
    · rw [andThen, andThen, ih (drainAll_left incremental drained)]

theorem drainAll_holds (buf : List UInt8) : ∃ left, Holds decode buf (drainAll decode buf).1 left := by
  induction size : buf.length using Nat.strongRecOn generalizing buf with
  | ind size ih =>
    cases read : decode buf with
    | error e =>
      rw [drainAll_error read]
      exact ⟨buf, .nil⟩
    | ok found =>
      cases found with
      | none =>
        rw [drainAll_idle read]
        exact ⟨buf, .nil⟩
      | some result =>
        obtain ⟨a, n⟩ := result
        obtain ⟨taken, within, -⟩ := incremental.item read
        obtain ⟨left, rest⟩ := ih _ (by rw [List.length_drop]; omega) (buf.drop n) rfl
        rw [drainAll_item incremental read]
        exact ⟨left, .cons read rest⟩

theorem feed_bounded (idle : decode buf = .ok none) (fed : feed decode buf chunks = (items, .ok left)) :
    left.length < limit := by
  rw [feed_flatten incremental idle] at fed
  exact incremental.idle (drainAll_left incremental fed)

omit incremental in
-- An item stands somewhere in the bytes.
theorem Holds.part (holds : Holds decode buf items left) (mem : a ∈ items) :
    ∃ before rest n, buf = before ++ rest ∧ decode rest = .ok (some (a, n)) := by
  induction holds with
  | nil => exact absurd mem List.not_mem_nil
  | @cons buf left a' n items read _ ih =>
    rcases List.mem_cons.mp mem with rfl | later
    · exact ⟨[], buf, n, rfl, read⟩
    · obtain ⟨before, rest, m, same, found⟩ := ih later
      exact ⟨buf.take n ++ before, rest, m, by rw [List.append_assoc, ← same, List.take_append_drop], found⟩

/-- Items that are written one after the other are delivered so, however they arrive. -/
theorem feed_written {encode : A → List UInt8} {stored : A → A} {as : List A} (idle : decode [] = .ok none)
    (streams : ∀ a ∈ as, Streams decode (encode a) (stored a)) (sent : chunks.flatten = as.flatMap encode) :
    feed decode [] chunks = (as.map stored, .ok []) := by
  rw [feed_flatten incremental idle, sent, List.nil_append]
  clear sent
  induction as with
  | nil => exact drainAll_idle idle
  | cons a as ih =>
    rw [List.flatMap_cons, drainAll_item incremental ((streams a List.mem_cons_self).whole _), List.drop_left,
      ih fun b mem => streams b (List.mem_cons_of_mem a mem)]
    rfl

end Rules

section Frames

def decodeFrame (check : Nat → Except E Unit) (tail : Nat) (read : Nat → List UInt8 → List UInt8 → Except E A)
    (buf : List UInt8) : Except E (Option (A × Nat)) := do
  if buf.length < 4 then return none
  let length := ofLittleEndian (buf.take 4)
  check length
  if buf.length < 4 + length + tail then return none
  let a ← read length ((buf.drop 4).take length) ((buf.drop (4 + length)).take tail)
  return some (a, 4 + length + tail)

variable {check : Nat → Except E Unit} {tail most : Nat} {read : Nat → List UInt8 → List UInt8 → Except E A}
  {buf : List UInt8} {a : A} {n : Nat}

theorem decodeFrame_some (found : decodeFrame check tail read buf = .ok (some (a, n))) :
    ∃ body sealing rest, buf = framed body ++ (sealing ++ rest) ∧ check body.length = .ok () ∧ sealing.length = tail ∧
      n = 4 + body.length + tail ∧ read body.length body sealing = .ok a := by
  unfold decodeFrame at found
  split at found
  next => cases found
  next header =>
    simp only [bind, Except.bind] at found
    cases checked : check (ofLittleEndian (buf.take 4)) with
    | error e =>
      rw [checked] at found
      cases found
    | ok done =>
      rw [checked] at found
      dsimp only at found
      split at found
      next => cases found
      next whole =>
        have size : ((buf.drop 4).take (ofLittleEndian (buf.take 4))).length = ofLittleEndian (buf.take 4) := by
          rw [List.length_take, List.length_drop]
          omega
        have prefixed : littleEndian 4 (ofLittleEndian (buf.take 4)) = buf.take 4 := by
          have four : (buf.take 4).length = 4 := by
            rw [List.length_take]
            omega
          have same := littleEndian_ofLittleEndian (buf.take 4)
          rwa [four] at same
        refine ⟨(buf.drop 4).take (ofLittleEndian (buf.take 4)),
          (buf.drop (4 + ofLittleEndian (buf.take 4))).take tail,
          (buf.drop (4 + ofLittleEndian (buf.take 4))).drop tail, ?_, ?_, ?_, ?_⟩
        · rw [framed, size, prefixed, List.append_assoc, List.take_append_drop, ← List.drop_drop,
            List.take_append_drop, List.take_append_drop]
        · rw [size]
          exact checked
        · rw [List.length_take, List.length_drop]
          omega
        · rw [size]
          split at found
          next => cases found
          next a' given =>
            obtain ⟨rfl, rfl⟩ := Prod.mk.inj (Option.some.inj (Except.ok.inj found))
            exact ⟨rfl, given⟩

theorem decodeFrame_append (decided : decodeFrame check tail read buf ≠ .ok none) (more : List UInt8) :
    decodeFrame check tail read (buf ++ more) = decodeFrame check tail read buf := by
  unfold decodeFrame at decided ⊢
  split at decided
  next => exact absurd rfl decided
  next header =>
    have long : ¬ (buf ++ more).length < 4 := by
      rw [List.length_append]
      omega
    rw [if_neg long, if_neg header, List.take_append_of_le_length (Nat.not_lt.mp header)]
    simp only [bind, Except.bind] at decided ⊢
    cases checked : check (ofLittleEndian (buf.take 4)) with
    | error e => rfl
    | ok done =>
      rw [checked] at decided
      dsimp only at decided ⊢
      split at decided
      next => exact absurd rfl decided
      next whole =>
        have long : ¬ (buf ++ more).length < 4 + ofLittleEndian (buf.take 4) + tail := by
          rw [List.length_append]
          omega
        have body : ((buf ++ more).drop 4).take (ofLittleEndian (buf.take 4)) =
            (buf.drop 4).take (ofLittleEndian (buf.take 4)) := by
          rw [List.drop_append_of_le_length (by omega), List.take_append_of_le_length (by rw [List.length_drop]; omega)]
        have sealing : ((buf ++ more).drop (4 + ofLittleEndian (buf.take 4))).take tail =
            (buf.drop (4 + ofLittleEndian (buf.take 4))).take tail := by
          rw [List.drop_append_of_le_length (by omega), List.take_append_of_le_length (by rw [List.length_drop]; omega)]
        rw [if_neg long, if_neg whole, body, sealing]

theorem decodeFrame_incremental (bounded : ∀ length, check length = .ok () → length ≤ most) :
    Incremental (decodeFrame check tail read) (4 + most + tail) where
  item := by
    intro buf a n found
    have decided : decodeFrame check tail read buf ≠ .ok none := fun waits => by cases found.symm.trans waits
    refine ⟨?_, ?_, fun more => (decodeFrame_append decided more).trans found⟩
    · obtain ⟨body, -, -, -, -, -, rfl, -⟩ := decodeFrame_some found
      omega
    · obtain ⟨body, sealing, rest, rfl, -, size, rfl, -⟩ := decodeFrame_some found
      rw [List.length_append, length_framed, List.length_append, size]
      omega
  error := by
    intro buf e failed more
    have decided : decodeFrame check tail read buf ≠ .ok none := fun waits => by cases failed.symm.trans waits
    exact (decodeFrame_append decided more).trans failed
  idle := by
    intro buf waits
    unfold decodeFrame at waits
    split at waits
    next short => omega
    next =>
      simp only [bind, Except.bind] at waits
      cases checked : check (ofLittleEndian (buf.take 4)) with
      | error e =>
        rw [checked] at waits
        cases waits
      | ok done =>
        have small := bounded _ checked
        rw [checked] at waits
        dsimp only at waits
        split at waits
        next short => omega
        next =>
          split at waits
          next => cases waits
          next => cases waits

end Frames

end Gems.Lib.Connection

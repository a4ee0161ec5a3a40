import Mathlib.Data.List.Nodup
import Mathlib.Data.List.Basic
import Mathlib.Order.Nat
import Mathlib.Algebra.Ring.Nat

set_option autoImplicit false

namespace Gems.Lib

/-- Items that wait to go out, each with so many more messages. -/
abbrev Outbox (A : Type) := List (A × Nat)

namespace Outbox

inductive Call (A : Type) where
  | post (a : A)
  | send
  deriving DecidableEq

section Calls

variable {A K : Type} [DecidableEq K] (key : A → K) (sends cap : Nat)

-- The item takes the place of the one with its key.
def post (queue : Outbox A) (a : A) : Outbox A := (queue.filter fun e => key e.1 ≠ key a) ++ [(a, sends)]

def message (queue : Outbox A) : List A := (queue.take cap).map Prod.fst

def send (queue : Outbox A) : Outbox A :=
  (((queue.take cap).map fun e => (e.1, e.2 - 1)).filter fun e => 0 < e.2) ++ queue.drop cap

def run : Outbox A → List (Call A) → Outbox A × List (List A)
  | queue, [] => (queue, [])
  | queue, .post a :: rest => run (post key sends queue a) rest
  | queue, .send :: rest => ((run (send cap queue) rest).1, message cap queue :: (run (send cap queue) rest).2)

end Calls

section Soundness

variable {A K : Type} {key : A → K} {sends cap : Nat} {queue : Outbox A} {a : A}

variable (key sends) in
/-- One item for a key, and none that has gone out often enough. -/
structure Sound (queue : Outbox A) : Prop where
  distinct : (queue.map fun e => key e.1).Nodup
  budget : ∀ e ∈ queue, 0 < e.2 ∧ e.2 ≤ sends

variable (key sends) in
theorem Sound.nil : Sound key sends ([] : Outbox A) := ⟨List.nodup_nil, by simp⟩

theorem Sound.tail {e : A × Nat} (sound : Sound key sends (e :: queue)) : Sound key sends queue where
  distinct := (List.nodup_cons.mp sound.distinct).2
  budget := fun e' mem => sound.budget e' (List.mem_cons_of_mem _ mem)

theorem Sound.only {e : A × Nat} {n : Nat} (sound : Sound key sends (e :: queue)) : (e.1, n) ∉ queue := by
  intro mem
  exact (List.nodup_cons.mp sound.distinct).1 (List.mem_map.mpr ⟨_, mem, rfl⟩)

theorem message_length : (message cap queue).length ≤ cap := by
  rw [message, List.length_map, List.length_take]
  exact Nat.min_le_left _ _

theorem Sound.message (sound : Sound key sends queue) : ((Outbox.message cap queue).map key).Nodup := by
  rw [Outbox.message, List.map_map]
  exact List.Nodup.sublist ((List.take_sublist cap queue).map _) sound.distinct

theorem send_cons (e : A × Nat) :
    send (cap + 1) (e :: queue) = (if 0 < e.2 - 1 then [(e.1, e.2 - 1)] else []) ++ send cap queue := by
  by_cases more : 0 < e.2 - 1 <;> simp [send, more]

theorem mem_send {e : A × Nat} (mem : e ∈ send cap queue) :
    0 < e.2 ∧ (∃ n, e.2 ≤ n ∧ (e.1, n) ∈ queue) ∨ e ∈ queue := by
  rcases List.mem_append.mp mem with counted | kept
  next =>
    obtain ⟨mem, positive⟩ := List.mem_filter.mp counted
    obtain ⟨e', taken, rfl⟩ := List.mem_map.mp mem
    exact .inl ⟨of_decide_eq_true positive, e'.2, Nat.sub_le _ _, List.mem_of_mem_take taken⟩
  next => exact .inr (List.mem_of_mem_drop kept)

theorem Sound.send (sound : Sound key sends queue) (cap : Nat) : Sound key sends (Outbox.send cap queue) where
  distinct := by
    have kept : ((queue.take cap).map fun e => (e.1, e.2 - 1)).map (fun e => key e.1) ++
        (queue.drop cap).map (fun e => key e.1) = queue.map fun e => key e.1 := by
      rw [List.map_map]
      change (queue.take cap).map (fun e => key e.1) ++ (queue.drop cap).map (fun e => key e.1) = _
      rw [← List.map_append, List.take_append_drop]
    have distinct := sound.distinct
    rw [← kept] at distinct
    rw [Outbox.send, List.map_append]
    exact List.Nodup.sublist ((List.filter_sublist.map _).append (List.Sublist.refl _)) distinct
  budget := by
    intro e mem
    rcases mem_send mem with ⟨positive, n, less, before⟩ | kept
    next => exact ⟨positive, Nat.le_trans less (sound.budget _ before).2⟩
    next => exact sound.budget e kept

variable [DecidableEq K]

theorem Sound.post (sound : Sound key sends queue) (positive : 0 < sends) (a : A) :
    Sound key sends (Outbox.post key sends queue a) where
  distinct := by
    rw [Outbox.post, List.map_append]
    apply List.Nodup.append (List.Nodup.sublist (List.filter_sublist.map _) sound.distinct) (List.nodup_singleton _)
    intro k kept new
    obtain ⟨e, mem, rfl⟩ := List.mem_map.mp kept
    have other := of_decide_eq_true (List.mem_filter.mp mem).2
    exact other (List.mem_singleton.mp new)
  budget := by
    intro e mem
    rcases List.mem_append.mp mem with kept | new
    next => exact sound.budget e (List.mem_of_mem_filter kept)
    next =>
      rw [List.mem_singleton.mp new]
      exact ⟨positive, Nat.le_refl sends⟩

theorem run_append (calls calls' : List (Call A)) : run key sends cap queue (calls ++ calls') =
    ((run key sends cap (run key sends cap queue calls).1 calls').1,
      (run key sends cap queue calls).2 ++ (run key sends cap (run key sends cap queue calls).1 calls').2) := by
  induction calls generalizing queue with
  | nil => rfl
  | cons call rest ih =>
    cases call with
    | post a => exact ih
    | send =>
      rw [List.cons_append, run, ih]
      rfl

theorem Sound.run (sound : Sound key sends queue) (positive : 0 < sends) (cap : Nat) (calls : List (Call A)) :
    Sound key sends (run key sends cap queue calls).1 ∧
      ∀ sent ∈ (run key sends cap queue calls).2, sent.length ≤ cap ∧ (sent.map key).Nodup := by
  induction calls generalizing queue with
  | nil => exact ⟨sound, by simp [Outbox.run]⟩
  | cons call rest ih =>
    cases call with
    | post a => exact ih (sound.post positive _)
    | send =>
      obtain ⟨later, messages⟩ := ih (sound.send cap)
      exact ⟨later, List.forall_mem_cons.mpr ⟨⟨message_length, sound.message⟩, messages⟩⟩

end Soundness

section Accounting

variable {A K : Type} [DecidableEq A] {key : A → K} {sends cap : Nat} {queue : Outbox A} {a b : A}

def left (queue : Outbox A) (a : A) : Nat := ((queue.filter fun e => e.1 = a).map Prod.snd).sum

def sent (messages : List (List A)) (a : A) : Nat := messages.countP fun message => a ∈ message

theorem left_append (queue queue' : Outbox A) : left (queue ++ queue') a = left queue a + left queue' a := by
  simp [left]

theorem left_cons (e : A × Nat) : left (e :: queue) a = (if e.1 = a then e.2 else 0) + left queue a := by
  by_cases same : e.1 = a <;> simp [left, same]

theorem left_zero (absent : ∀ n, (a, n) ∉ queue) : left queue a = 0 := by
  induction queue with
  | nil => rfl
  | cons e queue ih =>
    have other : e.1 ≠ a := by
      rintro rfl
      exact absent e.2 List.mem_cons_self
    rw [left_cons, if_neg other, Nat.zero_add]
    exact ih fun n mem => absent n (List.mem_cons_of_mem _ mem)

-- A message takes one from what is left of each of its items.
theorem Sound.left_send (sound : Sound key sends queue) (cap : Nat) (a : A) :
    left (Outbox.send cap queue) a + sent [Outbox.message cap queue] a = left queue a := by
  have counted (items : List A) : sent [items] a = if a ∈ items then 1 else 0 := by
    by_cases inside : a ∈ items <;> simp [sent, inside]
  rw [counted]
  induction queue generalizing cap with
  | nil => simp [Outbox.send, Outbox.message, left]
  | cons e queue ih =>
    cases cap with
    | zero => simp [Outbox.send, Outbox.message]
    | succ cap =>
      have rest := ih sound.tail cap
      have first : left (if 0 < e.2 - 1 then [(e.1, e.2 - 1)] else []) a = if e.1 = a then e.2 - 1 else 0 := by
        by_cases same : e.1 = a <;> by_cases more : 0 < e.2 - 1 <;> simp [left, same, more]
        omega
      have shape : Outbox.message (cap + 1) (e :: queue) = e.1 :: Outbox.message cap queue := rfl
      rw [send_cons, left_append, first, left_cons, shape]
      by_cases same : e.1 = a
      next =>
        have positive := (sound.budget e List.mem_cons_self).1
        have none : left queue a = 0 := left_zero fun n => same ▸ sound.only
        rw [none] at rest ⊢
        rw [if_pos same, if_pos same, if_pos (same ▸ List.mem_cons_self)]
        omega
      next =>
        have elsewhere : a ∈ e.1 :: Outbox.message cap queue ↔ a ∈ Outbox.message cap queue := by simp [Ne.symm same]
        simp only [if_neg same, elsewhere]
        omega

variable [DecidableEq K]

theorem left_post (other : key b ≠ key a) : left (post key sends queue b) a = left queue a := by
  have apart : b ≠ a := fun same => other (congrArg key same)
  have kept : (queue.filter fun e => key e.1 ≠ key b).filter (fun e => e.1 = a) = queue.filter fun e => e.1 = a := by
    rw [List.filter_filter]
    apply List.filter_congr
    intro e mem
    by_cases same : e.1 = a <;> simp [same, other.symm]
  rw [post, left_append, left_cons, if_neg apart, left, kept]
  rfl

theorem left_post_replaced (same : key b = key a) (other : b ≠ a) : left (post key sends queue b) a = 0 := by
  have gone : left (queue.filter fun e => key e.1 ≠ key b) a = 0 := by
    apply left_zero
    intro n mem
    exact of_decide_eq_true (List.mem_filter.mp mem).2 same.symm
  rw [post, left_append, gone, left_cons, if_neg other]
  rfl

theorem left_post_le (other : b ≠ a) : left (post key sends queue b) a ≤ left queue a := by
  by_cases same : key b = key a
  next =>
    rw [left_post_replaced same other]
    exact Nat.zero_le _
  next => exact (left_post same).le

theorem sent_append (messages messages' : List (List A)) :
    sent (messages ++ messages') a = sent messages a + sent messages' a :=
  List.countP_append

theorem sent_cons (items : List A) (messages : List (List A)) :
    sent (items :: messages) a = sent [items] a + sent messages a := sent_append [items] messages

theorem Sound.kept (sound : Sound key sends queue) (positive : 0 < sends) (cap : Nat) {calls : List (Call A)}
    (alone : ∀ b, .post b ∈ calls → key b ≠ key a) :
    left (Outbox.run key sends cap queue calls).1 a +
      sent (Outbox.run key sends cap queue calls).2 a = left queue a := by
  induction calls generalizing queue with
  | nil => rfl
  | cons call rest ih =>
    have alone' := fun b mem => alone b (List.mem_cons_of_mem _ mem)
    cases call with
    | post b =>
      have whole := ih (sound.post positive b) alone'
      rw [left_post (alone b List.mem_cons_self)] at whole
      exact whole
    | send =>
      have whole := ih (sound.send cap) alone'
      have first := sound.left_send cap a
      rw [Outbox.run, sent_cons]
      dsimp only
      omega

theorem Sound.fades (sound : Sound key sends queue) (positive : 0 < sends) (cap : Nat) {calls : List (Call A)}
    (once : .post a ∉ calls) :
    left (Outbox.run key sends cap queue calls).1 a +
      sent (Outbox.run key sends cap queue calls).2 a ≤ left queue a := by
  induction calls generalizing queue with
  | nil => exact Nat.le_refl _
  | cons call rest ih =>
    have once' := fun mem => once (List.mem_cons_of_mem _ mem)
    cases call with
    | post b =>
      have other : b ≠ a := by
        rintro rfl
        exact once List.mem_cons_self
      exact (ih (sound.post positive _) once').trans (left_post_le other)
    | send =>
      have whole := ih (sound.send cap) once'
      have first := sound.left_send cap a
      rw [Outbox.run, sent_cons]
      dsimp only
      omega

theorem Sound.replaced (sound : Sound key sends queue) (positive : 0 < sends) (cap : Nat) {calls : List (Call A)}
    (once : .post a ∉ calls) (same : key b = key a) (posted : .post b ∈ calls) :
    left (Outbox.run key sends cap queue calls).1 a = 0 := by
  obtain ⟨front, back, rfl⟩ := List.append_of_mem posted
  have other : b ≠ a := by
    rintro rfl
    exact once posted
  have after := ((sound.run positive cap front).1.post positive b).fades positive cap
    fun mem => once (List.mem_append_right front (List.mem_cons_of_mem _ mem))
  rw [left_post_replaced same other] at after
  rw [run_append, Outbox.run]
  dsimp only
  omega

section Ranks

variable {R : Type} [Preorder R] {rank : A → R}

variable (key rank) in
def Rising (calls : List (Call A)) : Prop :=
  calls.Pairwise fun c d => ∀ a b, c = .post a → d = .post b → key a = key b → rank a < rank b

end Ranks

end Accounting

end Outbox

end Gems.Lib

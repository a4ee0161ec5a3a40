import Gems.Lib.Lists

set_option autoImplicit false

namespace Gems.Lib

variable {A K V : Type} {act : A → (K → V) → K → V}

/-- Each action either decides what is under a key or leaves it as it is. -/
def Overwrites (act : A → (K → V) → K → V) : Prop :=
  ∀ a k, (∃ v, ∀ m, act a m k = v) ∨ ∀ m, act a m k = m k

-- A list of actions decides a key, or none of its prefixes touches it.
theorem Overwrites.foldl_cases (overwrites : Overwrites act) (l : List A) (k : K) :
    (∃ v, ∀ m, l.foldl (fun m a => act a m) m k = v) ∨
      ∀ front, front <+: l → ∀ m, front.foldl (fun m a => act a m) m k = m k := by
  induction l with
  | nil =>
    refine .inr fun front part m => ?_
    rw [List.prefix_nil.mp part]
    rfl
  | cons a rest ih =>
    rcases ih with ⟨v, decided⟩ | left
    · exact .inl ⟨v, fun m => decided _⟩
    · rcases overwrites a k with ⟨v, decided⟩ | kept
      · exact .inl ⟨v, fun m => (left rest List.prefix_rfl _).trans (decided m)⟩
      · refine .inr fun front part m => ?_
        rcases List.prefix_cons_iff.mp part with rfl | ⟨front', rfl, inner⟩
        · rfl
        · exact (left front' inner _).trans (kept m)

/-- A replay from the beginning makes what a prefix of it has done irrelevant. -/
theorem Overwrites.replay (overwrites : Overwrites act) {front l : List A} (part : front <+: l) (m : K → V) :
    l.foldl (fun m a => act a m) (front.foldl (fun m a => act a m) m) = l.foldl (fun m a => act a m) m := by
  funext k
  rcases overwrites.foldl_cases l k with ⟨v, decided⟩ | left
  · rw [decided, decided]
  · rw [left l List.prefix_rfl, left l List.prefix_rfl, left front part]

theorem Overwrites.foldl_key (overwrites : Overwrites act) (l : List A) {m m' : K → V} {k : K} (same : m k = m' k) :
    l.foldl (fun m a => act a m) m k = l.foldl (fun m a => act a m) m' k := by
  rcases overwrites.foldl_cases l k with ⟨v, decided⟩ | left
  · rw [decided, decided]
  · rw [left l List.prefix_rfl, left l List.prefix_rfl, same]

theorem Overwrites.foldl_filter (overwrites : Overwrites act) (keep : A → Bool) {l : List A} {k : K}
    (elsewhere : ∀ a ∈ l, keep a = false → ∀ m, act a m k = m k) (m : K → V) :
    l.foldl (fun m a => act a m) m k = (l.filter keep).foldl (fun m a => act a m) m k := by
  induction l generalizing m with
  | nil => rfl
  | cons a rest ih =>
    have later (b : A) (mem : b ∈ rest) := elsewhere b (List.mem_cons_of_mem a mem)
    rw [List.foldl_cons]
    cases kept : keep a with
    | false =>
      rw [List.filter_cons_of_neg (by simp [kept]), ih later]
      exact overwrites.foldl_key _ (elsewhere a List.mem_cons_self kept m)
    | true =>
      rw [List.filter_cons_of_pos kept, List.foldl_cons]
      exact ih later _

/-- From `at_` on, the actions of the log take `m` to what those up to `far` make of `m₀`. -/
structure CatchesUp (act : A → (K → V) → K → V) (log : List A) (at_ far : Nat) (m₀ m : K → V) : Prop where
  behind : at_ ≤ far
  within : far ≤ log.length
  ahead : ((log.take far).drop at_).foldl (fun m a => act a m) m = (log.take far).foldl (fun m a => act a m) m₀

namespace CatchesUp

variable {log : List A} {at_ far : Nat} {m₀ m : K → V}

theorem start (act : A → (K → V) → K → V) (log : List A) (m₀ : K → V) : CatchesUp act log 0 0 m₀ m₀ where
  behind := Nat.le_refl 0
  within := Nat.zero_le _
  ahead := rfl

theorem grow (caught : CatchesUp act log at_ far m₀ m) (more : List A) :
    CatchesUp act (log ++ more) at_ far m₀ m where
  behind := caught.behind
  within := by
    rw [List.length_append]
    exact Nat.le_add_right_of_le caught.within
  ahead := by
    rw [List.take_append_of_le_length caught.within]
    exact caught.ahead

theorem next (caught : CatchesUp act log at_ far m₀ m) {a : A} (here : log[at_]? = some a) :
    CatchesUp act log (at_ + 1) (max far (at_ + 1)) m₀ (act a m) := by
  obtain ⟨inside, rfl⟩ := List.getElem?_eq_some_iff.mp here
  have ahead := caught.ahead
  by_cases before : at_ < far
  next =>
    have head : (log.take far).drop at_ = log[at_] :: (log.take far).drop (at_ + 1) := by
      rw [List.drop_eq_getElem_cons (by rw [List.length_take]; omega), List.getElem_take]
    rw [head, List.foldl_cons] at ahead
    rw [Nat.max_eq_left before]
    exact ⟨before, caught.within, ahead⟩
  next =>
    obtain rfl : at_ = far := Nat.le_antisymm caught.behind (Nat.le_of_not_lt before)
    rw [List.drop_eq_nil_of_le (by rw [List.length_take]; omega), List.foldl_nil] at ahead
    rw [Nat.max_eq_right (Nat.le_succ at_)]
    refine ⟨Nat.le_refl _, inside, ?_⟩
    rw [List.drop_eq_nil_of_le (by rw [List.length_take]; omega), List.foldl_nil, ahead,
      List.take_succ_eq_append_getElem inside, List.foldl_append]
    rfl

theorem back (caught : CatchesUp act log at_ far m₀ m) (overwrites : Overwrites act) {start : Nat}
    (le : start ≤ at_) : CatchesUp act log start far m₀ m := by
  refine ⟨Nat.le_trans le caught.behind, caught.within, ?_⟩
  have ahead := caught.ahead
  have parts := drop_take_split log le caught.behind
  have whole : log.take far = log.take start ++ ((log.take at_).drop start ++ (log.take far).drop at_) := by
    rw [← parts]
    exact drop_take_split log (Nat.zero_le start) (Nat.le_trans le caught.behind)
  rw [parts]
  generalize (log.take at_).drop start = again at whole
  generalize (log.take far).drop at_ = later at whole ahead
  simp only [whole, List.foldl_append] at ahead ⊢
  funext k
  have agrees := congrFun ahead k
  rcases overwrites.foldl_cases later k with ⟨v, decided⟩ | left
  next => rw [decided, decided]
  next =>
    rw [left later List.prefix_rfl, left later List.prefix_rfl] at agrees ⊢
    rcases overwrites.foldl_cases again k with ⟨v, decided⟩ | left'
    next => rw [decided, decided]
    next =>
      rw [left' again List.prefix_rfl]
      exact agrees

theorem done (caught : CatchesUp act log log.length far m₀ m) : m = log.foldl (fun m a => act a m) m₀ := by
  obtain rfl : log.length = far := Nat.le_antisymm caught.behind caught.within
  have ahead := caught.ahead
  rwa [List.take_length, List.drop_length, List.foldl_nil] at ahead

end CatchesUp

end Gems.Lib

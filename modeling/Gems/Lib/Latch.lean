import Mathlib.Data.List.Perm.Basic
import Mathlib.Order.MinMax
import Mathlib.Order.WithBot
import Mathlib.Data.List.Basic

set_option autoImplicit false

namespace Gems.Lib

/-! A register that keeps the greatest value offered to it, and takes nothing after a final value. -/

variable {F : Type} [LinearOrder F]

def Ends (final : F → Prop) (c : WithBot F) : Prop := ∃ a : F, c = a ∧ final a

open Classical in
noncomputable def offer (final : F → Prop) (c : WithBot F) (a : F) : WithBot F :=
  if Ends final c then c else max c a

def raise (c : WithBot F) (a : F) : WithBot F := max c a

noncomputable def offerAll (final : F → Prop) (c : WithBot F) (values : List F) : WithBot F :=
  values.foldl (offer final) c

/-- When the order of the offers cannot decide whether the register ends in a final value. -/
def Settled (final : F → Prop) (c : WithBot F) (values : List F) : Prop :=
  Ends final c ∨ (∀ d ∈ values, final d → (d : WithBot F) ≤ c) ∨
    ∃ d ∈ values, final d ∧ ∀ a ∈ values, a ≤ d

variable {final : F → Prop} {c : WithBot F} {values order : List F}

theorem offerAll_ended (ended : Ends final c) : offerAll final c values = c := by
  induction values with
  | nil => rfl
  | cons a rest ih =>
    have same : offer final c a = c := if_pos ended
    rw [offerAll, List.foldl_cons, same]
    exact ih

theorem offer_open (opened : ¬ Ends final c) (a : F) : offer final c a = raise c a := if_neg opened

theorem offerAll_open (opened : ¬ Ends final c)
    (low : ∀ d ∈ values, final d → (d : WithBot F) ≤ c) :
    offerAll final c values = values.foldl raise c := by
  induction values generalizing c with
  | nil => rfl
  | cons a rest ih =>
    have still : ¬ Ends final (raise c a) := by
      rintro ⟨b, same, ends⟩
      rw [raise] at same
      rcases max_choice c (a : WithBot F) with keeps | moves
      · exact opened ⟨b, keeps.symm.trans same, ends⟩
      · have eq : a = b := WithBot.coe_inj.mp (moves.symm.trans same)
        have below := low a List.mem_cons_self (eq ▸ ends)
        exact opened ⟨b, by rw [← same, max_eq_left below], ends⟩
    rw [offerAll, List.foldl_cons, offer_open opened]
    exact ih still fun d mem ends =>
      (low d (List.mem_cons_of_mem _ mem) ends).trans (le_max_left _ _)

-- A final value that is the greatest of all ends every order.
theorem offerAll_ends {d : F} (mem : d ∈ values) (ends : final d) (greatest : ∀ a ∈ values, a ≤ d)
    (above : c ≤ (d : WithBot F)) : Ends final (offerAll final c values) := by
  induction values generalizing c with
  | nil => cases mem
  | cons a rest ih =>
    rw [offerAll, List.foldl_cons]
    by_cases ended : Ends final (offer final c a)
    · have same : offerAll _ _ rest = _ := offerAll_ended ended
      rw [offerAll] at same
      rwa [same]
    have opened : ¬ Ends final c := by
      intro before
      apply ended
      rwa [offer, if_pos before]
    rw [offer_open opened] at ended ⊢
    rcases List.mem_cons.mp mem with rfl | later
    · exact absurd ⟨d, max_eq_right above, ends⟩ ended
    · apply ih later fun b inside => greatest b (List.mem_cons_of_mem _ inside)
      exact max_le above (WithBot.coe_le_coe.mpr (greatest a List.mem_cons_self))

theorem foldl_max_perm (perm : order.Perm values) (c : WithBot F) :
    order.foldl raise c =
      values.foldl raise c :=
  perm.foldl_eq' (fun x _ y _ z => max_right_comm z (x : WithBot F) y) c

theorem exists_greatest (some_ : values ≠ []) : ∃ g ∈ values, ∀ a ∈ values, a ≤ g := by
  induction values with
  | nil => exact absurd rfl some_
  | cons a rest ih =>
    by_cases last : rest = []
    · exact ⟨a, List.mem_cons_self, by simp [last]⟩
    obtain ⟨g, mem, greatest⟩ := ih last
    rcases le_total a g with below | above
    · exact ⟨g, List.mem_cons_of_mem _ mem, List.forall_mem_cons.mpr ⟨below, greatest⟩⟩
    · exact ⟨a, List.mem_cons_self, List.forall_mem_cons.mpr ⟨le_rfl, fun b inside =>
        (greatest b inside).trans above⟩⟩

/-- Of a settled register every order of the offers says the same: the value, or that it is final. -/
theorem Settled.agree (settled : Settled final c values) (perm : order.Perm values) :
    offerAll final c order = offerAll final c values ∨
      Ends final (offerAll final c order) ∧ Ends final (offerAll final c values) := by
  by_cases ended : Ends final c
  · exact .inl (by rw [offerAll_ended ended, offerAll_ended ended])
  rcases settled with already | low | ⟨d, mem, ends, greatest⟩
  · exact absurd already ended
  · left
    rw [offerAll_open ended low, offerAll_open ended fun d mem => low d (perm.mem_iff.mp mem)]
    exact foldl_max_perm perm c
  rcases le_total c (d : WithBot F) with above | below
  · right
    exact ⟨offerAll_ends (perm.mem_iff.mpr mem) ends
      (fun a inside => greatest a (perm.mem_iff.mp inside)) above,
      offerAll_ends mem ends greatest above⟩
  · left
    have low : ∀ a ∈ values, final a → (a : WithBot F) ≤ c := fun a inside _ =>
      (WithBot.coe_le_coe.mpr (greatest a inside)).trans below
    rw [offerAll_open ended low, offerAll_open ended fun a inside => low a (perm.mem_iff.mp inside)]
    exact foldl_max_perm perm c

theorem offerAll_cons (a : F) : offerAll final c (a :: values) = offerAll final (offer final c a) values :=
  rfl

theorem exists_disagree (open_ : ¬ Settled final c values) :
    ∃ order order', order.Perm values ∧ order'.Perm values ∧
      Ends final (offerAll final c order) ∧ ¬ Ends final (offerAll final c order') := by
  simp only [Settled, not_or, not_forall, not_exists, not_and, not_le] at open_
  obtain ⟨opened, ⟨d, mem, ends, above⟩, noGreatest⟩ := open_
  obtain ⟨g, memG, greatest⟩ := exists_greatest (List.ne_nil_of_mem mem)
  have opens : ¬ final g := fun final => by
    obtain ⟨a, inside, larger⟩ := noGreatest g memG final
    exact absurd (greatest a inside) (not_le.mpr larger)
  obtain ⟨before, after, rfl⟩ := List.append_of_mem mem
  obtain ⟨before', after', split⟩ := List.append_of_mem memG
  refine ⟨d :: (before ++ after), g :: (before' ++ after'), List.perm_middle.symm, ?_, ?_, ?_⟩
  · rw [split]
    exact List.perm_middle.symm
  · have here : Ends final (offer final c d) := by
      rw [offer_open opened]
      exact ⟨d, max_eq_right above.le, ends⟩
    rwa [offerAll_cons, offerAll_ended here]
  · have up : c ≤ (g : WithBot F) := above.le.trans (WithBot.coe_le_coe.mpr (greatest d mem))
    have here : offer final c g = (g : WithBot F) := by
      rw [offer_open opened]
      exact max_eq_right up
    have still : ¬ Ends final (g : WithBot F) := by
      rintro ⟨b, same, final⟩
      exact opens (WithBot.coe_inj.mp same ▸ final)
    have low : ∀ a ∈ before' ++ after', (a : WithBot F) ≤ (g : WithBot F) := fun a inside =>
      WithBot.coe_le_coe.mpr (greatest a (split ▸ (List.perm_middle.mem_iff.mpr
        (List.mem_cons_of_mem _ inside))))
    have stays (rest : List F) (all : ∀ a ∈ rest, (a : WithBot F) ≤ (g : WithBot F)) :
        rest.foldl raise (g : WithBot F) = g := by
      induction rest with
      | nil => rfl
      | cons a rest ih =>
        rw [List.foldl_cons, raise, max_eq_left (all a List.mem_cons_self)]
        exact ih fun b inside => all b (List.mem_cons_of_mem _ inside)
    rwa [offerAll_cons, here, offerAll_open still fun a inside _ => low a inside, stays _ low]

end Gems.Lib

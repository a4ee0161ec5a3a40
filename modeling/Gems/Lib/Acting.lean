import Mathlib.Data.List.Basic

set_option autoImplicit false

namespace Gems.Lib

/-- Programs that act on a state as they go: neither an error nor a fault takes back what was done before it. -/
abbrev Acting (F E S A : Type) := ExceptT E (ExceptT F (StateM S)) A

namespace Acting

variable {F E S A B : Type}

def view : Acting F E S S := fun s => (.ok (.ok s), s)

def update (f : S → S) : Acting F E S Unit := fun s => (.ok (.ok ()), f s)

def raise (e : E) : Acting F E S A := fun s => (.ok (.error e), s)

-- A part that does not act.
def reading (answer : ExceptT E (Except F) A) : Acting F E S A := fun s => (answer, s)

-- An error becomes a result.
def attempt (m : Acting F E S A) : Acting F E S (Except E A) := fun s =>
  match m s with
  | (.ok result, s') => (.ok (.ok result), s')
  | (.error fault, s') => (.error fault, s')

def adapt {E' : Type} (f : E → E') (m : Acting F E S A) : Acting F E' S A := fun s =>
  match m s with
  | (.ok (.ok a), s') => (.ok (.ok a), s')
  | (.ok (.error e), s') => (.ok (.error (f e)), s')
  | (.error fault, s') => (.error fault, s')

def perform (m : Acting F E S A) (s : S) : Except F (Except E A) × S := m s

def Keeps (R : S → S → Prop) (m : Acting F E S A) : Prop := ∀ s, R s (m.perform s).2

def Returns (m : Acting F E S A) (s : S) (a : A) (s' : S) : Prop := m.perform s = (.ok (.ok a), s')

def Gives (m : Acting F E S A) (Q : A → Prop) : Prop := ∀ s a s', m.Returns s a s' → Q a

section Rules

variable {R : S → S → Prop} {m : Acting F E S A} {f : A → Acting F E S B} {s s' : S} {a : A} {b : B}

theorem perform_bind (m : Acting F E S A) (f : A → Acting F E S B) (s : S) :
    (m >>= f).perform s = match m.perform s with
      | (.ok (.ok a), s') => (f a).perform s'
      | (.ok (.error e), s') => (.ok (.error e), s')
      | (.error fault, s') => (.error fault, s') := by
  unfold perform
  simp only [bind, ExceptT.bind, ExceptT.bindCont, ExceptT.mk, StateT.bind]
  rcases m s with ⟨fault | e | a, s'⟩ <;> rfl

theorem keeps_still (refl : ∀ s, R s s) (answer : ExceptT E (Except F) A) : Keeps R (reading answer) := refl

theorem keeps_pure (refl : ∀ s, R s s) (a : A) : Keeps R (pure a : Acting F E S A) := refl

theorem keeps_view (refl : ∀ s, R s s) : Keeps R (view : Acting F E S S) := refl

theorem keeps_raise (refl : ∀ s, R s s) (e : E) : Keeps R (raise e : Acting F E S A) := refl

theorem keeps_raise_bind (refl : ∀ s, R s s) (e : E) (f : A → Acting F E S B) : Keeps R (raise e >>= f) := refl

theorem keeps_update {g : S → S} (step : ∀ s, R s (g s)) : Keeps R (update g : Acting F E S Unit) := step

theorem keeps_bind (trans : ∀ {s t u}, R s t → R t u → R s u) (first : Keeps R m) (rest : ∀ a, Keeps R (f a)) :
    Keeps R (m >>= f) := by
  intro s
  have here := first s
  rw [perform_bind]
  rcases made : m.perform s with ⟨fault | e | a, s'⟩
  · rwa [made] at here
  · rwa [made] at here
  · rw [made] at here
    exact trans here (rest a s')

-- What follows a part that does not act may count on the answer.
theorem keeps_known (refl : ∀ s, R s s) {answer : ExceptT E (Except F) A}
    (rest : ∀ a, answer = pure a → Keeps R (f a)) : Keeps R (reading answer >>= f) := by
  intro s
  rw [perform_bind]
  rcases answer with fault | e | a
  · exact refl s
  · exact refl s
  · exact rest a rfl s

theorem keeps_attempt (first : Keeps R m) : Keeps R m.attempt := by
  intro s
  have here := first s
  unfold attempt perform at *
  dsimp only
  rcases made : m s with ⟨fault | e | a, s'⟩ <;> rwa [made] at here

theorem keeps_adapt {E' : Type} {g : E → E'} (first : Keeps R m) : Keeps R (m.adapt g) := by
  intro s
  have here := first s
  unfold adapt perform at *
  dsimp only
  rcases made : m s with ⟨fault | e | a, s'⟩ <;> rwa [made] at here

theorem keeps_forM (refl : ∀ s, R s s) (trans : ∀ {s t u}, R s t → R t u → R s u) {l : List A}
    {f : A → Acting F E S Unit} (each : ∀ a ∈ l, Keeps R (f a)) : Keeps R (l.forM f) := by
  induction l with
  | nil => exact keeps_pure refl ()
  | cons a rest ih =>
    exact keeps_bind trans (each a List.mem_cons_self) fun _ => ih fun b mem => each b (List.mem_cons_of_mem a mem)

theorem returns_bind : Returns (m >>= f) s b s' ↔ ∃ a t, Returns m s a t ∧ Returns (f a) t b s' := by
  rw [Returns, perform_bind]
  constructor
  · intro made
    rcases here : m.perform s with ⟨fault | e | a, t⟩
    · rw [here] at made
      cases made
    · rw [here] at made
      cases made
    · rw [here] at made
      exact ⟨a, t, here, made⟩
  · rintro ⟨a, t, first, second⟩
    rw [first]
    exact second

theorem returns_attempt {result : Except E A} :
    Returns m.attempt s result s' ↔ m.perform s = (.ok result, s') := by
  unfold Returns attempt perform
  dsimp only
  rcases m s with ⟨fault | e | a, t⟩ <;> simp

theorem returns_adapt {E' : Type} {g : E → E'} : Returns (m.adapt g) s a s' ↔ Returns m s a s' := by
  unfold Returns adapt perform
  dsimp only
  rcases m s with ⟨fault | e | a, t⟩ <;> simp

theorem returns_pure {a' : A} : Returns (pure a : Acting F E S A) s a' s' ↔ a = a' ∧ s = s' := by
  constructor
  · intro made
    cases made
    exact ⟨rfl, rfl⟩
  · rintro ⟨rfl, rfl⟩
    rfl

theorem returns_reading {answer : ExceptT E (Except F) A} :
    Returns (reading answer) s a s' ↔ answer = pure a ∧ s = s' := by
  constructor
  · intro made
    have made : (answer, s) = (pure a, s') := made
    exact Prod.mk.inj made
  · rintro ⟨rfl, rfl⟩
    rfl

section Results

variable {Q : A → Prop} {Q' : B → Prop}

theorem gives_pure (holds : Q a) : Gives (pure a : Acting F E S A) Q := by
  intro s a' s' made
  obtain ⟨rfl, -⟩ := returns_pure.mp made
  exact holds

theorem gives_bind (first : Gives m Q) (rest : ∀ a, Q a → Gives (f a) Q') : Gives (m >>= f) Q' := by
  intro s b s' made
  obtain ⟨a, t, made, later⟩ := returns_bind.mp made
  exact rest a (first s a t made) t b s' later

theorem gives_after (rest : ∀ a, Gives (f a) Q') : Gives (m >>= f) Q' :=
  gives_bind (Q := fun _ => True) (fun _ _ _ _ => trivial) fun a _ => rest a

end Results

end Rules

end Acting

end Gems.Lib

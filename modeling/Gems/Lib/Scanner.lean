import Mathlib.Data.List.Basic

set_option autoImplicit false

namespace Gems.Lib

/-- Programs that read tokens from the front. -/
abbrev Scanner (T E A : Type) := StateT (List T) (Except E) A

namespace Scanner

variable {T E A B : Type}

def fail (e : E) : Scanner T E A := fun _ => .error e

def peek : Scanner T E (Option T) := fun text => .ok (text.head?, text)

def next : Scanner T E (Option T) := fun text => .ok (text.head?, text.tail)

def takeWhile (p : T → Bool) : Scanner T E (List T) := fun text => .ok (text.takeWhile p, text.dropWhile p)

def Yields (m : Scanner T E A) (Q : A → Prop) : Prop := ∀ text a rest, m text = .ok (a, rest) → Q a

section Rules

variable {m : Scanner T E A} {f : A → Scanner T E B} {a : A} {b : B} {t : T} {text mid rest : List T} {e : E}
  {p : T → Bool}

theorem bind_ok (first : m text = .ok (a, mid)) : (m >>= f) text = f a mid := by
  change StateT.bind m f text = f a mid
  rw [StateT.bind, first]
  rfl

theorem bind_error (first : m text = .error e) : (m >>= f) text = .error e := by
  change StateT.bind m f text = .error e
  rw [StateT.bind, first]
  rfl

@[simp] theorem pure_run : (pure a : Scanner T E A) text = .ok (a, text) := rfl

@[simp] theorem fail_run : (fail e : Scanner T E A) text = .error e := rfl

@[simp] theorem peek_bind {f : Option T → Scanner T E B} : (peek >>= f) text = f text.head? text := rfl

@[simp] theorem next_bind {f : Option T → Scanner T E B} : (next >>= f) text = f text.head? text.tail := rfl

@[simp] theorem get_bind {f : List T → Scanner T E B} : ((get : Scanner T E (List T)) >>= f) text = f text text := rfl

@[simp] theorem takeWhile_bind {f : List T → Scanner T E B} :
    (takeWhile p >>= f) text = f (text.takeWhile p) (text.dropWhile p) := rfl

theorem takeWhile_append (all : ∀ t ∈ text, p t = true) (stop : rest.head?.any p = false) :
    (takeWhile p : Scanner T E (List T)) (text ++ rest) = .ok (text, rest) := by
  rw [takeWhile, List.takeWhile_append_of_pos all, List.dropWhile_append_of_pos all]
  cases rest with
  | nil => simp
  | cons t rest =>
    have other : p t = false := stop
    simp [other]

theorem of_bind_ok (run : (m >>= f) text = .ok (b, rest)) :
    ∃ a mid, m text = .ok (a, mid) ∧ f a mid = .ok (b, rest) := by
  cases first : m text with
  | error e =>
    rw [bind_error first] at run
    cases run
  | ok result =>
    obtain ⟨a, mid⟩ := result
    rw [bind_ok first] at run
    exact ⟨a, mid, rfl, run⟩

section Yielding

variable {Q : A → Prop} {Q' : B → Prop}

theorem yields_pure (holds : Q a) : Yields (pure a : Scanner T E A) Q := by
  intro text a' rest run
  cases run
  exact holds

theorem yields_fail : Yields (fail e : Scanner T E A) Q := fun text a rest run => by cases run

theorem yields_bind (first : Yields m Q) (next : ∀ a, Q a → Yields (f a) Q') : Yields (m >>= f) Q' := by
  intro text b rest run
  obtain ⟨a, mid, read, later⟩ := of_bind_ok run
  exact next a (first text a mid read) mid b rest later

theorem yields_after (next : ∀ a, Yields (f a) Q') : Yields (m >>= f) Q' :=
  yields_bind (Q := fun _ => True) (fun _ _ _ _ => trivial) fun a _ => next a

end Yielding

end Rules

end Scanner

end Gems.Lib

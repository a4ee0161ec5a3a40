import Mathlib.Data.Option.Basic
import Mathlib.Data.List.Basic

set_option autoImplicit false

namespace Gems.Lib

-- Why a program over files did not return: it was stopped at a write, it passed on the error of a system
-- call, it panicked, it was still running at the bound on its recursion, or it gave an error of its own.
inductive Fault (E : Type) where
  | stopped
  | refused
  | panicked
  | unfinished
  | raised (error : E)
  deriving DecidableEq, Repr

-- The fault came from outside the program.
def Fault.Outside {E : Type} (e : Fault E) : Prop := e = .stopped ∨ e = .refused

-- How far a run gets: to its end, to the stop after so many file writes, or to the system call that gives
-- an error after so many that did not.
inductive Limit where
  | none
  | stop (writes : Nat)
  | refuse (calls : Nat)

namespace Limit

variable {E : Type} {limit limit' limit'' : Limit} {e : Fault E}

-- What is left of a limit.
def Leaves : Limit → Limit → Prop
  | .none, .none => True
  | .stop _, .stop _ => True
  | .refuse _, .refuse _ => True
  | _, _ => False

-- A fault that a run with this limit can end with.
def Allows : Limit → Fault E → Prop
  | .stop _, .stopped => True
  | .refuse _, .refused => True
  | _, e => e ≠ .stopped ∧ e ≠ .refused

theorem none_ne_refuse (calls : Nat) : Limit.none ≠ .refuse calls := by
  simp

theorem stop_ne_refuse (writes calls : Nat) : Limit.stop writes ≠ .refuse calls := by
  simp

-- What is left of it after so many system calls that gave no error.
def After (calls : Nat) : Limit → Limit → Prop
  | .refuse left, limit' => calls ≤ left ∧ limit' = .refuse (left - calls)
  | limit, limit' => limit.Leaves limit'

-- So many system calls give no error.
def Passes (calls : Nat) : Limit → Prop
  | .refuse left => calls ≤ left
  | _ => True

theorem Leaves.refl (limit : Limit) : limit.Leaves limit := by
  cases limit <;> trivial

theorem Leaves.trans (first : limit.Leaves limit') (second : limit'.Leaves limit'') : limit.Leaves limit'' := by
  cases limit <;> cases limit' <;> cases limit'' <;> trivial

theorem Leaves.allows (leaves : limit.Leaves limit') (allows : limit'.Allows e) : limit.Allows e := by
  cases limit <;> cases limit' <;> cases e <;> first | exact allows | exact leaves.elim

theorem Allows.stopped {writes : Nat} (allows : (Limit.stop writes).Allows e) (outside : e.Outside) :
    e = .stopped :=
  outside.resolve_right fun refused => by
    subst refused
    exact allows.2 rfl

theorem Allows.refused {calls : Nat} (allows : (Limit.refuse calls).Allows e) (outside : e.Outside) :
    e = .refused :=
  outside.resolve_left fun stopped => by
    subst stopped
    exact allows.1 rfl

theorem After.passes (after : limit.After 1 limit') (other : limit ≠ .refuse 1) : limit'.Passes 1 := by
  cases limit with
  | refuse left =>
    obtain ⟨within, rfl⟩ := after
    have apart : left ≠ 1 := fun one => other (one ▸ rfl)
    exact (by omega : 1 ≤ left - 1)
  | none => cases limit' <;> trivial
  | stop writes => cases limit' <;> trivial

end Limit

structure Budget (S : Type) where
  state : S
  limit : Limit

/-- Programs that write to files. A stop keeps every write made before it, in program order; an error of
a system call keeps memory too. -/
abbrev Prog (E S A : Type) := EStateM (Fault E) (Budget S) A

namespace Prog

variable {E S T A B : Type}

def view : Prog E S S := fun b => .ok b.state b

-- A change of memory only.
def update (f : S → S) : Prog E S Unit := fun b => .ok () { b with state := f b.state }

-- A change of a mapped file, unless the program stops first.
def write (f : S → S) : Prog E S Unit := fun b =>
  match b.limit with
  | .stop 0 => .error .stopped b
  | .stop (left + 1) => .ok () { state := f b.state, limit := .stop left }
  | limit => .ok () { state := f b.state, limit }

-- A system call with an effect on a file.
def request (f : S → S) : Prog E S Unit := fun b =>
  match b.limit with
  | .stop 0 => .error .stopped b
  | .stop (left + 1) => .ok () { state := f b.state, limit := .stop left }
  | .refuse 0 => .error .refused b
  | .refuse (left + 1) => .ok () { state := f b.state, limit := .refuse left }
  | .none => .ok () { state := f b.state, limit := .none }

-- A system call without one; before and after it a stop leaves the same.
def flush : Prog E S Unit := fun b =>
  match b.limit with
  | .refuse 0 => .error .refused b
  | .refuse (left + 1) => .ok () { b with limit := .refuse left }
  | _ => .ok () b

def fail (e : Fault E) : Prog E S A := fun b => .error e b

def raise (error : E) : Prog E S A := fail (.raised error)

-- Run a program on a part of the state.
def focus (part : S → T) (back : S → T → S) (m : Prog E T A) : Prog E S A := fun b =>
  match m ⟨part b.state, b.limit⟩ with
  | .ok a ⟨t, limit⟩ => .ok a ⟨back b.state t, limit⟩
  | .error e ⟨t, limit⟩ => .error e ⟨back b.state t, limit⟩

def runWith (limit : Limit) (m : Prog E S A) (s : S) : Except (Fault E) A × S :=
  match m ⟨s, limit⟩ with
  | .ok a b => (.ok a, b.state)
  | .error e b => (.error e, b.state)

-- Run to the end.
def run (m : Prog E S A) (s : S) : Except (Fault E) A × S := m.runWith .none s

-- Run until the stop after `writes` file writes.
def runFor (m : Prog E S A) (writes : Nat) (s : S) : Except (Fault E) A × S := m.runWith (.stop writes) s

-- What a run leaves that is stopped after so many writes, or not at all.
def leave (m : Prog E S A) (writes : Option Nat) (s : S) : S :=
  match writes with
  | some writes => (m.runFor writes s).2
  | none => (m.run s).2

/-- The program logic: from `s`, with this limit, a return satisfies `ok` and a fault `err`. -/
def SpecAt (limit : Limit) (m : Prog E S A) (s : S) (ok : A → S → Prop) (err : Fault E → S → Prop) : Prop :=
  match m ⟨s, limit⟩ with
  | .ok a b => ok a b.state ∧ limit.Leaves b.limit
  | .error e b => err e b.state ∧ limit.Allows e

-- Whatever the limit.
def Spec (m : Prog E S A) (s : S) (ok : A → S → Prop) (err : Fault E → S → Prop) : Prop :=
  ∀ limit, SpecAt limit m s ok err

section Rules

variable {s : S} {ok : A → S → Prop} {err : Fault E → S → Prop}

theorem spec_pure {a : A} (h : ok a s) : Spec (pure a : Prog E S A) s ok err :=
  fun limit => ⟨h, .refl limit⟩

theorem spec_update {f : S → S} {ok : Unit → S → Prop} (h : ok () (f s)) :
    Spec (update f : Prog E S Unit) s ok err :=
  fun limit => ⟨h, .refl limit⟩

theorem spec_write {f : S → S} {ok : Unit → S → Prop} (h : ok () (f s)) (stop : err .stopped s) :
    Spec (write f : Prog E S Unit) s ok err := by
  intro limit
  cases limit with
  | none => exact ⟨h, trivial⟩
  | refuse left => exact ⟨h, trivial⟩
  | stop left =>
    cases left with
    | zero => exact ⟨stop, trivial⟩
    | succ left => exact ⟨h, trivial⟩

theorem spec_request {f : S → S} {ok : Unit → S → Prop} (h : ok () (f s)) (stop : err .stopped s)
    (refuse : err .refused s) : Spec (request f : Prog E S Unit) s ok err := by
  intro limit
  cases limit with
  | none => exact ⟨h, trivial⟩
  | refuse left =>
    cases left with
    | zero => exact ⟨refuse, trivial⟩
    | succ left => exact ⟨h, trivial⟩
  | stop left =>
    cases left with
    | zero => exact ⟨stop, trivial⟩
    | succ left => exact ⟨h, trivial⟩

theorem spec_flush {ok : Unit → S → Prop} (h : ok () s) (refuse : err .refused s) :
    Spec (flush : Prog E S Unit) s ok err := by
  intro limit
  cases limit with
  | none => exact ⟨h, trivial⟩
  | stop left => exact ⟨h, trivial⟩
  | refuse left =>
    cases left with
    | zero => exact ⟨refuse, trivial⟩
    | succ left => exact ⟨h, trivial⟩

theorem spec_fail {e : Fault E} (h : err e s) (other : e ≠ .stopped ∧ e ≠ .refused) :
    Spec (fail e : Prog E S A) s ok err := by
  intro limit
  refine ⟨h, ?_⟩
  cases limit <;> cases e <;> first | exact other | trivial

theorem spec_raise {error : E} (h : err (.raised error) s) :
    Spec (raise error : Prog E S A) s ok err :=
  spec_fail h (by simp)

theorem specAt_bind {limit : Limit} {m : Prog E S A} {f : A → Prog E S B} {mid : A → S → Prop} {ok : B → S → Prop}
    (first : SpecAt limit m s mid err) (rest : ∀ a s', mid a s' → Spec (f a) s' ok err) :
    SpecAt limit (m >>= f) s ok err := by
  change match EStateM.bind m f ⟨s, limit⟩ with
    | .ok a b => ok a b.state ∧ limit.Leaves b.limit
    | .error e b => err e b.state ∧ limit.Allows e
  unfold SpecAt at first
  unfold EStateM.bind
  cases made : m ⟨s, limit⟩ with
  | error e b =>
    rw [made] at first
    exact first
  | ok a b =>
    rw [made] at first
    obtain ⟨holds, left⟩ := first
    have later := rest a b.state holds b.limit
    unfold SpecAt at later
    change match f a b with
      | .ok a b => ok a b.state ∧ limit.Leaves b.limit
      | .error e b => err e b.state ∧ limit.Allows e
    cases made' : f a b with
    | ok a' b' =>
      rw [show (⟨b.state, b.limit⟩ : Budget S) = b from rfl, made'] at later
      exact ⟨later.1, left.trans later.2⟩
    | error e b' =>
      rw [show (⟨b.state, b.limit⟩ : Budget S) = b from rfl, made'] at later
      exact ⟨later.1, left.allows later.2⟩

theorem spec_bind {m : Prog E S A} {f : A → Prog E S B} {mid : A → S → Prop} {ok : B → S → Prop}
    (first : Spec m s mid err) (rest : ∀ a s', mid a s' → Spec (f a) s' ok err) :
    Spec (m >>= f) s ok err :=
  fun limit => specAt_bind (first limit) rest

theorem spec_pure_bind {a : A} {f : A → Prog E S B} {ok : B → S → Prop} (h : Spec (f a) s ok err) :
    Spec (pure a >>= f) s ok err := h

theorem specAt_pure_bind {limit : Limit} {a : A} {f : A → Prog E S B} {ok : B → S → Prop}
    (h : SpecAt limit (f a) s ok err) : SpecAt limit (pure a >>= f) s ok err := h

theorem specAt_view_bind {limit : Limit} {f : S → Prog E S B} {ok : B → S → Prop}
    (h : SpecAt limit (f s) s ok err) : SpecAt limit (view >>= f) s ok err := h

theorem specAt_step {limit : Limit} {m : Prog E S A} {f : A → Prog E S B} {ok : B → S → Prop} {a : A} {s' : S}
    (step : m ⟨s, limit⟩ = .ok a ⟨s', limit⟩) (h : SpecAt limit (f a) s' ok err) : SpecAt limit (m >>= f) s ok err := by
  change match EStateM.bind m f ⟨s, limit⟩ with
    | .ok a b => ok a b.state ∧ limit.Leaves b.limit
    | .error e b => err e b.state ∧ limit.Allows e
  unfold EStateM.bind
  rw [step]
  exact h

theorem spec_view_bind {f : S → Prog E S B} {ok : B → S → Prop} (h : Spec (f s) s ok err) :
    Spec (view >>= f) s ok err := h

theorem spec_update_bind {g : S → S} {f : Unit → Prog E S B} {ok : B → S → Prop}
    (h : Spec (f ()) (g s) ok err) : Spec (update g >>= f) s ok err := h

theorem spec_write_bind {g : S → S} {f : Unit → Prog E S B} {ok : B → S → Prop}
    (h : Spec (f ()) (g s) ok err) (stop : err .stopped s) : Spec (write g >>= f) s ok err := by
  have first : Spec (write g : Prog E S Unit) s (fun _ s' => s' = g s) err := spec_write rfl stop
  exact spec_bind first fun _ _ here => here ▸ h

theorem spec_request_bind {g : S → S} {f : Unit → Prog E S B} {ok : B → S → Prop}
    (h : Spec (f ()) (g s) ok err) (stop : err .stopped s) (refuse : err .refused s) :
    Spec (request g >>= f) s ok err := by
  have first : Spec (request g : Prog E S Unit) s (fun _ s' => s' = g s) err := spec_request rfl stop refuse
  exact spec_bind first fun _ _ here => here ▸ h

theorem specAt_weaken {limit : Limit} {m : Prog E S A} {ok' : A → S → Prop} {err' : Fault E → S → Prop}
    (h : SpecAt limit m s ok err) (weakOk : ∀ a s', ok a s' → ok' a s')
    (weakErr : ∀ e s', limit.Allows e → err e s' → err' e s') : SpecAt limit m s ok' err' := by
  unfold SpecAt at *
  cases made : m ⟨s, limit⟩ with
  | ok a b =>
    rw [made] at h
    exact ⟨weakOk _ _ h.1, h.2⟩
  | error e b =>
    rw [made] at h
    exact ⟨weakErr _ _ h.2 h.1, h.2⟩

theorem spec_weaken {m : Prog E S A} {ok' : A → S → Prop} {err' : Fault E → S → Prop}
    (h : Spec m s ok err) (weakOk : ∀ a s', ok a s' → ok' a s')
    (weakErr : ∀ e s', err e s' → err' e s') : Spec m s ok' err' :=
  fun limit => specAt_weaken (h limit) weakOk fun e s' _ => weakErr e s'

theorem specAt_focus {limit : Limit} {part : S → T} {back : S → T → S} {m : Prog E T A}
    (h : SpecAt limit m (part s) (fun a t => ok a (back s t)) (fun e t => err e (back s t))) :
    SpecAt limit (focus part back m) s ok err := by
  unfold SpecAt focus at *
  dsimp only
  cases made : m ⟨part s, limit⟩ with
  | ok a b =>
    rw [made] at h
    exact h
  | error e b =>
    rw [made] at h
    exact h

theorem spec_focus {part : S → T} {back : S → T → S} {m : Prog E T A}
    (h : Spec m (part s) (fun a t => ok a (back s t)) (fun e t => err e (back s t))) :
    Spec (focus part back m) s ok err :=
  fun limit => specAt_focus (h limit)

-- A program in two parts, each with faults of its own.
theorem specAt_parts {limit : Limit} {m : Prog E S A} {f : A → Prog E S B} {ok : B → S → Prop}
    {err₁ err₂ : Fault E → S → Prop} (h : SpecAt limit m s (fun a s' => Spec (f a) s' ok err₂) err₁)
    (weak₁ : ∀ e s', err₁ e s' → err e s') (weak₂ : ∀ e s', err₂ e s' → err e s') : SpecAt limit (m >>= f) s ok err :=
  specAt_bind (specAt_weaken h (fun _ _ here => here) fun e s' _ => weak₁ e s')
    fun _ _ here => spec_weaken here (fun _ _ done => done) weak₂

theorem spec_parts {m : Prog E S A} {f : A → Prog E S B} {ok : B → S → Prop} {err₁ err₂ : Fault E → S → Prop}
    (h : Spec m s (fun a s' => Spec (f a) s' ok err₂) err₁) (weak₁ : ∀ e s', err₁ e s' → err e s')
    (weak₂ : ∀ e s', err₂ e s' → err e s') : Spec (m >>= f) s ok err :=
  fun limit => specAt_parts (h limit) weak₁ weak₂

-- A program on a part of the state is its steps on that part.
theorem focus_bind {part : S → T} {back : S → T → S} (get : ∀ s t, part (back s t) = t)
    (set : ∀ s t t', back (back s t) t' = back s t') (m : Prog E T A) (f : A → Prog E T B) :
    focus part back (m >>= f) = focus part back m >>= fun a => focus part back (f a) := by
  funext b
  change focus part back (EStateM.bind m f) b = EStateM.bind (focus part back m) (fun a => focus part back (f a)) b
  unfold focus EStateM.bind
  dsimp only
  cases m ⟨part b.state, b.limit⟩ with
  | error e b' => rfl
  | ok a b' =>
    dsimp only
    rw [get]
    cases f a b' <;> simp only [set]

-- A loop over a list, by an invariant on what is left.
theorem spec_forM {l : List B} {f : B → Prog E S Unit} {inv : List B → S → Prop} (start : inv l s)
    (turn : ∀ b rest s', inv (b :: rest) s' → Spec (f b) s' (fun _ => inv rest) err) :
    Spec (l.forM f) s (fun _ => inv []) err := by
  induction l generalizing s with
  | nil => exact spec_pure start
  | cons b rest ih => exact spec_bind (turn b rest s start) fun _ s' here => ih here

end Rules

section Runs

variable {s s' : S} {ok : A → S → Prop} {err : Fault E → S → Prop} {limit : Limit} {writes : Nat} {e : Fault E}

theorem SpecAt.runWith {m : Prog E S A} (h : SpecAt limit m s ok err) :
    match m.runWith limit s with
    | (.ok a, s') => ok a s'
    | (.error e, s') => err e s' ∧ limit.Allows e := by
  unfold SpecAt at h
  unfold Prog.runWith
  cases made : m ⟨s, limit⟩ with
  | ok a b =>
    rw [made] at h
    exact h.1
  | error e b =>
    rw [made] at h
    exact h

theorem Spec.runWith {m : Prog E S A} (h : Spec m s ok err) (limit : Limit) :
    match m.runWith limit s with
    | (.ok a, s') => ok a s'
    | (.error e, s') => err e s' ∧ limit.Allows e := (h limit).runWith

theorem SpecAt.run {m : Prog E S A} (h : SpecAt .none m s ok err) :
    match m.run s with
    | (.ok a, s') => ok a s'
    | (.error e, s') => err e s' ∧ e ≠ .stopped ∧ e ≠ .refused := h.runWith

theorem Spec.run {m : Prog E S A} (h : Spec m s ok err) :
    match m.run s with
    | (.ok a, s') => ok a s'
    | (.error e, s') => err e s' ∧ e ≠ .stopped ∧ e ≠ .refused := (h .none).run

theorem SpecAt.runWith_error {m : Prog E S A} (h : SpecAt limit m s ok err)
    (stuck : m.runWith limit s = (.error e, s')) : err e s' ∧ limit.Allows e := by
  have ran := h.runWith
  rwa [stuck] at ran

theorem Spec.runWith_error {m : Prog E S A} (h : Spec m s ok err) (stuck : m.runWith limit s = (.error e, s')) :
    err e s' ∧ limit.Allows e := (h limit).runWith_error stuck

theorem runWith_bind_error {m : Prog E S A} {f : A → Prog E S B} (h : m.runWith limit s = (.error e, s')) :
    (m >>= f).runWith limit s = (.error e, s') := by
  change Prog.runWith limit (EStateM.bind m f) s = (.error e, s')
  unfold Prog.runWith EStateM.bind at *
  cases made : m ⟨s, limit⟩ with
  | ok a b =>
    rw [made] at h
    cases h
  | error e' b =>
    rw [made] at h
    obtain ⟨same, rfl⟩ := Prod.mk.inj h
    obtain rfl := Except.error.inj same
    rfl

theorem runWith_bind_ok {m : Prog E S A} {f : A → Prog E S B} {a : A} (h : m.runWith limit s = (.ok a, s')) :
    ∃ limit', (m >>= f).runWith limit s = (f a).runWith limit' s' := by
  change ∃ limit', Prog.runWith limit (EStateM.bind m f) s = (f a).runWith limit' s'
  unfold Prog.runWith EStateM.bind at *
  cases made : m ⟨s, limit⟩ with
  | error e b =>
    rw [made] at h
    cases h
  | ok a' b =>
    rw [made] at h
    obtain ⟨same, rfl⟩ := Prod.mk.inj h
    obtain rfl := Except.ok.inj same
    exact ⟨b.limit, rfl⟩

theorem runWith_stuck {m : Prog E S A} (stuck : ¬ ∃ a, (m.runWith limit s).1 = .ok a) :
    ∃ e s', m.runWith limit s = (.error e, s') := by
  cases made : m.runWith limit s with
  | mk result s' =>
    cases result with
    | ok a => exact absurd ⟨a, by rw [made]⟩ stuck
    | error e => exact ⟨e, s', rfl⟩

theorem focus_runWith {part : S → T} {back : S → T → S} (m : Prog E T A) (limit : Limit) (s : S) :
    (focus part back m).runWith limit s =
      ((m.runWith limit (part s)).1, back s (m.runWith limit (part s)).2) := by
  unfold Prog.runWith focus
  dsimp only
  cases m ⟨part s, limit⟩ <;> rfl

theorem focus_runWith_error {part : S → T} {back : S → T → S} {m : Prog E T A} {t : T}
    (stuck : m.runWith limit (part s) = (.error e, t)) :
    (focus part back m).runWith limit s = (.error e, back s t) := by
  rw [focus_runWith, stuck]

theorem focus_run_ok {part : S → T} {back : S → T → S} {m : Prog E T A} {a : A} {t : T}
    (made : m.run (part s) = (.ok a, t)) : ((focus part back m).run s).1 = .ok a := by
  rw [Prog.run] at made ⊢
  rw [focus_runWith, made]

-- The first part is done: what happens then is up to the second.
theorem SpecAt.runWith_second {m : Prog E S A} {f : A → Prog E S B} {ok : B → S → Prop}
    {err₁ err₂ : Fault E → S → Prop} (h : SpecAt limit m s (fun a s' => Spec (f a) s' ok err₂) err₁) {a : A}
    (first : (m.runWith limit s).1 = .ok a) :
    match (m >>= f).runWith limit s with
    | (.ok b, s') => ok b s'
    | (.error e, s') => err₂ e s' ∧ limit.Allows e := by
  change match Prog.runWith limit (EStateM.bind m f) s with
    | (.ok b, s') => ok b s'
    | (.error e, s') => err₂ e s' ∧ limit.Allows e
  unfold SpecAt at h
  unfold Prog.runWith EStateM.bind at *
  cases made : m ⟨s, limit⟩ with
  | error e b =>
    rw [made] at first
    cases first
  | ok a' b =>
    rw [made] at h
    obtain ⟨rest, left⟩ := h
    have later := rest b.limit
    unfold SpecAt at later
    dsimp only
    cases made' : f a' b with
    | ok c b' =>
      rw [show (⟨b.state, b.limit⟩ : Budget S) = b from rfl, made'] at later
      exact later.1
    | error e b' =>
      rw [show (⟨b.state, b.limit⟩ : Budget S) = b from rfl, made'] at later
      exact ⟨later.1, left.allows later.2⟩

theorem Spec.runWith_second {m : Prog E S A} {f : A → Prog E S B} {ok : B → S → Prop}
    {err₁ err₂ : Fault E → S → Prop} (h : Spec m s (fun a s' => Spec (f a) s' ok err₂) err₁) {a : A}
    (first : (m.runWith limit s).1 = .ok a) :
    match (m >>= f).runWith limit s with
    | (.ok b, s') => ok b s'
    | (.error e, s') => err₂ e s' ∧ limit.Allows e := (h limit).runWith_second first

theorem runWith_discard (m : Prog E S A) (limit : Limit) (s : S) :
    Prog.runWith limit (do
      let _ ← m
      pure ()) s = ((m.runWith limit s).1.map fun _ => (), (m.runWith limit s).2) := by
  change Prog.runWith limit (EStateM.bind m fun _ => pure ()) s = _
  unfold Prog.runWith EStateM.bind
  cases m ⟨s, limit⟩ <;> rfl

theorem run_discard (m : Prog E S A) (s : S) : Prog.run (do
    let _ ← m
    pure ()) s = ((m.run s).1.map fun _ => (), (m.run s).2) := runWith_discard m .none s

theorem Spec.leave {m : Prog E S A} (h : Spec m s ok err) (writes : Option Nat) :
    (∃ a, ok a (m.leave writes s)) ∨ ∃ e, err e (m.leave writes s) := by
  have ran (limit : Limit) : (∃ a, ok a (m.runWith limit s).2) ∨ ∃ e, err e (m.runWith limit s).2 := by
    have here := h.runWith limit
    cases made : m.runWith limit s with
    | mk result s' =>
      rw [made] at here
      cases result with
      | ok a => exact .inl ⟨a, here⟩
      | error e => exact .inr ⟨e, here.1⟩
  cases writes with
  | none => exact ran .none
  | some writes => exact ran (.stop writes)

theorem leave_run {m : Prog E S A} (s : S) : m.leave none s = (m.run s).2 := rfl

end Runs

section Calls

/-- A return comes after `n` system calls, an error of one among them. -/
def Calls (m : Prog E S A) (n : Nat) : Prop :=
  ∀ s left, match m ⟨s, .refuse left⟩ with
    | .ok _ b => n ≤ left ∧ b.limit = .refuse (left - n)
    | .error e _ => e = .refused → left < n

variable {s : S} {ok : A → S → Prop} {err : Fault E → S → Prop} {n n' left : Nat}

theorem calls_pure {a : A} : Calls (pure a : Prog E S A) 0 := fun _ left => ⟨Nat.zero_le left, rfl⟩

theorem calls_write {f : S → S} : Calls (write f : Prog E S Unit) 0 := fun _ left => ⟨Nat.zero_le left, rfl⟩

theorem calls_request {f : S → S} : Calls (request f : Prog E S Unit) 1 := by
  intro s left
  cases left with
  | zero => exact fun _ => Nat.zero_lt_one
  | succ left => exact ⟨Nat.le_add_left 1 left, rfl⟩

theorem calls_flush : Calls (flush : Prog E S Unit) 1 := by
  intro s left
  cases left with
  | zero => exact fun _ => Nat.zero_lt_one
  | succ left => exact ⟨Nat.le_add_left 1 left, rfl⟩

theorem calls_fail {e : Fault E} (own : ¬ e.Outside) : Calls (fail e : Prog E S A) n :=
  fun _ _ refused => absurd (.inr refused) own

theorem calls_bind {m : Prog E S A} {f : A → Prog E S B} (first : Calls m n) (rest : ∀ a, Calls (f a) n') :
    Calls (m >>= f) (n + n') := by
  intro s left
  have here := first s left
  change match EStateM.bind m f ⟨s, .refuse left⟩ with
    | .ok _ b => n + n' ≤ left ∧ b.limit = .refuse (left - (n + n'))
    | .error e _ => e = .refused → left < n + n'
  unfold EStateM.bind
  cases made : m ⟨s, .refuse left⟩ with
  | error e b =>
    rw [made] at here
    exact fun refused => Nat.lt_add_right n' (here refused)
  | ok a b =>
    rw [made] at here
    obtain ⟨s', limit⟩ := b
    obtain ⟨within, rfl⟩ := here
    have later := rest a s' (left - n)
    dsimp only
    cases made' : f a ⟨s', .refuse (left - n)⟩ with
    | ok a' b' =>
      rw [made'] at later
      obtain ⟨within', limit⟩ := later
      exact ⟨by omega, by rw [limit, Nat.sub_sub]⟩
    | error e b' =>
      rw [made'] at later
      intro refused
      have := later refused
      omega

theorem calls_view_bind {f : S → Prog E S B} (rest : ∀ s, Calls (f s) n) : Calls (view >>= f) n :=
  fun s left => rest s s left

theorem calls_update_bind {g : S → S} {f : Unit → Prog E S B} (rest : Calls (f ()) n) : Calls (update g >>= f) n :=
  fun s left => rest (g s) left

theorem calls_focus {part : S → T} {back : S → T → S} {m : Prog E T A} (calls : Calls m n) :
    Calls (focus part back m) n := by
  intro s left
  have here := calls (part s) left
  unfold focus
  dsimp only
  cases made : m ⟨part s, .refuse left⟩ with
  | ok a b =>
    rw [made] at here
    exact here
  | error e b =>
    rw [made] at here
    exact here

-- A refusal further on is none of the first calls.
theorem Calls.passes {limit : Limit} {m : Prog E S A} (calls : Calls m n) (passes : limit.Passes n)
    (h : Spec m s ok err) : SpecAt limit m s ok (fun e s' => err e s' ∧ e ≠ .refused) := by
  refine specAt_weaken (?_ : SpecAt limit m s ok fun e s' => err e s' ∧ (limit.Allows e → e ≠ .refused))
    (fun _ _ here => here) fun e s' allows here => ⟨here.1, here.2 allows⟩
  have spec := h limit
  unfold SpecAt at *
  cases made : m ⟨s, limit⟩ with
  | ok a b =>
    rw [made] at spec
    exact spec
  | error e b =>
    rw [made] at spec
    refine ⟨⟨spec.1, ?_⟩, spec.2⟩
    rintro allows rfl
    cases limit with
    | none => exact allows.2 rfl
    | stop writes => exact allows.2 rfl
    | refuse left =>
      have here := calls s left
      rw [made] at here
      exact absurd (here rfl) (Nat.not_lt.mpr passes)

theorem Calls.after {m : Prog E S A} (calls : Calls m n) (limit : Limit) (h : Spec m s ok err) :
    match m ⟨s, limit⟩ with
    | .ok _ b => limit.After n b.limit
    | .error _ _ => True := by
  have spec := h limit
  unfold SpecAt at spec
  cases made : m ⟨s, limit⟩ with
  | error e b => trivial
  | ok a b =>
    rw [made] at spec
    cases limit with
    | none => exact spec.2
    | stop writes => exact spec.2
    | refuse left =>
      have here := calls s left
      rw [made] at here
      exact here

theorem specAt_bind_calls {limit : Limit} {m : Prog E S A} {f : A → Prog E S B} {mid : A → S → Prop}
    {ok : B → S → Prop} (calls : Calls m n) (first : Spec m s mid err)
    (rest : ∀ a s' limit', mid a s' → limit.After n limit' → SpecAt limit' (f a) s' ok err) :
    SpecAt limit (m >>= f) s ok err := by
  have counted := calls.after limit first
  have spec := first limit
  change match EStateM.bind m f ⟨s, limit⟩ with
    | .ok a b => ok a b.state ∧ limit.Leaves b.limit
    | .error e b => err e b.state ∧ limit.Allows e
  unfold SpecAt at spec
  unfold EStateM.bind
  cases made : m ⟨s, limit⟩ with
  | error e b =>
    rw [made] at spec
    exact spec
  | ok a b =>
    rw [made] at counted spec
    obtain ⟨s', limit'⟩ := b
    have later := rest a s' limit' spec.1 counted
    unfold SpecAt at later
    dsimp only
    cases made' : f a ⟨s', limit'⟩ with
    | ok a' b' =>
      rw [made'] at later
      exact ⟨later.1, spec.2.trans later.2⟩
    | error e b' =>
      rw [made'] at later
      exact ⟨later.1, spec.2.allows later.2⟩

end Calls

section Raises

/-- However a run ends, the measure of the state has grown by `k` at most. -/
def Raises (measure : S → Nat) (k : Nat) (m : Prog E S A) : Prop :=
  ∀ b, match m b with
    | .ok _ b' => measure b'.state ≤ measure b.state + k
    | .error _ b' => measure b'.state ≤ measure b.state + k

variable {measure : S → Nat} {k l : Nat}

theorem Raises.mono {m : Prog E S A} (raises : Raises measure k m) (le : k ≤ l) : Raises measure l m := by
  intro b
  have here := raises b
  cases made : m b with
  | ok a b' =>
    rw [made] at here
    exact Nat.le_trans here (by omega)
  | error e b' =>
    rw [made] at here
    exact Nat.le_trans here (by omega)

theorem raises_pure {a : A} : Raises measure k (pure a : Prog E S A) := fun _ => Nat.le_add_right _ _

theorem raises_view : Raises measure k (view : Prog E S S) := fun _ => Nat.le_add_right _ _

theorem raises_fail {e : Fault E} : Raises measure k (fail e : Prog E S A) := fun _ => Nat.le_add_right _ _

theorem raises_update {f : S → S} (le : ∀ s, measure (f s) ≤ measure s + k) :
    Raises measure k (update f : Prog E S Unit) := fun b => le b.state

theorem raises_write {f : S → S} (le : ∀ s, measure (f s) ≤ measure s + k) :
    Raises measure k (write f : Prog E S Unit) := by
  rintro ⟨s, limit⟩
  cases limit with
  | none => exact le s
  | refuse left => exact le s
  | stop left =>
    cases left with
    | zero => exact Nat.le_add_right _ _
    | succ left => exact le s

theorem raises_request {f : S → S} (le : ∀ s, measure (f s) ≤ measure s + k) :
    Raises measure k (request f : Prog E S Unit) := by
  rintro ⟨s, limit⟩
  cases limit with
  | none => exact le s
  | refuse left =>
    cases left with
    | zero => exact Nat.le_add_right _ _
    | succ left => exact le s
  | stop left =>
    cases left with
    | zero => exact Nat.le_add_right _ _
    | succ left => exact le s

theorem raises_bind {m : Prog E S A} {f : A → Prog E S B} (first : Raises measure k m)
    (rest : ∀ a, Raises measure l (f a)) : Raises measure (k + l) (m >>= f) := by
  intro b
  have here := first b
  change match EStateM.bind m f b with
    | .ok _ b' => measure b'.state ≤ measure b.state + (k + l)
    | .error _ b' => measure b'.state ≤ measure b.state + (k + l)
  unfold EStateM.bind
  cases made : m b with
  | error e b' =>
    rw [made] at here
    exact Nat.le_trans here (by omega)
  | ok a b' =>
    rw [made] at here
    have later := rest a b'
    dsimp only
    cases made' : f a b' with
    | ok a' b'' =>
      rw [made'] at later
      exact Nat.le_trans later (by omega)
    | error e b'' =>
      rw [made'] at later
      exact Nat.le_trans later (by omega)

-- The first part leaves the measure as it is.
theorem raises_still_bind {m : Prog E S A} {f : A → Prog E S B} (first : Raises measure 0 m)
    (rest : ∀ a, Raises measure k (f a)) : Raises measure k (m >>= f) :=
  (raises_bind first rest).mono (Nat.le_of_eq (Nat.zero_add k))

theorem raises_view_bind {f : S → Prog E S B} (rest : ∀ s, Raises measure k (f s)) :
    Raises measure k (view >>= f) := raises_still_bind raises_view rest

theorem raises_forM {l : List B} {f : B → Prog E S Unit} (turn : ∀ b, Raises measure 0 (f b)) :
    Raises measure 0 (l.forM f) := by
  induction l with
  | nil => exact raises_pure
  | cons b rest ih => exact raises_still_bind (turn b) fun _ => ih

theorem raises_focus {part : S → T} {back : S → T → S} {measureT : T → Nat} {m : Prog E T A}
    (raises : Raises measureT l m)
    (le : ∀ s t, measureT t ≤ measureT (part s) + l → measure (back s t) ≤ measure s + k) :
    Raises measure k (focus part back m) := by
  intro b
  have here := raises ⟨part b.state, b.limit⟩
  unfold focus
  cases made : m ⟨part b.state, b.limit⟩ with
  | ok a b' =>
    rw [made] at here
    exact le b.state b'.state here
  | error e b' =>
    rw [made] at here
    exact le b.state b'.state here

-- A part that the measure does not look at.
theorem raises_beside {part : S → T} {back : S → T → S} {m : Prog E T A}
    (same : ∀ s t, measure (back s t) = measure s) : Raises measure k (focus part back m) := by
  have any : Raises (fun _ => 0) 0 m := by
    intro b
    cases m b <;> exact Nat.le_refl 0
  exact raises_focus any fun s t _ => same s t ▸ Nat.le_add_right _ _

theorem Raises.runWith {m : Prog E S A} (raises : Raises measure k m) {limit : Limit} {s s' : S}
    {result : Except (Fault E) A} (made : m.runWith limit s = (result, s')) : measure s' ≤ measure s + k := by
  have here := raises ⟨s, limit⟩
  rw [Prog.runWith] at made
  cases ran : m ⟨s, limit⟩ with
  | ok a b =>
    rw [ran] at made here
    cases made
    exact here
  | error e b =>
    rw [ran] at made here
    cases made
    exact here

theorem Raises.run {m : Prog E S A} (raises : Raises measure k m) {s s' : S} {result : Except (Fault E) A}
    (made : m.run s = (result, s')) : measure s' ≤ measure s + k := raises.runWith made

end Raises

end Prog

end Gems.Lib

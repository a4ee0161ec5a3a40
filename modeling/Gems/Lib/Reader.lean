import Gems.Lib.Bytes

set_option autoImplicit false

namespace Gems.Lib

/-- Programs that read a buffer from the front. -/
abbrev Reader (E A : Type) := StateT (List UInt8) (Except E) A

namespace Reader

variable {E A B : Type} {buf rest : List UInt8} {short : E} {n width : Nat}

def fail (e : E) : Reader E A := fun _ => .error e

def ofExcept : Except E A → Reader E A
  | .ok a => pure a
  | .error e => fail e

-- The next `n` bytes, or `short` when there are fewer.
def take (short : E) (n : Nat) : Reader E (List UInt8) := fun buf =>
  if n ≤ buf.length then .ok (buf.take n, buf.drop n) else .error short

def number (short : E) (width : Nat) : Reader E Nat := do
  let bytes ← take short width
  return ofLittleEndian bytes

def byte (short : E) : Reader E UInt8 := fun
  | [] => .error short
  | b :: rest => .ok (b, rest)

-- `read_until`: up to the byte, but no more than `limit`. What ends before is short, unless the other end has closed.
def untilByte (short : E) (closed : Bool) (stop : UInt8) (limit : Nat) : Reader E (List UInt8) := fun input =>
  match (input.take limit).findIdx? (· = stop) with
  | some i => .ok (input.take (i + 1), input.drop (i + 1))
  | none => if limit ≤ input.length ∨ closed then .ok (input.take limit, input.drop limit) else .error short

-- The same reader, a number of times.
def times (m : Reader E A) : Nat → Reader E (List A)
  | 0 => pure []
  | count + 1 => do
    let a ← m
    let more ← times m count
    return a :: more

/-- The reader takes `bytes` off the front, whatever follows, and gives `a`. -/
def Reads (m : Reader E A) (bytes : List UInt8) (a : A) : Prop :=
  ∀ rest, m (bytes ++ rest) = .ok (a, rest)

/-- On `n` bytes the first reader takes no more of them, and the second does the same whatever follows. -/
def Settles (m m' : Reader E A) (n : Nat) : Prop :=
  ∀ input more, n ≤ input.length →
    (∀ a rest, m input = .ok (a, rest) →
      input.length ≤ n + rest.length ∧ rest <:+ input ∧ m' (input ++ more) = .ok (a, rest ++ more)) ∧
    ∀ e, m input = .error e → m' (input ++ more) = .error e

section Rules

variable {m : Reader E A} {f : A → Reader E B} {a : A} {b : B} {bytes bytes' : List UInt8}

theorem Reads.pure : Reads (Pure.pure a : Reader E A) [] a := fun _ => rfl

theorem bind_ok (first : m buf = .ok (a, rest)) : (m >>= f) buf = f a rest := by
  change StateT.bind m f buf = f a rest
  rw [StateT.bind, first]
  rfl

theorem bind_error {e : E} (first : m buf = .error e) : (m >>= f) buf = .error e := by
  change StateT.bind m f buf = .error e
  rw [StateT.bind, first]
  rfl

theorem Reads.bind (first : Reads m bytes a) (next : Reads (f a) bytes' b) :
    Reads (m >>= f) (bytes ++ bytes') b := by
  intro rest
  rw [List.append_assoc, bind_ok (first _), next]

theorem Reads.known (next : Reads (f a) bytes b) : Reads (ofExcept (.ok a) >>= f) bytes b := next

theorem Reads.result (first : Reads m bytes a) (g : A → B) :
    Reads (m >>= fun a => Pure.pure (g a)) bytes (g a) := by
  have whole := first.bind (f := fun a => Pure.pure (g a)) (Reads.pure (E := E) (a := g a))
  rwa [List.append_nil] at whole

theorem Reads.times {encode : A → List UInt8} {stored : A → A} (items : List A)
    (each : ∀ a ∈ items, Reads m (encode a) (stored a)) :
    Reads (m.times items.length) (items.flatMap encode) (items.map stored) := by
  induction items with
  | nil => exact .pure
  | cons a rest ih =>
    have later := ih fun b mem => each b (List.mem_cons_of_mem _ mem)
    exact (each a List.mem_cons_self).bind (later.result fun more => stored a :: more)

theorem Reads.take (size : bytes.length = n) : Reads (take short n) bytes bytes := by
  intro rest
  rw [Reader.take, if_pos (by simp [← size]), List.take_left' size, List.drop_left' size]

theorem Reads.number (small : n < 256 ^ width) :
    Reads (number short width) (littleEndian width n) n := by
  have bytes : Reads (Reader.take short width) _ _ := .take (length_littleEndian width n)
  have whole := bytes.result ofLittleEndian
  rwa [ofLittleEndian_littleEndian small] at whole

theorem Reads.byte (b : UInt8) : Reads (byte short) [b] b := fun _ => rfl

theorem Reads.untilByte {closed : Bool} {stop : UInt8} {limit : Nat}
    (apart : stop ∉ bytes) (less : bytes.length < limit) :
    Reads (untilByte short closed stop limit) (bytes ++ [stop]) (bytes ++ [stop]) := by
  intro rest
  have none : bytes.findIdx? (· = stop) = Option.none := by
    rw [List.findIdx?_eq_none_iff]
    intro b mem
    exact decide_eq_false fun same => apart (same ▸ mem)
  obtain ⟨left, rfl⟩ : ∃ left, limit = bytes.length + 1 + left := ⟨limit - (bytes.length + 1), by omega⟩
  have size : (bytes ++ [stop]).length = bytes.length + 1 := by simp
  have found : ((bytes ++ [stop] ++ rest).take (bytes.length + 1 + left)).findIdx? (· = stop) = some bytes.length := by
    rw [List.take_append, size, List.take_of_length_le (by omega), List.append_assoc, List.findIdx?_append, none]
    simp [List.findIdx?_cons]
  unfold Reader.untilByte
  rw [found]
  dsimp only
  rw [List.take_left' size, List.drop_left' size]

end Rules

section Settling

variable {m m' : Reader E A} {f f' : A → Reader E B} {k : Nat} {a : A}

theorem settles_pure : Settles (Pure.pure a : Reader E A) (Pure.pure a) 0 := by
  intro input more _
  constructor
  · intro a' rest made
    obtain ⟨rfl, rfl⟩ := Prod.mk.inj (Except.ok.inj made)
    exact ⟨Nat.le_add_left _ _, List.suffix_refl _, rfl⟩
  · intro e made
    cases made

theorem settles_fail {e : E} : Settles (fail e : Reader E A) (fail e) 0 := by
  intro input more _
  constructor
  · intro a rest made
    cases made
  · intro e' made
    exact made

theorem Settles.mono (settles : Settles m m' n) (le : n ≤ k) : Settles m m' k := by
  intro input more enough
  obtain ⟨done, failed⟩ := settles input more (le.trans enough)
  refine ⟨fun a rest made => ?_, failed⟩
  obtain ⟨bound, part, again⟩ := done a rest made
  exact ⟨by omega, part, again⟩

theorem Settles.bind (first : Settles m m' n) (next : ∀ a, Settles (f a) (f' a) k) :
    Settles (m >>= f) (m' >>= f') (n + k) := by
  intro input more enough
  obtain ⟨done, failed⟩ := first input more (by omega)
  cases read : m input with
  | error e =>
    rw [bind_error read, bind_error (failed e read)]
    exact ⟨fun a rest made => (by cases made), fun e' made => made⟩
  | ok result =>
    obtain ⟨a, mid⟩ := result
    obtain ⟨bound, part, again⟩ := done a mid read
    rw [bind_ok read, bind_ok again]
    obtain ⟨done', failed'⟩ := next a mid more (by omega)
    refine ⟨fun b rest made => ?_, failed'⟩
    obtain ⟨bound', part', again'⟩ := done' b rest made
    exact ⟨by omega, part'.trans part, again'⟩

theorem settles_take : Settles (take short n) (take short n) n := by
  intro input more enough
  have long : n ≤ (input ++ more).length := by
    rw [List.length_append]
    omega
  rw [Reader.take, Reader.take, if_pos enough, if_pos long, List.take_append_of_le_length enough,
    List.drop_append_of_le_length enough]
  constructor
  · intro bytes rest made
    obtain ⟨rfl, rfl⟩ := Prod.mk.inj (Except.ok.inj made)
    exact ⟨by rw [List.length_drop]; omega, List.drop_suffix n input, rfl⟩
  · intro e made
    cases made

theorem settles_untilByte {closed closed' : Bool} {stop : UInt8} (limit : Nat) :
    Settles (untilByte short closed stop limit) (untilByte short closed' stop limit) limit := by
  intro input more enough
  have long : limit ≤ (input ++ more).length := by
    rw [List.length_append]
    omega
  unfold untilByte
  rw [List.take_append_of_le_length enough, List.drop_append_of_le_length enough,
    if_pos (.inl enough), if_pos (.inl long)]
  cases found : (input.take limit).findIdx? (· = stop) with
  | none =>
    dsimp only
    constructor
    · intro bytes rest made
      obtain ⟨rfl, rfl⟩ := Prod.mk.inj (Except.ok.inj made)
      exact ⟨by rw [List.length_drop]; omega, List.drop_suffix limit input, rfl⟩
    · intro e made
      cases made
  | some i =>
    have inside : i < (input.take limit).length := (List.findIdx?_eq_some_iff_getElem.mp found).choose
    rw [List.length_take] at inside
    have part : i + 1 ≤ input.length := by omega
    dsimp only
    rw [List.take_append_of_le_length part, List.drop_append_of_le_length part]
    constructor
    · intro bytes rest made
      obtain ⟨rfl, rfl⟩ := Prod.mk.inj (Except.ok.inj made)
      exact ⟨by rw [List.length_drop]; omega, List.drop_suffix (i + 1) input, rfl⟩
    · intro e made
      cases made

end Settling

end Reader

end Gems.Lib

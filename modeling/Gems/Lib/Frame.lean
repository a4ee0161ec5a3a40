import Gems.Lib.Bytes

set_option autoImplicit false

namespace Gems.Lib

def framed (body : List UInt8) : List UInt8 := littleEndian 4 body.length ++ body

section Frame

variable {body rest : List UInt8} {n : Nat}

@[simp] theorem length_framed : (framed body).length = 4 + body.length := by
  rw [framed, List.length_append, length_littleEndian]

theorem framed_body : ((framed body ++ rest).drop 4).take body.length = body := by
  rw [framed, List.append_assoc, List.drop_left' (length_littleEndian 4 _), List.take_left]

theorem framed_rest : (framed body ++ rest).drop (4 + body.length) = rest :=
  List.drop_left' length_framed

theorem framed_number (small : body.length < 256 ^ 4) :
    ofLittleEndian ((framed body ++ rest).take 4) = body.length := by
  rw [framed, List.append_assoc, List.take_left' (length_littleEndian 4 _),
    ofLittleEndian_littleEndian small]

theorem framed_number_part (small : body.length < 256 ^ 4) (enough : 4 ≤ n) :
    ofLittleEndian (((framed body ++ rest).take n).take 4) = body.length := by
  rw [List.take_take, Nat.min_eq_left enough, framed_number small]

end Frame

/-- A decoder takes the bytes of `a` off the front of any stream and waits on a strict part of them. -/
structure Streams {E A : Type} (decode : List UInt8 → Except E (Option (A × Nat))) (bytes : List UInt8)
    (a : A) : Prop where
  whole : ∀ rest, decode (bytes ++ rest) = .ok (some (a, bytes.length))
  part : ∀ part, part <+: bytes → part ≠ bytes → decode part = .ok none

section Streams

variable {E A : Type} {decode : List UInt8 → Except E (Option (A × Nat))} {bytes : List UInt8} {a : A}

theorem Streams.mk_take (whole : ∀ rest, decode (bytes ++ rest) = .ok (some (a, bytes.length)))
    (part : ∀ n < bytes.length, decode (bytes.take n) = .ok none) : Streams decode bytes a := by
  refine ⟨whole, fun front within strict => ?_⟩
  rw [List.prefix_iff_eq_take] at within
  have short : front.length < bytes.length := by
    by_contra long
    exact strict (within.trans (List.take_of_length_le (Nat.le_of_not_lt long)))
  rw [within]
  exact part _ short

variable {encode : A → List UInt8} {as : List A} {front : List UInt8}

theorem Streams.split (idle : decode [] = .ok none) (streams : ∀ a ∈ as, Streams decode (encode a) a)
    (within : front <+: as.flatMap encode) :
    ∃ whole rest tail, as = whole ++ rest ∧ front = whole.flatMap encode ++ tail ∧ decode tail = .ok none := by
  induction as generalizing front with
  | nil =>
    refine ⟨[], [], [], rfl, ?_, idle⟩
    exact List.prefix_nil.mp within
  | cons a as ih =>
    rw [List.flatMap_cons] at within
    have first := streams a List.mem_cons_self
    rcases List.prefix_or_prefix_of_prefix within (List.prefix_append _ _) with short | ⟨later, rfl⟩
    next =>
      by_cases same : front = encode a
      next => exact ⟨[a], as, [], rfl, by simp [same], idle⟩
      next => exact ⟨[], a :: as, front, rfl, rfl, first.part front short same⟩
    next =>
      have inner : later <+: as.flatMap encode := (List.prefix_append_right_inj _).mp within
      obtain ⟨whole, rest, tail, rfl, rfl, waits⟩ := ih (fun b mem => streams b (List.mem_cons_of_mem a mem)) inner
      exact ⟨a :: whole, rest, tail, rfl, by rw [List.flatMap_cons, List.append_assoc], waits⟩

theorem Streams.next (idle : decode [] = .ok none) (streams : ∀ a ∈ as, Streams decode (encode a) a)
    (within : front <+: as.flatMap encode) :
    decode front = .ok none ∨ ∃ a rest tail, as = a :: rest ∧ front = encode a ++ tail ∧
      decode front = .ok (some (a, (encode a).length)) := by
  obtain ⟨whole, rest, tail, rfl, rfl, waits⟩ := split idle streams within
  cases whole with
  | nil => exact .inl waits
  | cons a whole =>
    refine .inr ⟨a, whole ++ rest, whole.flatMap encode ++ tail, rfl, ?_, ?_⟩
    next => rw [List.flatMap_cons, List.append_assoc]
    next =>
      rw [List.flatMap_cons, List.append_assoc]
      exact (streams a List.mem_cons_self).whole _

end Streams

end Gems.Lib

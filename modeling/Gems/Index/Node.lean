import Gems.Common
import Gems.Lib.Bytes
import Gems.Storage.Extent
import Mathlib.Data.List.Lex

set_option autoImplicit false

namespace Gems.Index

open Lib

-- A key or a value of fixed width.
class FixedCodec (A : Type) where
  len : Nat
  encode : A → List UInt8
  decode : List UInt8 → A
  length_encode : ∀ a, (encode a).length = len
  decode_encode : ∀ a, decode (encode a) = a

def leafType : UInt8 := 1

def internalType : UInt8 := 2

def leafHeaderLen : Nat := 1 + 2

def internalHeaderLen : Nat := 1 + 2

def leafCapacity (pageSize keyLen valueLen : Nat) : Nat :=
  (pageSize - leafHeaderLen) / (keyLen + valueLen)

def internalCapacity (pageSize keyLen : Nat) : Nat :=
  let budget := pageSize - internalHeaderLen
  if budget < 4 then 0 else (budget - 4) / (keyLen + 4)

def corrupt (detail : String) : Fault := .raised (.corruptPage detail)

def nodeType : List UInt8 → Except Fault UInt8
  | [] => .error (corrupt "empty node buffer")
  | b :: _ => .ok b

variable {K V : Type} [FixedCodec K] [FixedCodec V]

def encodeEntry (e : K × V) : List UInt8 := FixedCodec.encode e.1 ++ FixedCodec.encode e.2

variable (K V) in
def decodeEntry (bytes : List UInt8) : K × V :=
  (FixedCodec.decode (bytes.take (FixedCodec.len K)), FixedCodec.decode (bytes.drop (FixedCodec.len K)))

variable (K V) in
def entryLen : Nat := FixedCodec.len K + FixedCodec.len V

variable (K V) in
def decodeLeaf (buf : List UInt8) : Except Fault (List (K × V)) :=
  if buf.head? ≠ some leafType then .error (corrupt "expected leaf node")
  else if buf.length < 3 then .error (corrupt "leaf node shorter than its header")
  else
    let keyCount := ofLittleEndian ((buf.drop 1).take 2)
    if keyCount > (buf.length - leafHeaderLen) / entryLen K V then
      .error (corrupt "leaf node key_count exceeds what the page could hold")
    else .ok (readMany (entryLen K V) (decodeEntry K V) keyCount (buf.drop leafHeaderLen))

variable (K) in
def decodeInternal (buf : List UInt8) : Except Fault (List K × List Nat) :=
  if buf.head? ≠ some internalType then .error (corrupt "expected internal node")
  else if buf.length < 3 then .error (corrupt "internal node shorter than its header")
  else
    let keyCount := ofLittleEndian ((buf.drop 1).take 2)
    if keyCount > (buf.length - (internalHeaderLen + 4)) / (FixedCodec.len K + 4) then
      .error (corrupt "internal node key_count exceeds what the page could hold")
    else if internalHeaderLen + keyCount * FixedCodec.len K + (keyCount + 1) * 4 ≤ buf.length then
      let keys := buf.drop internalHeaderLen
      .ok (readMany (FixedCodec.len K) FixedCodec.decode keyCount keys,
        readMany 4 ofLittleEndian (keyCount + 1) (keys.drop (keyCount * FixedCodec.len K)))
    else .error .panicked

-- The rest of the page is zero; a node that does not fit is an index out of bounds.
def padTo (pageSize : Nat) (body : List UInt8) : Except Fault (List UInt8) :=
  if body.length ≤ pageSize then .ok (body ++ List.replicate (pageSize - body.length) 0)
  else .error .panicked

def encodeLeaf (pageSize : Nat) (entries : List (K × V)) : Except Fault (List UInt8) :=
  padTo pageSize ([leafType] ++ littleEndian 2 entries.length ++ entries.flatMap encodeEntry)

def encodeInternal (pageSize : Nat) (keys : List K) (children : List Nat) :
    Except Fault (List UInt8) :=
  padTo pageSize ([internalType] ++ littleEndian 2 keys.length ++ keys.flatMap FixedCodec.encode ++
    children.flatMap (littleEndian 4))

section RoundTrip

variable {pageSize : Nat} {entries : List (K × V)} {keys : List K} {children : List Nat}

theorem length_encodeEntry (e : K × V) : (encodeEntry e).length = entryLen K V := by
  rw [encodeEntry, List.length_append, FixedCodec.length_encode, FixedCodec.length_encode, entryLen]

theorem decodeEntry_encodeEntry (e : K × V) : decodeEntry K V (encodeEntry e) = e := by
  rw [decodeEntry, encodeEntry, List.take_left' (FixedCodec.length_encode e.1),
    List.drop_left' (FixedCodec.length_encode e.1), FixedCodec.decode_encode,
    FixedCodec.decode_encode]

theorem padTo_ok {body : List UInt8} (fits : body.length ≤ pageSize) :
    ∃ page rest, padTo pageSize body = .ok page ∧ page = body ++ rest ∧ page.length = pageSize := by
  refine ⟨_, _, if_pos fits, rfl, ?_⟩
  rw [List.length_append, List.length_replicate]
  omega

theorem leaf_fits (fits : entries.length ≤ leafCapacity pageSize (FixedCodec.len K) (FixedCodec.len V))
    (header : leafHeaderLen ≤ pageSize) :
    ([leafType] ++ littleEndian 2 entries.length ++ entries.flatMap encodeEntry).length ≤ pageSize := by
  have body := Nat.div_mul_le_self (pageSize - leafHeaderLen) (entryLen K V)
  have part : entries.length * entryLen K V ≤ (pageSize - leafHeaderLen) / entryLen K V * entryLen K V :=
    Nat.mul_le_mul_right _ fits
  simp only [List.length_append, List.length_singleton, length_littleEndian,
    length_records fun e _ => length_encodeEntry e]
  rw [leafHeaderLen] at *
  omega

theorem encodeLeaf_ok
    (fits : entries.length ≤ leafCapacity pageSize (FixedCodec.len K) (FixedCodec.len V))
    (header : leafHeaderLen ≤ pageSize) (small : entries.length < 65536) :
    ∃ page, encodeLeaf pageSize entries = .ok page ∧ page.length = pageSize ∧
      nodeType page = .ok leafType ∧ decodeLeaf K V page = .ok entries := by
  obtain ⟨page, rest, made, rfl, size⟩ := padTo_ok (leaf_fits fits header)
  refine ⟨_, made, size, rfl, ?_⟩
  have count : ofLittleEndian (littleEndian 2 entries.length) = entries.length :=
    ofLittleEndian_littleEndian small
  have tail : ([leafType] ++ littleEndian 2 entries.length ++ entries.flatMap encodeEntry ++ rest).drop
      leafHeaderLen = entries.flatMap encodeEntry ++ rest := by
    rw [List.append_assoc]
    exact List.drop_left' (by rw [List.length_append, length_littleEndian]; rfl)
  have number : (([leafType] ++ littleEndian 2 entries.length ++ entries.flatMap encodeEntry ++
      rest).drop 1).take 2 = littleEndian 2 entries.length := by
    simp only [List.append_assoc]
    exact List.take_left' (length_littleEndian 2 _)
  have few : ¬ entries.length > (pageSize - leafHeaderLen) / entryLen K V := Nat.not_lt.mpr fits
  unfold decodeLeaf
  simp only [number, tail, count, size]
  rw [leafHeaderLen] at header
  rw [if_neg (by simp), if_neg (by omega), if_neg few,
    readMany_records (fun e _ => length_encodeEntry e) fun e _ => decodeEntry_encodeEntry e]

theorem internal_fits (fits : keys.length ≤ internalCapacity pageSize (FixedCodec.len K))
    (header : internalHeaderLen + 4 ≤ pageSize) :
    internalHeaderLen + keys.length * FixedCodec.len K + (keys.length + 1) * 4 ≤ pageSize ∧
      keys.length ≤ (pageSize - (internalHeaderLen + 4)) / (FixedCodec.len K + 4) := by
  rw [internalHeaderLen] at *
  rw [internalCapacity, internalHeaderLen] at fits
  rw [if_neg (by omega), Nat.sub_sub] at fits
  have body := Nat.div_mul_le_self (pageSize - (1 + 2 + 4)) (FixedCodec.len K + 4)
  have part : keys.length * (FixedCodec.len K + 4) ≤
      (pageSize - (1 + 2 + 4)) / (FixedCodec.len K + 4) * (FixedCodec.len K + 4) :=
    Nat.mul_le_mul_right _ fits
  rw [Nat.mul_add] at part
  exact ⟨by omega, fits⟩

theorem encodeInternal_ok (fits : keys.length ≤ internalCapacity pageSize (FixedCodec.len K))
    (header : internalHeaderLen + 4 ≤ pageSize) (small : keys.length < 65536)
    (links : children.length = keys.length + 1) (ids : ∀ i ∈ children, i < 2 ^ 32) :
    ∃ page, encodeInternal pageSize keys children = .ok page ∧ page.length = pageSize ∧
      nodeType page = .ok internalType ∧ decodeInternal K page = .ok (keys, children) := by
  obtain ⟨room, few⟩ := internal_fits fits header
  have keysLen := length_records fun k (_ : k ∈ keys) => FixedCodec.length_encode k
  have linksLen := length_records fun i (_ : i ∈ children) => length_littleEndian 4 i
  have whole : ([internalType] ++ littleEndian 2 keys.length ++ keys.flatMap FixedCodec.encode ++
      children.flatMap (littleEndian 4)).length ≤ pageSize := by
    simp only [List.length_append, List.length_singleton, length_littleEndian, keysLen, linksLen]
    rw [links]
    rw [internalHeaderLen] at room
    omega
  obtain ⟨page, rest, made, rfl, size⟩ := padTo_ok whole
  refine ⟨_, made, size, rfl, ?_⟩
  have count : ofLittleEndian (littleEndian 2 keys.length) = keys.length :=
    ofLittleEndian_littleEndian small
  have number : (([internalType] ++ littleEndian 2 keys.length ++ keys.flatMap FixedCodec.encode ++
      children.flatMap (littleEndian 4) ++ rest).drop 1).take 2 = littleEndian 2 keys.length := by
    simp only [List.append_assoc]
    exact List.take_left' (length_littleEndian 2 _)
  have tail : ([internalType] ++ littleEndian 2 keys.length ++ keys.flatMap FixedCodec.encode ++
      children.flatMap (littleEndian 4) ++ rest).drop internalHeaderLen =
      keys.flatMap FixedCodec.encode ++ (children.flatMap (littleEndian 4) ++ rest) := by
    simp only [List.append_assoc]
    rw [← List.append_assoc]
    exact List.drop_left' (by rw [List.length_append, length_littleEndian]; rfl)
  unfold decodeInternal
  simp only [number, tail, count, size]
  rw [internalHeaderLen] at header
  rw [if_neg (by simp), if_neg (by omega), if_neg (Nat.not_lt.mpr few), if_pos room,
    readMany_records (fun k _ => FixedCodec.length_encode k) fun k _ => FixedCodec.decode_encode k,
    List.drop_left' keysLen, ← links,
    readMany_records (fun i _ => length_littleEndian 4 i) fun i mem =>
      ofLittleEndian_littleEndian (ids i mem)]

theorem decodeLeaf_fits {buf : List UInt8} (h : decodeLeaf K V buf = .ok entries) :
    entries.length ≤ leafCapacity buf.length (FixedCodec.len K) (FixedCodec.len V) := by
  unfold decodeLeaf at h
  split at h
  · cases h
  · split at h
    · cases h
    · dsimp only at h
      split at h
      · cases h
      next few =>
        obtain rfl := Except.ok.inj h
        rw [length_readMany]
        exact Nat.le_of_not_gt few

theorem decodeInternal_fits {buf : List UInt8} (h : decodeInternal K buf = .ok (keys, children))
    (header : internalHeaderLen + 4 ≤ buf.length) :
    keys.length ≤ internalCapacity buf.length (FixedCodec.len K) := by
  unfold decodeInternal at h
  split at h
  · cases h
  · split at h
    · cases h
    · dsimp only at h
      split at h
      · cases h
      next few =>
        split at h
        · obtain ⟨rfl, -⟩ := Prod.mk.inj (Except.ok.inj h)
          rw [length_readMany, internalCapacity, if_neg (by omega), Nat.sub_sub]
          exact Nat.le_of_not_gt few
        · cases h

end RoundTrip

end Gems.Index

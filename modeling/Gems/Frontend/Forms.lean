import Gems.Frontend.Http
import Gems.Lib.Hex
import Mathlib.Data.List.TakeDrop

set_option autoImplicit false

namespace Gems.Frontend.Webui

open Lib

section Statement

inductive UrlSpelling : List UInt8 → List UInt8 → Prop where
  | nil : UrlSpelling [] []
  | plain {b : UInt8} {text bytes : List UInt8} (plus : b ≠ 43) (percent : b ≠ 37) (rest : UrlSpelling text bytes) :
      UrlSpelling (b :: text) (b :: bytes)
  | blank {text bytes : List UInt8} (rest : UrlSpelling text bytes) : UrlSpelling (43 :: text) (32 :: bytes)
  | escaped {a b : UInt8} {x y : Nat} {text bytes : List UInt8} (high : hexDigit a = some x) (low : hexDigit b = some y)
      (rest : UrlSpelling text bytes) : UrlSpelling (37 :: a :: b :: text) (UInt8.ofNat (16 * x + y) :: bytes)

def UrlText (text : List Char) (s : String) : Prop := UrlSpelling (encodeChars text) (utf8 s)

inductive QueryPiece : List Char → List (String × String) → Prop where
  | nothing : QueryPiece [] []
  | alone {k : List Char} {key : String} (some : k ≠ []) (apart : '=' ∉ k) (spelled : UrlText k key) :
      QueryPiece k [(key, "")]
  | pair {k v : List Char} {key value : String} (apart : '=' ∉ k) (spelled : UrlText k key) (valued : UrlText v value) :
      QueryPiece (k ++ '=' :: v) [(key, value)]

/-- The pieces of a query stand between ampersands. -/
inductive QueryText : List Char → List (String × String) → Prop where
  | last {piece : List Char} {pairs : List (String × String)} (apart : '&' ∉ piece) (spelled : QueryPiece piece pairs) :
      QueryText piece pairs
  | more {piece text : List Char} {pairs pairs' : List (String × String)} (apart : '&' ∉ piece)
      (spelled : QueryPiece piece pairs) (rest : QueryText text pairs') :
      QueryText (piece ++ '&' :: text) (pairs ++ pairs')

end Statement

section Splitting

variable {c : Char} {before after text : List Char}

theorem splitOnce_append (apart : c ∉ before) : splitOnce c (before ++ c :: after) = (before, some after) := by
  have all : ∀ d ∈ before, decide (d ≠ c) = true := by
    intro d mem
    exact decide_eq_true fun same => apart (same ▸ mem)
  have stop : decide (c ≠ c) = false := decide_eq_false fun other => other rfl
  rw [splitOnce, List.span_eq_takeWhile_dropWhile, List.takeWhile_append_of_pos all, List.dropWhile_append_of_pos all,
    List.takeWhile_cons, List.dropWhile_cons, stop]
  simp

theorem splitOnce_missing (apart : c ∉ text) : splitOnce c text = (text, none) := by
  have all : ∀ d ∈ text, decide (d ≠ c) = true := by
    intro d mem
    exact decide_eq_true fun same => apart (same ▸ mem)
  rw [splitOnce, List.span_eq_takeWhile_dropWhile, List.takeWhile_eq_self_iff.mpr all,
    List.dropWhile_eq_nil_iff.mpr all]

end Splitting

section Decoding

variable {text bytes : List UInt8} {turns : Nat}

theorem urlBytes_spelled (spelled : UrlSpelling text bytes) (enough : text.length ≤ turns) :
    urlBytes turns text = bytes := by
  induction spelled generalizing turns with
  | nil => cases turns <;> rfl
  | @plain b text bytes plus percent rest ih =>
    obtain ⟨left, rfl⟩ : ∃ left, turns = left + 1 := ⟨turns - 1, by rw [List.length_cons] at enough; omega⟩
    have read : urlByte (b :: text) = some (b, 1) := by
      dsimp only [urlByte]
      rw [if_neg plus, if_neg percent]
    rw [urlBytes, read]
    exact congrArg (b :: ·) (ih (Nat.le_of_succ_le_succ enough))
  | @blank text bytes rest ih =>
    obtain ⟨left, rfl⟩ : ∃ left, turns = left + 1 := ⟨turns - 1, by rw [List.length_cons] at enough; omega⟩
    have read : urlByte (43 :: text) = some (32, 1) := rfl
    rw [urlBytes, read]
    exact congrArg (32 :: ·) (ih (Nat.le_of_succ_le_succ enough))
  | @escaped a b x y text bytes high low rest ih =>
    simp only [List.length_cons] at enough
    obtain ⟨left, rfl⟩ : ∃ left, turns = left + 1 := ⟨turns - 1, by omega⟩
    have read : urlByte (37 :: a :: b :: text) = some (UInt8.ofNat (16 * x + y), 3) := by
      dsimp only [urlByte]
      rw [if_neg (by decide), if_pos rfl, fromStrRadix16_digits high low]
    rw [urlBytes, read]
    exact congrArg (UInt8.ofNat (16 * x + y) :: ·) (ih (show text.length ≤ left by omega))

theorem urlDecode_text {text : List Char} {s : String} (spelled : UrlText text s) : urlDecode text = s := by
  rw [urlDecode, urlBytes_spelled spelled (Nat.le_refl _), fromUtf8Lossy_utf8]

end Decoding

section Query

variable {piece text : List Char} {pairs : List (String × String)}

def queryPair (pair : List Char) : String × String :=
  match splitOnce '=' pair with
  | (k, some v) => (urlDecode k, urlDecode v)
  | (pair, none) => (urlDecode pair, "")

theorem parseQueryString_eq (text : List Char) : parseQueryString text =
    if text.isEmpty then [] else ((text.splitOn '&').filter fun pair => !pair.isEmpty).map queryPair := rfl

theorem piece_pairs (spelled : QueryPiece piece pairs) :
    ([piece].filter fun pair => !pair.isEmpty).map queryPair = pairs := by
  cases spelled with
  | nothing => rfl
  | alone some apart spelled =>
    rw [List.filter_cons_of_pos (by simpa using some), List.filter_nil, List.map_singleton, queryPair,
      splitOnce_missing apart]
    dsimp only
    rw [urlDecode_text spelled]
  | pair apart spelled valued =>
    rw [List.filter_cons_of_pos (by simp), List.filter_nil, List.map_singleton, queryPair, splitOnce_append apart]
    dsimp only
    rw [urlDecode_text spelled, urlDecode_text valued]

theorem pieces_pairs (written : QueryText text pairs) :
    ((text.splitOn '&').filter fun pair => !pair.isEmpty).map queryPair = pairs := by
  induction written with
  | last apart spelled =>
    rw [List.splitOn_eq_singleton apart]
    exact piece_pairs spelled
  | @more piece text pairs pairs' apart spelled rest ih =>
    rw [List.splitOn_append_cons_self_of_not_mem apart, ← List.singleton_append,
      List.filter_append, List.map_append, ih,
      piece_pairs spelled]

theorem parseQueryString_text (written : QueryText text pairs) : parseQueryString text = pairs := by
  rw [parseQueryString_eq]
  split
  next none =>
    obtain rfl := List.isEmpty_iff.mp none
    exact pieces_pairs written
  next => exact pieces_pairs written

end Query

end Gems.Frontend.Webui

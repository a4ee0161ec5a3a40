import Gems.Json.Write

set_option autoImplicit false

namespace Gems.Json

open Lib Scanner

section Nesting

variable {items : List Value} {entries : List (String × Value)} {n room : Nat}

namespace Value

theorem nestingItems_le (each : ∀ v ∈ items, v.nesting ≤ n) : nestingItems items ≤ n := by
  induction items with
  | nil => exact Nat.zero_le n
  | cons v items ih =>
    rw [nestingItems]
    exact max_le (each v List.mem_cons_self) (ih fun w mem => each w (List.mem_cons_of_mem v mem))

theorem nestingEntries_le (each : ∀ entry ∈ entries, entry.2.nesting ≤ n) : nestingEntries entries ≤ n := by
  induction entries with
  | nil => exact Nat.zero_le n
  | cons entry entries ih =>
    rw [nestingEntries, nestingEntry]
    exact max_le (each entry List.mem_cons_self) (ih fun other mem => each other (List.mem_cons_of_mem entry mem))

end Value

namespace Parser

variable {A : Type} {item : Parser A} {Q : A → Prop} {close opening : Char} {value : Parser Value}

theorem yields_items (each : Yields item Q) (fuel : Nat) :
    Yields (parseItems item close fuel) fun items => ∀ a ∈ items, Q a := by
  induction fuel with
  | zero => exact yields_fail
  | succ fuel ih =>
    refine yields_bind each fun a holds => yields_after fun _ => yields_after fun found => ?_
    split
    next =>
      refine yields_bind ih fun items all => yields_pure ?_
      exact List.forall_mem_cons.mpr ⟨holds, all⟩
    next =>
      split
      next => exact yields_pure (List.forall_mem_singleton.mpr holds)
      next => exact yields_fail

theorem yields_bracketed (each : Yields item Q) :
    Yields (parseBracketed opening close item) fun items => ∀ a ∈ items, Q a := by
  refine yields_after fun _ => yields_after fun _ => yields_after fun found => ?_
  split
  next => exact yields_after fun _ => yields_pure fun a none => absurd none List.not_mem_nil
  next => exact yields_after fun text => yields_items each _

theorem yields_member (each : Yields value fun v => v.nesting ≤ n) :
    Yields (parseMember value) fun entry => entry.2.nesting ≤ n :=
  yields_after fun _ => yields_after fun _ => yields_after fun _ => yields_after fun _ =>
    yields_bind each fun _ shallow => yields_pure shallow

theorem yields_number : Yields parseNumber fun v => v.nesting ≤ n := by
  refine yields_after fun _ => yields_after fun _ => yields_after fun _ => yields_after fun _ => ?_
  dsimp only
  split
  next => exact yields_pure (Nat.zero_le n)
  next => exact yields_fail

-- One level of values: what is inside is one level deeper.
theorem yields_any {inner : Option (Parser Value)}
    (each : ∀ value ∈ inner, ∃ m, n = m + 1 ∧ Yields value fun v => v.nesting ≤ m) :
    Yields (parseAny inner) fun v => v.nesting ≤ n := by
  refine yields_after fun _ => yields_after fun found => ?_
  split
  next =>
    cases inner with
    | none => exact yields_fail
    | some value =>
      obtain ⟨m, rfl, shallow⟩ := each value rfl
      refine yields_bind (yields_bracketed (yields_member shallow)) fun entries all => yields_pure ?_
      exact Nat.succ_le_succ (Value.nestingEntries_le all)
  next =>
    cases inner with
    | none => exact yields_fail
    | some value =>
      obtain ⟨m, rfl, shallow⟩ := each value rfl
      refine yields_bind (yields_bracketed shallow) fun items all => yields_pure ?_
      exact Nat.succ_le_succ (Value.nestingItems_le all)
  next => exact yields_after fun _ => yields_pure (Nat.zero_le n)
  next => exact yields_after fun _ => yields_pure (Nat.zero_le n)
  next => exact yields_after fun _ => yields_pure (Nat.zero_le n)
  next => exact yields_after fun _ => yields_pure (Nat.zero_le n)
  next =>
    split
    next => exact yields_number
    next => exact yields_fail

theorem yields_value (room : Nat) : Yields (parseValue room) fun v => v.nesting ≤ room := by
  induction room with
  | zero => exact yields_any fun value none => by cases none
  | succ room ih =>
    refine yields_any fun value same => ?_
    cases same
    exact ⟨room, rfl, ih⟩

end Parser

theorem parse_nesting {text : String} {v : Value} (parsed : parse text = .ok v) : v.nesting ≤ maxNestingDepth := by
  have all : Yields Parser.parseAll fun v => v.nesting ≤ maxNestingDepth := by
    refine yields_after fun _ => yields_bind (Parser.yields_value maxNestingDepth) fun v shallow => ?_
    refine yields_after fun _ => yields_after fun found => ?_
    split
    next => exact yields_fail
    next => exact yields_pure shallow
  rw [parse] at parsed
  cases run : Parser.parseAll text.toList with
  | error e =>
    rw [run] at parsed
    cases parsed
  | ok result =>
    rw [run] at parsed
    cases parsed
    exact all _ _ _ run

end Nesting

section OneLine

variable {text : List Char} {texts : List (List Char)} {v : Value}

theorem newline_not_mem_writeChar (c : Char) : '\n' ∉ writeChar c := by
  unfold writeChar
  split
  next => decide
  next => decide
  next => decide
  next => decide
  next => decide
  next line _ _ =>
    split
    next =>
      intro mem
      rcases List.mem_cons.mp mem with slash | mem
      · cases slash
      rcases List.mem_cons.mp mem with letter | mem
      · cases letter
      have digits (width k : Nat) : '\n' ∉ hexText width k := by
        induction width generalizing k with
        | zero => exact List.not_mem_nil
        | succ width ih =>
          rw [hexText, List.mem_append, List.mem_singleton, not_or]
          refine ⟨ih _, ?_⟩
          have small : k % 16 < 16 := Nat.mod_lt _ (by decide)
          generalize k % 16 = d at small
          interval_cases d <;> decide
      exact digits 4 _ mem
    next =>
      intro mem
      exact line (List.mem_singleton.mp mem).symm

theorem newline_not_mem_writeString (s : String) : '\n' ∉ writeString s := by
  rw [writeString, List.mem_cons, not_or, List.mem_append, not_or]
  refine ⟨by decide, fun mem => ?_, by decide⟩
  obtain ⟨c, -, inside⟩ := List.mem_flatMap.mp mem
  exact newline_not_mem_writeChar c inside

theorem newline_not_mem_digits {digits : List Char} (all : Digits digits) : '\n' ∉ digits := fun mem => by
  cases all _ mem

theorem newline_not_mem_number {n : F64} (numeral : NumberText text n) : '\n' ∉ text := by
  have unsigned {whole fraction part exponent : List Char} {e : ℤ}
    (digits : Whole whole) (pointed : Fraction fraction part)
      (raised : Exponent exponent e) : '\n' ∉ whole ++ (fraction ++ exponent) := by
    rw [List.mem_append, not_or, List.mem_append, not_or]
    refine ⟨newline_not_mem_digits digits.1, ?_, ?_⟩
    · cases pointed with
      | none => exact List.not_mem_nil
      | some digits => exact List.not_mem_cons_of_ne_of_not_mem (by decide) (newline_not_mem_digits digits)
    · cases raised with
      | none => exact List.not_mem_nil
      | plain letter all =>
        refine List.not_mem_cons_of_ne_of_not_mem ?_ (newline_not_mem_digits all)
        rcases letter with rfl | rfl <;> decide
      | plus letter all =>
        refine List.not_mem_cons_of_ne_of_not_mem ?_
          (List.not_mem_cons_of_ne_of_not_mem (by decide) (newline_not_mem_digits all))
        rcases letter with rfl | rfl <;> decide
      | minus letter all =>
        refine List.not_mem_cons_of_ne_of_not_mem ?_
          (List.not_mem_cons_of_ne_of_not_mem (by decide) (newline_not_mem_digits all))
        rcases letter with rfl | rfl <;> decide
  cases numeral with
  | positive digits pointed raised => exact unsigned digits pointed raised
  | negative digits pointed raised =>
    exact List.not_mem_cons_of_ne_of_not_mem (by decide) (unsigned digits pointed raised)

theorem newline_not_mem_commaSeparated (each : ∀ text ∈ texts, '\n' ∉ text) : '\n' ∉ commaSeparated texts := by
  induction texts with
  | nil => exact List.not_mem_nil
  | cons text texts ih =>
    have first := each text List.mem_cons_self
    cases texts with
    | nil => exact first
    | cons other texts =>
      change '\n' ∉ text ++ ',' :: commaSeparated (other :: texts)
      rw [List.mem_append, not_or, List.mem_cons, not_or]
      exact ⟨first, by decide, ih fun other mem => each other (List.mem_cons_of_mem text mem)⟩

theorem newline_not_mem_write (numbers : v.Numbers Value.Written) : '\n' ∉ v.write := by
  induction numbers with
  | null => decide
  | @bool b => cases b <;> decide
  | number written => exact newline_not_mem_number written.text
  | string => exact newline_not_mem_writeString _
  | @array items _ ih =>
    rw [Value.write, Value.writeItems_eq, List.mem_cons, not_or, List.mem_append, not_or]
    refine ⟨by decide, newline_not_mem_commaSeparated fun text mem => ?_, by decide⟩
    obtain ⟨v, inside, rfl⟩ := List.mem_map.mp mem
    exact ih v inside
  | @object entries _ ih =>
    rw [Value.write, Value.writeEntries_eq, List.mem_cons, not_or, List.mem_append, not_or]
    refine ⟨by decide, newline_not_mem_commaSeparated fun text mem => ?_, by decide⟩
    obtain ⟨entry, inside, rfl⟩ := List.mem_map.mp mem
    rw [List.mem_append, not_or, List.mem_cons, not_or]
    exact ⟨newline_not_mem_writeString entry.1, by decide, ih entry inside⟩

end OneLine

section Objects

namespace Value

variable {entries : List (String × Value)} {entry : String × Value} {key : String} {value v : Value} {P : F64 → Prop}
  {n : Nat}

theorem of_mem_setEntry (mem : entry ∈ setEntry key value entries) : entry ∈ entries ∨ entry.2 = value := by
  rw [setEntry] at mem
  split at mem
  next i _ =>
    obtain ⟨j, inside, rfl⟩ := List.mem_iff_getElem.mp mem
    rw [List.length_modify] at inside
    rw [List.getElem_modify]
    split
    next => exact .inr rfl
    next => exact .inl (List.getElem_mem inside)
  next =>
    rcases List.mem_append.mp mem with old | last
    next => exact .inl old
    next =>
      obtain rfl := List.mem_singleton.mp last
      exact .inr rfl

-- `set`, key by key, on a new object.
def objectOf (entries : List (String × Value)) : Value :=
  .object (entries.foldl (fun v entry => setEntry entry.1 entry.2 v) [])

theorem objectOf_each {Q : Value → Prop} (each : ∀ entry ∈ entries, Q entry.2) :
    ∃ all, objectOf entries = .object all ∧ ∀ entry ∈ all, Q entry.2 := by
  refine ⟨_, rfl, ?_⟩
  refine List.foldlRecOn (motive := fun v : List (String × Value) => ∀ entry ∈ v, Q entry.2) entries _
    (fun entry none => absurd none List.not_mem_nil) ?_
  intro v known added inside entry mem
  rcases of_mem_setEntry mem with old | new
  next => exact known entry old
  next => exact new ▸ each added inside

theorem numbers_objectOf (each : ∀ entry ∈ entries, entry.2.Numbers P) : (objectOf entries).Numbers P := by
  obtain ⟨all, same, holds⟩ := objectOf_each (Q := fun v => v.Numbers P) each
  rw [same]
  exact .object holds

theorem nesting_objectOf (each : ∀ entry ∈ entries, entry.2.nesting ≤ n) : (objectOf entries).nesting ≤ n + 1 := by
  obtain ⟨all, same, holds⟩ := objectOf_each (Q := fun v => v.nesting ≤ n) each
  rw [same, nesting]
  exact Nat.succ_le_succ (nestingEntries_le holds)

theorem get_unsigned (v : Value) (key : String) : v.unsigned.get key = (v.get key).map unsigned := by
  cases v with
  | object entries =>
    rw [unsigned, unsignedEntries_eq, get, get, List.find?_map, Option.map_map, Option.map_map]
    rfl
  | _ => rfl

theorem unsigned_of_numberless (numbers : v.Numbers fun _ => False) : v.unsigned = v := by
  induction numbers with
  | null => rfl
  | bool => rfl
  | number none => exact none.elim
  | string => rfl
  | @array items _ ih =>
    rw [unsigned, unsignedItems_eq]
    exact congrArg array ((List.map_congr_left ih).trans (List.map_id items))
  | @object entries _ ih =>
    rw [unsigned, unsignedEntries_eq]
    have each (entry : String × Value) (mem : entry ∈ entries) : (entry.1, entry.2.unsigned) = entry := by
      rw [ih entry mem]
    exact congrArg object ((List.map_congr_left each).trans (List.map_id entries))

theorem parse_toString_numberless (numbers : v.Numbers fun _ => False) (fits : v.nesting ≤ maxNestingDepth) :
    parse v.toString = .ok v := by
  rw [parse_toString (numbers.imp fun _ none => none.elim) fits, unsigned_of_numberless numbers]

end Value

end Objects

end Gems.Json

import Gems.Lib.Float64

set_option autoImplicit false

namespace Gems.Json

open Lib

inductive Value where
  | null
  | bool (b : Bool)
  | number (n : F64)
  | string (s : String)
  | array (items : List Value)
  | object (entries : List (String × Value))

namespace Value

-- `PartialEq`, which compares numbers as numbers.
mutual

def eq : Value → Value → Bool
  | .null, .null => true
  | .bool a, .bool b => a == b
  | .number a, .number b => a.eq b
  | .string a, .string b => a == b
  | .array a, .array b => eqItems a b
  | .object a, .object b => eqEntries a b
  | _, _ => false
termination_by structural v => v

def eqItems : List Value → List Value → Bool
  | [], [] => true
  | v :: items, w :: items' => v.eq w && eqItems items items'
  | _, _ => false
termination_by structural v => v

def eqEntries : List (String × Value) → List (String × Value) → Bool
  | [], [] => true
  | entry :: entries, entry' :: entries' => eqEntry entry entry' && eqEntries entries entries'
  | _, _ => false
termination_by structural v => v

def eqEntry : String × Value → String × Value → Bool
  | (key, v), other => key == other.1 && v.eq other.2
termination_by structural v => v

end

-- How deep arrays and objects nest.
mutual

def nesting : Value → Nat
  | .array items => nestingItems items + 1
  | .object entries => nestingEntries entries + 1
  | _ => 0

def nestingItems : List Value → Nat
  | [] => 0
  | v :: items => max v.nesting (nestingItems items)

def nestingEntries : List (String × Value) → Nat
  | [] => 0
  | entry :: entries => max (nestingEntry entry) (nestingEntries entries)

def nestingEntry : String × Value → Nat
  | (_, v) => v.nesting

end

-- `set`, on the entries of an object.
def setEntry (key : String) (value : Value) (entries : List (String × Value)) : List (String × Value) :=
  match entries.findIdx? fun entry => entry.1 == key with
  | some i => entries.modify i fun entry => (entry.1, value)
  | none => entries ++ [(key, value)]

def get (key : String) : Value → Option Value
  | .object entries => (entries.find? fun entry => entry.1 == key).map Prod.snd
  | _ => none

def asStr : Value → Option String
  | .string s => some s
  | _ => none

def asF64 : Value → Option F64
  | .number n => some n
  | _ => none

def asArray : Value → Option (List Value)
  | .array items => some items
  | _ => none

end Value

end Gems.Json

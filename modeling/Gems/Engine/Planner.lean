import Gems.Engine.Store
import Gems.Query
import Mathlib.Data.List.Sort

set_option autoImplicit false

namespace Gems.Engine

open Lib Catalog Index

def invalid (detail : String) : Fault := .raised (.invalidValue detail)

namespace Store

def resolveOrdinals (fuel : Nat) (s : Store) (ordinals : Finset Ordinal) : Except Fault (List Tuid) :=
  (ordinals.sort (· ≤ ·)).mapM fun ord => do
    match ← BTree.get Tuid fuel s.idByOrdinal ord with
    | some id => pure id
    | none => throw (corrupt "secondary index referenced an ordinal with no reverse mapping")

def queryByKind (fuel : Nat) (s : Store) (kind : EntityKind) : Except Fault (List Tuid) :=
  s.resolveOrdinals fuel (s.byKind.get (kindKey kind))

def queryBySchemaRef (fuel : Nat) (s : Store) (typeId : Tuid) : Except Fault (List Tuid) :=
  s.resolveOrdinals fuel (s.bySchemaRef.get (schemaRefKey typeId))

def findEntityTypeByName (fuel : Nat) (s : Store) (name : String) : Except Fault (Option Tuid) := do
  let ids ← s.resolveOrdinals fuel (s.entityTypeByName.get (nameKey name))
  pure ids.head?

-- One turn of the loop over the values.
def matchValue (fuel : Nat) (s : Store) (matched : Finset Ordinal) (value : Query.Literal) :
    Except Fault (Finset Ordinal) :=
  match value with
  | .ident name | .str name => do
    match ← s.findEntityTypeByName fuel name with
    | some typeId => pure (matched ∪ s.bySchemaRef.get (schemaRefKey typeId))
    | none => pure matched
  | _ => throw (invalid "type names in `type IN (...)` must be identifiers or strings")

def evalTypeInFilter (fuel : Nat) (s : Store) (expr : Query.Expr) : Except Fault (List Tuid) :=
  match expr with
  | .in_ field values =>
    if eqIgnoreAsciiCase field "type" then do
      let matched ← values.foldlM (s.matchValue fuel) ∅
      s.resolveOrdinals fuel matched
    else throw (invalid "this v1 planner only supports filtering on `type`")
  | _ => throw (invalid "this v1 planner only supports a top-level `type IN (...)` filter")

def truncate (limit : Option UInt64) (ids : List Tuid) : List Tuid :=
  match limit with
  | none => ids
  | some limit => ids.take limit.toNat

def query (fuel : Nat) (s : Store) (query : Query) : Except Fault (List Tuid) := do
  if !eqIgnoreAsciiCase query.from_ "entities" then
    throw (invalid "the only queryable source is `entities`")
  else if !query.orderBy.isEmpty then
    throw (invalid "ORDER BY is not supported by this v1 planner")
  else
    let ids ← match query.filter with
      | none => do
        let entities ← s.scanAll fuel
        pure (entities.map fun entity => entity.1.id)
      | some filter => s.evalTypeInFilter fuel filter
    pure (truncate query.limit (ids.insertionSort (· ≤ ·)))

end Store

end Gems.Engine

import Gems.Common

set_option autoImplicit false

namespace Gems

namespace Query

inductive SelectList where
  | all
  | fields (names : List String)

structure OrderItem where
  field : String
  descending : Bool

inductive CompareOp where
  | eq | neq | lt | lte | gt | gte

inductive Literal where
  | str (s : String)
  -- The bits of the f64.
  | num (bits : UInt64)
  | bool (b : Bool)
  | ident (s : String)

inductive Expr where
  | and (left right : Expr)
  | or (left right : Expr)
  | not (expr : Expr)
  | compare (field : String) (op : CompareOp) (value : Literal)
  | in_ (field : String) (values : List Literal)

end Query

structure Query where
  select : Query.SelectList
  from_ : String
  filter : Option Query.Expr
  orderBy : List Query.OrderItem
  limit : Option UInt64

-- Only the letters A to Z have a lower case here.
def eqIgnoreAsciiCase (a b : String) : Bool := a.toList.map Char.toLower == b.toList.map Char.toLower

end Gems

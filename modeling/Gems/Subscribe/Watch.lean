import Gems.Cluster.Record
import Gems.Codec.Gbv
import Mathlib.Data.List.Perm.Basic
import Mathlib.Data.List.Nodup
import Mathlib.Logic.Function.Basic

set_option autoImplicit false

namespace Gems.Subscribe

open Cluster Codec

-- A u64 that counts the subscriptions made.
abbrev SubscriptionId := Nat

inductive Watch where
  | entityDeleted (id : Tuid)
  | attributeChanged (id : Tuid) (attributeId : UInt32)
  | anyChange (id : Tuid)
  | viewChanged (viewId : UInt64)
  deriving DecidableEq

inductive NotificationKind where
  | deleted
  | touched
  | fieldChanged (attributeId : UInt32) (newValue : List UInt8)
  | viewCountChanged (newCount : UInt64)
  deriving DecidableEq

structure Notification where
  subscriptionId : SubscriptionId
  kind : NotificationKind
  deriving DecidableEq

-- `watches` is a hash map: each call goes through it in an order of its own.
structure SubscriptionEngine where
  watches : List (SubscriptionId × Watch)
  nextId : SubscriptionId
  fieldCache : Tuid × UInt32 → Option (List UInt8)

namespace SubscriptionEngine

def new : SubscriptionEngine := { watches := [], nextId := 0, fieldCache := fun _ => none }

def subscribe (s : SubscriptionEngine) (watch : Watch) : SubscriptionEngine × SubscriptionId :=
  ({ s with watches := s.watches ++ [(s.nextId, watch)], nextId := s.nextId + 1 }, s.nextId)

-- A cached value for the watch stays.
def unsubscribe (s : SubscriptionEngine) (id : SubscriptionId) : SubscriptionEngine × Bool :=
  ({ s with watches := s.watches.filter fun w => w.1 ≠ id }, s.watches.any fun w => w.1 = id)

def notifyViewChanged (order : List (SubscriptionId × Watch)) (viewId newCount : UInt64) :
    List Notification :=
  order.filterMap fun (subId, watch) =>
    match watch with
    | .viewChanged watched =>
      if watched = viewId then some ⟨subId, .viewCountChanged newCount⟩ else none
    | _ => none

def processDelete (order : List (SubscriptionId × Watch)) (deletedId : Tuid) : List Notification :=
  order.filterMap fun (subId, watch) =>
    match watch with
    | .entityDeleted id | .anyChange id => if id = deletedId then some ⟨subId, .deleted⟩ else none
    | _ => none

abbrev FieldCache := Tuid × UInt32 → Option (List UInt8)

-- One turn of the loop over the watches.
def visit (entityId : Tuid) (reader : Option GbvReader) (state : FieldCache × List Notification)
    (entry : SubscriptionId × Watch) : FieldCache × List Notification :=
  let (fieldCache, out) := state
  match entry.2 with
  | .anyChange id => if id = entityId then (fieldCache, out ++ [⟨entry.1, .touched⟩]) else state
  | .attributeChanged id attributeId =>
    if id = entityId then
      match reader.bind fun r => r.get attributeId with
      | none => state
      | some (_, newValue) =>
        let key := (id, attributeId)
        let changed := match fieldCache key with
          | some old => old != newValue
          | none => false
        let fieldCache := Function.update fieldCache key (some newValue)
        if changed then (fieldCache, out ++ [⟨entry.1, .fieldChanged attributeId newValue⟩])
        else (fieldCache, out)
    else state
  | _ => state

def processInsert (s : SubscriptionEngine) (order : List (SubscriptionId × Watch)) (entityId : Tuid)
    (body : List UInt8) : SubscriptionEngine × List Notification :=
  let reader := (GbvReader.new body).toOption
  let (fieldCache, out) := order.foldl (visit entityId reader) (s.fieldCache, [])
  ({ s with fieldCache }, out)

-- `order` is the order in which this call goes through the watches.
def process (s : SubscriptionEngine) (order : List (SubscriptionId × Watch)) :
    LogRecord → SubscriptionEngine × List Notification
  | .delete id => (s, processDelete order id)
  | .insert header body => s.processInsert order header.id body

end SubscriptionEngine

end Gems.Subscribe

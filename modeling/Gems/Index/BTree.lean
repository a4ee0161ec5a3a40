import Gems.Index.Pager
import Gems.Lib.Forest

set_option autoImplicit false

namespace Gems.Index

open Lib Prog

structure BTree where
  pager : Pager
  pendingFree : List Nat

inductive InsertOutcome (K : Type) where
  | replaced (id : Nat)
  | split (left : Nat) (sep : K) (right : Nat)

variable {K V : Type} [LinearOrder K] [FixedCodec K] [FixedCodec V]

namespace BTree

variable (K V) in
def create (os : PageSize) (pageSize : Nat) : Except Fault BTree := do
  let pager ← Pager.create os pageSize (FixedCodec.len K % 2 ^ 16) (FixedCodec.len V % 2 ^ 16)
  pure { pager, pendingFree := [] }

def openFile (os : PageSize) (disk : Storage.DiskFile) : Except Fault BTree := do
  let pager ← Pager.openFile os disk
  pure { pager, pendingFree := [] }

def onPager {A : Type} (m : Gems.Prog Pager A) : Gems.Prog BTree A :=
  focus BTree.pager (fun t pager => { t with pager }) m

-- `self.pending_free.push(page_id)`
def retire (pageId : Nat) : Gems.Prog BTree Unit :=
  update fun t => { t with pendingFree := t.pendingFree ++ [pageId] }

def putNode (pageId : Nat) (encode : Nat → Except Fault (List UInt8)) : Gems.Prog BTree Unit := do
  let t ← view
  onPager (Pager.fillPage pageId (encode t.pager.header.pageSize))

-- `encode_leaf(self.pager.page_mut(page_id)?, entries)`
def putLeaf (pageId : Nat) (entries : List (K × V)) : Gems.Prog BTree Unit :=
  putNode pageId fun pageSize => encodeLeaf pageSize entries

def putInternal (pageId : Nat) (keys : List K) (children : List Nat) : Gems.Prog BTree Unit :=
  putNode pageId fun pageSize => encodeInternal pageSize keys children

-- An index past the end of a vector panics.
def child (children : List Nat) (idx : Nat) : Except Fault Nat :=
  match children[idx]? with
  | some pageId => .ok pageId
  | none => .error .panicked

variable (V) in
def getLoop (p : Pager) (key : K) : Nat → Nat → Except Fault (Option V)
  | 0, _ => .error .unfinished
  | fuel + 1, pageId => do
    let buf ← p.page pageId
    let kind ← nodeType buf
    if kind = leafType then
      let entries ← decodeLeaf K V buf
      pure (match binarySearch entries key with
        | .ok idx => entries[idx]?.map Prod.snd
        | .error _ => none)
    else if kind = internalType then
      let (keys, children) ← decodeInternal K buf
      let idx := partitionPoint (fun k => decide (k ≤ key)) keys
      getLoop p key fuel (← child children idx)
    else .error .panicked

variable (V) in
def get (fuel : Nat) (t : BTree) (key : K) : Except Fault (Option V) :=
  let pageId := t.pager.header.rootPage
  if pageId = 0 then .ok none else getLoop V t.pager key fuel pageId

def insertRec (os : PageSize) (key : K) (value : V) : Nat → Nat → Gems.Prog BTree (InsertOutcome K)
  | 0, _ => fail .unfinished
  | fuel + 1, pageId => do
    let t ← view
    let buf ← ofResult (t.pager.page pageId)
    let kind ← ofResult (nodeType buf)
    if kind = leafType then
      let entries ← ofResult (decodeLeaf K V buf)
      let entries := upsert entries key value
      let capacity := leafCapacity t.pager.header.pageSize (FixedCodec.len K) (FixedCodec.len V)
      if entries.length ≤ capacity then
        let newId ← onPager (Pager.allocatePage os)
        putLeaf newId entries
        retire pageId
        pure (.replaced newId)
      else
        let mid := entries.length / 2
        let rightEntries := entries.drop mid
        let leftEntries := entries.take mid
        match rightEntries with
        | [] => fail .panicked
        | (sep, _) :: _ =>
          let rightId ← onPager (Pager.allocatePage os)
          let leftId ← onPager (Pager.allocatePage os)
          putLeaf rightId rightEntries
          putLeaf leftId leftEntries
          retire pageId
          pure (.split leftId sep rightId)
    else
      let (keys, children) ← ofResult (decodeInternal K buf)
      let childIdx := partitionPoint (fun k => decide (k ≤ key)) keys
      let childId ← ofResult (child children childIdx)
      match ← insertRec os key value fuel childId with
      | .replaced newChildId =>
        let newId ← onPager (Pager.allocatePage os)
        putInternal newId keys (children.set childIdx newChildId)
        retire pageId
        pure (.replaced newId)
      | .split left sep right =>
        let children := (children.set childIdx left).insertIdx (childIdx + 1) right
        let keys := keys.insertIdx childIdx sep
        let capacity := internalCapacity t.pager.header.pageSize (FixedCodec.len K)
        if keys.length ≤ capacity then
          let newId ← onPager (Pager.allocatePage os)
          putInternal newId keys children
          retire pageId
          pure (.replaced newId)
        else
          let mid := keys.length / 2
          match keys[mid]? with
          | none => fail .panicked
          | some sepUp =>
            let rightKeys := keys.drop (mid + 1)
            let leftKeys := keys.take mid
            let rightChildren := children.drop (mid + 1)
            let leftChildren := children.take (mid + 1)
            let leftId ← onPager (Pager.allocatePage os)
            let rightId ← onPager (Pager.allocatePage os)
            putInternal leftId leftKeys leftChildren
            putInternal rightId rightKeys rightChildren
            retire pageId
            pure (.split leftId sepUp rightId)

-- `for old in self.pending_free.drain(..) { self.pager.free_page(old)? }`
def freePending (os : PageSize) : Gems.Prog BTree Unit := do
  let t ← view
  update fun t => { t with pendingFree := [] }
  t.pendingFree.forM fun old => onPager (Pager.freePage os old)

-- `let new_root = if root == 0 { .. } else { .. }`
def insertRoot (os : PageSize) (fuel : Nat) (key : K) (value : V) (root : Nat) :
    Gems.Prog BTree Nat :=
  if root = 0 then do
    let leafId ← onPager (Pager.allocatePage os)
    putLeaf leafId [(key, value)]
    pure leafId
  else do
    match ← insertRec os key value fuel root with
    | .replaced id => pure id
    | .split left sep right =>
      let newRootId ← onPager (Pager.allocatePage os)
      putInternal newRootId [sep] [left, right]
      pure newRootId

def insert (os : PageSize) (fuel : Nat) (key : K) (value : V) : Gems.Prog BTree Unit := do
  update fun t => { t with pendingFree := [] }
  let t ← view
  let newRoot ← insertRoot os fuel key value t.pager.header.rootPage
  onPager (Pager.publishRoot os newRoot)
  freePending os

variable (V) in
def deleteRec (os : PageSize) (key : K) : Nat → Nat → Gems.Prog BTree (Nat × Option V)
  | 0, _ => fail .unfinished
  | fuel + 1, pageId => do
    let t ← view
    let buf ← ofResult (t.pager.page pageId)
    let kind ← ofResult (nodeType buf)
    if kind = leafType then
      let entries ← ofResult (decodeLeaf K V buf)
      match binarySearch entries key with
      | .error _ => pure (pageId, none)
      | .ok idx =>
        let removed := entries[idx]?.map Prod.snd
        let newId ← onPager (Pager.allocatePage os)
        putLeaf newId (entries.eraseIdx idx)
        retire pageId
        pure (newId, removed)
    else
      let (keys, children) ← ofResult (decodeInternal K buf)
      let childIdx := partitionPoint (fun k => decide (k ≤ key)) keys
      let childId ← ofResult (child children childIdx)
      let (newChildId, removed) ← deleteRec os key fuel childId
      if newChildId = childId then pure (pageId, removed)
      else
        let newId ← onPager (Pager.allocatePage os)
        putInternal newId keys (children.set childIdx newChildId)
        retire pageId
        pure (newId, removed)

variable (V) in
def delete (os : PageSize) (fuel : Nat) (key : K) : Gems.Prog BTree (Option V) := do
  update fun t => { t with pendingFree := [] }
  let t ← view
  let root := t.pager.header.rootPage
  if root = 0 then pure none
  else
    let (newRoot, removed) ← deleteRec V os key fuel root
    if newRoot ≠ root then
      onPager (Pager.publishRoot os newRoot)
      freePending os
    pure removed

variable (K V) in
def scanRec (p : Pager) : Nat → Nat → Except Fault (List (K × V))
  | 0, _ => .error .unfinished
  | fuel + 1, pageId => do
    let buf ← p.page pageId
    let kind ← nodeType buf
    if kind = leafType then decodeLeaf K V buf
    else if kind = internalType then
      let (_, children) ← decodeInternal K buf
      let parts ← children.mapM fun c => scanRec p fuel c
      pure parts.flatten
    else .error .panicked

variable (K V) in
def scanAll (fuel : Nat) (t : BTree) : Except Fault (List (K × V)) :=
  let root := t.pager.header.rootPage
  if root = 0 then .ok [] else scanRec K V t.pager fuel root

end BTree

end Gems.Index

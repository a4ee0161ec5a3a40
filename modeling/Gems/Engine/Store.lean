import Gems.Catalog.Header
import Gems.Engine.Ordinal
import Gems.Index.BTree
import Gems.Storage.Manager

set_option autoImplicit false

namespace Gems.Engine

open Lib Prog Catalog Index Storage

def defaultIndexPageSize : UInt32 := 4096

structure Store where
  primary : BTree
  ordinalById : BTree
  idByOrdinal : BTree
  nextOrdinal : UInt32
  data : ExtentManager
  byKind : SecondaryIndex
  bySchemaRef : SecondaryIndex
  entityTypeByName : SecondaryIndex

-- The files of a store.
structure StoreFiles where
  primary : DiskFile
  ordinalById : DiskFile
  idByOrdinal : DiskFile
  data : DiskFile

abbrev Entity := EntityHeader × List UInt8

def kindKey (kind : EntityKind) : List UInt8 := [kind.toU8]

def schemaRefKey (schemaRef : Tuid) : List UInt8 := schemaRef.bytes

def nameKey (name : String) : List UInt8 := utf8 name

namespace Store

section Parts

variable {A : Type}

def onPrimary (m : Gems.Prog BTree A) : Gems.Prog Store A :=
  focus Store.primary (fun s primary => { s with primary }) m

def onOrdinalById (m : Gems.Prog BTree A) : Gems.Prog Store A :=
  focus Store.ordinalById (fun s ordinalById => { s with ordinalById }) m

def onIdByOrdinal (m : Gems.Prog BTree A) : Gems.Prog Store A :=
  focus Store.idByOrdinal (fun s idByOrdinal => { s with idByOrdinal }) m

def onData (m : Gems.Prog ExtentManager A) : Gems.Prog Store A :=
  focus Store.data (fun s data => { s with data }) m

end Parts

def create (os : PageSize) : Except Fault Store := do
  let primary ← BTree.create Tuid SlotPointer os defaultIndexPageSize.toNat
  let ordinalById ← BTree.create Tuid Ordinal os defaultIndexPageSize.toNat
  let idByOrdinal ← BTree.create Ordinal Tuid os defaultIndexPageSize.toNat
  pure
    { primary
      ordinalById
      idByOrdinal
      nextOrdinal := 0
      data := ExtentManager.create 0
      byKind := .new
      bySchemaRef := .new
      entityTypeByName := .new }

def onDisk (s : Store) : StoreFiles where
  primary := s.primary.pager.onDisk
  ordinalById := s.ordinalById.pager.onDisk
  idByOrdinal := s.idByOrdinal.pager.onDisk
  data := s.data.file.onDisk

def indexHeader (s : Store) (header : EntityHeader) (ord : Ordinal) : Store :=
  { s with
    byKind := s.byKind.insert (kindKey header.entityKind) ord
    bySchemaRef := s.bySchemaRef.insert (schemaRefKey header.schemaRef) ord
    entityTypeByName :=
      if header.entityKind = .entityType then s.entityTypeByName.insert (nameKey header.name) ord
      else s.entityTypeByName }

def deindexHeader (s : Store) (header : EntityHeader) (ord : Ordinal) : Store :=
  { s with
    byKind := s.byKind.remove (kindKey header.entityKind) ord
    bySchemaRef := s.bySchemaRef.remove (schemaRefKey header.schemaRef) ord
    entityTypeByName :=
      if header.entityKind = .entityType then s.entityTypeByName.remove (nameKey header.name) ord
      else s.entityTypeByName }

def corrupt (detail : String) : Fault := .raised (.corruptPage detail)

def readAt (s : Store) (ptr : SlotPointer) : Except Fault Entity := do
  let c ← (BlockClass.fromIndex ptr.blockClass.toNat).mapError .raised
  let blob ← s.data.read ptr c.blockSize
  let header ← EntityHeader.decode blob
  let bodyStart := header.bodyOffset.toNat
  let bodyEnd := bodyStart + header.bodyLen.toNat
  if blob.length < bodyEnd then throw (corrupt "entity body extends past its stored slot")
  else pure (header, (blob.take bodyEnd).drop bodyStart)

-- One turn of the loop over the primary index; `maxOrdinal` is the greatest ordinal so far.
def rebuildEntry (fuel : Nat) (state : Store × Option UInt32) (entry : Tuid × SlotPointer) :
    Except Fault (Store × Option UInt32) := do
  match ← BTree.get Ordinal fuel state.1.ordinalById entry.1 with
  | none => throw (corrupt "entity in primary index has no assigned ordinal")
  | some ord =>
    let (header, _) ← state.1.readAt entry.2
    pure (state.1.indexHeader header ord,
      some (match state.2 with
        | none => ord.value
        | some m => if m.toNat ≤ ord.value.toNat then ord.value else m))

def rebuildInMemoryIndexes (fuel : Nat) (s : Store) : Except Fault Store := do
  let entries ← BTree.scanAll Tuid SlotPointer fuel s.primary
  let (s, maxOrdinal) ← entries.foldlM (rebuildEntry fuel) (s, none)
  match maxOrdinal with
  | none => pure { s with nextOrdinal := 0 }
  | some m => if m.toNat + 1 = 2 ^ 32 then throw .panicked else pure { s with nextOrdinal := m + 1 }

def openDir (os : PageSize) (fuel : Nat) (dir : StoreFiles) : Except Fault Store := do
  let primary ← BTree.openFile os dir.primary
  let ordinalById ← BTree.openFile os dir.ordinalById
  let idByOrdinal ← BTree.openFile os dir.idByOrdinal
  let data ← (ExtentManager.openFile os dir.data 0 true).mapError .raised
  rebuildInMemoryIndexes fuel
    { primary
      ordinalById
      idByOrdinal
      nextOrdinal := 0
      data
      byKind := .new
      bySchemaRef := .new
      entityTypeByName := .new }

def ordinalFor (os : PageSize) (fuel : Nat) (id : Tuid) : Gems.Prog Store Ordinal := do
  let s ← view
  match ← ofResult (BTree.get Ordinal fuel s.ordinalById id) with
  | some existing => pure existing
  | none =>
    let ord : Ordinal := ⟨s.nextOrdinal⟩
    if s.nextOrdinal.toNat + 1 = 2 ^ 32 then fail .panicked
    else do
      update fun s => { s with nextOrdinal := s.nextOrdinal + 1 }
      onOrdinalById (BTree.insert os fuel id ord)
      onIdByOrdinal (BTree.insert os fuel ord id)
      pure ord

-- The overwriting part of insert: the old slot is freed before the primary index points to the new one.
def releaseOld (fuel : Nat) (id : Tuid) (ord : Ordinal) : Gems.Prog Store Unit := do
  let s ← view
  match ← ofResult (BTree.get SlotPointer fuel s.primary id) with
  | none => pure ()
  | some oldPtr =>
    let (oldHeader, _) ← ofResult (s.readAt oldPtr)
    update fun s => s.deindexHeader oldHeader ord
    onData (ExtentManager.free oldPtr)

-- The header as it is stored: its body lies right behind it.
def placed (header : EntityHeader) (body : List UInt8) : EntityHeader :=
  { header with bodyOffset := UInt32.ofNat encodedLen, bodyLen := UInt32.ofNat body.length }

def insert (os : PageSize) (fuel : Nat) (header : EntityHeader) (body : List UInt8) :
    Gems.Prog Store Unit := do
  let header := placed header body
  let blob := header.encode ++ body
  let ptr ← onData (ExtentManager.allocate os blob.length)
  onData (ExtentManager.writeSlot ptr blob)
  let ord ← ordinalFor os fuel header.id
  releaseOld fuel header.id ord
  update fun s => s.indexHeader header ord
  onPrimary (BTree.insert os fuel header.id ptr)

def get (fuel : Nat) (s : Store) (id : Tuid) : Except Fault (Option Entity) := do
  match ← BTree.get SlotPointer fuel s.primary id with
  | none => pure none
  | some ptr => some <$> s.readAt ptr

-- The ordinal of a deleted entity is retired, not reused.
def retireOrdinal (os : PageSize) (fuel : Nat) (id : Tuid) (header : EntityHeader) :
    Gems.Prog Store Unit := do
  match ← onOrdinalById (BTree.delete Ordinal os fuel id) with
  | none => pure ()
  | some ord =>
    let _ ← onIdByOrdinal (BTree.delete Tuid os fuel ord)
    update fun s => s.deindexHeader header ord

def delete (os : PageSize) (fuel : Nat) (id : Tuid) : Gems.Prog Store Bool := do
  match ← onPrimary (BTree.delete SlotPointer os fuel id) with
  | none => pure false
  | some ptr =>
    let s ← view
    let (header, _) ← ofResult (s.readAt ptr)
    retireOrdinal os fuel id header
    onData (ExtentManager.free ptr)
    pure true

def scanAll (fuel : Nat) (s : Store) : Except Fault (List Entity) := do
  let entries ← BTree.scanAll Tuid SlotPointer fuel s.primary
  entries.mapM fun entry => s.readAt entry.2

end Store

end Gems.Engine

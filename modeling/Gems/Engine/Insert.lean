import Gems.Engine.Numbers

set_option autoImplicit false

namespace Gems.Engine

open Lib Prog Catalog Index Storage

variable {os : PageSize} {s s' : Store} {slots : Slots} {ords ords' : Ordinals} {ids ids' : Reverse}
  {map : Entities} {depth fuel n : Nat} {id : Tuid} {ord : Ordinal} {next : UInt32} {p : SlotPointer}
  {header : EntityHeader} {body : List UInt8} {c : BlockClass} {e : Entity} {d d' : ExtentManager}
  {live : Set SlotPointer} {B : Type}

section Place

-- A value of this size makes the data file grow.
def Grows (d : ExtentManager) (size : Nat) : Prop :=
  ∃ c, BlockClass.forSize size = .ok c ∧ Full d c

structure DataFile (os : PageSize) (d : ExtentManager) (n : Nat) (live : Set SlotPointer) (slots : Slots)
    (map : Entities) : Prop where
  laid : Laid os 0 d.file.onDisk.bytes d.file.onDisk.len n live
  contents : Contents d.file.onDisk.bytes slots map

theorem dataFile_of_laid (laid : Laid os 0 d.file.bytes d.file.fileLen n live)
    (contents : Contents d.file.bytes slots map) : DataFile os d n live slots map := by
  constructor
  · rw [ExtentFile.onDisk, laid.truncate_eq]
    exact laid
  · rw [ExtentFile.onDisk, laid.truncate_eq]
    exact contents

-- What a call leaves of the data file when it is cut short.
inductive DataLeft (os : PageSize) (slots : Slots) (map : Entities) (n : Nat) : Fault → ExtentManager → Prop where
  | file {d : ExtentManager} (file : DataFile os d n (slotSet slots) slots map) : DataLeft os slots map n .stopped d
  | opened {d : ExtentManager} (slotted : Slotted os d slots map) (zero : d.fileId = 0)
    (count : d.extents.length = n) : DataLeft os slots map n .refused d

theorem Slotted.left {f : Fault} (slotted : Slotted os d slots map) (zero : d.fileId = 0) (outside : f.Outside) :
    DataLeft os slots map d.extents.length f d := by
  rcases outside with rfl | rfl
  · exact .file (dataFile_of_laid (zero ▸ slotted.held.laid) slotted.contents)
  · exact .opened slotted zero rfl

structure SameIndexes (s s' : Store) : Prop where
  byKind : s.byKind = s'.byKind
  bySchemaRef : s.bySchemaRef = s'.bySchemaRef
  entityTypeByName : s.entityTypeByName = s'.entityTypeByName

/-- What a call leaves of a store when it is cut short: its files with `n` extents, and after an error a store at
rest with the secondary indexes of `indexed`. -/
structure StoreLeft (os : PageSize) (indexed : Store) (slots : Slots) (ords : Ordinals) (ids : Reverse)
    (map : Entities) (depth n : Nat) (f : Fault) (s : Store) : Prop where
  primary : IndexLeft f s.primary slots depth
  ordinalById : IndexLeft f s.ordinalById ords depth
  idByOrdinal : IndexLeft f s.idByOrdinal ids depth
  data : DataLeft os slots map n f s.data
  known : ∀ id, slots id ≠ none → ords id ≠ none
  small : ∀ id ord, ords id = some ord → ord.value.toNat + 1 < 2 ^ 32
  indexes : f = .refused → SameIndexes s indexed

theorem StoreLeft.disk {indexed : Store} (left : StoreLeft os indexed slots ords ids map depth n .stopped s) :
    OnDisk os s slots ords ids map depth n (slotSet slots) := by
  obtain ⟨primary, ordinalById, idByOrdinal, data, known, small, -⟩ := left
  cases data with
  | file file => exact ⟨primary.onFile, ordinalById.onFile, idByOrdinal.onFile, file.laid, file.contents, known, small⟩

theorem StoreLeft.sound {indexed : Store} (left : StoreLeft os indexed slots ords ids map depth n .refused s) :
    Sound os s slots ords ids map depth ∧ s.data.extents.length = n ∧ SameIndexes s indexed := by
  obtain ⟨primary, ordinalById, idByOrdinal, data, known, small, indexes⟩ := left
  cases data with
  | opened slotted zero count =>
    exact ⟨⟨primary.indexed, ordinalById.indexed, idByOrdinal.indexed, slotted, zero, known, small⟩, count, indexes rfl⟩

theorem StoreLeft.outside {indexed : Store} {f : Fault}
    (left : StoreLeft os indexed slots ords ids map depth n f s) : f.Outside := left.primary.outside

structure Placed (os : PageSize) (slots : Slots) (map : Entities) (p : SlotPointer) (c : BlockClass)
    (e : Entity) (d : ExtentManager) : Prop where
  fresh : p ∉ slotSet slots
  held : Held os d (insert p (slotSet slots))
  few : d.extents.length ≤ 4114
  file : d.fileId = 0
  contents : Contents d.file.bytes slots map
  holds : Holds d.file.bytes p c e

theorem Placed.slotted (placed : Placed os slots map p c e d) : Slotted os d slots map :=
  ⟨placed.held.subset (Set.subset_insert _ _), placed.few, placed.contents⟩

theorem place_spec {limit : Limit} (sound : Sound os s slots ords ids map depth)
    (class_ : BlockClass.forSize (encodedLen + body.length) = .ok c)
    (fits : encodedLen + body.length ≤ c.blockSize) (level : Full s.data c → Level s.data)
    (listed : Full s.data c → limit ≠ .refuse 1)
    {rest : SlotPointer → Gems.Prog Store B} {ok : B → Store → Prop} {err : Fault → Store → Prop}
    (cut : ∀ f d n, n = s.data.extents.length ∨ Full s.data c ∧ n = s.data.extents.length + 1 →
      DataLeft os slots map n f d → err f { s with data := d })
    (later : ∀ p d, Placed os slots map p c (stored header body) d →
      d.extents.length = s.data.extents.length ∨
        Full s.data c ∧ d.extents.length = s.data.extents.length + 1 →
      Spec (rest p) { s with data := d } ok err) :
    SpecAt limit (Store.onData (ExtentManager.allocate os ((Store.placed header body).encode ++ body).length) >>=
      fun ptr => Store.onData (ExtentManager.writeSlot ptr ((Store.placed header body).encode ++ body)) >>=
        fun _ => rest ptr) s ok err := by
  have start := sound.data
  have unread {d : ExtentManager} (p : SlotPointer) (taken : Taken os s.data (slotSet slots) c p d) :
      Contents d.file.bytes slots map := start.contents.payload start.held.laid.live taken.same
  have allocated : SpecAt limit (Store.onData (ExtentManager.allocate os (encodedLen + body.length))) s
      (fun p s' => ∃ d, s' = { s with data := d } ∧ Taken os s.data (slotSet slots) c p d) err := by
    refine specAt_focus (specAt_weaken (start.held.allocate start.few class_ level listed) ?_ ?_)
    · exact fun p d taken => ⟨d, rfl, taken⟩
    · intro f d _ interrupted
      cases interrupted with
      | untouched outside => exact cut f s.data _ (.inl rfl) (start.left sound.file outside)
      | grown full grown =>
        have laid := start.held.grown grown
        have file : d.fileId = 0 := grown.fileId.trans sound.file
        have contents : Contents d.file.bytes slots map :=
          start.contents.payload start.held.laid.live fun i payload => grown.same i (.inl payload.1)
        exact cut _ d _ (.inr ⟨full, rfl⟩) (.file (dataFile_of_laid (file ▸ laid) contents))
      | taken p taken =>
        refine cut _ d _ taken.count (.opened ⟨?_, taken.few, unread p taken⟩ (taken.file.trans sound.file) rfl)
        exact taken.held.subset (Set.subset_insert _ _)
  rw [length_blob]
  refine specAt_bind allocated ?_
  rintro p _ ⟨d, rfl, taken⟩
  have held := taken.held
  have contents := unread p taken
  have file : d.fileId = 0 := taken.file.trans sound.file
  obtain ⟨c', lives⟩ := held.laid.live p (.inl rfl)
  obtain rfl : c' = c := BlockClass.ext_index (by rw [← lives.kind, taken.kind, c.toNat_index])
  have small : ((Store.placed header body).encode ++ body).length ≤ c'.blockSize := by rwa [length_blob]
  generalize same : (Store.placed header body).encode ++ body = blob at small
  have placed {d' : ExtentManager} (held' : Held os d' (insert p (slotSet slots))) (extents : d'.extents = d.extents)
      (written : d' = { d with file.bytes := patch d.file.bytes (slotBase p c') blob }) :
      Placed os slots map p c' (stored header body) d' := by
    subst same written
    refine ⟨taken.fresh, held', extents ▸ taken.few, file, ?_, ?_⟩
    · exact contents.patch (fun q mem => held.laid.live q (.inr mem)) lives taken.fresh small
    · exact holds_stored lives.kind fits slice_patch_same
  have written : Spec (Store.onData (ExtentManager.writeSlot p blob))
      { s with data := d }
      (fun _ s' => ∃ d', s' = { s with data := d' } ∧ Placed os slots map p c' (stored header body) d' ∧
        d'.extents = d.extents) err := by
    refine spec_focus (spec_weaken (held.writeSlot lives _) ?_ ?_)
    · exact fun _ d' ⟨_, held', extents, same⟩ => ⟨d', rfl, placed held' extents same, extents⟩
    · rintro f d' (⟨rfl, rfl | ⟨long, -⟩⟩ | ⟨rfl, held', extents, same⟩)
      · have slotted : Slotted os d' slots map := ⟨held.subset (Set.subset_insert _ _), taken.few, contents⟩
        exact cut _ d' _ taken.count (slotted.left file (.inl rfl))
      · omega
      · have placed := placed held' extents same
        exact cut _ d' _ (extents ▸ taken.count) (placed.slotted.left placed.file (.inr rfl))
  refine spec_bind written ?_
  rintro - _ ⟨d', rfl, placed, extents⟩
  exact later p d' placed (by rw [extents]; exact taken.count)

end Place

section Insert

-- The secondary indexes after an insertion.
def reindexed (s : Store) (old : Option Entity) (header : EntityHeader) (body : List UInt8) (ord : Ordinal) :
    Store :=
  (deindexed s old ord).indexHeader (Store.placed header body) ord

theorem reindexed_files (s : Store) (old : Option Entity) (header : EntityHeader) (body : List UInt8)
    (ord : Ordinal) : ∃ k r n, reindexed s old header body ord =
      { s with byKind := k, bySchemaRef := r, entityTypeByName := n } := by
  obtain ⟨k, r, n, same⟩ := deindexed_files s old ord
  rw [reindexed, same]
  exact ⟨_, _, _, rfl⟩

structure Inserted (os : PageSize) (s : Store) (slots : Slots) (ords : Ordinals) (ids : Reverse)
    (map : Entities) (depth : Nat) (header : EntityHeader) (body : List UInt8) (s' : Store)
    (p : SlotPointer) (ord : Ordinal) (ords' : Ordinals) (ids' : Reverse) : Prop where
  small : encodedLen + body.length ≤ maxBlockSize
  sound : Sound os s' (Function.update slots header.id (some p)) ords' ids'
    (Function.update map header.id (some (stored header body))) depth
  numbered : Numbered ords ids s.nextOrdinal header.id ord ords' ids' s'.nextOrdinal
  indexes : SameIndexes s' (reindexed s (map header.id) header body ord)
  count : s'.data.extents.length = s.data.extents.length ∨
    Grows s.data (encodedLen + body.length) ∧ s'.data.extents.length = s.data.extents.length + 1

-- The extents on disk: one more when the insertion had to make the file grow.
def Counted (s : Store) (body : List UInt8) (n : Nat) : Prop :=
  n = s.data.extents.length ∨ Grows s.data (encodedLen + body.length) ∧ n = s.data.extents.length + 1

section Halts

variable (os : PageSize) (s : Store) (slots : Slots) (ords : Ordinals) (ids : Reverse) (map : Entities)
  (depth : Nat) (header : EntityHeader) (body : List UInt8)

def OldLeft (indexed : Store) (f : Fault) (s' : Store) : Prop :=
  ∃ n ords' ids', Counted s body n ∧ Numbering ords ids s.nextOrdinal header.id ords' ids' ∧
    StoreLeft os indexed slots ords' ids' map depth n f s'

def NewLeft (f : Fault) (s' : Store) : Prop :=
  ∃ n p ord ords' ids', encodedLen + body.length ≤ maxBlockSize ∧ Counted s body n ∧
    Numbered ords ids s.nextOrdinal header.id ord ords' ids' s'.nextOrdinal ∧
    StoreLeft os (reindexed s (map header.id) header body ord) (Function.update slots header.id (some p)) ords' ids'
      (Function.update map header.id (some (stored header body))) depth n f s'

def ClearHalt (f : Fault) (s' : Store) : Prop :=
  (maxBlockSize < encodedLen + body.length ∧ (∃ error, f = .raised error) ∧ s' = s) ∨
    (f = .panicked ∧ Exhausted s') ∨ OldLeft os s slots ords ids map depth header body s f s'

-- One that ended later, but before the primary index led to the new slot; an overwrite left nothing to rely on.
def RepointHalt (f : Fault) (s' : Store) : Prop :=
  (f = .panicked ∧ Exhausted s') ∨
    (∃ indexed, slots header.id = none ∧ OldLeft os s slots ords ids map depth header body indexed f s') ∨
    (slots header.id ≠ none ∧ f.Outside)

def InsertHalt (f : Fault) (s' : Store) : Prop :=
  ClearHalt os s slots ords ids map depth header body f s' ∨
    RepointHalt os s slots ords ids map depth header body f s' ∨ NewLeft os s slots ords ids map depth header body f s'

variable {os s slots ords ids map depth header body}

theorem OldLeft.outside {indexed : Store} {f : Fault} {s' : Store}
    (left : OldLeft os s slots ords ids map depth header body indexed f s') : f.Outside := by
  obtain ⟨n, ords', ids', -, -, left⟩ := left
  exact left.outside

theorem NewLeft.inserted {s' : Store} (left : NewLeft os s slots ords ids map depth header body .refused s') :
    ∃ p ord ords' ids', Inserted os s slots ords ids map depth header body s' p ord ords' ids' := by
  obtain ⟨n, p, ord, ords', ids', small, count, numbered, left⟩ := left
  obtain ⟨sound, rfl, indexes⟩ := left.sound
  exact ⟨p, ord, ords', ids', small, sound, numbered, indexes, count⟩

-- What an insertion does on its own.
theorem InsertHalt.own {f : Fault} {s' : Store} (halt : InsertHalt os s slots ords ids map depth header body f s')
    (own : ¬ f.Outside) : (maxBlockSize < encodedLen + body.length ∧ (∃ error, f = .raised error) ∧ s' = s) ∨
      (f = .panicked ∧ Exhausted s') := by
  rcases halt with (large | panic | old) | (panic | ⟨indexed, -, old⟩ | ⟨-, outside⟩) |
    ⟨_, _, _, _, _, -, -, -, left⟩
  · exact .inl large
  · exact .inr panic
  · exact absurd old.outside own
  · exact .inr panic
  · exact absurd old.outside own
  · exact absurd outside own
  · exact absurd left.outside own

end Halts

-- The insertion until the old slot is marked free; nothing points to the new one yet.
def Store.untilCleared (os : PageSize) (fuel : Nat) (header : EntityHeader) (body : List UInt8) :
    Gems.Prog Store (SlotPointer × Ordinal × Bool) := do
  let ptr ← Store.onData (ExtentManager.allocate os ((Store.placed header body).encode ++ body).length)
  Store.onData (ExtentManager.writeSlot ptr ((Store.placed header body).encode ++ body))
  let ord ← Store.ordinalFor os fuel header.id
  let freed ← Store.clearOld fuel header.id ord
  pure (ptr, ord, freed)

-- From there until the primary index leads to the new slot.
def Store.repoint (os : PageSize) (fuel : Nat) (header : EntityHeader) (body : List UInt8)
    (new : SlotPointer × Ordinal × Bool) : Gems.Prog Store Nat := do
  Store.syncOld new.2.2
  update fun s => s.indexHeader (Store.placed header body) new.2.1
  Store.onPrimary (BTree.untilRoot os fuel header.id new.1)

def Store.untilPublished (os : PageSize) (fuel : Nat) (header : EntityHeader) (body : List UInt8) :
    Gems.Prog Store Nat :=
  Store.untilCleared os fuel header body >>= Store.repoint os fuel header body

theorem onPrimary_bind {A B : Type} (m : Gems.Prog BTree A) (f : A → Gems.Prog BTree B) :
    Store.onPrimary (m >>= f) = Store.onPrimary m >>= fun a => Store.onPrimary (f a) := by
  have get : ∀ (s : Store) (primary : BTree), { s with primary }.primary = primary := fun _ _ => rfl
  have set : ∀ (s : Store) (primary primary' : BTree),
      { { s with primary } with primary := primary' } = { s with primary := primary' } := fun _ _ _ => rfl
  exact focus_bind get set m f

theorem insert_eq (os : PageSize) (fuel : Nat) (header : EntityHeader) (body : List UInt8) :
    Store.insert os fuel header body =
      Store.untilPublished os fuel header body >>= fun base => Store.onPrimary (BTree.afterRoot os base) := by
  simp only [Store.insert, Store.untilPublished, Store.untilCleared, Store.repoint, releaseOld_eq, bind_assoc,
    pure_bind, Index.insert_eq, onPrimary_bind]
  rfl

structure Freed (os : PageSize) (s : Store) (slots : Slots) (ords : Ordinals) (ids : Reverse)
    (map : Entities) (depth : Nat) (header : EntityHeader) (body : List UInt8) (p : SlotPointer)
    (ord : Ordinal) (s' : Store) (ords' : Ordinals) (ids' : Reverse) : Prop where
  small : encodedLen + body.length ≤ maxBlockSize
  parts : ∃ d a b next, s' = { deindexed s (map header.id) ord with
    data := d, ordinalById := a, idByOrdinal := b, nextOrdinal := next }
  fresh : p ∉ slotSet slots
  held : Held os s'.data (insert p (slotSet slots) \ {q | slots header.id = some q})
  few : s'.data.extents.length ≤ 4114
  file : s'.data.fileId = 0
  contents : Contents s'.data.file.bytes slots map
  holds : ∃ c, Holds s'.data.file.bytes p c (stored header body)
  numbered : Numbered ords ids s.nextOrdinal header.id ord ords' ids' s'.nextOrdinal
  ordinalById : Indexed s'.ordinalById ords' depth
  idByOrdinal : Indexed s'.idByOrdinal ids' depth
  count : Counted s body s'.data.extents.length

theorem untilCleared_spec {limit : Limit} (sound : Sound os s slots ords ids map depth) (enough : depth ≤ fuel)
    (level : Grows s.data (encodedLen + body.length) → Level s.data)
    (listed : Grows s.data (encodedLen + body.length) → limit ≠ .refuse 1) :
    SpecAt limit (Store.untilCleared os fuel header body) s
      (fun new s' => (new.2.2 = true → slots header.id ≠ none) ∧ ∃ ords' ids',
        Freed os s slots ords ids map (depth + 1) header body new.1 new.2.1 s' ords' ids')
      (ClearHalt os s slots ords ids map (depth + 1) header body) := by
  rcases BlockClass.forSize_spec (encodedLen + body.length) with ⟨c, class_, fits⟩ | ⟨large, error, none⟩
  · have grows {n : Nat} (count : n = s.data.extents.length ∨ Full s.data c ∧ n = s.data.extents.length + 1) :
        Counted s body n :=
      count.imp_right fun ⟨full, more⟩ => ⟨⟨c, class_, full⟩, more⟩
    have ordinals := sound.ordinalById.deeper (Nat.le_succ depth)
    have reverse := sound.idByOrdinal.deeper (Nat.le_succ depth)
    have primary := sound.primary.deeper (Nat.le_succ depth)
    refine place_spec sound class_ fits (fun full => level ⟨c, class_, full⟩)
      (fun full => listed ⟨c, class_, full⟩) ?_ ?_
    · intro f d n count file
      have outside : f.Outside := by
        cases file with
        | file => exact .inl rfl
        | opened => exact .inr rfl
      refine .inr (.inr ⟨n, ords, ids, grows count, .start ords ids _ _, ?_⟩)
      exact ⟨primary.left outside, ordinals.left outside, reverse.left outside, file, sound.known, sound.small,
        fun _ => ⟨rfl, rfl, rfl⟩⟩
    · intro p d placed count
      refine spec_bind (spec_weaken (ordinalFor_spec (s := { s with data := d }) sound.ordinalById
        sound.idByOrdinal enough os header.id) (fun _ _ here => here) ?_) ?_
      · rintro f _ ⟨next, a, b, rfl, ⟨ords', ids', numbering, left, right⟩ | ⟨panic, full⟩⟩
        · have outside := left.outside
          refine .inr (.inr ⟨d.extents.length, ords', ids', grows count, numbering, ?_⟩)
          exact ⟨primary.left outside, left, right, placed.slotted.left placed.file outside,
            fun id here => numbering.mono (sound.known id here), numbering.small sound.small,
            fun _ => ⟨rfl, rfl, rfl⟩⟩
        · exact .inr (.inl ⟨panic, full⟩)
      rintro ord _ ⟨ords', ids', next, a, b, rfl, numbered, indexed, indexed'⟩
      have numbering := Numbering.whole numbered
      have known (id : Tuid) (here : slots id ≠ none) : ords' id ≠ none := numbering.mono (sound.known id here)
      refine spec_bind (spec_weaken (clearOld_spec
        (s := { s with data := d, ordinalById := a, idByOrdinal := b, nextOrdinal := next }) sound.primary
        placed.held placed.contents (Set.subset_insert _ _) enough header.id ord)
        (fun _ _ here => here) ?_) ?_
      · rintro f _ ⟨rfl, rfl⟩
        obtain ⟨k, r, m, same⟩ := deindexed_files
          { s with data := d, ordinalById := a, idByOrdinal := b, nextOrdinal := next } (map header.id) ord
        rw [same]
        refine .inr (.inr ⟨d.extents.length, ords', ids', grows count, numbering, ?_⟩)
        exact ⟨primary.left (.inl rfl), indexed.left (.inl rfl), indexed'.left (.inl rfl),
          placed.slotted.left placed.file (.inl rfl), known, numbering.small sound.small, fun no => by cases no⟩
      rintro freed _ ⟨present, d', rfl, held, extents, sameFile, same⟩
      have holds : Holds d'.file.bytes p c (stored header body) := by
        obtain ⟨c', lives⟩ := placed.held.laid.live p (.inl rfl)
        obtain rfl : c' = c := BlockClass.ext_index (lives.kind.symm.trans placed.holds.kind)
        exact placed.holds.congr fun i after before => same i (lives.payload after before)
      refine spec_pure ⟨present, ords', ids', ?_⟩
      have parts : ({ deindexed { s with data := d, ordinalById := a, idByOrdinal := b, nextOrdinal := next }
          (map header.id) ord with data := d' } : Store) = { deindexed s (map header.id) ord with
          data := d', ordinalById := a, idByOrdinal := b, nextOrdinal := next } := by
        cases map header.id <;> rfl
      rw [parts]
      exact
        { small := fits.trans c.blockSize_le
          parts := ⟨d', a, b, next, rfl⟩
          fresh := placed.fresh
          held := held
          few := by
            change d'.extents.length ≤ 4114
            rw [extents]
            exact placed.few
          file := sameFile.trans placed.file
          contents := placed.contents.payload (fun q mem => placed.held.laid.live q (.inr mem)) same
          holds := ⟨c, holds⟩
          numbered := numbered
          ordinalById := indexed
          idByOrdinal := indexed'
          count := by
            change Counted s body d'.extents.length
            rw [extents]
            exact grows count }
  · have stuck : Spec (Store.onData
        (ExtentManager.allocate os ((Store.placed header body).encode ++ body).length)) s
        (fun _ _ => False) (ClearHalt os s slots ords ids map (depth + 1) header body) := by
      rw [length_blob]
      refine spec_focus (spec_weaken (allocate_error os s.data none) (fun _ _ no => no.elim) ?_)
      rintro f d ⟨rfl, rfl⟩
      exact .inl ⟨large, ⟨error, rfl⟩, rfl⟩
    exact specAt_bind (stuck limit) fun _ _ no => no.elim

theorem syncOld_spec (freed : Bool) (s : Store) :
    Spec (Store.syncOld freed) s (fun _ s' => s' = s) (fun f _ => f = .refused ∧ freed = true) := by
  cases freed with
  | true =>
    have flushed : Spec (ExtentManager.onFile ExtentFile.syncRange) s.data (fun _ d => d = s.data)
        (fun f _ => f = .refused) := sync_spec rfl rfl
    change Spec (Store.onData (ExtentManager.onFile ExtentFile.syncRange)) s _ _
    refine spec_focus (spec_weaken flushed ?_ fun _ _ refused => ⟨refused, rfl⟩)
    rintro - _ rfl
    rfl
  | false => exact spec_pure rfl

theorem repoint_parts {freed : Bool} (sound : Sound os s slots ords ids map depth) (enough : depth ≤ fuel) {t : Store}
    (present : freed = true → slots header.id ≠ none)
    (cleared : Freed os s slots ords ids map (depth + 1) header body p ord t ords' ids') :
    Spec (Store.repoint os fuel header body (p, ord, freed)) t
      (fun base t1 => Spec (Store.onPrimary (BTree.afterRoot os base)) t1
        (fun _ s' => Inserted os s slots ords ids map (depth + 1) header body s' p ord ords' ids')
        (NewLeft os s slots ords ids map (depth + 1) header body))
      (RepointHalt os s slots ords ids map (depth + 1) header body) := by
  obtain ⟨d, a, b, next, rfl⟩ := cleared.parts
  obtain ⟨c, holds⟩ := cleared.holds
  have numbered := cleared.numbered
  have numbering := Numbering.whole numbered
  have indexed : Indexed a ords' (depth + 1) := cleared.ordinalById
  have indexed' : Indexed b ids' (depth + 1) := cleared.idByOrdinal
  have held : Held os d (insert p (slotSet slots) \ {q | slots header.id = some q}) := cleared.held
  have few : d.extents.length ≤ 4114 := cleared.few
  have zero : d.fileId = 0 := cleared.file
  have count : Counted s body d.extents.length := cleared.count
  have known (id : Tuid) (here : slots id ≠ none) : ords' id ≠ none := numbering.mono (sound.known id here)
  have small := numbering.small sound.small
  have contents : Contents d.file.bytes slots map := cleared.contents
  have contents' := contents.update holds stored_id cleared.fresh
  have marked : slotSet (Function.update slots header.id (some p)) ⊆
      insert p (slotSet slots) \ {q | slots header.id = some q} := by
    intro q mem
    rcases slotSet_update sound.data.contents.apart mem with rfl | ⟨old, other⟩
    · exact ⟨.inl rfl, fun here => cleared.fresh ⟨header.id, here⟩⟩
    · exact ⟨.inr old, other⟩
  have known' (id : Tuid) (here : Function.update slots header.id (some p) id ≠ none) : ords' id ≠ none := by
    by_cases owner : id = header.id
    · rw [owner, numbered.here]
      simp
    · rw [Function.update_of_ne owner] at here
      exact known id here
  have whole : Slotted os d (Function.update slots header.id (some p))
      (Function.update map header.id (some (stored header body))) := ⟨held.subset marked, few, contents'⟩
  refine spec_bind (spec_weaken (syncOld_spec freed _) (fun _ _ here => here) ?_) ?_
  · rintro f _ ⟨rfl, here⟩
    exact .inr (.inr ⟨present here, .inr rfl⟩)
  rintro - _ rfl
  refine spec_update_bind ?_
  have reindexing : ({ deindexed s (map header.id) ord with
      data := d, ordinalById := a, idByOrdinal := b, nextOrdinal := next } : Store).indexHeader
        (Store.placed header body) ord = { reindexed s (map header.id) header body ord with
          data := d, ordinalById := a, idByOrdinal := b, nextOrdinal := next } := by
    cases map header.id <;> rfl
  obtain ⟨k, r, m, files⟩ := reindexed_files s (map header.id) header body ord
  have same (t : BTree) : SameIndexes { s with
      byKind := k, bySchemaRef := r, entityTypeByName := m, primary := t, data := d, ordinalById := a,
      idByOrdinal := b, nextOrdinal := next } (reindexed s (map header.id) header body ord) := by
    rw [files]
    exact ⟨rfl, rfl, rfl⟩
  dsimp only
  rw [reindexing, files]
  refine spec_focus (spec_weaken (sound.primary.insert_halves enough os header.id p) ?_ ?_)
  · intro base t rest
    refine spec_focus (spec_weaken rest ?_ ?_)
    · intro _ t pointed
      exact
        { small := cleared.small
          sound := ⟨pointed, indexed, indexed', whole, zero, known', small⟩
          numbered := numbered
          indexes := same t
          count := count }
    · intro f t after
      refine ⟨d.extents.length, p, ord, ords', ids', cleared.small, count, numbered, ?_⟩
      exact ⟨after, indexed.left after.outside, indexed'.left after.outside, whole.left zero after.outside, known',
        small, fun _ => same t⟩
  · rintro f t (before | ⟨panic, full⟩)
    · have outside := before.outside
      cases found : slots header.id with
      | some old => exact .inr (.inr ⟨by simp [found], outside⟩)
      | none =>
        have all : slotSet slots ⊆ insert p (slotSet slots) \ {q | slots header.id = some q} :=
          fun q mem => ⟨.inr mem, by simp [found]⟩
        have slotted : Slotted os d slots map := ⟨held.subset all, few, contents⟩
        refine .inr (.inl ⟨reindexed s (map header.id) header body ord, found,
          d.extents.length, ords', ids', count, numbering, ?_⟩)
        exact ⟨before, indexed.left outside, indexed'.left outside, slotted.left zero outside, known, small,
          fun _ => same t⟩
    · exact .inl ⟨panic, .inl full⟩

/-- The old version counts until the primary index leads to the new one, but its slot is free before. -/
theorem insert_parts {limit : Limit} (sound : Sound os s slots ords ids map depth) (enough : depth ≤ fuel)
    (level : Grows s.data (encodedLen + body.length) → Level s.data)
    (listed : Grows s.data (encodedLen + body.length) → limit ≠ .refuse 1) :
    SpecAt limit (Store.untilPublished os fuel header body) s
      (fun base t1 => Spec (Store.onPrimary (BTree.afterRoot os base)) t1
        (fun _ s' => ∃ p ord ords' ids',
          Inserted os s slots ords ids map (depth + 1) header body s' p ord ords' ids')
        (NewLeft os s slots ords ids map (depth + 1) header body))
      (fun f s' => ClearHalt os s slots ords ids map (depth + 1) header body f s' ∨
        RepointHalt os s slots ords ids map (depth + 1) header body f s') := by
  refine specAt_bind (specAt_weaken (untilCleared_spec sound enough level listed) (fun _ _ here => here)
    fun _ _ _ halt => .inl halt) ?_
  rintro ⟨p, ord, freed⟩ t ⟨present, ords', ids', cleared⟩
  refine spec_weaken (repoint_parts sound enough present cleared) (fun base t1 rest => ?_) fun _ _ halt => .inr halt
  exact spec_weaken rest (fun _ _ inserted => ⟨p, ord, ords', ids', inserted⟩) fun _ _ halt => halt

theorem insert_spec {limit : Limit} (sound : Sound os s slots ords ids map depth) (enough : depth ≤ fuel)
    (level : Grows s.data (encodedLen + body.length) → Level s.data)
    (listed : Grows s.data (encodedLen + body.length) → limit ≠ .refuse 1) :
    SpecAt limit (Store.insert os fuel header body) s
      (fun _ s' => ∃ p ord ords' ids',
        Inserted os s slots ords ids map (depth + 1) header body s' p ord ords' ids')
      (InsertHalt os s slots ords ids map (depth + 1) header body) := by
  rw [insert_eq]
  refine specAt_parts (insert_parts sound enough level listed) ?_ ?_
  · exact fun f s' halt => halt.imp_right .inl
  · exact fun f s' new => .inr (.inr new)

end Insert

end Gems.Engine

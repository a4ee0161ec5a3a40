import Gems.Engine.Reopen
import Gems.Storage.Disjoint

set_option autoImplicit false

namespace Gems.Engine

open Lib Prog Catalog Index Storage

inductive Call where
  | insert (header : EntityHeader) (body : List UInt8)
  | delete (id : Tuid)
  | reopen

inductive Reply where
  | inserted
  | refused
  | deleted (existed : Bool)
  | reopened
  deriving DecidableEq

section Reference

-- A header and a body in one slot of the largest class.
def Fits (body : List UInt8) : Prop := encodedLen + body.length ≤ maxBlockSize

instance (body : List UInt8) : Decidable (Fits body) := inferInstanceAs (Decidable (_ ≤ _))

-- The keyed map: for each id what was last inserted.
def Call.onMap : Call → Entities → Entities
  | .insert header body, map =>
    if Fits body then Function.update map header.id (some (header, body)) else map
  | .delete id, map => Function.update map id none
  | .reopen, map => map

def Call.reply : Call → Entities → Reply
  | .insert _ body, _ => if Fits body then .inserted else .refused
  | .delete id, map => .deleted (map id).isSome
  | .reopen, _ => .reopened

def contents (calls : List Call) (map : Entities) : Entities :=
  calls.foldl (fun map call => call.onMap map) map

def replies : List Call → Entities → List Reply
  | [], _ => []
  | call :: rest, map => call.reply map :: replies rest (call.onMap map)

/-- The text cut at a character boundary to at most `max` bytes; one that fits is whole. -/
structure CutTo (max : Nat) (s s' : String) : Prop where
  front : s'.toList <+: s.toList
  short : (utf8 s').length ≤ max
  whole : (utf8 s).length ≤ max → s' = s

/-- What get gives for what was inserted. -/
structure Given (header : EntityHeader) (body : List UInt8) (e : Entity) : Prop where
  content : e.2 = body
  kept : e.1 = { header with
    name := e.1.name, description := e.1.description
    bodyOffset := UInt32.ofNat encodedLen, bodyLen := UInt32.ofNat body.length }
  name : CutTo 63 header.name e.1.name
  description : CutTo 254 header.description e.1.description

theorem cutTo_cut (max : Nat) (s : String) : CutTo max s (cut max s) where
  front := by
    rw [cut, String.toList_ofList]
    exact cutChars_prefix max s.toList
  short := length_utf8_cut max s
  whole := cut_of_fits

theorem given_stored (header : EntityHeader) (body : List UInt8) : Given header body (stored header body) where
  content := rfl
  kept := rfl
  name := cutTo_cut _ _
  description := cutTo_cut _ _

-- The entities as the store gives them.
def shown (map : Entities) : Entities := fun id => (map id).map fun e => stored e.1 e.2

theorem shown_update (map : Entities) (id : Tuid) (e : Option Entity) :
    shown (Function.update map id e) = Function.update (shown map) id (e.map fun e => stored e.1 e.2) :=
  Function.comp_update (Option.map fun e : Entity => stored e.1 e.2) map id e

end Reference

section Runs

-- What the call gives, and the store it leaves.
def Call.exec (os : PageSize) (fuel : Nat) : Call → Store → Except Fault Reply × Store
  | .insert header body, s =>
    match (Store.insert os fuel header body).run s with
    | (.ok (), s') => (.ok .inserted, s')
    | (.error (.raised _), s') => (.ok .refused, s')
    | (.error e, s') => (.error e, s')
  | .delete id, s =>
    match (Store.delete os fuel id).run s with
    | (.ok existed, s') => (.ok (.deleted existed), s')
    | (.error e, s') => (.error e, s')
  | .reopen, s =>
    match Store.openDir os fuel s.onDisk with
    | .ok s' => (.ok .reopened, s')
    | .error e => (.error e, s)

def runCalls (os : PageSize) (fuel : Nat) : List Call → Store → Except Fault (List Reply) × Store
  | [], s => (.ok [], s)
  | call :: rest, s =>
    match call.exec os fuel s with
    | (.ok reply, s') =>
      match runCalls os fuel rest s' with
      | (.ok more, s'') => (.ok (reply :: more), s'')
      | (.error e, s'') => (.error e, s'')
    | (.error e, s') => (.error e, s')

/-- Unless the page ids, the commit numbers or the ordinals ran out. -/
def Ended (ran : Except Fault Unit × Store) (good : Store → Prop) : Prop :=
  match ran with
  | (.ok (), s) => good s
  | (.error e, s) => e = .panicked ∧ Exhausted s

def endsIn {A : Type} (page : PageSize) (run : Store → Except Fault A × Store) (test : Store → Bool) : Bool :=
  match Store.create page with
  | .error _ => false
  | .ok s =>
    match run s with
    | (.ok _, s') => test s'
    | (.error _, _) => false

theorem endsIn_spec {A : Type} {page : PageSize} {run : Store → Except Fault A × Store} {test : Store → Bool}
    {s : Store} (created : Store.create page = .ok s) (ends : endsIn page run test = true) :
    ∃ a s', run s = (.ok a, s') ∧ test s' = true := by
  rw [endsIn, created] at ends
  cases ran : run s with
  | mk result s' =>
    simp only [ran] at ends
    cases result with
    | ok a => exact ⟨a, s', rfl, ends⟩
    | error e => cases ends

theorem Ended.imp {ran : Except Fault Unit × Store} {good good' : Store → Prop} (ended : Ended ran good)
    (imp : ∀ s, good s → good' s) : Ended ran good' := by
  obtain ⟨result, s⟩ := ran
  cases result with
  | ok done => exact imp s ended
  | error e => exact ended

-- Every state of the run has at most `most` extents.
def Within (os : PageSize) (fuel most : Nat) : List Call → Store → Prop
  | [], s => s.data.extents.length ≤ most
  | call :: rest, s => s.data.extents.length ≤ most ∧
    match call.exec os fuel s with
    | (.ok _, s') => Within os fuel most rest s'
    | (.error _, _) => True

variable {os : PageSize} {s s' : Store} {slots : Slots} {ords : Ordinals} {ids : Reverse} {map : Entities}
  {depth fuel n : Nat}

theorem level_of_small (small : os.size ≤ 16384) (few : n ≤ 1000) : n * stride os / extentSize = n := by
  have least := extentSize_le_stride os
  have most : stride os ≤ extentSize + (os.size - 1) := by
    rw [stride, roundUpToOsPage_eq]
    have := Nat.div_mul_le_self (extentSize + os.size - 1) os.size
    have := os.positive
    omega
  have drift : n * stride os ≤ n * extentSize + 1000 * 16383 := by
    calc n * stride os ≤ n * (extentSize + (os.size - 1)) := Nat.mul_le_mul_left n most
      _ = n * extentSize + n * (os.size - 1) := Nat.mul_add _ _ _
      _ ≤ n * extentSize + 1000 * 16383 := Nat.add_le_add_left (Nat.mul_le_mul few (by omega)) _
  have low : n * extentSize ≤ n * stride os := Nat.mul_le_mul_left n least
  rw [extentSize_eq] at drift low ⊢
  omega

theorem Sound.level (sound : Sound os s slots ords ids map depth) (small : os.size ≤ 16384)
    (few : s.data.extents.length ≤ 1000) : Level s.data := by
  rw [Level, sound.data.held.mapped]
  exact level_of_small small few

/-- What a call that returned has done. -/
inductive Moved (os : PageSize) (s : Store) (slots : Slots) (ords : Ordinals) (ids : Reverse) (map : Entities)
    (depth : Nat) : Call → Reply → Store → Slots → Ordinals → Reverse → Entities → Prop where
  | inserted {header : EntityHeader} {body : List UInt8} {s' : Store} {p : SlotPointer} {ord : Ordinal}
    {ords' : Ordinals} {ids' : Reverse}
    (inserted : Inserted os s slots ords ids map (depth + 1) header body s' p ord ords' ids') :
    Moved os s slots ords ids map depth (.insert header body) .inserted s'
      (Function.update slots header.id (some p)) ords' ids'
      (Function.update map header.id (some (stored header body)))
  | refused {header : EntityHeader} {body : List UInt8} (large : ¬ Fits body) :
    Moved os s slots ords ids map depth (.insert header body) .refused s slots ords ids map
  | missing {id : Tuid} {s' : Store} (missing : Missing os s slots ords ids map depth id s') :
    Moved os s slots ords ids map depth (.delete id) (.deleted false) s' slots ords ids map
  | deleted {id : Tuid} {ord : Ordinal} {s' : Store}
    (deleted : Deleted os s slots ords ids map depth id ord s') :
    Moved os s slots ords ids map depth (.delete id) (.deleted true) s' (Function.update slots id none)
      (Function.update ords id none) (Function.update ids ord none) (Function.update map id none)
  | reopened {s' : Store}
    (reopened : Reopened os slots ords ids map depth s.data.extents.length s') :
    Moved os s slots ords ids map depth .reopen .reopened s' slots ords ids map

-- The length of the data file tells its extents whenever the call counts them.
def Call.Leveled (s : Store) : Call → Prop
  | .insert _ body => Grows s.data (encodedLen + body.length) → Level s.data
  | .delete _ => True
  | .reopen => Level s.data

theorem Call.leveled (level : Level s.data) (call : Call) : call.Leveled s := by
  cases call with
  | insert header body => exact fun _ => level
  | delete id => trivial
  | reopen => exact level

section Moves

variable {call : Call} {reply : Reply} {slots' : Slots} {ords' : Ordinals} {ids' : Reverse} {map' raw : Entities}

theorem Moved.sound (moved : Moved os s slots ords ids map depth call reply s' slots' ords' ids' map')
    (sound : Sound os s slots ords ids map depth) : Sound os s' slots' ords' ids' map' (depth + 1) := by
  cases moved with
  | inserted inserted => exact inserted.sound
  | refused large => exact sound.deeper (Nat.le_succ depth)
  | missing missing => exact missing.sound.deeper (Nat.le_succ depth)
  | deleted deleted => exact deleted.sound.deeper (Nat.le_succ depth)
  | reopened reopened => exact reopened.sound.deeper (Nat.le_succ depth)

theorem Moved.count (moved : Moved os s slots ords ids map depth call reply s' slots' ords' ids' map') :
    s'.data.extents.length ≤ s.data.extents.length + 1 := by
  cases moved with
  | inserted inserted =>
    rcases inserted.count with same | ⟨-, more⟩
    · exact same.le.trans (Nat.le_succ _)
    · exact more.le
  | refused large => exact Nat.le_succ _
  | missing missing =>
    obtain ⟨t, rfl⟩ := missing.same
    exact Nat.le_succ _
  | deleted deleted => exact (congrArg List.length deleted.extents).le.trans (Nat.le_succ _)
  | reopened reopened => exact reopened.count.le.trans (Nat.le_succ _)

theorem Moved.onMap (moved : Moved os s slots ords ids map depth call reply s' slots' ords' ids' map')
    (here : map = shown raw) (sound : Sound os s slots ords ids map depth) :
    reply = call.reply raw ∧ map' = shown (call.onMap raw) := by
  subst here
  have present (id : Tuid) : slots id ≠ none ↔ raw id ≠ none := by
    rw [ne_eq, ne_eq, sound.data.contents.absent_iff, shown, Option.map_eq_none_iff]
  cases moved with
  | @inserted header body _ _ _ _ _ inserted =>
    have fits : Fits body := inserted.small
    refine ⟨(if_pos fits).symm, ?_⟩
    rw [Call.onMap, if_pos fits, shown_update]
    rfl
  | refused large => exact ⟨(if_neg large).symm, by rw [Call.onMap, if_neg large]⟩
  | @missing id _ missing =>
    have absent : raw id = none := by
      by_contra here
      exact (present id).mpr here missing.absent
    have same : Function.update raw id none = raw := Function.update_eq_self_iff.mpr absent.symm
    exact ⟨by rw [Call.reply, absent]; rfl, by rw [Call.onMap, same]⟩
  | @deleted id _ _ deleted =>
    have here : (raw id).isSome := Option.isSome_iff_ne_none.mpr ((present id).mp deleted.present)
    exact ⟨by rw [Call.reply, here], (shown_update raw id none).symm⟩
  | reopened reopened => exact ⟨rfl, rfl⟩

theorem exec_moved (sound : Sound os s slots ords ids map depth) (enough : depth ≤ fuel) (call : Call)
    (level : call.Leveled s) :
    match call.exec os fuel s with
    | (.ok reply, s') => ∃ slots' ords' ids' map',
      Moved os s slots ords ids map depth call reply s' slots' ords' ids' map'
    | (.error e, s') => e = .panicked ∧ Exhausted s' := by
  cases call with
  | insert header body =>
    have inserts : SpecAt .none (Store.insert os fuel header body) s _ _ :=
      insert_spec sound enough level fun _ => by simp
    have ran := inserts.run
    rw [Call.exec]
    cases made : (Store.insert os fuel header body).run s with
    | mk result s' =>
      rw [made] at ran
      cases result with
      | ok done =>
        obtain ⟨p, ord, ords', ids', inserted⟩ := ran
        exact ⟨_, _, _, _, .inserted inserted⟩
      | error e =>
        rcases ran.1.own (not_or.mpr ran.2) with
          ⟨large, ⟨error, rfl⟩, rfl⟩ | ⟨rfl, exhausted⟩
        · exact ⟨_, _, _, _, .refused (Nat.not_le.mpr large)⟩
        · exact ⟨rfl, exhausted⟩
  | delete id =>
    have ran := (delete_spec sound enough id).run
    rw [Call.exec]
    cases made : (Store.delete os fuel id).run s with
    | mk result s' =>
      rw [made] at ran
      cases result with
      | ok existed =>
        rcases ran with ⟨rfl, missing⟩ | ⟨rfl, ord, deleted⟩
        · exact ⟨_, _, _, _, .missing missing⟩
        · exact ⟨_, _, _, _, .deleted deleted⟩
      | error e => exact ran.1.own (not_or.mpr ran.2)
  | reopen =>
    have flat : s.data.extents.length * stride os / extentSize = s.data.extents.length := by
      rw [← sound.data.held.mapped]
      exact level
    obtain ⟨s', opened, reopened⟩ := sound.onDisk.openDir (Set.Subset.refl _) flat enough
    rw [Call.exec, opened]
    exact ⟨_, _, _, _, .reopened reopened⟩

end Moves

theorem exec_spec (sound : Sound os s slots ords ids (shown map) depth) (enough : depth ≤ fuel)
    (level : Level s.data) (call : Call) :
    match call.exec os fuel s with
    | (.ok reply, s') => reply = call.reply map ∧ s'.data.extents.length ≤ s.data.extents.length + 1 ∧
      ∃ slots' ords' ids', Sound os s' slots' ords' ids' (shown (call.onMap map)) (depth + 1)
    | (.error e, s') => e = .panicked ∧ Exhausted s' := by
  have ran := exec_moved sound enough call (call.leveled level)
  cases made : call.exec os fuel s with
  | mk result s' =>
    rw [made] at ran
    cases result with
    | error e => exact ran
    | ok reply =>
      obtain ⟨slots', ords', ids', map', moved⟩ := ran
      obtain ⟨same, rfl⟩ := moved.onMap rfl sound
      exact ⟨same, moved.count, slots', ords', ids', moved.sound sound⟩

theorem runCalls_spec (small : os.size ≤ 16384) (sound : Sound os s slots ords ids (shown map) depth)
    {calls : List Call} (enough : depth + calls.length ≤ fuel) (few : Within os fuel 1000 calls s) :
    match runCalls os fuel calls s with
    | (.ok given, s') => given = replies calls map ∧ ∃ slots' ords' ids' depth', depth' ≤ fuel ∧
      Sound os s' slots' ords' ids' (shown (contents calls map)) depth'
    | (.error e, s') => e = .panicked ∧ Exhausted s' := by
  induction calls generalizing s slots ords ids map depth with
  | nil => exact ⟨rfl, slots, ords, ids, depth, enough, sound⟩
  | cons call rest ih =>
    rw [List.length_cons] at enough
    obtain ⟨now, later⟩ := few
    have step := exec_spec sound (by omega : depth ≤ fuel) (sound.level small now) call
    rw [runCalls]
    cases made : call.exec os fuel s with
    | mk result s' =>
      rw [made] at step later
      cases result with
      | error e => exact step
      | ok reply =>
        obtain ⟨rfl, -, slots', ords', ids', sound'⟩ := step
        have ran := ih sound' (by omega) later
        dsimp only
        cases made' : runCalls os fuel rest s' with
        | mk result' s'' =>
          rw [made'] at ran
          cases result' with
          | error e => exact ran
          | ok more =>
            obtain ⟨rfl, whole⟩ := ran
            exact ⟨rfl, whole⟩

theorem Within.last {most : Nat} {calls : List Call} {given : List Reply} (few : Within os fuel most calls s)
    (made : runCalls os fuel calls s = (.ok given, s')) : s'.data.extents.length ≤ most := by
  induction calls generalizing s given with
  | nil =>
    obtain rfl := (Prod.mk.inj made).2
    exact few
  | cons call rest ih =>
    obtain ⟨-, later⟩ := few
    rw [runCalls] at made
    cases first : call.exec os fuel s with
    | mk result s'' =>
      rw [first] at made later
      cases result with
      | error e => cases made
      | ok reply =>
        dsimp only at made later
        cases made' : runCalls os fuel rest s'' with
        | mk result' t =>
          rw [made'] at made
          cases result' with
          | error e => cases made
          | ok more =>
            obtain rfl := (Prod.mk.inj made).2
            exact ih later made'

-- A call adds one extent at most.
theorem within_of_short (small : os.size ≤ 16384) (sound : Sound os s slots ords ids (shown map) depth)
    {calls : List Call} (enough : depth + calls.length ≤ fuel)
    (short : s.data.extents.length + calls.length ≤ 1000) : Within os fuel 1000 calls s := by
  induction calls generalizing s slots ords ids map depth with
  | nil => exact short
  | cons call rest ih =>
    rw [List.length_cons] at enough short
    have now : s.data.extents.length ≤ 1000 := by omega
    have step := exec_spec sound (by omega : depth ≤ fuel) (sound.level small now) call
    rw [Within]
    refine ⟨now, ?_⟩
    cases made : call.exec os fuel s with
    | mk result s' =>
      rw [made] at step
      cases result with
      | error e => trivial
      | ok reply =>
        obtain ⟨-, count, slots', ords', ids', sound'⟩ := step
        exact ih sound' (by omega) (by omega)

theorem created_slotted (os : PageSize) :
    Slotted os (ExtentManager.create 0) (fun _ => none) fun _ => none where
  held :=
    { laid :=
        { len := rfl
          blank := fun _ _ => rfl
          classes := fun _ below => absurd below (Nat.not_lt_zero _)
          live := by rintro p ⟨id, found⟩; cases found }
      extents := fun _ _ known => absurd known (by simp [ExtentManager.create])
      mapped := (Nat.zero_mul _).symm
      writable := rfl }
  few := by simp [ExtentManager.create]
  contents :=
    { apart := fun _ _ _ found => by cases found
      find := fun _ _ found => by cases found
      absent := fun _ _ => rfl }

theorem create_sound (os : PageSize) :
    ∃ s, Store.create os = .ok s ∧
      Sound os s (fun _ => none) (fun _ => none) (fun _ => none) (fun _ => none) 0 ∧
      s.data.extents.length = 0 ∧ s.nextOrdinal = 0 ∧ Coherent s (fun _ => none) fun _ => none := by
  obtain ⟨primary, madeP, indexedP⟩ := Indexed.create os primary_caps
  obtain ⟨ordinalById, madeA, indexedA⟩ := Indexed.create os ordinal_caps
  obtain ⟨idByOrdinal, madeB, indexedB⟩ := Indexed.create os reverse_caps
  refine ⟨_, by simp only [Store.create, madeP, madeA, madeB]; rfl, ?_, rfl, rfl, .new _ _, .new _ _, .new _ _⟩
  exact
    { primary := indexedP
      ordinalById := indexedA
      idByOrdinal := indexedB
      data := created_slotted os
      file := rfl
      known := fun _ here => absurd rfl here
      small := fun _ _ known => by cases known }

/-- Every answer of the run, and every read after it, is the keyed map's, unless the page ids, the
commit numbers or the ordinals ran out. -/
def AnswersAsMap (os : PageSize) (fuel : Nat) (calls : List Call) (s : Store) : Prop :=
  match runCalls os fuel calls s with
  | (.ok given, s') => given = replies calls (fun _ => none) ∧
    (∀ id, match contents calls (fun _ => none) id with
      | none => s'.get fuel id = .ok none
      | some (header, body) => ∃ e, s'.get fuel id = .ok (some e) ∧ Given header body e) ∧
    ∃ entities, s'.scanAll fuel = .ok entities ∧ (entities.Pairwise fun a b => a.1.id < b.1.id) ∧
      ∀ e, e ∈ entities ↔ s'.get fuel e.1.id = .ok (some e)
  | (.error e, s') => e = .panicked ∧ Exhausted s'

theorem store_refines_map (small : os.size ≤ 16384) (created : Store.create os = .ok s) {calls : List Call}
    (enough : calls.length ≤ fuel) (few : Within os fuel 1000 calls s) : AnswersAsMap os fuel calls s := by
  obtain ⟨s', made, start, -⟩ := create_sound os
  obtain rfl : s' = s := Except.ok.inj (made.symm.trans created)
  have start : Sound os s' (fun _ => none) (fun _ => none) (fun _ => none) (shown fun _ => none) 0 := start
  have ran := runCalls_spec small start ((Nat.zero_add _).trans_le enough) few
  unfold AnswersAsMap
  cases made' : runCalls os fuel calls s' with
  | mk result s'' =>
    rw [made'] at ran
    cases result with
    | error e => exact ran
    | ok given =>
      obtain ⟨rfl, slots, ords, ids, depth, shallow, sound⟩ := ran
      obtain ⟨entities, scanned, sorted, all⟩ := sound.scan shallow
      refine ⟨rfl, fun id => ?_, entities, scanned, sorted, fun e => ?_⟩
      · have got := sound.get shallow id
        cases found : contents calls (fun _ => none) id with
        | none => rw [got, shown, found]; rfl
        | some e =>
          refine ⟨stored e.1 e.2, ?_, given_stored e.1 e.2⟩
          rw [got, shown, found]
          rfl
      · rw [all, sound.get shallow, Except.ok.injEq]

set_option maxRecDepth 4000 in
theorem store_refines_map_small :
    ∃ s, Store.create fourKiB = .ok s ∧ AnswersAsMap fourKiB 3
      [.insert (.new (.fromBytes []) .nil "a" .data .nil) [1, 2, 3], .delete .nil, .reopen] s := by
  have small : fourKiB.size ≤ 16384 := show 4096 ≤ 16384 by omega
  obtain ⟨s, created, start, none, -⟩ := create_sound fourKiB
  have start : Sound fourKiB s (fun _ => Option.none) (fun _ => Option.none) (fun _ => Option.none)
      (shown fun _ => Option.none) 0 := start
  have few : Within fourKiB 3 1000
      [.insert (.new (.fromBytes []) .nil "a" .data .nil) [1, 2, 3], .delete .nil, .reopen] s := by
    refine within_of_short small start ?_ ?_
    · simp
    · simp [none]
  exact ⟨s, created, @store_refines_map fourKiB s 3 small created _ (by simp) few⟩

end Runs

end Gems.Engine
